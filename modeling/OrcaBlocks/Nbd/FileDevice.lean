/-
# OrcaBlocks.Nbd.FileDevice — the device of `cmd/local-nbd-file-server`, in range and in chunk mode.

A file is exposed as a block device of the size it had when it was opened. Range mode reads the file where
the request asks for it; chunk mode reads the whole chunks around it and copies parts of them, as the
storage engine would. Both fill what the file is short of with zeroes, the one once and the other chunk by
chunk.

The loop of chunk mode is a turn (`chunkTurn`) repeated until everything is copied, with a slice out of range
or a `make` of a negative length as a panic. One turn copies at least one byte of the file as it is seen with zeroes
behind its end (`chunkTurn_spec`); so the loop ends, and the buffer holds the same window of the file as in
range mode. The counters of `fileDeviceStats` are left out.

⚠ BOUNDARY: `make` also panics on a length the implementation cannot allocate. That limit is not modelled; every
length here is allocated.
-/
import OrcaBlocks.Nbd.Server

namespace OrcaBlocks.Nbd

open OrcaBlocks.Lib
open OrcaBlocks.Storage (Bytes)

/-- The values of `-mode`. -/
inductive ReadMode where
  | range
  | chunk
  deriving DecidableEq, Repr

structure FileDevice where
  size : Int64
  mode : ReadMode
  chunkSize : Int64
  deriving DecidableEq, Repr

/-- `file.ReadAt(buf, offset)` into a buffer of `n` bytes: what it read. The end of the file is no error
here, as every caller treats it. -/
def fileReadAt (file : Bytes) (offset : Int64) (n : Nat) : Except Err Bytes :=
  if offset < 0 then .error (.outside "negative offset") else .ok (slice file (natOf offset) n)

namespace FileDevice

/-! ## Range mode -/

/-- The range mode of `ReadAtInto`: the answer and the buffer. -/
def readRangeInto (file : Bytes) (offset : Int64) (dst : Bytes) : Except Err Int64 × Bytes :=
  match fileReadAt file offset dst.length with
  | .error e => (.error e, dst)
  | .ok part => (.ok (Int64.ofNat dst.length), padTo 0 part dst.length)

/-! ## Chunk mode -/

variable (d : FileDevice) (file : Bytes)

/-- One turn of the loop of `readAtViaChunkInto`: how much is copied then, and the buffer. -/
def chunkTurn (offset copied : Int64) (dst : Bytes) : Outcome Err (Int64 × Bytes) :=
  if d.chunkSize = 0 then .panic
  else
    let length := Int64.ofNat dst.length
    let readOffset := offset + copied
    let chunkStart := readOffset / d.chunkSize * d.chunkSize
    let chunkEnd := chunkStart + d.chunkSize
    let chunkEnd := if chunkEnd > d.size then d.size else chunkEnd
    if chunkEnd - chunkStart < 0 then .panic
    else
      match fileReadAt file chunkStart (natOf (chunkEnd - chunkStart)) with
      | .error e => .error e
      | .ok read =>
        let chunk := padTo 0 read (natOf (chunkEnd - chunkStart))
        let start := readOffset - chunkStart
        let part := Int64.ofNat chunk.length - start
        let part := if part > length - copied then length - copied else part
        -- the bounds of dst[copied:copied+part] and of chunk[start:start+part]
        if 0 ≤ copied ∧ copied ≤ copied + part ∧ copied + part ≤ length ∧
            0 ≤ start ∧ start ≤ start + part ∧ start + part ≤ Int64.ofNat chunk.length then
          .ok (copied + part, overwrite dst (natOf copied) (slice chunk (natOf start) (natOf part)))
        else .panic

/-- The loop of `readAtViaChunkInto`, with as many turns as `fuel`: the answer and the buffer, or nothing
if it has not ended by then. -/
def chunkLoop (offset : Int64) : Nat → Int64 → Bytes → Option (Outcome Err Int64 × Bytes)
  | 0, _, _ => none
  | fuel + 1, copied, dst =>
    if copied < Int64.ofNat dst.length then
      match d.chunkTurn file offset copied dst with
      | .ok (copied, dst) => chunkLoop offset fuel copied dst
      | .error e => some (.error e, dst)
      | .panic => some (.panic, dst)
    else some (.ok (Int64.ofNat dst.length), dst)

/-- `readAtViaChunkInto`, with as many turns as `fuel`. -/
def readAtViaChunkInto (fuel : Nat) (offset : Int64) (dst : Bytes) : Option (Outcome Err Int64 × Bytes) :=
  d.chunkLoop file offset fuel 0 dst

/-! ## The device -/

/-- `ReadAtInto`. In chunk mode the loop is given more turns than there are bytes to copy; where that is not
enough, there is no answer. -/
def readInto (offset : Int64) (dst : Bytes) : Outcome Err Int64 × Bytes :=
  match d.mode with
  | .range =>
    match readRangeInto file offset dst with
    | (.ok n, dst) => (.ok n, dst)
    | (.error e, dst) => (.error e, dst)
  | .chunk => (d.readAtViaChunkInto file (dst.length + 1) offset dst).getD (.panic, dst)

/-- `ReadAt`: the same into a new buffer. -/
def readNew (offset length : Int64) : Outcome Err Bytes :=
  if length < 0 then .panic
  else
    match d.readInto file offset (List.replicate (natOf length) 0) with
    | (.ok _, data) => .ok data
    | (.error e, _) => .error e
    | (.panic, _) => .panic

/-- `file.WriteAt(data, offset)`: a gap behind the old end is zeroes. -/
def fileWriteAt (offset : Int64) (data : Bytes) : Outcome Err Unit × Bytes :=
  if offset < 0 then (.error (.outside "negative offset"), file)
  else (.ok (), overwrite (padTo 0 file (natOf offset + data.length)) (natOf offset) data)

/-- The device of the server; its state is the file. -/
def device : Device Bytes where
  size := fun _ => d.size
  readAt := fun offset length file => (d.readNew file offset length, file)
  readAtInto := some fun offset dst file =>
    let (result, dst) := d.readInto file offset dst
    (result, dst, file)
  writeAt := fun offset data file => fileWriteAt file offset data
  flush := pure ()
  disconnect := pure ()

end FileDevice

/-! ## The file with zeroes behind its end -/

/-- The byte of the file at a position. -/
def fileByte (file : Bytes) (p : Nat) : UInt8 := file.getD p 0

/-- The request is inside a device whose chunks the arithmetic can represent. -/
structure FileDevice.InRange (d : FileDevice) (offset : Int64) (length : Nat) : Prop where
  chunkSize : 0 < d.chunkSize.toInt
  fits : d.size.toInt + d.chunkSize.toInt ≤ 2 ^ 63 - 1
  nonneg : 0 ≤ offset.toInt
  inside : offset.toInt + length ≤ d.size.toInt

theorem fileReadAt_padTo (file : Bytes) {offset : Int64} (h : 0 ≤ offset.toInt) (n : Nat) :
    ∃ part, fileReadAt file offset n = .ok part ∧ padTo 0 part n = window (fileByte file) (natOf offset) n := by
  have hpos : ¬ offset < 0 := by
    rw [Int64.lt_iff_toInt_lt]
    exact Int.not_lt.mpr h
  exact ⟨slice file (natOf offset) n, by rw [fileReadAt, if_neg hpos], padTo_slice_eq_window 0 file _ _⟩

theorem readRangeInto_eq (file : Bytes) {offset : Int64} (h : 0 ≤ offset.toInt) (dst : Bytes) :
    FileDevice.readRangeInto file offset dst =
      (.ok (Int64.ofNat dst.length), window (fileByte file) (natOf offset) dst.length) := by
  obtain ⟨part, hpart, hwindow⟩ := fileReadAt_padTo file h dst.length
  rw [FileDevice.readRangeInto, hpart]
  dsimp only
  rw [hwindow]

/-! ## One turn -/

/-- The chunk around a position: it begins at or before it and ends behind it, also where it is clipped. -/
theorem chunk_around {d : FileDevice} {pos : Int64} (hcs : 0 < d.chunkSize.toInt)
    (hfits : d.size.toInt + d.chunkSize.toInt ≤ 2 ^ 63 - 1) (hnonneg : 0 ≤ pos.toInt)
    (hlt : pos.toInt < d.size.toInt) {chunkStart chunkEnd : Int64}
    (hstart : chunkStart = pos / d.chunkSize * d.chunkSize)
    (hend : chunkEnd = if chunkStart + d.chunkSize > d.size then d.size else chunkStart + d.chunkSize) :
    0 ≤ chunkStart.toInt ∧ chunkStart.toInt ≤ pos.toInt ∧ pos.toInt < chunkEnd.toInt := by
  have hdiv : (pos / d.chunkSize).toInt = pos.toInt / d.chunkSize.toInt := toInt_div_of_nonneg hnonneg hcs
  have hsplit := Int.mul_ediv_add_emod pos.toInt d.chunkSize.toInt
  have hmodnn := Int.emod_nonneg pos.toInt (Int.ne_of_gt hcs)
  have hmodlt := Int.emod_lt_of_pos pos.toInt hcs
  have hquot : 0 ≤ pos.toInt / d.chunkSize.toInt * d.chunkSize.toInt :=
    Int.mul_nonneg (Int.ediv_nonneg hnonneg (Int.le_of_lt hcs)) (Int.le_of_lt hcs)
  rw [Int.mul_comm] at hsplit
  have hmul : chunkStart.toInt = pos.toInt / d.chunkSize.toInt * d.chunkSize.toInt := by
    rw [hstart, ← hdiv]
    exact toInt_mul_of_bounds (by rw [hdiv]; omega) (by rw [hdiv]; omega)
  have hadd : (chunkStart + d.chunkSize).toInt = chunkStart.toInt + d.chunkSize.toInt :=
    toInt_add_of_bounds (by omega)
  refine ⟨by omega, by omega, ?_⟩
  rw [hend]
  split
  · exact hlt
  · omega

/-- **One turn** copies the next `k > 0` bytes of the file, and every slice is in bounds. -/
theorem chunkTurn_spec {d : FileDevice} {offset copied : Int64} {dst : Bytes} (file : Bytes)
    (hin : d.InRange offset dst.length) (hcopied : 0 ≤ copied.toInt) (hlt : copied.toInt < dst.length) :
    ∃ k, 0 < k ∧ natOf copied + k ≤ dst.length ∧
      d.chunkTurn file offset copied dst = .ok (Int64.ofNat (natOf copied + k),
        overwrite dst (natOf copied) (window (fileByte file) (natOf offset + natOf copied) k)) := by
  obtain ⟨hcs, hfits, hoff, hinside⟩ := hin
  have hsize := d.size.toInt_lt
  have hlen : dst.length < 2 ^ 63 := by omega
  have hne : d.chunkSize ≠ 0 := by
    intro h
    rw [h] at hcs
    exact absurd hcs (by decide)
  have hread : (offset + copied).toInt = offset.toInt + copied.toInt := toInt_add_of_bounds (by omega)
  unfold FileDevice.chunkTurn
  rw [if_neg hne]
  dsimp only
  generalize hchunkStart : (offset + copied) / d.chunkSize * d.chunkSize = chunkStart
  generalize hchunkEnd :
    (if chunkStart + d.chunkSize > d.size then d.size else chunkStart + d.chunkSize) = chunkEnd
  obtain ⟨hstart, hbefore, hbehind⟩ := chunk_around hcs hfits (by omega) (by omega) hchunkStart.symm
    hchunkEnd.symm
  have hendlt := chunkEnd.toInt_lt
  have hwidth : (chunkEnd - chunkStart).toInt = chunkEnd.toInt - chunkStart.toInt := toInt_sub_of_bounds (by omega)
  have hwidthNat := natOf_cast (x := chunkEnd - chunkStart) (by omega)
  have hwidthNonneg : ¬ chunkEnd - chunkStart < 0 := by
    rw [Int64.lt_iff_toInt_lt, hwidth]
    exact Int.not_lt.mpr (by show (0 : Int) ≤ _; omega)
  obtain ⟨read, hreadAt, hchunk⟩ := fileReadAt_padTo file hstart (natOf (chunkEnd - chunkStart))
  rw [if_neg hwidthNonneg, hreadAt]
  dsimp only
  rw [hchunk, length_window, ofNat_natOf (by omega)]
  -- where in the chunk, and how much of it
  have hskip : (offset + copied - chunkStart).toInt = (offset + copied).toInt - chunkStart.toInt :=
    toInt_sub_of_bounds (by omega)
  have hrest : (chunkEnd - chunkStart - (offset + copied - chunkStart)).toInt =
      chunkEnd.toInt - (offset + copied).toInt := by
    rw [toInt_sub_of_bounds (by omega)]
    omega
  have hleft : (Int64.ofNat dst.length - copied).toInt = dst.length - copied.toInt := by
    rw [toInt_sub_of_bounds (by rw [toInt_ofNat hlen]; omega),
      toInt_ofNat hlen]
  generalize hpart : (if chunkEnd - chunkStart - (offset + copied - chunkStart) >
      Int64.ofNat dst.length - copied then Int64.ofNat dst.length - copied
    else chunkEnd - chunkStart - (offset + copied - chunkStart)) = part
  have hpartBounds : 0 < part.toInt ∧ part.toInt ≤ dst.length - copied.toInt ∧
      part.toInt ≤ chunkEnd.toInt - (offset + copied).toInt := by
    rw [← hpart]
    split
    · rename_i hgt
      rw [gt_iff_lt, Int64.lt_iff_toInt_lt, hleft, hrest] at hgt
      omega
    · rename_i hngt
      rw [gt_iff_lt, Int64.lt_iff_toInt_lt, hleft, hrest] at hngt
      omega
  obtain ⟨hpos, hroom, hinChunk⟩ := hpartBounds
  have hcopy : (copied + part).toInt = copied.toInt + part.toInt := toInt_add_of_bounds (by omega)
  have htake : (offset + copied - chunkStart + part).toInt =
      (offset + copied - chunkStart).toInt + part.toInt := toInt_add_of_bounds (by omega)
  have hcopiedNat := natOf_cast hcopied
  have hpartNat := natOf_cast (x := part) (by omega)
  have hskipNat := natOf_cast (x := offset + copied - chunkStart) (by omega)
  have hstartNat := natOf_cast hstart
  have hoffNat := natOf_cast hoff
  refine ⟨natOf part, by omega, by omega, ?_⟩
  rw [if_pos, slice_window _ (by omega)]
  · have hsum : natOf chunkStart + natOf (offset + copied - chunkStart) = natOf offset + natOf copied := by
      omega
    have hnext : copied + part = Int64.ofNat (natOf copied + natOf part) := by
      apply Int64.toInt_inj.mp
      rw [hcopy, toInt_ofNat (by omega)]
      omega
    rw [hsum, hnext]
  · simp only [Int64.le_iff_toInt_le, hcopy, htake, hwidth, hskip, toInt_ofNat hlen, Int64.toInt_zero]
    omega

/-! ## The whole loop -/

/-- Copying the next bytes behind those that are there. -/
theorem overwrite_filled {f : Nat → UInt8} {dst : Bytes} {lo c k : Nat} :
    overwrite (window f lo c ++ dst.drop c) c (window f (lo + c) k) =
      window f lo (c + k) ++ dst.drop (c + k) := by
  have hfront : (window f lo c ++ dst.drop c).take c = window f lo c := by
    rw [List.take_append_of_le_length (by simp), List.take_of_length_le (by simp)]
  have hback : (window f lo c ++ dst.drop c).drop (c + k) = dst.drop (c + k) := by
    rw [List.drop_append, List.drop_of_length_le (by simp), List.nil_append, List.drop_drop, length_window]
    congr 1
    omega
  rw [overwrite, hfront, length_window, hback, window_append]

/-- **The loop ends with the buffer filled**, from any number of bytes copied on. -/
theorem chunkLoop_spec {d : FileDevice} {offset : Int64} {dst : Bytes} (file : Bytes)
    (hin : d.InRange offset dst.length) {c fuel : Nat} (hc : c ≤ dst.length) (hfuel : dst.length - c < fuel) :
    d.chunkLoop file offset fuel (Int64.ofNat c) (window (fileByte file) (natOf offset) c ++ dst.drop c) =
      some (.ok (Int64.ofNat dst.length), window (fileByte file) (natOf offset) dst.length) := by
  have hsize := d.size.toInt_lt
  have hlen : dst.length < 2 ^ 63 := by
    have hnonneg := hin.nonneg
    have hinside := hin.inside
    omega
  induction fuel generalizing c with
  | zero => exact absurd hfuel (Nat.not_lt_zero _)
  | succ fuel ih =>
    have hfilled : (window (fileByte file) (natOf offset) c ++ dst.drop c).length = dst.length := by
      rw [List.length_append, length_window, List.length_drop]
      omega
    unfold FileDevice.chunkLoop
    rw [hfilled]
    by_cases hmore : c < dst.length
    · have hcopied : (Int64.ofNat c).toInt = c := toInt_ofNat (by omega)
      have hlt : Int64.ofNat c < Int64.ofNat dst.length := by
        rw [Int64.lt_iff_toInt_lt, hcopied, toInt_ofNat hlen]
        omega
      have hcopiedNonneg : 0 ≤ (Int64.ofNat c).toInt := by omega
      obtain ⟨k, hk, hroom, hturn⟩ := chunkTurn_spec file (hfilled.symm ▸ hin) hcopiedNonneg
        (by rw [hfilled]; omega)
      rw [natOf_ofNat (by omega : c < 2 ^ 63)] at hroom hturn
      rw [hfilled] at hroom
      rw [if_pos hlt, hturn]
      dsimp only
      rw [overwrite_filled]
      exact ih hroom (by omega)
    · have heq : c = dst.length := by omega
      have hstop : ¬ Int64.ofNat c < Int64.ofNat dst.length := by
        rw [heq, Int64.lt_iff_toInt_lt]
        omega
      rw [if_neg hstop, heq, List.drop_length, List.append_nil]

/-- **Chunk mode equals range mode.** For every file, recorded size and chunk size, and every request inside
the device: with more turns than bytes asked for the loop of chunk mode has ended, without a slice out of
bounds, and the buffer holds what range mode puts into it, whatever it held before. -/
theorem chunk_mode_eq_range_mode (d : FileDevice) (file : Bytes) (offset : Int64) (dst : Bytes)
    (hin : d.InRange offset dst.length) :
    ∃ out, (∀ fuel, dst.length < fuel → d.readAtViaChunkInto file fuel offset dst =
        some (.ok (Int64.ofNat dst.length), out)) ∧
      ∀ dst' : Bytes, dst'.length = dst.length →
        FileDevice.readRangeInto file offset dst' = (.ok (Int64.ofNat dst.length), out) := by
  refine ⟨window (fileByte file) (natOf offset) dst.length, fun fuel hfuel => ?_, fun dst' hdst' => ?_⟩
  · exact chunkLoop_spec file hin (Nat.zero_le _) (by omega)
  · rw [readRangeInto_eq file hin.nonneg, hdst']

/-- A file of three bytes recorded with seven, in chunks of two: a request over its end. -/
theorem chunk_mode_eq_range_mode_shortFile :
    ∃ out, (∀ fuel, 4 < fuel → (FileDevice.mk 7 .chunk 2).readAtViaChunkInto [1, 2, 3] fuel 1 [9, 9, 9, 9] =
        some (.ok 4, out)) ∧
      ∀ dst' : Bytes, dst'.length = 4 → FileDevice.readRangeInto [1, 2, 3] 1 dst' = (.ok 4, out) :=
  chunk_mode_eq_range_mode (FileDevice.mk 7 .chunk 2) [1, 2, 3] 1 [9, 9, 9, 9]
    ⟨by decide, by decide, by decide, by decide⟩

end OrcaBlocks.Nbd
