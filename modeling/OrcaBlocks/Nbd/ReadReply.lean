/-
# OrcaBlocks.Nbd.ReadReply — read replies through pooled buffers.

A device with `ReadAtInto` is read into a buffer of the process-wide pool, with whatever another
connection left in it, and the reply is made of that buffer. `writeReadReply_pooled`: the reply is the one
`ReadAt` would give, for every content and capacity of the buffer, if the device fills the buffer with what
`ReadAt` returns. Two things that are easily left out of such a contract are needed: that the two methods
FAIL together, and that `ReadAt` returns as many bytes as it was asked for; each alone makes the replies
differ (`replies_differ`). The device of `cmd/local-nbd-file-server` keeps the contract
(`fileDevice_fillsLike`).
-/
import OrcaBlocks.Nbd.FileDevice

namespace OrcaBlocks.Nbd

open OrcaBlocks.Lib
open OrcaBlocks.Storage (Bytes)

variable {δ : Type}

/-! ## What a write depends on -/

/-- Two connections that take the same writes, and have sent the same. -/
def SameWire (c c' : Conn δ) : Prop := c.output = c'.output ∧ c.room = c'.room

/-- The two runs answer the same and send the same. -/
def SameReply {α : Type} (r r' : Outcome Err α × Conn δ) : Prop := r.1 = r'.1 ∧ SameWire r.2 r'.2

theorem write_same (b : Bytes) {c c' : Conn δ} (h : SameWire c c') : SameReply (write b c) (write b c') := by
  obtain ⟨hout, hroom⟩ := h
  unfold write
  rw [hroom]
  cases hr : c'.room with
  | none => exact ⟨rfl, by rw [hout], rfl⟩
  | some n =>
    cases n with
    | zero => exact ⟨rfl, hout, hroom⟩
    | succ n => exact ⟨rfl, by rw [hout], rfl⟩

/-- A sequence whose parts do the same on both connections. -/
theorem SameReply.bind {α β : Type} {x x' : Handler δ α} {f f' : α → Handler δ β} {c c' : Conn δ}
    (hx : SameReply (x c) (x' c')) (hf : ∀ a d d', SameWire d d' → SameReply (f a d) (f' a d')) :
    SameReply ((x >>= f) c) ((x' >>= f') c') := by
  rw [Go.bind_apply, Go.bind_apply]
  generalize x c = r at hx
  generalize x' c' = r' at hx
  obtain ⟨result, d⟩ := r
  obtain ⟨result', d'⟩ := r'
  obtain ⟨hresult, hwire⟩ := hx
  dsimp only at hresult
  subst hresult
  cases result with
  | ok a => exact hf a d d' hwire
  | error e => exact ⟨rfl, hwire⟩
  | panic => exact ⟨rfl, hwire⟩

theorem writeReply_same (handle : UInt64) (errno : UInt32) (data : Bytes) {c c' : Conn δ}
    (h : SameWire c c') : SameReply (writeReply handle errno data c) (writeReply handle errno data c') := by
  refine SameReply.bind (write_same _ h) fun _ d d' hd => ?_
  split
  · exact write_same _ hd
  · exact ⟨rfl, hd⟩

/-- Putting a buffer back is not seen on the wire. -/
theorem thenPut_same {α : Type} (buf : Bytes) {x x' : Handler δ α} {c c' : Conn δ}
    (h : SameReply (x c) (x' c')) : SameReply (thenPut buf x c) (x' c') := h

/-! ## The pool -/

/-- `getBuffer` yields a buffer that is long enough; nothing else changes. -/
theorem getBuffer_spec (n : Nat) (c : Conn δ) :
    ∃ buf pool, getBuffer n c = (.ok buf, { c with pool := pool }) ∧ n ≤ buf.length := by
  unfold getBuffer
  dsimp only
  refine ⟨_, _, rfl, ?_⟩
  split
  · rw [List.length_replicate]
  · omega

/-! ## Filled buffers -/

/-- What was copied to the front is in front. -/
theorem take_overwrite_front {buf data : Bytes} {n : Nat} (hn : n ≤ data.length) :
    (overwrite buf 0 data).take n = data.take n := by
  rw [overwrite, List.take_zero, List.nil_append, List.take_append_of_le_length hn]

/-- Clearing what was not filled. -/
theorem take_overwrite_cleared {buf : Bytes} {n len : Nat} (hn : n ≤ len) (hlen : len ≤ buf.length) :
    (overwrite buf n (List.replicate (len - n) 0)).take len = padTo 0 (buf.take n) len := by
  have hfront : (buf.take n).length = n := by
    rw [List.length_take]
    omega
  rw [overwrite, padTo, hfront, List.take_append_of_le_length, List.take_of_length_le]
  · simp only [List.length_append, List.length_replicate, hfront]
    omega
  · simp only [List.length_append, List.length_replicate, hfront]
    omega

/-- Bytes that are zero from a position on are padded up to there. -/
theorem padTo_take_eq {data : Bytes} {n : Nat} (hn : n ≤ data.length) (hzero : ∀ b ∈ data.drop n, b = 0) :
    padTo 0 (data.take n) data.length = data := by
  have hfront : (data.take n).length = n := by
    rw [List.length_take]
    omega
  have hback : data.drop n = List.replicate (data.length - n) 0 := by
    rw [← List.length_drop]
    exact List.eq_replicate_of_mem hzero
  rw [padTo, hfront, ← hback, List.take_append_drop]

/-! ## The contract -/

/-- **The contract of `ReadAtInto`** at one request, whatever the buffer holds: it fails and `ReadAt` fails, or
`ReadAt` returns as many bytes as asked for and it fills the buffer with the first `n` of them, the others
being zero. -/
def FillsLike (d : Device δ) (readAtInto : Int64 → Bytes → δ → Outcome Err Int64 × Bytes × δ) (s : δ)
    (offset length : Int64) : Prop :=
  ∀ dst : Bytes, dst.length = natOf length →
    (∃ e e', (readAtInto offset dst s).1 = .error e ∧ (d.readAt offset length s).1 = .error e') ∨
    ∃ n data, (readAtInto offset dst s).1 = .ok n ∧ (d.readAt offset length s).1 = .ok data ∧
      data.length = natOf length ∧ 0 ≤ n ∧ natOf n ≤ natOf length ∧
      (readAtInto offset dst s).2.1.take (natOf n) = data.take (natOf n) ∧ ∀ b ∈ data.drop (natOf n), b = 0

/-- The reply made of a buffer that was filled. -/
theorem replyFrom_same {handle : UInt64} {length n : Int64} {buf filled data : Bytes} {c c' : Conn δ}
    (hwire : SameWire c c') (hlength : 0 ≤ length.toInt) (hbuf : natOf length ≤ buf.length)
    (hdata : data.length = natOf length) (hnonneg : 0 ≤ n) (hn : natOf n ≤ natOf length)
    (hfilled : filled.take (natOf n) = data.take (natOf n)) (hzero : ∀ b ∈ data.drop (natOf n), b = 0) :
    SameReply (Server.replyFrom handle length (overwrite buf 0 (filled.take (natOf length))) n c)
      (writeReply handle 0 data c') := by
  have hnInt : 0 ≤ n.toInt := by
    rw [Int64.le_iff_toInt_le] at hnonneg
    exact hnonneg
  have hlong : natOf n ≤ filled.length := by
    have hlen := congrArg List.length hfilled
    simp only [List.length_take, hdata] at hlen
    omega
  have hfront : (overwrite buf 0 (filled.take (natOf length))).take (natOf n) = data.take (natOf n) := by
    rw [take_overwrite_front (by rw [List.length_take]; omega), List.take_take, Nat.min_eq_left hn, hfilled]
  have hcap : (overwrite buf 0 (filled.take (natOf length))).length = buf.length := by
    rw [length_overwrite]
    rw [List.length_take]
    omega
  have hncast := natOf_cast hnInt
  have hlcast := natOf_cast hlength
  unfold Server.replyFrom
  by_cases hshort : n < length
  · have hpos : ¬ n < 0 := by
      rw [Int64.lt_iff_toInt_lt]
      exact Int.not_lt.mpr hnInt
    rw [if_pos hshort, if_neg hpos]
    refine thenPut_same _ ?_
    rw [take_overwrite_cleared hn (by omega), hfront, ← hdata, padTo_take_eq (by omega) hzero]
    exact writeReply_same _ _ _ hwire
  · have hfull : natOf n = natOf length := by
      rw [Int64.lt_iff_toInt_lt] at hshort
      omega
    rw [if_neg hshort, if_neg (by omega)]
    refine thenPut_same _ ?_
    rw [hfront, hfull, ← hdata, List.take_length]
    exact writeReply_same _ _ _ hwire

/-- **The pooled path gives the plain reply.** For every device, whatever the pool holds and hands out: where
`ReadAtInto` keeps its contract, the reply through it is, byte for byte, the reply through `ReadAt`. -/
theorem writeReadReply_pooled (d : Device δ)
    (readAtInto : Int64 → Bytes → δ → Outcome Err Int64 × Bytes × δ) (c : Conn δ) (handle : UInt64)
    (offset length : Int64) (hlength : 0 ≤ length.toInt) (hfills : FillsLike d readAtInto c.device offset length)
    (pool : BufferPool) :
    SameReply
      (Server.writeReadReply { d with readAtInto := some readAtInto } handle offset length
        { c with pool := pool })
      (Server.writeReadReply { d with readAtInto := none } handle offset length c) := by
  obtain ⟨buf, pool', hget, hbuf⟩ := getBuffer_spec (natOf length) { c with pool := pool }
  have hdst : (buf.take (natOf length)).length = natOf length := by
    rw [List.length_take]
    omega
  have hcall := hfills (buf.take (natOf length)) hdst
  unfold Server.writeReadReply
  dsimp only
  rw [Go.bind_of_ok hget, Go.bind_apply, Go.bind_apply]
  unfold callInto callDevice
  dsimp only
  generalize readAtInto offset (buf.take (natOf length)) c.device = into at hcall
  generalize d.readAt offset length c.device = plain at hcall
  obtain ⟨result, filled, s⟩ := into
  obtain ⟨answer, s'⟩ := plain
  rcases hcall with ⟨e, e', hinto, hplain⟩ | ⟨n, data, hinto, hplain, hdata, hnonneg, hn, hfilled, hzero⟩
  · dsimp only at hinto hplain
    subst hinto hplain
    exact thenPut_same _ (writeReply_same _ _ _ ⟨rfl, rfl⟩)
  · dsimp only at hinto hplain hfilled
    subst hinto hplain
    exact replyFrom_same ⟨rfl, rfl⟩ hlength hbuf hdata hnonneg hn hfilled hzero

/-! ## What the contract needs -/

/-- The contract without its two easily forgotten parts. -/
def FillsOrFails (d : Device δ) (readAtInto : Int64 → Bytes → δ → Outcome Err Int64 × Bytes × δ) : Prop :=
  ∀ (s : δ) (offset : Int64) (dst : Bytes),
    (∃ e, (readAtInto offset dst s).1 = .error e) ∨
    ∃ n data, (readAtInto offset dst s).1 = .ok n ∧
      (d.readAt offset (Int64.ofNat dst.length) s).1 = .ok data ∧ 0 ≤ n ∧ natOf n ≤ dst.length ∧
      (readAtInto offset dst s).2.1.take (natOf n) = data.take (natOf n) ∧ ∀ b ∈ data.drop (natOf n), b = 0

/-- A device of zeroes whose `ReadAtInto` fails. -/
def failingInto : Device Unit where
  size := fun _ => 1
  readAt := fun _ length s => (.ok (List.replicate (natOf length) 0), s)
  readAtInto := some fun _ dst s => (.error (.outside "io"), dst, s)
  writeAt := fun _ _ => pure ()
  flush := pure ()
  disconnect := pure ()

/-- A device without bytes, which returns none. -/
def shortRead : Device Unit :=
  { failingInto with
    readAt := fun _ _ s => (.ok [], s)
    readAtInto := some fun _ dst s => (.ok 0, dst, s) }

/-- A connection with one buffer in the pool. -/
def freshConn : Conn Unit := ⟨[], [], none, ⟨[[7, 7]], [some 0]⟩, [], ()⟩

/-- The device without its `ReadAtInto`. -/
def Device.plain (d : Device δ) : Device δ := { d with readAtInto := none }

/-- **Neither part can be left out**: a device that fails only through the buffer, and one whose `ReadAt`
returns fewer bytes than asked for. -/
theorem replies_differ :
    (∃ into, failingInto.readAtInto = some into ∧ FillsOrFails failingInto into ∧
      (Server.writeReadReply failingInto 1 0 1 freshConn).2.output ≠
        (Server.writeReadReply failingInto.plain 1 0 1 freshConn).2.output) ∧
    ∃ into, shortRead.readAtInto = some into ∧ FillsOrFails shortRead into ∧
      (Server.writeReadReply shortRead 1 0 1 freshConn).2.output ≠
        (Server.writeReadReply shortRead.plain 1 0 1 freshConn).2.output := by
  refine ⟨⟨_, rfl, fun s offset dst => Or.inl ⟨_, rfl⟩, by decide⟩, ⟨_, rfl, fun s offset dst => Or.inr ?_, by decide⟩⟩
  exact ⟨0, [], rfl, rfl, by decide, by simp [natOf], rfl, by simp⟩

/-! ## The file device keeps the contract -/

theorem readInto_eq {d : FileDevice} {file : Bytes} {offset : Int64} {dst : Bytes}
    (hin : d.InRange offset dst.length) :
    d.readInto file offset dst =
      (.ok (Int64.ofNat dst.length), window (fileByte file) (natOf offset) dst.length) := by
  unfold FileDevice.readInto
  cases d.mode with
  | range =>
    dsimp only
    rw [readRangeInto_eq file hin.nonneg]
  | chunk =>
    dsimp only
    have hloop := chunkLoop_spec file hin (Nat.zero_le _) (by omega : dst.length - 0 < dst.length + 1)
    have hzero : (0 : Int64) = Int64.ofNat 0 := rfl
    rw [window_zero, List.nil_append, List.drop_zero] at hloop
    rw [FileDevice.readAtViaChunkInto, hzero, hloop, Option.getD_some]

/-- **The file device keeps the contract**, in both modes. -/
theorem fileDevice_fillsLike (d : FileDevice) (file : Bytes) (offset length : Int64)
    (hlength : 0 ≤ length.toInt) (hin : d.InRange offset (natOf length)) :
    ∃ into, d.device.readAtInto = some into ∧ FillsLike d.device into file offset length := by
  refine ⟨_, rfl, fun dst hdst => Or.inr ?_⟩
  have hpos : ¬ length < 0 := by
    rw [Int64.lt_iff_toInt_lt]
    exact Int.not_lt.mpr hlength
  have hinto : d.readInto file offset dst = _ := readInto_eq (hdst ▸ hin)
  have hnew : d.readInto file offset (List.replicate (natOf length) 0) = _ :=
    readInto_eq (by rw [List.length_replicate]; exact hin)
  have hlen : Int64.ofNat dst.length = length := by rw [hdst, ofNat_natOf hlength]
  refine ⟨length, window (fileByte file) (natOf offset) (natOf length), ?_, ?_, length_window .., ?_, le_rfl, ?_, ?_⟩
  · simp only [hinto, hlen]
  · simp only [FileDevice.device, FileDevice.readNew, if_neg hpos, hnew, List.length_replicate]
  · rw [Int64.le_iff_toInt_le]
    exact hlength
  · simp only [hinto, hdst]
  · rw [List.drop_of_length_le (by rw [length_window])]
    exact fun b hb => absurd hb List.not_mem_nil

/-- Two reads of a file through a buffer that holds another client's bytes. -/
theorem writeReadReply_pooled_file :
    SameReply
      (Server.writeReadReply (FileDevice.mk 4 .chunk 3).device 1 1 3
        (⟨[], [], none, ⟨[[7, 7, 7, 7, 7]], [some 0]⟩, [], [1, 2, 3]⟩ : Conn Bytes))
      (Server.writeReadReply (FileDevice.mk 4 .chunk 3).device.plain 1 1 3
        ⟨[], [], none, ⟨[[7, 7, 7, 7, 7]], [some 0]⟩, [], [1, 2, 3]⟩) := by
  obtain ⟨into, hinto, hfills⟩ := fileDevice_fillsLike (FileDevice.mk 4 .chunk 3) [1, 2, 3] 1 3 (by decide)
    ⟨by decide, by decide, by decide, by decide⟩
  have hdevice : { (FileDevice.mk 4 .chunk 3).device with readAtInto := some into } =
      (FileDevice.mk 4 .chunk 3).device := by rw [← hinto]
  have h := writeReadReply_pooled (FileDevice.mk 4 .chunk 3).device into
    ⟨[], [], none, ⟨[[7, 7, 7, 7, 7]], [some 0]⟩, [], [1, 2, 3]⟩ 1 1 3 (by decide) hfills
    ⟨[[7, 7, 7, 7, 7]], [some 0]⟩
  rw [hdevice] at h
  exact h

end OrcaBlocks.Nbd
