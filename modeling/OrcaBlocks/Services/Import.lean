/-
# OrcaBlocks.Services.Import — a root filesystem becomes a snapshot.

`runBuild` of the base image service creates a volume as large as the file it built, and `importFile` copies
the file into it: one `io.ReadFull` and one `Write` for each chunk, then a commit. The loop ends when
`ReadFull` comes up short, which at a file of whole chunks takes one more turn that reads nothing.

Every turn writes at a multiple of the chunk size, so it marks ONE chunk; together the turns mark all of
them, also those of zeroes. That gives the number of entries of the manifest. The bytes follow from the flat
model of the engine: the session's array is the file, the commit makes it the volume's, and no other call
but a commit to the volume changes it.

⚠ BOUNDARY: a chunk size for which `make` panics, which is a negative one or one the implementation cannot
allocate, and a file that changes while it is read.
-/
import OrcaBlocks.Services.Images
import OrcaBlocks.Storage.FlatArray

namespace OrcaBlocks.Services

open OrcaBlocks.Lib Function
open OrcaBlocks.Storage

variable {lo n turns : Nat} {s : Session} {a a' : Flat} {sessionID : String} {reply : Reply}

/-! ## The program -/

inductive ReadErr where
  | eof
  | unexpectedEOF
  deriving DecidableEq, Repr

/-- `io.ReadFull` of a file into a buffer: what was read, the error, and what is left of the file. -/
def readFull (buf : Nat) (file : Bytes) : Bytes × Option ReadErr × Bytes :=
  if buf ≤ file.length then (file.take buf, none, file.drop buf)
  else if file = [] then ([], some .eof, [])
  else (file, some .unexpectedEOF, [])

/-- What the loop of `importFile` reads in at most `turns` turns: the buffers that were filled up to the end of
the file; `none` if the loop has not ended by then. Nothing that is read depends on what is written. -/
def readParts (buf : Nat) : Nat → Bytes → Option (List Bytes)
  | 0, _ => none
  | turns + 1, file =>
    let (part, readErr, rest) := readFull buf file
    let here := if part.length > 0 then [part] else []
    match readErr with
    | some _ => some here
    | none => (readParts buf turns rest).map (here ++ ·)

/-- The part of `runBuild` that makes the snapshot. -/
def importVolume (P : Platform) (b : Backend) (turns : Nat) (volumeID : String) (chunkSize : Int64)
    (file : Bytes) : M (Option (Volume × Snapshot)) := do
  let volume ← Backend.createVolume volumeID (Int64.ofNat file.length) chunkSize
  match readParts (natOf volume.chunkSize) turns file with
  | none => pure none
  | some parts => do
    let snapshot ← importFile P b volume parts none
    pure (some (volume, snapshot))

/-! ## The loop -/

section Loop

variable {P : Platform} {who : Caller} {b : Backend} {v : Volume} {file : Bytes} {id : String} {w : World}

/-- **The state of the loop** once `lo` bytes are written: they are the head of the file, the rest of the session
is zero, and the chunks begun are marked. -/
structure Importing (P : Platform) (r : SessRef) (v : Volume) (file : Bytes) (lo : Nat) (s : Session)
    (w : World) : Prop where
  sound : Sound P w
  registered : w.registered r = true
  session : w.sessions r = some s
  volume : s.volume = v
  base : s.baseManifest = ∅
  bytes : ∀ p < 2 ^ 63, sessionByte w r s p = patch 0 (fun _ => 0) 0 (file.take lo) p
  marks : ∀ i : Int64, 0 ≤ i.toInt → i.toInt * v.chunkSize.toInt < lo → (s.dirty.lookup i).isSome

/-- The volume is as large as the file. -/
structure SizedFor (v : Volume) (file : Bytes) : Prop where
  size : v.sizeBytes.toInt = file.length
  chunk : 0 < v.chunkSize.toInt

theorem head_index {c hi : Nat} {rs : List ChunkRange} (h : Tiles c lo hi rs) (hlt : lo < hi) :
    ∃ r ∈ rs, r.index.toInt = (lo / c : Nat) := by
  cases h with
  | nil => exact absurd hlt (Nat.lt_irrefl _)
  | cons _ _ hi' _ _ _ _ _ => exact ⟨_, List.mem_cons_self .., hi'⟩

/-- The chunk that starts at the boundary `lo`. -/
theorem index_of_boundary {c : Nat} {cs i : Int} (hcs : (c : Int) = cs) (hpos : 0 < cs)
    (hboundary : c ∣ lo) (hle : (lo : Int) ≤ i * cs) (hlt : i * cs < lo + cs) : i = (lo / c : Nat) := by
  obtain ⟨k, rfl⟩ := hboundary
  have hc : 0 < c := by omega
  rw [Nat.mul_div_cancel_left k hc]
  subst hcs
  push_cast at hle hlt
  have hk : (k : Int) ≤ i := by
    by_contra hlt'
    have : (c : Int) * i < c * k := by
      apply Int.mul_lt_mul_of_pos_left (by omega) hpos
    rw [Int.mul_comm] at this
    omega
  have hk' : i < k + 1 := by
    by_contra hle'
    have : (c : Int) * (k + 1) ≤ c * i := Int.mul_le_mul_of_nonneg_left (by omega) (by omega)
    rw [Int.mul_add, Int.mul_one, Int.mul_comm (c : Int) i] at this
    omega
  omega

/-- **One turn**: the next part, at a chunk boundary and of one chunk at most. -/
theorem Importing.write (h : Importing P (who.node, id) v file lo s w) (hv : SizedFor v file)
    (hboundary : natOf v.chunkSize ∣ lo) (hpos : 0 < n) (hchunk : n ≤ natOf v.chunkSize)
    (hfile : lo + n ≤ file.length) :
    (machine P (unfailing P) who).wp (b.write P id (Int64.ofNat lo) (slice file lo n)).run
      (fun r w' => r = .ok () ∧ ∃ s', Importing P (who.node, id) v file (lo + n) s' w') w := by
  obtain ⟨s₀, hs₀, hintact, -, -⟩ := h.sound.session h.registered
  obtain rfl := Option.some.inj (h.session.symm.trans hs₀)
  have hsize := v.sizeBytes.toInt_lt
  have hcs : (natOf v.chunkSize : Int) = v.chunkSize.toInt := natOf_cast (by have := hv.chunk; omega)
  have hlen : (slice file lo n).length = n := by
    simp [slice]
    omega
  have hsized := hv.size
  have hoffset : (Int64.ofNat lo).toInt = lo := toInt_ofNat (by omega)
  have hlength : (Int64.ofNat n).toInt = n := toInt_ofNat (by omega)
  have hrange : InRange s.volume (Int64.ofNat lo) (Int64.ofNat (slice file lo n).length) := by
    rw [hlen, h.volume]
    refine ⟨?_, ?_, ?_⟩
    · rw [hoffset]
      omega
    · rw [hlength]
      omega
    · rw [hoffset, hlength]
      omega
  have hmarking : (machine P (unfailing P) who).wp
      (b.write P id (Int64.ofNat lo) (slice file lo n)).run _ w :=
    write_marking b h.sound.closed h.registered h.session (h.volume ▸ hv.chunk) (by omega) hrange
  have hrefines : (machine P (unfailing P) who).wp
      (b.write P id (Int64.ofNat lo) (slice file lo n)).run _ w :=
    wp_of_answer (write_refines quiet_unfailing b h.sound id (Int64.ofNat lo) ⟨slice file lo n, by omega⟩)
  refine wp_mono (wp_and hmarking hrefines) ?_
  rintro r w' ⟨⟨hwrote, hmarks⟩, hsound, -⟩
  obtain rfl := hwrote.quiet quiet_unfailing hintact
  refine ⟨rfl, ?_⟩
  obtain ⟨s', rs, hs', hmarks, htiles⟩ := hmarks rfl
  obtain ⟨s'', hs'', hvolume, hbase, -, hdone⟩ := hwrote.session
  obtain rfl := Option.some.inj (hs'.symm.trans hs'')
  have hnat : natOf (Int64.ofNat lo) = lo := natOf_ofNat (by omega)
  refine ⟨s', hsound, ?_, hs', hvolume.trans h.volume, hbase.trans h.base, ?_, ?_⟩
  · rw [hwrote.frame]
    exact h.registered
  · intro p hp
    rw [(hdone rfl).1 p hp, hnat, patch_congr 0 _ _ (h.bytes p hp)]
    have hpatch := patch_take_slice 0 (fun _ => 0) file 0 lo n hfile
    rw [Nat.zero_add] at hpatch
    exact congrFun hpatch p
  · intro i hi hlt
    by_cases hold : i.toInt * v.chunkSize.toInt < lo
    · exact hmarks.kept i (h.marks i hi hold)
    · rw [hnat, hlen, h.volume] at htiles
      obtain ⟨range, hrange, hindex⟩ := head_index htiles (by omega)
      have hsame : i.toInt = range.index.toInt := by
        rw [hindex]
        exact index_of_boundary hcs hv.chunk hboundary (by omega) (by push_cast at hlt; omega)
      rw [Int64.toInt_inj.mp hsame]
      exact hmarks.marked range hrange

/-- The loop ends: every turn but the last takes bytes off the file. -/
theorem exists_readParts {buf : Nat} (hbuf : 0 < buf) {rest : Bytes} (hturns : rest.length < turns) :
    ∃ parts, readParts buf turns rest = some parts := by
  induction turns generalizing rest with
  | zero => exact absurd hturns (Nat.not_lt_zero _)
  | succ turns ih =>
    unfold readParts readFull
    by_cases hfull : buf ≤ rest.length
    · have hless : (rest.drop buf).length < turns := by
        rw [List.length_drop]
        omega
      obtain ⟨parts, hparts⟩ := ih hless
      rw [if_pos hfull]
      dsimp only
      rw [hparts]
      exact ⟨_, rfl⟩
    · rw [if_neg hfull]
      by_cases hend : rest = []
      · rw [if_pos hend]
        exact ⟨_, rfl⟩
      · rw [if_neg hend]
        exact ⟨_, rfl⟩

/-- The turns of the loop, from any chunk boundary on. -/
theorem Importing.parts {parts : List Bytes} (h : Importing P (who.node, id) v file lo s w)
    (hv : SizedFor v file) (hboundary : natOf v.chunkSize ∣ lo) (hlo : lo ≤ file.length)
    (hparts : readParts (natOf v.chunkSize) turns (file.drop lo) = some parts) :
    (machine P (unfailing P) who).wp (importParts P b id none parts (Int64.ofNat lo)).run
      (fun r w' => r = .ok () ∧ ∃ s', Importing P (who.node, id) v file file.length s' w') w := by
  have hchunk : 0 < natOf v.chunkSize := by
    have := hv.chunk
    unfold natOf
    omega
  induction turns generalizing lo s w parts with
  | zero => cases hparts
  | succ turns ih =>
    have hleft : (file.drop lo).length = file.length - lo := List.length_drop
    unfold readParts readFull at hparts
    by_cases hfull : natOf v.chunkSize ≤ (file.drop lo).length
    · -- a whole chunk, and on
      rw [if_pos hfull] at hparts
      dsimp only at hparts
      rw [if_pos (by rw [List.length_take]; omega), List.drop_drop] at hparts
      obtain ⟨rest, hrest, rfl⟩ := Option.map_eq_some_iff.mp hparts
      have hlength : (slice file lo (natOf v.chunkSize)).length = natOf v.chunkSize := by
        rw [slice, List.length_take]
        omega
      rw [List.singleton_append, importParts]
      refine wp_run_seq (h.write hv hboundary hchunk (Nat.le_refl _) (by omega)) ?_
      rintro r w' ⟨rfl, s', h'⟩
      rw [orElse_ok]
      have hnext : Int64.ofNat lo + Int64.ofNat (slice file lo (natOf v.chunkSize)).length =
          Int64.ofNat (lo + natOf v.chunkSize) := by
        rw [hlength, Int64.ofNat_add]
      change (machine P (unfailing P) who).wp (importParts P b id none rest
        (Int64.ofNat lo + Int64.ofNat (slice file lo (natOf v.chunkSize)).length)).run _ w'
      rw [hnext]
      exact ih h' (Nat.dvd_add hboundary (Nat.dvd_refl _)) (by omega) hrest
    · rw [if_neg hfull] at hparts
      by_cases hend : file.drop lo = []
      · -- the file ended with a whole chunk
        rw [if_pos hend] at hparts
        cases hparts
        obtain rfl : lo = file.length := by
          rw [hend, List.length_nil] at hleft
          omega
        exact ⟨rfl, s, h⟩
      · -- the rest is shorter than a chunk
        rw [if_neg hend] at hparts
        dsimp only at hparts
        rw [if_pos (List.length_pos_iff.mpr hend)] at hparts
        cases hparts
        have hslice : slice file lo (file.length - lo) = file.drop lo := by
          rw [slice, ← hleft, List.take_length]
        have hpos := List.length_pos_iff.mpr hend
        have hlast : lo + (file.length - lo) = file.length := by omega
        rw [← hslice, importParts]
        refine wp_run_seq (h.write hv hboundary (by omega) (by omega) (by omega)) ?_
        rintro r w' ⟨rfl, s', h'⟩
        rw [hlast] at h'
        exact ⟨rfl, s', h'⟩

end Loop

/-! ## The import -/

section Import

variable {P : Platform} {who : Caller} {b : Backend} {v : Volume} {file : Bytes} {id : String} {w : World}

/-- A commit that succeeds makes the session's array the volume's. -/
theorem commit_inv {snapshotID : String} {opts : CommitOptions}
    (h : Flat.Step n a (.commit sessionID opts) (.committed snapshotID) a') :
    ∃ volumeID array, a.sessions (n, sessionID) = some (volumeID, array) ∧
      a' = a.setLatest volumeID array := by
  cases h with
  | commit hopen => exact ⟨_, _, hopen, rfl⟩

theorem latest_of_stop (h : Flat.Step n a (.stop sessionID) reply a') : a'.latest = a.latest := by
  cases h with
  | stop => rfl
  | stopUnknown => rfl

/-- How many chunks of a size cover so many bytes. -/
def chunkCount (length chunkSize : Nat) : Nat := (length + chunkSize - 1) / chunkSize

theorem lt_chunkCount_iff {k length chunkSize : Nat} (hpos : 0 < chunkSize) :
    k < chunkCount length chunkSize ↔ k * chunkSize < length := by
  unfold chunkCount
  rw [Nat.lt_iff_add_one_le, Nat.le_div_iff_mul_le hpos, Nat.add_mul, Nat.one_mul]
  omega

/-- A manifest with the first `n` indexes has `n` entries. -/
theorem length_entries {m : Manifest} (hn : n ≤ 2 ^ 63)
    (h : ∀ i : Int64, (m.lookup i).isSome ↔ 0 ≤ i.toInt ∧ i.toInt < n) : m.entries.length = n := by
  have hindexes : ((List.range n).map Int64.ofNat).Nodup := by
    refine List.Nodup.map_on ?_ List.nodup_range
    intro i hi j hj heq
    have hi' := toInt_ofNat (n := i) (by have := List.mem_range.mp hi; omega)
    have hj' := toInt_ofNat (n := j) (by have := List.mem_range.mp hj; omega)
    rw [heq, hj'] at hi'
    omega
  have hperm : m.keys.Perm ((List.range n).map Int64.ofNat) := by
    refine (List.perm_ext_iff_of_nodup (AList.keys_nodup m) hindexes).mpr fun i => ?_
    rw [← AList.mem_keys, ← AList.lookup_isSome, h]
    constructor
    · rintro ⟨hnonneg, hlt⟩
      refine List.mem_map.mpr ⟨natOf i, List.mem_range.mpr ?_, ofNat_natOf hnonneg⟩
      unfold natOf
      omega
    · intro hmem
      obtain ⟨k, hk, rfl⟩ := List.mem_map.mp hmem
      have hk' := List.mem_range.mp hk
      rw [toInt_ofNat (by omega)]
      omega
  have hlength := hperm.length_eq
  rw [List.length_map, List.length_range] at hlength
  rw [← hlength]
  exact (List.length_map _).symm

theorem chunkCount_le {length chunkSize : Nat} (hpos : 0 < chunkSize) (hle : length ≤ n) :
    chunkCount length chunkSize ≤ n := by
  by_contra hgt
  have hlt := (lt_chunkCount_iff hpos).mp (Nat.not_le.mp hgt)
  have hmul := Nat.le_mul_of_pos_right n hpos
  omega

theorem nonneg_of_inVolume (hv : SizedFor v file) {i : Int64} (h : InVolume v i) : 0 ≤ i.toInt :=
  Int.nonneg_of_mul_nonneg_left h.1 hv.chunk

/-- The chunks that begin in the volume are the first ones. -/
theorem inVolume_iff (hv : SizedFor v file) {i : Int64} :
    InVolume v i ↔ 0 ≤ i.toInt ∧ i.toInt < chunkCount file.length (natOf v.chunkSize) := by
  have hcs : (natOf v.chunkSize : Int) = v.chunkSize.toInt := natOf_cast (Int.le_of_lt hv.chunk)
  have hpos : 0 < natOf v.chunkSize := by
    have := hv.chunk
    omega
  have hsize := hv.size
  by_cases hi : 0 ≤ i.toInt
  · have hnat : (natOf i : Int) = i.toInt := natOf_cast hi
    have hprod : i.toInt * v.chunkSize.toInt = (natOf i * natOf v.chunkSize : Nat) := by
      rw [← hnat, ← hcs]
      push_cast
      rfl
    have hlt : natOf i < chunkCount file.length (natOf v.chunkSize) ↔ _ := lt_chunkCount_iff hpos
    unfold InVolume
    rw [hprod, hsize, ← hnat]
    constructor
    · rintro ⟨-, h⟩
      exact ⟨by omega, Int.ofNat_lt.mpr (hlt.mpr (Int.ofNat_lt.mp h))⟩
    · rintro ⟨-, h⟩
      exact ⟨by omega, Int.ofNat_lt.mpr (hlt.mp (Int.ofNat_lt.mp h))⟩
  · exact iff_of_false (fun h => hi (nonneg_of_inVolume hv h)) fun h => hi h.1

/-- What an import leaves behind. -/
structure Imported (P : Platform) (v : Volume) (file : Bytes) (snap : Snapshot) (w : World) : Prop where
  sound : Sound P w
  latest : (Flat.of P w).latest v.volumeID = some file
  volumeID : snap.volumeID = v.volumeID
  manifest : ∃ m, manifestAt P w.objects snap.manifestKey = some m ∧
    m.entries.length = chunkCount file.length (natOf v.chunkSize)

/-- A session of a new volume is at the start of the loop. -/
theorem startSession_importing (h : Sound P w) (hv : w.volumes v.volumeID = some v)
    (hsized : SizedFor v file) (hempty : v.latestSnapshotID = "") :
    (machine P (unfailing P) who).wp (b.startSession P v.volumeID).run
      (fun r w' => ∃ id, r = .ok id ∧ ∃ s, Importing P (who.node, id) v file 0 s w') w := by
  have hspec : (machine P (unfailing P) who).wp (b.startSession P v.volumeID).run _ w :=
    startSession_spec b h.closed hv
  have hrefines : (machine P (unfailing P) who).wp (b.startSession P v.volumeID).run _ w :=
    wp_of_answer (startSession_refines b h v.volumeID)
  refine wp_mono (wp_and hspec hrefines) ?_
  rintro r w' ⟨⟨⟨rfl, hsame⟩, -⟩, hsound, -⟩
  have hmanifest : latestOf P w v = ∅ := if_pos hempty
  refine ⟨_, rfl, _, hsound, ?_, (congrFun hsame.sessions _).trans (update_self _ _ _), rfl,
    hmanifest, ?_, ?_⟩
  · exact (congrFun hsame.registered _).trans (update_self _ _ _)
  · intro p _
    rw [sessionByte_of_clean fun _ => rfl, List.take_zero, patch, if_neg (by simp)]
    rw [hmanifest]
    rfl
  · intro i hi hlt
    have hnonneg := Int.mul_nonneg hi (Int.le_of_lt hsized.chunk)
    omega

/-- The array of the session is the file. -/
theorem Importing.sessionBytes {r : SessRef} (h : Importing P r v file file.length s w)
    (hv : SizedFor v file) : sessionBytes w r s = file := by
  have hsize : natOf v.sizeBytes = file.length := by
    have := hv.size
    unfold natOf
    omega
  have hlt := v.sizeBytes.toInt_lt
  have hlength := hv.size
  unfold Storage.sessionBytes
  rw [h.volume, hsize, ← window_getD 0 file, length_window]
  refine window_congr fun p _ hp => ?_
  rw [h.bytes p (by omega), List.take_length, patch, if_pos (by omega), Nat.sub_zero]

/-- The commit at the end: the file is the volume's array, and every chunk has its entry. -/
theorem Importing.commit (h : Importing P (who.node, id) v file file.length s w) (hv : SizedFor v file)
    (opts : CommitOptions) :
    (machine P (unfailing P) who).wp (b.commitWithOptions P id opts).run
      (fun r w' => ∃ snap, r = .ok snap ∧ Imported P v file snap w' ∧
        w'.registered (who.node, id) = true) w := by
  obtain ⟨s₀, hs₀, hintact, hchunk, -⟩ := h.sound.session h.registered
  obtain rfl := Option.some.inj (h.session.symm.trans hs₀)
  have hspec : (machine P (unfailing P) who).wp (b.commitWithOptions P id opts).run _ w :=
    commit_spec (fun _ _ _ h => h.2) b opts h.sound.closed h.registered h.session
  have hrefines : (machine P (unfailing P) who).wp (b.commitWithOptions P id opts).run _ w :=
    wp_of_answer (commit_refines b h.sound id opts)
  refine wp_mono (wp_and hspec hrefines) ?_
  rintro r w' ⟨⟨hclosed, hgrows, hout⟩, hsound, hstep⟩
  obtain ⟨snap, rfl⟩ := hout.quiet quiet_unfailing hintact.chunk
  obtain ⟨m, hcommitted, hmoved⟩ := hout.ok snap rfl
  obtain ⟨m', hm', hlookup⟩ := hcommitted.recorded.stored
  have hopen : (Flat.of P w).sessions (who.node, id) = some (v.volumeID, file) := by
    rw [Flat.session_of_registered h.registered h.session, h.sessionBytes hv, h.volume]
  refine ⟨snap, rfl, ⟨hsound, ?_, ?_, m', hm', ?_⟩, ?_⟩
  · obtain ⟨volumeID, array, hsame, hflat⟩ := commit_inv hstep
    obtain ⟨rfl, rfl⟩ := Prod.mk.inj (Option.some.inj (hopen.symm.trans hsame))
    rw [hflat]
    exact update_self _ _ _
  · rw [hcommitted.recorded.volumeID, h.volume]
  · have hlimit := v.sizeBytes.toInt_lt
    have hsize := hv.size
    have hcs : (natOf v.chunkSize : Int) = v.chunkSize.toInt := natOf_cast (Int.le_of_lt hv.chunk)
    have hpos := hv.chunk
    refine length_entries (chunkCount_le (by omega) (by omega)) fun i => ?_
    rw [hlookup, ← inVolume_iff hv]
    constructor
    · intro hsome
      obtain ⟨chunkID, hchunkID⟩ := Option.isSome_iff_exists.mp hsome
      exact h.volume ▸ hcommitted.good.inVolume i chunkID hchunkID
    · intro hin
      have hmarked := h.marks i (nonneg_of_inVolume hv hin) (by rw [← hsize]; exact hin.2)
      obtain ⟨c, hc, -⟩ := hcommitted.built.new i (AList.mem_keys.mp (AList.lookup_isSome.mp hmarked))
      rw [hc]
      rfl
  · rw [(hmoved trivial).1.registered]
    exact h.registered

/-- The session goes, the volume stays. -/
theorem Imported.stop (b : Backend) {snap : Snapshot} (h : Imported P v file snap w)
    (hreg : w.registered (who.node, id) = true) :
    (machine P (unfailing P) who).wp (Backend.stop id).run
      (fun _ w' => Imported P v file snap w') w := by
  have hspec : (machine P (unfailing P) who).wp (Backend.stop id).run _ w := stop_spec h.sound.closed hreg
  have hrefines : (machine P (unfailing P) who).wp (Backend.stop id).run _ w :=
    wp_of_answer (stop_refines b h.sound id)
  refine wp_mono (wp_and hspec hrefines) ?_
  rintro r w' ⟨⟨⟨rfl, hsame⟩, -⟩, hsound, hstep⟩
  have hobjects : w'.objects = w.objects := hsame.objects
  refine ⟨hsound, ?_, h.volumeID, hobjects ▸ h.manifest⟩
  rw [latest_of_stop hstep]
  exact h.latest

/-- **`importFile`** into a new volume as large as the file. -/
theorem importFile_spec (h : Sound P w) (hv : w.volumes v.volumeID = some v) (hsized : SizedFor v file)
    (hempty : v.latestSnapshotID = "") {parts : List Bytes}
    (hparts : readParts (natOf v.chunkSize) turns file = some parts) :
    (machine P (unfailing P) who).wp (importFile P b v parts none).run
      (fun r w' => ∃ snap, r = .ok snap ∧ Imported P v file snap w') w := by
  have hstart : (machine P (unfailing P) who).wp (b.startSession P v.volumeID).run
      (fun r w' => ∃ id, r = .ok id ∧ ∃ s, Importing P (who.node, id) v file 0 s w') w :=
    startSession_importing h hv hsized hempty
  unfold importFile
  refine wp_run_seq hstart ?_
  rintro r w₁ ⟨id, rfl, s, himporting⟩
  rw [orElse_ok, wp_run_bind]
  refine wp_attempt ?_
  refine wp_run_seq (himporting.parts hsized (Nat.dvd_zero _) (Nat.zero_le _) hparts) ?_
  rintro r w₂ ⟨rfl, s', hdone⟩
  rw [orElse_ok]
  refine wp_mono (hdone.commit hsized ⟨0, true⟩) ?_
  rintro r w₃ ⟨snap, rfl, himported, hreg⟩
  rw [orElse_ok, wp_run_bind]
  refine wp_attempt (wp_mono (himported.stop b hreg) ?_)
  intro _ w₄ himported'
  exact ⟨snap, rfl, himported'⟩

/-- The chunk size a volume gets that was asked for one. -/
def effectiveChunkSize (chunkSize : Int64) : Int64 := if chunkSize = 0 then defaultChunkSize else chunkSize

/-- A file and chunks of at most 2⁶² bytes fit, defaults included. -/
theorem newVolume_fits {chunkSize : Int64} (hid : id ≠ "") (hpos : 0 < file.length)
    (hlength : file.length ≤ 2 ^ 62) (hchunk : 0 ≤ chunkSize.toInt) (hmax : chunkSize.toInt ≤ 2 ^ 62) :
    ∃ v, (newVolume P w id (Int64.ofNat file.length) chunkSize).withDefaults = v ∧ v.volumeID = id ∧
      v.chunkSize = effectiveChunkSize chunkSize ∧ v.latestSnapshotID = "" ∧ SizesFit v ∧
      SizedFor v file := by
  have hsize : (Int64.ofNat file.length).toInt = file.length := toInt_ofNat (by omega)
  have hne : Int64.ofNat file.length ≠ 0 := by
    intro heq
    rw [heq, Int64.toInt_zero] at hsize
    omega
  have heffective : 0 < (effectiveChunkSize chunkSize).toInt ∧
      (effectiveChunkSize chunkSize).toInt ≤ 2 ^ 62 := by
    unfold effectiveChunkSize
    split
    · decide
    · rename_i hzero
      have hnonzero : chunkSize.toInt ≠ 0 := fun h => hzero (Int64.toInt_inj.mp h)
      omega
  have hsame : (newVolume P w id (Int64.ofNat file.length) chunkSize).withDefaults =
      ⟨id, Int64.ofNat file.length, effectiveChunkSize chunkSize, "", ""⟩ := by
    unfold newVolume Volume.withDefaults effectiveChunkSize
    rw [if_neg hid, if_neg hne]
  refine ⟨_, hsame, rfl, rfl, rfl, ⟨?_, hne, ?_⟩, hsize, heffective.1⟩
  · dsimp only
    omega
  · intro hzero
    dsimp only at hzero
    rw [hzero, Int64.toInt_zero] at heffective
    exact absurd heffective.1 (by decide)

/-- **The import of a file** under a new name. -/
theorem importVolume_spec (h : Sound P w) {volumeID : String} {chunkSize : Int64} (hid : volumeID ≠ "")
    (hnew : w.volumes volumeID = none) (hpos : 0 < file.length) (hlength : file.length ≤ 2 ^ 62)
    (hchunk : 0 ≤ chunkSize.toInt) (hmax : chunkSize.toInt ≤ 2 ^ 62) (hturns : file.length < turns) :
    (machine P (unfailing P) who).wp (importVolume P b turns volumeID chunkSize file).run
      (fun r w' => ∃ v snap, r = .ok (some (v, snap)) ∧ v.volumeID = volumeID ∧
        v.chunkSize = effectiveChunkSize chunkSize ∧ Imported P v file snap w') w := by
  obtain ⟨v, hv, hname, heffective, hempty, hfits, hsized⟩ :=
    newVolume_fits (P := P) (w := w) hid hpos hlength hchunk hmax
  have hbuf : 0 < natOf v.chunkSize := by
    have := hsized.chunk
    unfold natOf
    omega
  obtain ⟨parts, hparts⟩ := exists_readParts hbuf hturns
  have hcreated : (machine P (unfailing P) who).wp
      (Backend.createVolume volumeID (Int64.ofNat file.length) chunkSize).run _ w :=
    createVolume_created h (hv ▸ hfits) (hv ▸ hsized.chunk) (by rw [hv, hsized.size]; omega)
  unfold importVolume
  refine wp_run_seq hcreated ?_
  rintro r w₁ ⟨rfl, hcreated⟩
  rw [hv] at hcreated ⊢
  have hnone : w.volumes (newVolume P w volumeID (Int64.ofNat file.length) chunkSize).volumeID = none := by
    unfold newVolume
    rw [if_neg hid]
    exact hnew
  obtain ⟨hsound, hvolume, -⟩ := hcreated hnone
  rw [orElse_ok, hparts]
  dsimp only
  refine wp_run_seq (importFile_spec hsound hvolume hsized hempty hparts) ?_
  rintro r w₂ ⟨snap, rfl, himported⟩
  exact ⟨v, snap, rfl, hname, heffective, himported⟩

/-! ## Reading it back -/

/-- A call that is no commit to the volume. -/
def Spares (volumeID : String) (w : World) (who : Caller) : Request → Prop
  | .commit sessionID _ => ∀ s ∈ w.sessions (who.node, sessionID), s.volume.volumeID ≠ volumeID
  | _ => True

instance (volumeID : String) (w : World) (who : Caller) : DecidablePred (Spares volumeID w who)
  | .commit .. => inferInstanceAs (Decidable (∀ s ∈ _, (Session.volume s).volumeID ≠ volumeID))
  | .createVolume .. | .startSession _ | .read .. | .write .. | .stop _ => .isTrue trivial

/-- A volume that was created is one the world did not have. -/
def CreatesNew (w : World) : Reply → Prop
  | .created volumeID => (w.volumes volumeID).isNone
  | _ => True

instance (w : World) : DecidablePred (CreatesNew w)
  | .created _ => inferInstanceAs (Decidable (_ = true))
  | .started _ | .bytes _ | .committed _ | .done | .failed => .isTrue trivial

/-- Calls after the import, on any nodes: none commits to the volume, and each volume is created once and with
proper sizes. -/
def Between (P : Platform) (backends : Nat → Backend) (volumeID : String) :
    World → List (Caller × Request) → Prop
  | _, [] => True
  | w, (who, request) :: calls =>
    (request.Sized ∧ Spares volumeID w who request ∧
      CreatesNew w (serve P backends w who request).1) ∧
    Between P backends volumeID (serve P backends w who request).2 calls

instance : DecidablePred Request.Sized
  | .createVolume .. => inferInstanceAs (Decidable (_ ∧ _ ∧ _))
  | .startSession _ | .read .. | .write .. | .commit .. | .stop _ => .isTrue trivial

instance instDecidableBetween (P : Platform) (backends : Nat → Backend) (volumeID : String) :
    (w : World) → (calls : List (Caller × Request)) → Decidable (Between P backends volumeID w calls)
  | _, [] => .isTrue trivial
  | w, (who, request) :: calls =>
    have := instDecidableBetween P backends volumeID (serve P backends w who request).2 calls
    inferInstanceAs (Decidable (_ ∧ _))

/-- Only a commit to a volume changes its array. -/
theorem latest_kept {request : Request} {volumeID : String} (h : Flat.Step n a request reply a')
    (hlatest : a.latest volumeID = some file)
    (hspares : ∀ sessionID opts name array, request = .commit sessionID opts →
      a.sessions (n, sessionID) = some (name, array) → name ≠ volumeID) :
    a'.latest volumeID = some file := by
  cases h with
  | @createVolume id name _ _ _ hnew =>
    have hne : volumeID ≠ name := by
      rintro rfl
      rw [hlatest] at hnew
      cases hnew
    exact (update_of_ne hne _ _).trans hlatest
  | @commit sessionID name _ array opts hopen =>
    exact (update_of_ne (hspares _ _ _ _ rfl hopen).symm _ _).trans hlatest
  | _ => exact hlatest

theorem Spares.flat {volumeID : String} {request : Request} (h : Spares volumeID w who request)
    {opts : CommitOptions} {name : String} {array : Bytes} (hrequest : request = .commit sessionID opts)
    (hopen : (Flat.of P w).sessions (who.node, sessionID) = some (name, array)) : name ≠ volumeID := by
  subst hrequest
  unfold Flat.of at hopen
  dsimp only at hopen
  split at hopen
  · obtain ⟨s, hs, hname⟩ := Option.map_eq_some_iff.mp hopen
    rw [← (Prod.mk.inj hname).1]
    exact h s hs
  · cases hopen

/-- The volume keeps its array through the calls in between. -/
theorem between_keeps {backends : Nat → Backend} {volumeID : String} {calls : List (Caller × Request)}
    (h : Sound P w) (hlatest : (Flat.of P w).latest volumeID = some file)
    (hbetween : Between P backends volumeID w calls)
    (hcollision : NoCollision P (serveAll P backends w calls).2.hashed) :
    Sound P (serveAll P backends w calls).2 ∧
      (Flat.of P (serveAll P backends w calls).2).latest volumeID = some file := by
  induction calls generalizing w with
  | nil => exact ⟨h, hlatest⟩
  | cons call calls ih =>
    obtain ⟨who, request⟩ := call
    obtain ⟨⟨hsized, hspares, hnew⟩, hrest⟩ := hbetween
    have hcollision' : NoCollision P (serve P backends w who request).2.hashed :=
      serveAll_noCollision calls hcollision
    obtain ⟨tr, hrun⟩ := (serve_runs hcollision').2
    obtain ⟨hsound, hstep⟩ := hrun.wp (serve_refines _ h hsized) fun id hreply => by
      rw [hreply] at hnew
      exact Option.map_eq_none_iff.mpr (Option.isNone_iff_eq_none.mp hnew)
    refine ih hsound (latest_kept hstep hlatest ?_) hrest hcollision
    exact fun _ _ _ _ hrequest hopen => hspares.flat hrequest hopen

/-- A session on the volume, and one read of all of it. -/
def readAll (P : Platform) (b : Backend) (volumeID : String) (length : Nat) : M Bytes := do
  let sessionID ← b.startSession P volumeID
  b.read P sessionID 0 (Int64.ofNat length)

theorem start_inv {volumeID : String} (h : Flat.Step n a (.startSession volumeID) reply a')
    (hlatest : a.latest volumeID = some file) :
    ∃ id, reply = .started id ∧ a'.sessions (n, id) = some (volumeID, file) := by
  cases h with
  | startUnknown hnone =>
    rw [hlatest] at hnone
    cases hnone
  | startSession hlatest' hnew =>
    obtain rfl := Option.some.inj (hlatest.symm.trans hlatest')
    exact ⟨_, rfl, update_self _ _ _⟩

theorem read_inv {volumeID : String}
    (h : Flat.Step n a (.read sessionID 0 (Int64.ofNat file.length)) reply a')
    (hopen : a.sessions (n, sessionID) = some (volumeID, file)) (hlength : file.length < 2 ^ 63) :
    reply = .bytes file := by
  have hlen : (Int64.ofNat file.length).toInt = file.length := toInt_ofNat hlength
  cases h with
  | readRefused hrefused =>
    refine absurd ⟨Int.le_refl 0, ?_, ?_⟩ (hrefused _ _ hopen)
    · omega
    · rw [hlen, Int64.toInt_zero]
      omega
  | read hopen' hfits =>
    obtain ⟨rfl, rfl⟩ := Prod.mk.inj (Option.some.inj (hopen.symm.trans hopen'))
    have hzero : natOf 0 = 0 := rfl
    rw [natOf_ofNat hlength, slice, hzero, List.drop_zero, List.take_length]

theorem readAll_spec (h : Sound P w) {volumeID : String}
    (hlatest : (Flat.of P w).latest volumeID = some file) (hlength : file.length < 2 ^ 63) :
    (machine P (unfailing P) who).wp (readAll P b volumeID file.length).run
      (fun r _ => r = .ok file) w := by
  have hstart : (machine P (unfailing P) who).wp (b.startSession P volumeID).run _ w :=
    wp_of_answer (startSession_refines b h volumeID)
  unfold readAll
  refine wp_run_seq hstart ?_
  rintro r w₁ ⟨hsound, hstep⟩
  obtain ⟨id, hreply, hopen⟩ := start_inv hstep hlatest
  cases r with
  | error e => cases hreply
  | ok id' =>
    cases hreply
    rw [orElse_ok]
    have hread : (machine P (unfailing P) who).wp (b.read P id 0 (Int64.ofNat file.length)).run _ w₁ :=
      wp_of_answer (read_refines quiet_unfailing b hsound id 0 (Int64.ofNat file.length))
    refine wp_mono hread ?_
    rintro r w₂ ⟨-, hstep'⟩
    have hreply := read_inv hstep' hopen hlength
    cases r with
    | error e => cases hreply
    | ok bytes =>
      cases hreply
      rfl

end Import

/-! ## The whole story -/

/-- What happened before, the import, the calls after it, and who reads. -/
structure ImportRun where
  before : List (Caller × Request)
  who : Caller
  uuid : String
  chunkSize : Int64
  file : Bytes
  /-- The number of turns the loop is given. -/
  turns : Nat
  later : List (Caller × Request)
  reader : Caller

namespace ImportRun

variable (P : Platform) (backends : Nat → Backend) (t : ImportRun)

def volumeID : String := "base-vol-" ++ t.uuid

def atImport : World := (serveAll P backends World.initial t.before).2

/-- What the import returns, and the world after it. -/
def imported : Except Err (Option (Volume × Snapshot)) × World :=
  (machine P faultFree t.who).run (fun _ => .none)
    (importVolume P (backends t.who.node) t.turns t.volumeID t.chunkSize t.file).run (t.atImport P backends)

def atRead : World := (serveAll P backends (t.imported P backends).2 t.later).2

/-- What the reader gets, and the world after that. -/
def readBack : Except Err Bytes × World :=
  (machine P faultFree t.reader).run (fun _ => .none)
    (readAll P (backends t.reader.node) t.volumeID t.file.length).run (t.atRead P backends)

/-- A file and a chunk size in range, enough turns, a new name, proper calls around the import, and no two
chunks with one hash. -/
structure Proper : Prop where
  file_ne : 0 < t.file.length
  file_le : t.file.length ≤ 2 ^ 62
  chunk_nonneg : 0 ≤ t.chunkSize.toInt
  chunk_le : t.chunkSize.toInt ≤ 2 ^ 62
  enough : t.file.length < t.turns
  sized : ∀ call ∈ t.before, call.2.Sized
  fresh : (createdIDs (serveAll P backends World.initial t.before).1).Nodup
  new : (t.atImport P backends).volumes t.volumeID = none
  between : Between P backends t.volumeID (t.imported P backends).2 t.later
  noCollision : NoCollision P (t.readBack P backends).2.hashed

end ImportRun

/-- A run that ends without a collision is a run nothing failed in. -/
theorem runs_unfailing {P : Platform} {who : Caller} {α : Type} (x : M α) (w : World)
    (h : NoCollision P ((machine P faultFree who).run (fun _ => .none) x.run w).2.hashed) :
    NoCollision P w.hashed ∧ ∃ tr, (machine P (unfailing P) who).Runs x.run w tr
      ((machine P faultFree who).run (fun _ => .none) x.run w).1
      ((machine P faultFree who).run (fun _ => .none) x.run w).2 := by
  have hexec : (machine P (unfailing P) who).exec = (machine P faultFree who).exec := rfl
  obtain ⟨hstart, hrun⟩ := runs_run_of_final (K := fun w => NoCollision P w.hashed) hexec
    (fun w o h => (collisionFree_of_noCollision .none w o h).imp_right fun hfree => ⟨rfl, hfree⟩) _ w h
  exact ⟨hstart, _, hrun⟩

/-- **An imported file reads back as it was.** After any history, for every file and chunk size: the loop ends,
the import succeeds, the manifest of the snapshot has an entry for each chunk and no other, and whoever opens
the volume later, on any node and with no other commit to it in between, reads the bytes of the file. -/
theorem import_exact (P : Platform) (backends : Nat → Backend) (t : ImportRun) (h : t.Proper P backends) :
    ∃ v snap m, (t.imported P backends).1 = .ok (some (v, snap)) ∧
      v.chunkSize = effectiveChunkSize t.chunkSize ∧ snap.volumeID = t.volumeID ∧
      manifestAt P (t.imported P backends).2.objects snap.manifestKey = some m ∧
      m.entries.length = chunkCount t.file.length (natOf v.chunkSize) ∧
      (t.readBack P backends).1 = .ok t.file := by
  obtain ⟨hread, trRead, hreadRun⟩ := runs_unfailing _ _ h.noCollision
  have hlater : NoCollision P (t.imported P backends).2.hashed := serveAll_noCollision t.later hread
  obtain ⟨himport, trImport, himportRun⟩ := runs_unfailing _ _ hlater
  have hsound : Sound P (t.atImport P backends) :=
    (serveAll_run sound_initial h.sized h.fresh (fun _ _ => rfl) himport).1
  have hid : t.volumeID ≠ "" := by
    intro hempty
    have hchars := congrArg String.toList hempty
    rw [ImportRun.volumeID, String.toList_append] at hchars
    cases hchars
  obtain ⟨v, snap, hok, hname, hchunk, himported⟩ := himportRun.wp (importVolume_spec hsound hid h.new
    h.file_ne h.file_le h.chunk_nonneg h.chunk_le h.enough)
  obtain ⟨m, hm, hcount⟩ := himported.manifest
  obtain ⟨hsound', hlatest⟩ := between_keeps himported.sound (hname ▸ himported.latest) h.between hread
  have hlength := h.file_le
  exact ⟨v, snap, m, hok, hchunk, himported.volumeID.trans hname, hm, hcount,
    hreadRun.wp (readAll_spec hsound' hlatest (by omega))⟩

/-- Two chunks and a half, the last of zeroes; another volume is committed to before the file is read back on
another node. -/
def fiveBytes : ImportRun where
  before := []
  who := ⟨0, 0⟩
  uuid := "1"
  chunkSize := 2
  file := [1, 2, 3, 4, 0]
  turns := 6
  later := [(⟨1, 0⟩, .createVolume "other" 4 4), (⟨1, 0⟩, .startSession "other"),
    (⟨1, 0⟩, .commit (goRuntime.uuid 2) ⟨0, false⟩)]
  reader := ⟨2, 0⟩

theorem import_exact_fiveBytes :
    ∃ v snap m, (fiveBytes.imported goRuntime fun _ => plainNode).1 = .ok (some (v, snap)) ∧
      manifestAt goRuntime (fiveBytes.imported goRuntime fun _ => plainNode).2.objects snap.manifestKey =
        some m ∧ m.entries.length = 3 ∧
      (fiveBytes.readBack goRuntime fun _ => plainNode).1 = .ok [1, 2, 3, 4, 0] := by
  have hrun : (fiveBytes.readBack goRuntime fun _ => plainNode).2.hashed = [[0, 0], [3, 4], [1, 2]] ∧
      Between goRuntime (fun _ => plainNode) fiveBytes.volumeID
        (fiveBytes.imported goRuntime fun _ => plainNode).2 fiveBytes.later := by
    decide +kernel
  have hproper : fiveBytes.Proper goRuntime fun _ => plainNode := by
    refine ⟨by decide, by decide, by decide, by decide, by decide, ?_, List.nodup_nil, rfl, hrun.2, ?_⟩
    · exact fun _ h => nomatch h
    · rw [hrun.1]
      unfold NoCollision
      decide +kernel
  obtain ⟨v, snap, m, hok, hchunk, -, hm, hcount, hread⟩ := import_exact goRuntime _ fiveBytes hproper
  refine ⟨v, snap, m, hok, hm, ?_, hread⟩
  rw [hcount, hchunk]
  decide

end OrcaBlocks.Services
