/-
# OrcaBlocks.Storage.WriteFaults — what a `Write` that fails leaves behind.

`Write` replaces whole chunks: it takes the chunk, patches its part of the data into it, and rewrites the
overlay file in place. A call that fails before the file is touched loses nothing, and a file torn under a
chunk that was CLEAN is never looked at, because the chunk is marked only after the file was written. A
file torn under a chunk that was already DIRTY is the session's only copy of it: the readers pad it with
zeroes, so every byte of the chunk past the cut, acknowledged or not, becomes zero.

`Cut` says which positions a failed write has cut off so. `write_contained_iff` says that a failed write
stays inside its range EXACTLY if zero was an allowed value at each of them.
-/
import OrcaBlocks.Storage.CommitFaults

namespace OrcaBlocks.Storage

open OrcaBlocks.Lib Backend

variable {p : Nat} {tr : List (Op × Fault)} {w w' : World} {id : String} {j : Int64} {b : Bytes}
  {rs : List ChunkRange} {range : ChunkRange} {d : OverlayDir}

/-! ## Old or new -/

/-- The value `new` is one a write of `data` at `offset` may leave at `p` where `old` was: the old one, or
inside the range the byte of the data. -/
def OldOrNew (offset : Nat) (data : Bytes) (p : Nat) (old new : UInt8) : Prop :=
  new = old ∨ (offset ≤ p ∧ p < offset + data.length ∧ new = data.getD (p - offset) 0)

/-- A prefix of the data was stored. -/
theorem oldOrNew_patch_take {f : Nat → UInt8} {offset : Nat} {data : Bytes} (n p : Nat) :
    OldOrNew offset data p (f p) (patch 0 f offset (data.take n) p) := by
  unfold patch
  split
  · rename_i hin
    rw [List.length_take] at hin
    refine Or.inr ⟨hin.1, by omega, ?_⟩
    rw [List.getD_eq_getElem?_getD, List.getD_eq_getElem?_getD,
      List.getElem?_take_of_lt (by omega)]
  · exact Or.inl rfl

/-! ## Torn files -/

/-- The file a failing write left short: its chunk, and how many bytes it has. -/
def torn : Op × Fault → Option (Int64 × Nat)
  | (.writeFile _ index _, .wrote n) => some (index, n)
  | _ => none

/-- The run `tr` tore the file of a chunk that was dirty in `s`, and position `p` was past the cut. -/
def Cut (s : Session) (tr : List (Op × Fault)) (p : Nat) : Prop :=
  ∃ i n, (i, n) ∈ tr.filterMap torn ∧ (s.dirty.lookup i).isSome ∧
    Int64.ofNat (p / natOf s.volume.chunkSize) = i ∧ n ≤ p % natOf s.volume.chunkSize

theorem cut_append_left {s : Session} {tr₁ tr₂ : List (Op × Fault)} (h : tr₁.filterMap torn = []) :
    Cut s (tr₁ ++ tr₂) p ↔ Cut s tr₂ p := by
  rw [Cut, Cut, List.filterMap_append, h, List.nil_append]

theorem not_cut_of_nil {s : Session} (h : tr.filterMap torn = []) : ¬ Cut s tr p := by
  rintro ⟨i, n, hmem, -⟩
  rw [h] at hmem
  cases hmem

section Trace

variable {P : Platform} {who : Caller} {allowed : Fault → World → Op → Prop}

theorem Calm.filterMap_torn {α : Type} {x : M α} (hx : Calm x) {r : Except Err α}
    (hrun : (machine P allowed who).Runs x.run w tr r w') : tr.filterMap torn = [] := by
  rw [List.filterMap_eq_nil_iff]
  rintro ⟨o, f⟩ he
  have hcalm : o.Moves = false := hrun.only hx _ he
  cases o with
  | writeFile id index b => cases hcalm
  | _ => rfl

/-- A `WriteFile` can tear only its own file. -/
theorem torn_writeFile {i : Int64} {n : Nat} {res : Except Err Unit}
    (hrun : (machine P allowed who).Runs (perform (.writeFile id i b)) w tr res w')
    (h : (j, n) ∈ tr.filterMap torn) : j = i := by
  obtain ⟨f, -, rfl, -, -⟩ := runs_perform hrun
  cases f with
  | wrote m =>
    cases List.mem_singleton.mp h
    rfl
  | _ => cases h

/-- One `os.WriteFile`: it succeeds, it changes nothing, or it fails and leaves a prefix; and a trace
without a torn file means the prefix is the whole. -/
theorem writeFile_trace {i : Int64} {res : Except Err Unit}
    (hrun : (machine P allowed who).Runs (perform (.writeFile id i b)) w tr res w') :
    (∃ d, res = .ok () ∧ tr.filterMap torn = [] ∧ w.overlays (who.node, id) = some d ∧
      w' = writeOverlay w (who.node, id) d i b) ∨
    (∃ e, res = .error e ∧ w' = w ∧
      (tr.filterMap torn = [] ∨ w.overlays (who.node, id) = none)) ∨
    ∃ d n, res = .error .io ∧ w.overlays (who.node, id) = some d ∧
      w' = writeOverlay w (who.node, id) d i (b.take n) ∧
      (tr.filterMap torn = [(i, n)] ∨ tr.filterMap torn = [] ∧ n = b.length) := by
  obtain ⟨f, -, rfl, rfl, rfl⟩ := runs_perform hrun
  have hexec : (machine P allowed who).exec f w (.writeFile id i b) =
      execWriteFile f w (who.node, id) i b := rfl
  rw [hexec, execWriteFile]
  cases hd : w.overlays (who.node, id) with
  | none => exact Or.inr (Or.inl ⟨_, rfl, rfl, Or.inr rfl⟩)
  | some d =>
    cases f with
    | none => exact Or.inl ⟨d, rfl, rfl, rfl, rfl⟩
    | fail => exact Or.inr (Or.inl ⟨_, rfl, rfl, Or.inl rfl⟩)
    | kept keep => exact Or.inr (Or.inl ⟨_, rfl, rfl, Or.inl rfl⟩)
    | wrote n => exact Or.inr (Or.inr ⟨d, n, rfl, rfl, rfl, Or.inl rfl⟩)
    | late =>
      refine Or.inr (Or.inr ⟨d, b.length, rfl, rfl, ?_, Or.inr ⟨rfl, rfl⟩⟩)
      rw [List.take_length]
      rfl

end Trace

/-! ## A file rewritten under a chunk -/

section Overlay

variable {r : SessRef} {s : Session} {i : Int64}

/-- Rewriting a file changes what the session sees only if the chunk is dirty. -/
theorem chunkByte_writeOverlay (hd : w.overlays r = some d) (b : Bytes) (j : Int64) (q : Nat) :
    chunkByte (writeOverlay w r d i b) r s j q =
      if j = i ∧ (s.dirty.lookup i).isSome then b.getD q 0 else chunkByte w r s j q := by
  by_cases hj : j = i
  · subst hj
    by_cases hdirty : (s.dirty.lookup j).isSome
    · rw [if_pos ⟨rfl, hdirty⟩, chunkByte, if_pos hdirty, overlayFile_writeOverlay hd, if_pos rfl]
      simp
    · rw [if_neg fun h => hdirty h.2, chunkByte, if_neg hdirty, chunkByte, if_neg hdirty]
      rfl
  · rw [if_neg fun h => hj h.1, chunkByte, chunkByte, overlayFile_writeOverlay hd, if_neg hj]
    rfl

/-- Under a clean chunk nothing is seen. -/
theorem sessionByte_writeOverlay_of_clean (hd : w.overlays r = some d)
    (hclean : ¬ (s.dirty.lookup i).isSome) (b : Bytes) :
    sessionByte (writeOverlay w r d i b) r s = sessionByte w r s := by
  funext p
  rw [sessionByte, chunkByte_writeOverlay hd, if_neg fun h => hclean h.2]
  rfl

/-- Under a dirty chunk, a prefix of the patched chunk is seen up to the cut, and zeroes past it. -/
theorem sessionByte_writeOverlay_of_dirty {lo : Nat} {part : Bytes} (hd : w.overlays r = some d)
    (hdirty : (s.dirty.lookup i).isSome) (hlo : lo < 2 ^ 63)
    (hi : i.toInt = (lo / natOf s.volume.chunkSize : Nat))
    (hfit : lo % natOf s.volume.chunkSize + part.length ≤ natOf s.volume.chunkSize)
    (hpos : 0 < natOf s.volume.chunkSize) (n : Nat) (hp : p < 2 ^ 63) :
    sessionByte (writeOverlay w r d i ((overwrite
        (window (chunkByte w r s i) 0 (natOf s.volume.chunkSize))
        (lo % natOf s.volume.chunkSize) part).take n)) r s p =
      if Int64.ofNat (p / natOf s.volume.chunkSize) = i ∧ n ≤ p % natOf s.volume.chunkSize then 0
      else patch 0 (sessionByte w r s) lo part p := by
  -- what the whole chunk would give is known from storing it
  have hwhole := sessionByte_storeChunk hd hlo hi hfit hpos hp
  have hvol : (s.mark i).volume = s.volume := rfl
  rw [sessionByte, hvol, chunkByte_storeChunk hd] at hwhole
  rw [sessionByte, chunkByte_writeOverlay hd, List.getD_eq_getElem?_getD, List.getElem?_take]
  by_cases hj : Int64.ofNat (p / natOf s.volume.chunkSize) = i
  · rw [if_pos hj] at hwhole
    rw [if_pos ⟨hj, hdirty⟩]
    by_cases hn : n ≤ p % natOf s.volume.chunkSize
    · rw [if_neg (Nat.not_lt.mpr hn), if_pos ⟨hj, hn⟩]
      rfl
    · rw [if_pos (Nat.lt_of_not_le hn), if_neg fun h => hn h.2, ← hwhole,
        List.getD_eq_getElem?_getD]
  · rw [if_neg hj] at hwhole
    rw [if_neg fun h => hj h.1, if_neg fun h => hj h.1, hwhole]

/-- A file that fits can be rewritten by one that fits. -/
theorem chunkIntact_writeOverlay (hd : w.overlays r = some d)
    (hb : (b.length : Int) ≤ s.volume.chunkSize.toInt) (h : ChunkIntact w r s j) :
    ChunkIntact (writeOverlay w r d i b) r s j := by
  intro hj
  rw [overlayFile_writeOverlay hd]
  split
  · exact ⟨_, rfl, by rwa [OverlayFile.write_data]⟩
  · exact h hj

theorem chunkPresent_writeOverlay (hd : w.overlays r = some d) (b : Bytes) (h : ChunkPresent w r s j) :
    ChunkPresent (writeOverlay w r d i b) r s j := by
  intro hj
  rw [overlayFile_writeOverlay hd]
  split
  · exact ⟨_, rfl⟩
  · exact h hj

end Overlay

/-! ## The loop of `Write`, up to the call that fails -/

section Loop

variable {P : Platform} {who : Caller} {allowed : Fault → World → Op → Prop} {r : SessRef} {s₀ s : Session}
  {w₀ : World} {offset lo : Nat} {data : Bytes}

/-- The loop at position `lo` with the ranges `rs` to go: no chunk ahead was touched, and no file was
lost. -/
structure WritingOn (P : Platform) (who : Caller) (r : SessRef) (s₀ : Session) (w₀ : World)
    (offset : Nat) (data : Bytes) (lo : Nat) (rs : List ChunkRange) (s : Session) (w : World) : Prop
    extends Writing P who r s₀ w₀ offset data lo s w where
  present : ∀ i, ChunkPresent w₀ r s₀ i → ChunkPresent w r s i
  fits : ∀ i, ChunkIntact w₀ r s₀ i → ChunkIntact w r s i
  ahead : ∀ range ∈ rs, ((s.dirty.lookup range.index).isSome ↔ (s₀.dirty.lookup range.index).isSome) ∧
    overlayFile w r range.index = overlayFile w₀ r range.index

/-- **What a failed `Write` leaves.** The files of the session are there and fit; a position that was cut
off is zero, every other one is old or new. -/
structure FailedWrite (r : SessRef) (s₀ : Session) (w₀ : World) (offset : Nat) (data : Bytes)
    (tr : List (Op × Fault)) (s : Session) (w : World) : Prop where
  session : w.sessions r = some s
  volume : s.volume = s₀.volume
  present : ∀ i, ChunkPresent w₀ r s₀ i → ChunkPresent w r s i
  fits : ∀ i, ChunkIntact w₀ r s₀ i → ChunkIntact w r s i
  kept : ∀ p < 2 ^ 63, ¬ Cut s₀ tr p →
    OldOrNew offset data p (sessionByte w₀ r s₀ p) (sessionByte w r s p)
  lost : ∀ p < 2 ^ 63, Cut s₀ tr p → sessionByte w r s p = 0 ∧ 0 < s₀.volume.chunkSize.toInt ∧
    ChunkPresent w₀ r s₀ (Int64.ofNat (p / natOf s₀.volume.chunkSize))

theorem WritingOn.read (h : WritingOn P who r s₀ w₀ offset data lo rs s w) (hf : ReadFrame who w w')
    (hc : Closed P w') : WritingOn P who r s₀ w₀ offset data lo rs s w' where
  toWriting := h.toWriting.read hf hc
  present := by simpa only [ChunkPresent, overlayFile, hf.overlays] using h.present
  fits := by simpa only [ChunkIntact, overlayFile, hf.overlays] using h.fits
  ahead := by simpa only [overlayFile, hf.overlays] using h.ahead

/-- The loop stops with nothing cut off. -/
theorem WritingOn.failed (h : WritingOn P who r s₀ w₀ offset data lo rs s w) (htr : ∀ p, ¬ Cut s₀ tr p) :
    FailedWrite r s₀ w₀ offset data tr s w where
  session := h.session
  volume := h.volume
  present := h.present
  fits := h.fits
  kept := by
    intro p hp _
    rw [h.bytes p hp]
    exact oldOrNew_patch_take _ p
  lost := fun p _ hcut => absurd hcut (htr p)

/-- The loop stops in a `WriteFile` that left something in the file of a clean chunk. -/
theorem WritingOn.failed_clean (h : WritingOn P who r s₀ w₀ offset data lo (range :: rs) s w)
    (hd : w.overlays r = some d) (hclean : ¬ (s.dirty.lookup range.index).isSome)
    (htr : ∀ i n, (i, n) ∈ tr.filterMap torn → i = range.index) :
    FailedWrite r s₀ w₀ offset data tr s (writeOverlay w r d range.index b) := by
  have hkeep : ∀ {j}, (s.dirty.lookup j).isSome →
      overlayFile (writeOverlay w r d range.index b) r j = overlayFile w r j := by
    intro j hj
    rw [overlayFile_writeOverlay hd, if_neg]
    rintro rfl
    exact hclean hj
  have hfailed : FailedWrite r s₀ w₀ offset data tr s w := h.failed fun p hcut => by
    obtain ⟨i, n, hmem, hdirty, -⟩ := hcut
    obtain rfl := htr i n hmem
    exact hclean ((h.ahead range List.mem_cons_self).1.mpr hdirty)
  refine ⟨h.session, h.volume, fun i hi hdirty => ?_, fun i hi hdirty => ?_, ?_, ?_⟩
  · rw [hkeep hdirty]
    exact h.present i hi hdirty
  · rw [hkeep hdirty]
    exact h.fits i hi hdirty
  · rw [sessionByte_writeOverlay_of_clean hd hclean]
    exact hfailed.kept
  · rw [sessionByte_writeOverlay_of_clean hd hclean]
    exact hfailed.lost

/-- **The loop stops in a `WriteFile` that left a prefix in the file of a dirty chunk.** -/
theorem WritingOn.failed_dirty {mid n : Nat}
    (h : WritingOn P who r s₀ w₀ offset data lo (range :: rs) s w) (hd : w.overlays r = some d)
    (hdirty : (s.dirty.lookup range.index).isSome) (hintact : ChunkIntact w r s range.index)
    (hcpos : 0 < s.volume.chunkSize.toInt) (hoff : offset ≤ lo) (hlt : lo < mid)
    (hdata : mid ≤ offset + data.length)
    (hsize : ((offset + data.length : Nat) : Int) ≤ s.volume.sizeBytes.toInt)
    (hi : range.index.toInt = (lo / natOf s.volume.chunkSize : Nat))
    (hfit : lo % natOf s.volume.chunkSize + (mid - lo) ≤ natOf s.volume.chunkSize)
    (htr : tr.filterMap torn = [(range.index, n)] ∨
      tr.filterMap torn = [] ∧ natOf s.volume.chunkSize ≤ n) :
    FailedWrite r s₀ w₀ offset data tr s (writeOverlay w r d range.index
      ((overwrite (window (chunkByte w r s range.index) 0 (natOf s.volume.chunkSize))
        (lo % natOf s.volume.chunkSize) (slice data (lo - offset) (mid - lo))).take n)) := by
  have hcs : (natOf s.volume.chunkSize : Int) = s.volume.chunkSize.toInt := natOf_cast (by omega)
  have hbound := (h.closed.fits h.session).bound
  have hpart : (slice data (lo - offset) (mid - lo)).length = mid - lo := by
    simp [slice]; omega
  have hahead := h.ahead range List.mem_cons_self
  -- what is cut off is what the torn file lacks
  have hcut : ∀ p, Cut s₀ tr p ↔ Int64.ofNat (p / natOf s.volume.chunkSize) = range.index ∧
      n ≤ p % natOf s.volume.chunkSize := by
    intro p
    have hmod : p % natOf s.volume.chunkSize < natOf s.volume.chunkSize :=
      Nat.mod_lt p (by omega)
    rw [Cut, ← h.volume]
    rcases htr with htr | ⟨htr, hn⟩
    · rw [htr]
      constructor
      · rintro ⟨i, n', hmem, -, hp⟩
        cases List.mem_singleton.mp hmem
        exact hp
      · rintro hp
        exact ⟨range.index, n, List.mem_singleton_self _, hahead.1.mp hdirty, hp⟩
    · rw [htr]
      constructor
      · rintro ⟨i, n', hmem, -⟩
        cases hmem
      · rintro ⟨-, hp⟩
        omega
  rw [← hpart] at hfit
  have hbytes : ∀ p < 2 ^ 63, _ := fun p hp =>
    sessionByte_writeOverlay_of_dirty hd hdirty (by omega) hi hfit (by omega) n hp
  refine ⟨h.session, h.volume, fun i hp => chunkPresent_writeOverlay hd _ (h.present i hp),
    fun i hp => chunkIntact_writeOverlay hd ?_ (h.fits i hp), fun p hp hno => ?_,
    fun p hp hyes => ?_⟩
  · rw [List.length_take, length_overwrite (by simpa using hfit), length_window]
    omega
  · rw [hbytes p hp, if_neg (mt (hcut p).mpr hno), patch_congr 0 _ _ (h.bytes p hp)]
    have hpatch := patch_take_slice 0 (sessionByte w₀ r s₀) data offset (lo - offset) (mid - lo)
      (by omega)
    rw [show offset + (lo - offset) = lo by omega] at hpatch
    rw [hpatch]
    exact oldOrNew_patch_take _ p
  · have hp' := (hcut p).mp hyes
    refine ⟨by rw [hbytes p hp, if_pos hp'], h.volume ▸ hcpos, ?_⟩
    rw [← h.volume, hp'.1]
    intro _
    obtain ⟨file, hfile, -⟩ := hintact hdirty
    exact ⟨file, by rw [← hahead.2, hfile]⟩

/-- **One turn of the loop.** -/
theorem WritingOn.store {mid : Nat} (h : WritingOn P who r s₀ w₀ offset data lo (range :: rs) s w)
    (hd : w.overlays r = some d) (hcpos : 0 < s.volume.chunkSize.toInt) (hoff : offset ≤ lo)
    (hlt : lo < mid) (hdata : mid ≤ offset + data.length)
    (hsize : ((offset + data.length : Nat) : Int) ≤ s.volume.sizeBytes.toInt)
    (hi : range.index.toInt = (lo / natOf s.volume.chunkSize : Nat))
    (hfit : lo % natOf s.volume.chunkSize + (mid - lo) ≤ natOf s.volume.chunkSize)
    (hnodup : ((range :: rs).map ChunkRange.index).Nodup) :
    WritingOn P who r s₀ w₀ offset data mid rs (s.mark range.index) (storeChunk w r d range.index
      (overwrite (window (chunkByte w r s range.index) 0 (natOf s.volume.chunkSize))
        (lo % natOf s.volume.chunkSize) (slice data (lo - offset) (mid - lo)))) := by
  have hcs : (natOf s.volume.chunkSize : Int) = s.volume.chunkSize.toInt := natOf_cast (by omega)
  have hpart : (slice data (lo - offset) (mid - lo)).length = mid - lo := by
    simp [slice]; omega
  refine ⟨h.toWriting.store hd hcpos hoff hlt hdata hsize hi hfit, fun i hp hdirty => ?_,
    fun i hp hdirty => ?_, fun range' hmem => ?_⟩
  · rw [overlayFile_storeChunk hd]
    split
    · exact ⟨_, rfl⟩
    · rename_i hne
      exact h.present i hp ((isSome_lookup_mark.mp hdirty).resolve_left hne)
  · rw [overlayFile_storeChunk hd]
    split
    · refine ⟨_, rfl, ?_⟩
      rw [OverlayFile.write_data, length_overwrite (by simp [hpart]; exact hfit), length_window]
      exact le_of_eq hcs
    · rename_i hne
      exact h.fits i hp ((isSome_lookup_mark.mp hdirty).resolve_left hne)
  · have hne : range'.index ≠ range.index := by
      intro heq
      rw [List.map_cons, List.nodup_cons] at hnodup
      exact hnodup.1 (heq ▸ List.mem_map_of_mem hmem)
    obtain ⟨hmark, hfile⟩ := h.ahead range' (List.mem_cons_of_mem _ hmem)
    rw [overlayFile_storeChunk hd, if_neg hne, isSome_lookup_mark]
    exact ⟨⟨fun hd' => hmark.mp (hd'.resolve_left hne), fun hd' => Or.inr (hmark.mpr hd')⟩, hfile⟩

/-- **The loop.** Induction on the tiling: what an earlier turn did is in the invariant, and the turn that
fails is one of the three ways a loop stops. -/
theorem writeRanges_trace (b : Backend) {hi : Nat} (hcpos : 0 < s₀.volume.chunkSize.toInt)
    (hsize : ((offset + data.length : Nat) : Int) ≤ s₀.volume.sizeBytes.toInt)
    (htiles : Tiles (natOf s₀.volume.chunkSize) lo hi rs) (hhi : hi = offset + data.length)
    (hoff : offset ≤ lo) (hnodup : (rs.map ChunkRange.index).Nodup)
    (h : WritingOn P who (who.node, id) s₀ w₀ offset data lo rs s w) {dataPos : Int64}
    (hpos : dataPos.toInt = (lo - offset : Nat)) {e : Err} (hrun : (machine P allowed who).Runs
      (writeRanges P b id s₀.volume data rs dataPos).run w tr (.error e) w') :
    ∃ s', FailedWrite (who.node, id) s₀ w₀ offset data tr s' w' := by
  have hbound := (h.closed.fits h.session).bound
  rw [h.volume] at hbound
  induction htiles generalizing s w dataPos tr with
  | nil hi => cases hrun
  | @cons lo mid hi range rs hs he hi' hc hlt hle hfit hrest ih =>
    have hpart : (range.reqEnd - range.reqStart).toInt = (mid - lo : Nat) := by
      rw [toInt_sub_of_bounds (by omega), he, hs]
      omega
    have hchunkNat : natOf range.chunkStart = lo % natOf s₀.volume.chunkSize := by
      rw [natOf, hc, Int.toNat_natCast]
    have hcpos' : 0 < s.volume.chunkSize.toInt := h.volume ▸ hcpos
    have hsize' : ((offset + data.length : Nat) : Int) ≤ s.volume.sizeBytes.toInt :=
      h.volume ▸ hsize
    rw [← h.volume] at hi' hfit hchunkNat
    unfold writeRanges at hrun
    rw [← h.volume] at hrun
    have hread : (machine P allowed who).wp
        (chunkToWrite P b id s.volume range.index).run _ w :=
      chunkToWrite_spec b h.closed h.session
    rcases runs_run_bind hrun with ⟨e', h₁, -⟩ | ⟨chunk, w₁, tr₁, tr₂, h₁, h₂, rfl⟩
    · -- the chunk could not be read
      obtain ⟨hf, hclosed, -⟩ := h₁.wp hread
      exact ⟨s, (h.read hf hclosed).failed fun p =>
        not_cut_of_nil ((calm_chunkToWrite P b id _ _).filterMap_torn h₁)⟩
    obtain ⟨hf₁, hclosed₁, -, hval₁⟩ := h₁.wp hread
    have htorn₁ := (calm_chunkToWrite P b id _ _).filterMap_torn h₁
    obtain ⟨rfl, hintact⟩ := hval₁ chunk rfl
    have hon := h.read hf₁ hclosed₁
    have hintact₁ : ChunkIntact w₁ (who.node, id) s range.index := by
      rw [ChunkIntact, overlayFile, hf₁.overlays]
      exact hintact
    dsimp only at h₂
    rw [hchunkNat, sliceOf_ok hpos hpart (by omega) (by omega), ← hf₁.chunkByte] at h₂
    obtain ⟨e', h', -⟩ | ⟨part, w', tr', tr'', h', h₂, rfl⟩ := runs_run_bind h₂
    · cases h'
    cases h'
    rcases runs_run_bind h₂ with ⟨e', h₃, -⟩ | ⟨u, w₂, tr₃, tr₄, h₃, h₄, rfl⟩
    · rcases writeFile_trace h₃ with ⟨d, hok, -⟩ | ⟨e'', -, rfl, htr⟩ | ⟨d, n, -, hd, rfl, htr⟩
      · cases hok
      · -- the file was not touched
        refine ⟨s, hon.failed fun p hcut => ?_⟩
        rw [cut_append_left htorn₁] at hcut
        rcases htr with htr | hnone
        · exact not_cut_of_nil htr hcut
        · -- the file of a dirty chunk was just read, so its directory is there
          obtain ⟨i, n, hmem, hdirty, -⟩ := hcut
          obtain rfl := torn_writeFile h₃ hmem
          obtain ⟨file, hfile, -⟩ :=
            hintact₁ ((h.ahead range List.mem_cons_self).1.mpr hdirty)
          rw [overlayFile, hnone] at hfile
          cases hfile
      · by_cases hdirty : (s.dirty.lookup range.index).isSome
        · refine ⟨s, hon.failed_dirty hd hdirty hintact₁ hcpos' hoff hlt (hhi ▸ hle) hsize' hi' hfit ?_⟩
          rw [List.filterMap_append, htorn₁, List.nil_append]
          refine htr.imp_right fun hpart => ⟨hpart.1, ?_⟩
          rw [hpart.2, length_overwrite (by simp [slice]; omega), length_window]
        · refine ⟨s, hon.failed_clean hd hdirty fun i n hmem => ?_⟩
          rw [List.filterMap_append, htorn₁, List.nil_append] at hmem
          exact torn_writeFile h₃ hmem
    · obtain ⟨d, -, htorn₃, hd, hw₂⟩ | ⟨e'', hok, -⟩ | ⟨d, n, hok, -⟩ := writeFile_trace h₃
      · -- the file is written; marking its chunk cannot fail
        have hmark : (machine P allowed who).wp (access (.setDirty id range.index)).run
            (fun res w' => res = .ok () ∧
              w' = w₂.modifySession (who.node, id) fun s => s.mark range.index) w₂ :=
          wp_access fun _ _ => ⟨rfl, rfl⟩
        rcases runs_run_bind h₄ with ⟨e', h₅, -⟩ | ⟨u, w₃, tr₅, tr₆, h₅, h₆, rfl⟩
        · cases (h₅.wp hmark).1
        have htorn₅ := (calm_access (o := .setDirty id range.index) rfl).filterMap_torn h₅
        have hw₃ := (h₅.wp hmark).2
        have hnext := hon.store hd hcpos' hoff hlt (hhi ▸ hle) hsize' hi' hfit hnodup
        rw [storeChunk, ← hw₂, ← hw₃] at hnext
        rw [h.volume] at h₆
        have hpos' : (dataPos + (range.reqEnd - range.reqStart)).toInt = (mid - offset : Nat) := by
          rw [toInt_add_of_bounds (by omega), hpos, hpart]
          omega
        obtain ⟨s', hfailed⟩ :=
          ih hhi (by omega) (List.nodup_cons.mp hnodup).2 hnext hpos' h₆
        refine ⟨s', hfailed.session, hfailed.volume, hfailed.present, hfailed.fits, ?_, ?_⟩
        · simpa only [List.nil_append, cut_append_left htorn₁, cut_append_left htorn₃, cut_append_left htorn₅]
            using hfailed.kept
        · simpa only [List.nil_append, cut_append_left htorn₁, cut_append_left htorn₃, cut_append_left htorn₅]
            using hfailed.lost
      · cases hok
      · cases hok

theorem WritingOn.start (hclosed : Closed P w) (hs : w.sessions r = some s) (offset : Nat)
    (data : Bytes) (rs : List ChunkRange) : WritingOn P who r s w offset data offset rs s w where
  toWriting := .start hclosed hs offset data
  present := fun _ h => h
  fits := fun _ h => h
  ahead := fun _ _ => ⟨Iff.rfl, rfl⟩

/-- **A `Write` with a valid range that fails**, whichever of its calls failed. -/
theorem write_trace (b : Backend) (hclosed : Closed P w) (hreg : w.registered (who.node, id) = true)
    (hs : w.sessions (who.node, id) = some s) {offset : Int64} (hlen : data.length < 2 ^ 63)
    (hrange : InRange s.volume offset (Int64.ofNat data.length)) {e : Err}
    (hrun : (machine P allowed who).Runs (Backend.write P b id offset data).run w tr (.error e) w') :
    Closed P w' ∧ WriteFrame who (who.node, id) w w' ∧
      ∃ s', FailedWrite (who.node, id) s w (natOf offset) data tr s' w' := by
  have hneg : ¬ (offset < 0 ∨ offset + Int64.ofNat data.length > s.volume.sizeBytes) := by
    rintro (h | h)
    · have := Int64.lt_iff_toInt_lt.mp h
      exact absurd hrange.1 (by simpa using this)
    · have hbound := s.volume.sizeBytes.toInt_lt
      have := Int64.lt_iff_toInt_lt.mp h
      rw [toInt_add_of_bounds (by have := hrange.1; have := hrange.2; omega)] at this
      have := hrange.2.2
      omega
  have hrun' := hrun
  unfold Backend.write at hrun'
  rcases runs_run_bind hrun' with ⟨e', h₁, -⟩ | ⟨volume, w₁, tr₁, tr₂, h₁, h₂, rfl⟩
  · cases h₁.wp (session_spec (Q := fun r _ => r = .ok s.volume) hreg hs rfl)
  obtain ⟨hvolume, rfl⟩ := h₁.wp (Q := fun r w' => r = .ok s.volume ∧ w' = w)
    (session_spec hreg hs ⟨rfl, rfl⟩)
  obtain rfl := Except.ok.inj hvolume
  have htorn₁ := (calm_session id).filterMap_torn h₁
  dsimp only at h₂
  rw [if_neg hneg] at h₂
  by_cases hcs : 0 < s.volume.chunkSize.toInt
  · obtain ⟨hframe, hclosed', -⟩ := hrun.wp (write_spec b hclosed hreg hs hcs hlen hrange)
    refine ⟨hclosed', hframe, ?_⟩
    obtain ⟨-, rs, hrs, htiles⟩ := accepted_of_inRange hcs (hclosed.fits hs).bound hrange
    rw [hrs] at h₂
    rw [natOf_ofNat hlen] at htiles
    have hsize : ((natOf offset + data.length : Nat) : Int) ≤ s.volume.sizeBytes.toInt := by
      have hle := hrange.2.2
      rw [toInt_ofNat hlen, ← natOf_cast hrange.1] at hle
      omega
    obtain ⟨s', hfailed⟩ := writeRanges_trace b hcs hsize htiles rfl (Nat.le_refl _)
      (chunkIndexes_nodup hrs) (.start hclosed hs (natOf offset) data rs) (by simp) h₂
    refine ⟨s', hfailed.session, hfailed.volume, hfailed.present, hfailed.fits, ?_, ?_⟩
    · simpa only [cut_append_left htorn₁] using hfailed.kept
    · simpa only [cut_append_left htorn₁] using hfailed.lost
  · -- without a positive chunk size every request is refused
    obtain ⟨text, hrefused⟩ :
        ∃ text, chunkIndexes offset (Int64.ofNat data.length) s.volume.chunkSize = .error (.errorf text []) :=
      chunkIndexes_error (by omega)
    rw [hrefused] at h₂
    cases h₂
    have hstart : WritingOn P who (who.node, id) s w' (natOf offset) data _ [] s w' :=
      .start hclosed hs _ data []
    refine ⟨hclosed, .refl who _ _, s, hstart.failed ?_⟩
    rw [List.append_nil]
    exact fun p => not_cut_of_nil htorn₁

end Loop

/-! ## Contained writes -/

/-- **The failed `Write` of `data` at `offset` that began in `w` and ended in `w'` stayed inside its
range.** In whatever later world has the data of `w'`, a `Read` that gave bytes in `w` gives bytes again,
each of them old or new, and so is each byte of a snapshot committed then. -/
structure Contained (P : Platform) (b : Backend) (who : Caller) (id : String) (s : Session) (w : World)
    (offset : Nat) (data : Bytes) (w' : World) : Prop where
  reads : ∀ w₂, Closed P w₂ → SameData w' w₂ → ∀ start length bytes,
    readOf P b who id w start length = .ok bytes →
      ∃ bytes', readOf P b who id w₂ start length = .ok bytes' ∧ bytes'.length = bytes.length ∧
        ∀ k < bytes.length,
          OldOrNew offset data (natOf start + k) (bytes.getD k 0) (bytes'.getD k 0)
  commits : ∀ w₂, Closed P w₂ → SameData w' w₂ → ∀ opts,
    NoCollision P (commitOf P b who id opts w₂).2.hashed →
      (AllIntact w (who.node, id) s → ∃ snap, (commitOf P b who id opts w₂).1 = .ok snap) ∧
      ∀ snap, (commitOf P b who id opts w₂).1 = .ok snap →
        ∃ v, (commitOf P b who id opts w₂).2.volumes s.volume.volumeID = some v ∧
          v.latestSnapshotID = snap.snapshotID ∧ ∀ start length bytes,
            readOf P b who id w start length = .ok bytes → ∀ k < bytes.length,
              OldOrNew offset data (natOf start + k) (bytes.getD k 0)
                (manifestByte (commitOf P b who id opts w₂).2 v
                  (latestOf P (commitOf P b who id opts w₂).2 v) (natOf start + k))

section Contained

variable {P : Platform} {b : Backend} {who : Caller} {s s' : Session} {offset : Nat} {data : Bytes}

/-- A position of the volume whose chunk has its file can be read. -/
theorem readOf_one (hclosed : Closed P w) (hreg : w.registered (who.node, id) = true)
    (hs : w.sessions (who.node, id) = some s) (hcs : 0 < s.volume.chunkSize.toInt)
    (hp : (p : Int) < s.volume.sizeBytes.toInt)
    (hpresent : ChunkPresent w (who.node, id) s (Int64.ofNat (p / natOf s.volume.chunkSize))) :
    readOf P b who id w (Int64.ofNat p) 1 = .ok [sessionByte w (who.node, id) s p] := by
  have hone : (1 : Int64).toInt = 1 := rfl
  have hbound := (hclosed.fits hs).bound
  have hpos : (Int64.ofNat p).toInt = p := toInt_ofNat (by omega)
  have hrange : InRange s.volume (Int64.ofNat p) 1 := ⟨by omega, by omega, by omega⟩
  refine (readOf_eq_ok_iff hclosed hreg hs).mpr ⟨⟨hcs, hrange⟩, fun rs hrs range hmem => ?_, ?_⟩
  · obtain ⟨-, rs', hrs', htiles⟩ := accepted_of_inRange hcs hbound hrange
    obtain rfl := Except.ok.inj (hrs.symm.trans hrs')
    obtain ⟨-, q, hlo, hhi, hindex⟩ := htiles.mem range hmem
    have hq : q = p := by
      rw [natOf_ofNat (by omega)] at hlo hhi
      have : natOf 1 = 1 := rfl
      omega
    have hr : range.index = Int64.ofNat (p / natOf s.volume.chunkSize) := by
      have hnat : natOf range.index = p / natOf s.volume.chunkSize := by
        rw [natOf, hindex, hq, Int.toNat_natCast]
      rw [← hnat, ofNat_natOf (hindex ▸ Int.natCast_nonneg _)]
    rw [hr]
    exact hpresent
  · rw [natOf_ofNat (by omega)]
    rfl

/-- Where nothing that mattered was cut off, the write stayed inside its range. -/
theorem FailedWrite.contained (hfailed : FailedWrite (who.node, id) s w offset data tr s' w')
    (hclosed : Closed P w) (hclosed' : Closed P w') (hreg : w.registered (who.node, id) = true)
    (hs : w.sessions (who.node, id) = some s) (hframe : WriteFrame who (who.node, id) w w')
    (hzero : ∀ p : Nat, (p : Int) < s.volume.sizeBytes.toInt → Cut s tr p →
      OldOrNew offset data p (sessionByte w (who.node, id) s p) 0) :
    Contained P b who id s w offset data w' := by
  have hsame : ∀ w₂, SameData w' w₂ → w₂.registered (who.node, id) = true ∧
      w₂.sessions (who.node, id) = some s' ∧
      (∀ i, ChunkPresent w₂ (who.node, id) s' i ↔ ChunkPresent w' (who.node, id) s' i) ∧
      (∀ i, ChunkIntact w₂ (who.node, id) s' i ↔ ChunkIntact w' (who.node, id) s' i) ∧
      sessionByte w₂ (who.node, id) s' = sessionByte w' (who.node, id) s' := by
    intro w₂ hdata
    refine ⟨?_, ?_, fun i => ?_, fun i => ?_, ?_⟩
    · rw [hdata.registered, hframe]
      exact hreg
    · rw [hdata.sessions, hfailed.session]
    · rw [ChunkPresent, ChunkPresent, overlayFile, overlayFile, hdata.overlays]
    · rw [ChunkIntact, ChunkIntact, overlayFile, overlayFile, hdata.overlays]
    · exact sessionByte_grow hclosed' (.of_eq hdata.objects hdata.snapshots) hfailed.session
        (by rw [hdata.overlays])
  -- inside the volume every byte is old or new
  have hbytes : ∀ p : Nat, (p : Int) < s.volume.sizeBytes.toInt →
      OldOrNew offset data p (sessionByte w (who.node, id) s p) (sessionByte w' (who.node, id) s' p) := by
    intro p hp
    have hlt : p < 2 ^ 63 := by
      have := s.volume.sizeBytes.toInt_lt
      omega
    by_cases hcut : Cut s tr p
    · rw [(hfailed.lost p hlt hcut).1]
      exact hzero p hp hcut
    · exact hfailed.kept p hlt hcut
  have hinside : ∀ {start length : Int64}, InRange s.volume start length → ∀ k < natOf length,
      ((natOf start + k : Nat) : Int) < s.volume.sizeBytes.toInt := by
    rintro start length ⟨ho, hl, hle⟩ k hk
    have := natOf_cast ho
    have := natOf_cast hl
    omega
  refine ⟨fun w₂ hclosed₂ hdata start length bytes hread => ?_,
    fun w₂ hclosed₂ hdata opts hcollision => ?_⟩
  · obtain ⟨hreg₂, hs₂, hpresent₂, -, hbytes₂⟩ := hsame w₂ hdata
    obtain ⟨hrange, hpresent, rfl⟩ := (readOf_eq_ok_iff hclosed hreg hs).mp hread
    refine ⟨_, (readOf_eq_ok_iff hclosed₂ hreg₂ hs₂).mpr ⟨by rwa [hfailed.volume], ?_, rfl⟩,
      by simp only [length_window], fun k hk => ?_⟩
    · intro rs hrs range hmem
      rw [hfailed.volume] at hrs
      exact (hpresent₂ _).mpr (hfailed.present _ (hpresent rs hrs range hmem))
    · rw [length_window] at hk
      rw [getD_window 0 _ hk, getD_window 0 _ hk, hbytes₂]
      exact hbytes _ (hinside hrange.2 k hk)
  · obtain ⟨hreg₂, hs₂, -, hintact₂, hbytes₂⟩ := hsame w₂ hdata
    obtain ⟨hok, hcommit⟩ := commitOf_spec (b := b) opts hclosed₂ hreg₂ hs₂ hcollision
    refine ⟨fun hintact => hok fun i => (hintact₂ i).mpr (hfailed.fits i (hintact i)),
      fun snap hsnap => ?_⟩
    obtain ⟨v, hv, hlatest, hcontent⟩ := hcommit snap hsnap
    rw [hfailed.volume] at hv hcontent
    refine ⟨v, hv, hlatest, fun start length bytes hread k hk => ?_⟩
    obtain ⟨hrange, -, rfl⟩ := (readOf_eq_ok_iff hclosed hreg hs).mp hread
    rw [length_window] at hk
    rw [getD_window 0 _ hk, hcontent hrange.1, hbytes₂]
    exact hbytes _ (hinside hrange.2 k hk)

end Contained

/-- **When a failed `Write` stays inside its range.** For every session, every `Write` with a valid range
and whichever of its calls fail: it does EXACTLY if each position of the volume that a torn file of a dirty
chunk has lost held a zero, or is one the write was to fill and was to fill with a zero. -/
theorem write_contained_iff (P : Platform) (b : Backend) (who : Caller) (id : String) (s : Session)
    (w w' : World) (offset : Int64) (data : Bytes) (tr : List (Op × Fault)) (e : Err)
    (hclosed : Closed P w) (hreg : w.registered (who.node, id) = true)
    (hs : w.sessions (who.node, id) = some s) (hlen : data.length < 2 ^ 63)
    (hrange : InRange s.volume offset (Int64.ofNat data.length))
    (hrun : (machine P (fun _ _ _ => True) who).Runs (b.write P id offset data).run w tr
      (.error e) w') :
    Contained P b who id s w (natOf offset) data w' ↔
      ∀ p : Nat, (p : Int) < s.volume.sizeBytes.toInt → Cut s tr p →
        OldOrNew (natOf offset) data p (sessionByte w (who.node, id) s p) 0 := by
  obtain ⟨hclosed', hframe, s', hfailed⟩ := write_trace b hclosed hreg hs hlen hrange hrun
  constructor
  · intro h p hp hcut
    have hlt : p < 2 ^ 63 := by
      have := s.volume.sizeBytes.toInt_lt
      omega
    obtain ⟨hlost, hcs, hpresent⟩ := hfailed.lost p hlt hcut
    have hcs' : 0 < s'.volume.chunkSize.toInt := hfailed.volume ▸ hcs
    have hp' : (p : Int) < s'.volume.sizeBytes.toInt := hfailed.volume ▸ hp
    have hpresent' := hfailed.present _ hpresent
    rw [← hfailed.volume] at hpresent'
    have hreg' : w'.registered (who.node, id) = true := by
      rw [hframe]
      exact hreg
    -- the position could be read before, and reads as zero now
    obtain ⟨bytes, hread, -, hone⟩ := h.reads w' hclosed' (.refl w') _ _ _
      (readOf_one hclosed hreg hs hcs hp hpresent)
    rw [readOf_one hclosed' hreg' hfailed.session hcs' hp' hpresent', hlost] at hread
    cases hread
    have hzero := hone 0 (by simp)
    rwa [natOf_ofNat hlt, Nat.add_zero] at hzero
  · exact hfailed.contained hclosed hclosed' hreg hs hframe

/-- A node whose outside calls may all fail. -/
abbrev anyFaultMachine : Machine sig World Fault := machine goRuntime (fun _ _ _ => True) ⟨0, 0⟩

/-- Every `WriteFile` truncates its file and fails. -/
def diskFull : Op → Fault
  | .writeFile _ _ _ => .wrote 0
  | _ => .none

/-- The `Write` of one byte to the session that wrote one byte. -/
abbrev writeByte (offset : Int64) (byte : UInt8) : Prog sig (Except Err Unit) :=
  (plainNode.write goRuntime (goRuntime.uuid 0) offset [byte]).run

/-- The run of it on a full disk. -/
def writeOnFullDisk (offset : Int64) (byte : UInt8) : Except Err Unit × World :=
  anyFaultMachine.run diskFull (writeByte offset byte) oneByteWritten

theorem runs_writeOnFullDisk (offset : Int64) (byte : UInt8) :
    anyFaultMachine.Runs (writeByte offset byte) oneByteWritten
      (anyFaultMachine.trace diskFull (writeByte offset byte) oneByteWritten)
      (writeOnFullDisk offset byte).1 (writeOnFullDisk offset byte).2 :=
  (runs_run_of_final (M := anyFaultMachine) rfl (K := fun _ => True)
    (fun _ _ _ => ⟨trivial, trivial⟩) _ oneByteWritten trivial).2

/-- The session's volume, and which of its two chunks are dirty. -/
theorem oneByteWritten_session : ∃ s, oneByteWritten.sessions (0, goRuntime.uuid 0) = some s ∧
    s.volume.sizeBytes = 8 ∧ s.volume.chunkSize = 4 ∧ s.dirty.lookup 1 = none := by
  have hmap : (oneByteWritten.sessions (0, goRuntime.uuid 0)).map (fun s =>
      (s.volume.sizeBytes, s.volume.chunkSize, s.dirty.lookup 1)) = some (8, 4, none) := by
    decide +kernel
  obtain ⟨s, hs, hdata⟩ := Option.map_eq_some_iff.mp hmap
  simp only [Prod.mk.injEq] at hdata
  exact ⟨s, hs, hdata⟩

/-- A file torn under a chunk that was clean: the write fails, and nothing is lost. -/
theorem write_contained_iff_cleanChunk :
    ∃ s, oneByteWritten.sessions (0, goRuntime.uuid 0) = some s ∧
      (writeOnFullDisk 4 2).1 = .error .io ∧
      Contained goRuntime plainNode ⟨0, 0⟩ (goRuntime.uuid 0) s oneByteWritten (natOf 4) [2]
        (writeOnFullDisk 4 2).2 := by
  obtain ⟨s, hs, hsize, hchunk, hclean⟩ := oneByteWritten_session
  have hfailed : (writeOnFullDisk 4 2).1 = .error .io := by decide +kernel
  have htorn : (anyFaultMachine.trace diskFull (writeByte 4 2) oneByteWritten).filterMap torn =
      [(1, 0)] := by decide +kernel
  have hrun := runs_writeOnFullDisk 4 2
  rw [hfailed] at hrun
  refine ⟨s, hs, hfailed, (write_contained_iff goRuntime plainNode ⟨0, 0⟩ (goRuntime.uuid 0) s
    oneByteWritten _ 4 [2] _ _ closed_oneByteWritten (by decide +kernel) hs (by decide)
    ⟨by decide, by decide, by rw [hsize]; decide⟩ hrun).mpr ?_⟩
  rintro p - ⟨i, n, hmem, hdirty, -⟩
  rw [htorn, List.mem_singleton] at hmem
  cases hmem
  rw [hclean] at hdirty
  cases hdirty

/-- **A failed `Write` that loses an acknowledged byte outside its range.** The session wrote a `1` at
position 0; a write of one byte at position 1 fails with the disk full, and position 0 reads as zero. -/
theorem write_loses_acknowledged_byte :
    ∃ s, oneByteWritten.sessions (0, goRuntime.uuid 0) = some s ∧
      (writeOnFullDisk 1 2).1 = .error .io ∧
      (readOf goRuntime plainNode ⟨0, 0⟩ (goRuntime.uuid 0) oneByteWritten 0 1 = .ok [1] ∧
        readOf goRuntime plainNode ⟨0, 0⟩ (goRuntime.uuid 0) (writeOnFullDisk 1 2).2 0 1 = .ok [0]) ∧
      ¬ Contained goRuntime plainNode ⟨0, 0⟩ (goRuntime.uuid 0) s oneByteWritten (natOf 1) [2]
        (writeOnFullDisk 1 2).2 := by
  obtain ⟨s, hs, hsize, -⟩ := oneByteWritten_session
  have hfailed : (writeOnFullDisk 1 2).1 = .error .io := by decide +kernel
  have hbefore : readOf goRuntime plainNode ⟨0, 0⟩ (goRuntime.uuid 0) oneByteWritten 0 1 =
      .ok [1] := by decide +kernel
  have hafter : readOf goRuntime plainNode ⟨0, 0⟩ (goRuntime.uuid 0) (writeOnFullDisk 1 2).2 0 1 =
      .ok [0] := by decide +kernel
  refine ⟨s, hs, hfailed, ⟨hbefore, hafter⟩, fun h => ?_⟩
  have hrun := runs_writeOnFullDisk 1 2
  rw [hfailed] at hrun
  obtain ⟨hclosed, -⟩ := write_trace plainNode closed_oneByteWritten (by decide +kernel) hs
    (by decide) ⟨by decide, by decide, by rw [hsize]; decide⟩ hrun
  obtain ⟨bytes, hread, -, hone⟩ := h.reads _ hclosed (.refl _) _ _ _ hbefore
  rw [hafter] at hread
  cases hread
  rcases hone 0 (by decide) with hold | ⟨hin, -⟩
  · exact absurd hold (by decide)
  · exact absurd hin (by decide)

end OrcaBlocks.Storage
