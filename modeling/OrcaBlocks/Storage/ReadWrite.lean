/-
# OrcaBlocks.Storage.ReadWrite — `Read` returns the session's bytes, `Write` replaces them.

Both functions walk the ranges `ChunkIndexes` cuts the request into. The walk is on `Tiles`: at
position `lo` of the request the part before `lo` is done. For `Read` the part done is a prefix of
the output; for `Write` it is a prefix of the data, patched over the bytes the session had.

A request is refused exactly when it is not a range inside the volume, and then nothing changes.
-/
import OrcaBlocks.Storage.Content

namespace OrcaBlocks.Storage

open OrcaBlocks.Lib Backend

variable {w w' w₀ : World} {r : SessRef} {s s₀ : Session} {i j offset : Int64} {lo : Nat} {id : String}
  {rs : List ChunkRange} {d : OverlayDir} {b data : Bytes}

/-- Inside one chunk, the bytes of the chunk are the bytes of the volume. -/
theorem window_chunkByte {n : Nat} (hi : i.toInt = (lo / natOf s.volume.chunkSize : Nat))
    (hfit : lo % natOf s.volume.chunkSize + n ≤ natOf s.volume.chunkSize) :
    window (chunkByte w r s i) (lo % natOf s.volume.chunkSize) n =
      window (sessionByte w r s) lo n := by
  generalize hcs : natOf s.volume.chunkSize = cs at hi hfit
  have hindex : i = Int64.ofNat (lo / cs) := by
    have hn : natOf i = lo / cs := by rw [natOf, hi, Int.toNat_natCast]
    rw [← hn, ofNat_natOf (hi ▸ Int.natCast_nonneg _)]
  have hsplit : lo / cs * cs + lo % cs = lo := Nat.div_add_mod' lo cs
  apply List.ext_getElem?
  intro k
  rw [getElem?_window, getElem?_window]
  by_cases hk : k < n
  · have hdiv : (lo + k) / cs = lo / cs := by
      apply Nat.div_eq_of_lt_le
      · omega
      · rw [Nat.succ_mul]; omega
    have hmod : (lo + k) % cs = lo % cs + k := by
      have := Nat.div_add_mod' (lo + k) cs
      rw [hdiv] at this
      omega
    simp only [hk, if_true, sessionByte, hcs, hdiv, hmod, hindex]
  · simp only [hk, if_false]

section Read

variable {P : Platform} {who : Caller} {allowed : Fault → World → Op → Prop}

/-- Every chunk of the ranges has its file, if the session wrote it. -/
def RangesPresent (w : World) (r : SessRef) (s : Session) (rs : List ChunkRange) : Prop :=
  ∀ range ∈ rs, ChunkPresent w r s range.index

/-- The loop of `Read`: what is before `lo` has been copied. -/
theorem readRanges_spec (b : Backend) {start hi : Nat} (hhi : (hi : Int) < 2 ^ 63)
    (htiles : Tiles (natOf s.volume.chunkSize) lo hi rs) (hstart : start ≤ lo)
    (hframe : ReadFrame who w₀ w) (hclosed : Closed P w) (hsession : w.sessions (who.node, id) = some s)
    {outPos : Int64} (hpos : outPos.toInt = (lo - start : Nat)) :
    (machine P allowed who).wp (readRanges P b id s.volume rs
        (window (sessionByte w₀ (who.node, id) s) start (lo - start) ++
          List.replicate (hi - lo) 0) outPos).run
      (Reads P who allowed (RangesPresent w₀ (who.node, id) s rs)
        (window (sessionByte w₀ (who.node, id) s) start (hi - start)) w₀) w := by
  induction htiles generalizing w outPos with
  | nil hi =>
    simp only [readRanges, Nat.sub_self, List.replicate_zero, List.append_nil]
    exact .succeed hframe hclosed (by simp [RangesPresent])
  | @cons lo mid hi r rs hs he hi' hc hlt hle hfit hrest ih =>
    have hpart : (r.reqEnd - r.reqStart).toInt = (mid - lo : Nat) := by
      rw [toInt_sub_of_bounds (by omega), he, hs]
      omega
    have hpartNat : natOf (r.reqEnd - r.reqStart) = mid - lo := by unfold natOf; omega
    have hchunkNat : natOf r.chunkStart = lo % natOf s.volume.chunkSize := by
      unfold natOf at hc ⊢; omega
    have hposNat : natOf outPos = lo - start := by unfold natOf; omega
    unfold readRanges
    refine wp_run_seq (resolveChunkRange_spec b hclosed hsession ?_ ?_) ?_
    · rw [hc]
      exact Int.natCast_nonneg _
    · rw [hchunkNat, hpartNat]
      exact hfit
    rintro res w₁ ⟨hf₁, hc₁, hq₁, hval₁⟩
    have hf := hframe.trans hf₁
    have hpresent : ChunkPresent w (who.node, id) s r.index ↔
        ChunkPresent w₀ (who.node, id) s r.index := by
      rw [ChunkPresent, ChunkPresent, overlayFile, overlayFile, hframe.overlays]
    cases res with
    | error e =>
      refine ⟨hf, hc₁, fun hq hfine => ?_, by rintro a ⟨⟩⟩
      cases hq₁ hq (hpresent.mpr (hfine r List.mem_cons_self))
    | ok part =>
      obtain ⟨rfl, hp⟩ := hval₁ part rfl
      rw [orElse_ok, wp_run_bind, wp_ofResult,
        sliceOf_ok hpos hpart (by simp; omega) (by omega), orElse_ok, hchunkNat, hpartNat,
        window_chunkByte hi' hfit, hframe.sessionByte]
      rw [List.take_of_length_le (by simp), hposNat,
        overwrite_window_append _ 0 hstart (Nat.le_of_lt hlt)]
      have hnext : (outPos + (r.reqEnd - r.reqStart)).toInt = (mid - start : Nat) := by
        rw [toInt_add_of_bounds (by omega), hpos, hpart]
        omega
      refine wp_mono (ih hhi (by omega) hf hc₁ (hf₁.sessions ▸ hsession) hnext) ?_
      rintro res w₂ ⟨hf₂, hc₂, hq₂, hval₂⟩
      refine ⟨hf₂, hc₂, fun hq hfine => hq₂ hq fun r' hr' =>
        hfine r' (List.mem_cons_of_mem _ hr'), fun out hout => ⟨(hval₂ out hout).1, ?_⟩⟩
      exact List.forall_mem_cons.mpr ⟨hpresent.mp hp, (hval₂ out hout).2⟩

/-- `b.session`, on a registered session. -/
theorem session_spec {Q : Except Err Volume → World → Prop} (hreg : w.registered (who.node, id) = true)
    (hs : w.sessions (who.node, id) = some s) (h : Q (.ok s.volume) w) :
    (machine P allowed who).wp (Backend.session id).run Q w := by
  unfold Backend.session
  rw [wp_run_bind]
  refine wp_access fun f _ => ?_
  simp only [exec, hreg, hs, if_true, Option.map_some, orElse_ok]
  exact h

/-- `b.session`, on an id that is not registered. -/
theorem session_unknown {Q : Except Err Volume → World → Prop}
    (hreg : w.registered (who.node, id) = false) (h : Q (.error .notFound) w) :
    (machine P allowed who).wp (Backend.session id).run Q w := by
  unfold Backend.session
  rw [wp_run_bind]
  refine wp_access fun f _ => ?_
  simp only [exec, hreg, orElse_ok]
  exact h

/-- Every chunk of a request has its file, if the session wrote it. -/
def RequestPresent (w : World) (r : SessRef) (s : Session) (offset length : Int64) : Prop :=
  ∀ rs, chunkIndexes offset length s.volume.chunkSize = .ok rs → RangesPresent w r s rs

/-- **`Read`**, inside the volume. -/
theorem read_spec (b : Backend) (hclosed : Closed P w) (hreg : w.registered (who.node, id) = true)
    (hs : w.sessions (who.node, id) = some s) (hcs : 0 < s.volume.chunkSize.toInt) {length : Int64}
    (hrange : InRange s.volume offset length) :
    (machine P allowed who).wp (Backend.read P b id offset length).run
      (Reads P who allowed (RequestPresent w (who.node, id) s offset length)
        (window (sessionByte w (who.node, id) s) (natOf offset) (natOf length)) w) w := by
  have hbound := hclosed.fits hs
  obtain ⟨hcheck, rs, hrs, htiles⟩ := accepted_of_inRange hcs hbound.bound hrange
  obtain ⟨ho, hl, hle⟩ := hrange
  have hbound := hbound.bound
  have hoff : (natOf offset : Int) = offset.toInt := natOf_cast ho
  have hlen : (natOf length : Int) = length.toInt := natOf_cast hl
  unfold Backend.read
  rw [wp_run_bind]
  refine session_spec hreg hs ?_
  rw [orElse_ok, if_neg hcheck, wp_run_bind, wp_ofResult, hrs, orElse_ok]
  have hzero : zeroChunk length = window (sessionByte w (who.node, id) s) (natOf offset)
      (natOf offset - natOf offset) ++
        List.replicate (natOf offset + natOf length - natOf offset) 0 := by
    simp [zeroChunk, natOf]
  rw [hzero]
  refine wp_mono (readRanges_spec b (by omega) htiles (Nat.le_refl _) (.refl who w) hclosed
    hs (by simp)) ?_
  rintro r w' ⟨hf, hc, hq, hval⟩
  rw [Nat.add_sub_cancel_left] at hq hval
  refine ⟨hf, hc, fun hquiet hfine => hq hquiet (hfine rs hrs), fun out hout => ⟨(hval out hout).1, ?_⟩⟩
  intro rs' hrs'
  obtain rfl := Except.ok.inj (hrs.symm.trans hrs')
  exact (hval out hout).2

/-- `Read` of anything else fails and changes nothing. -/
theorem read_refused (b : Backend) (hreg : w.registered (who.node, id) = true)
    (hs : w.sessions (who.node, id) = some s) {length : Int64}
    (hrange : s.volume.chunkSize.toInt ≤ 0 ∨ ¬ InRange s.volume offset length) :
    (machine P allowed who).wp (Backend.read P b id offset length).run
      (fun r w' => w' = w ∧ ∃ text, r = .error (.errorf text [])) w := by
  unfold Backend.read
  rw [wp_run_bind]
  refine session_spec hreg hs ?_
  rw [orElse_ok]
  by_cases hcheck : offset + length > s.volume.sizeBytes
  · rw [if_pos hcheck]
    exact ⟨rfl, _, rfl⟩
  · obtain ⟨e, he⟩ := refused_of_not_inRange hrange hcheck
    rw [if_neg hcheck, wp_run_bind, wp_ofResult, he]
    exact ⟨rfl, _, rfl⟩

end Read

/-! ## Writing -/

section Write

variable {P : Platform} {who : Caller} {allowed : Fault → World → Op → Prop}

/-- The overlay directory is there and every chunk the session wrote is in it and fits. -/
structure Intact (w : World) (r : SessRef) (s : Session) : Prop where
  dir : (w.overlays r).isSome
  chunk : ∀ i, ChunkIntact w r s i

theorem Intact.present (h : Intact w r s) (offset length : Int64) :
    RequestPresent w r s offset length := by
  intro rs _ range _ hdirty
  obtain ⟨file, hfile, -⟩ := h.chunk range.index hdirty
  exact ⟨file, hfile⟩

/-- What a write of session `r` may change. -/
def WriteFrame (who : Caller) (r : SessRef) (w w' : World) : Prop :=
  w' = { w with
    sessions := Function.update w.sessions r (w'.sessions r)
    overlays := Function.update w.overlays r (w'.overlays r)
    caches := Function.update w.caches who.node (w'.caches who.node)
    stats := w'.stats
    ticks := w'.ticks
    temps := w'.temps
    tempOwner := w'.tempOwner }

theorem WriteFrame.refl (who : Caller) (r : SessRef) (w : World) : WriteFrame who r w w := by
  simp [WriteFrame]

theorem WriteFrame.trans {w'' : World} (h : WriteFrame who r w w') (h' : WriteFrame who r w' w'') :
    WriteFrame who r w w'' := by
  unfold WriteFrame at *
  rw [h', h]
  simp

theorem ReadFrame.write (h : ReadFrame who w w') (r : SessRef) : WriteFrame who r w w' := by
  unfold ReadFrame at h
  unfold WriteFrame
  rw [h]
  simp

theorem writeFrame_writeOverlay (r : SessRef) (w : World) (d : OverlayDir) (i : Int64) (b : Bytes) :
    WriteFrame who r w (writeOverlay w r d i b) := by
  simp [WriteFrame, writeOverlay, World.setOverlay]

/-- The session with chunk `i` marked. -/
def Session.mark (s : Session) (i : Int64) : Session := { s with dirty := s.dirty.insert i () }

theorem isSome_lookup_mark :
    ((s.mark i).dirty.lookup j).isSome ↔ j = i ∨ (s.dirty.lookup j).isSome := by
  by_cases h : j = i
  · subst h
    simp [Session.mark, AList.lookup_insert]
  · simp [Session.mark, AList.lookup_insert_ne h, h]

theorem overlayFile_writeOverlay (hd : w.overlays r = some d) :
    overlayFile (writeOverlay w r d i b) r j =
      if j = i then some (OverlayFile.write (d i) b) else overlayFile w r j := by
  simp only [overlayFile, writeOverlay, World.setOverlay, Function.update_self, Option.bind_some, hd]
  by_cases h : j = i
  · subst h
    simp
  · simp [h]

@[simp] theorem OverlayFile.write_data (old : Option OverlayFile) (b : Bytes) :
    (OverlayFile.write old b).data = b := by
  cases old with
  | none => rfl
  | some f => rfl

/-- The world after chunk `i` was written and marked. -/
def storeChunk (w : World) (r : SessRef) (d : OverlayDir) (i : Int64) (b : Bytes) : World :=
  (writeOverlay w r d i b).modifySession r fun s => s.mark i

theorem overlayFile_storeChunk (hd : w.overlays r = some d) : overlayFile (storeChunk w r d i b) r j =
      if j = i then some (OverlayFile.write (d i) b) else overlayFile w r j :=
  overlayFile_writeOverlay hd

/-- **One chunk.** Exactly the bytes of chunk `i` become `b`. -/
theorem chunkByte_storeChunk (hd : w.overlays r = some d) (p : Nat) :
    chunkByte (storeChunk w r d i b) r (s.mark i) j p =
      if j = i then b.getD p 0 else chunkByte w r s j p := by
  by_cases h : j = i
  · subst h
    rw [if_pos rfl, chunkByte, if_pos (isSome_lookup_mark.mpr (Or.inl rfl)),
      overlayFile_storeChunk hd, if_pos rfl]
    simp
  · have hmark : ((s.mark i).dirty.lookup j).isSome ↔ (s.dirty.lookup j).isSome := by
      rw [isSome_lookup_mark]
      simp [h]
    rw [if_neg h, chunkByte, chunkByte, overlayFile_storeChunk hd, if_neg h]
    simp only [hmark]
    rfl

/-- **One range.** Storing a part of a chunk patches exactly the positions of the part. Positions
are below `2^63`: beyond, chunk indexes wrap. -/
theorem sessionByte_storeChunk {part : Bytes} (hd : w.overlays r = some d) (hlo : lo < 2 ^ 63)
    (hi : i.toInt = (lo / natOf s.volume.chunkSize : Nat))
    (hfit : lo % natOf s.volume.chunkSize + part.length ≤ natOf s.volume.chunkSize)
    (hpos : 0 < natOf s.volume.chunkSize) {p : Nat} (hp : p < 2 ^ 63) :
    sessionByte (storeChunk w r d i (overwrite
        (window (chunkByte w r s i) 0 (natOf s.volume.chunkSize))
        (lo % natOf s.volume.chunkSize) part)) r (s.mark i) p =
      patch 0 (sessionByte w r s) lo part p := by
  have hvol : (s.mark i).volume = s.volume := rfl
  rw [sessionByte, hvol, chunkByte_storeChunk hd]
  generalize hcs : natOf s.volume.chunkSize = cs at hi hfit hpos
  have hplt : p / cs < 2 ^ 63 := (Nat.div_le_self p cs).trans_lt hp
  have hllt : lo / cs < 2 ^ 63 := (Nat.div_le_self lo cs).trans_lt hlo
  have hindex : i = Int64.ofNat (lo / cs) := by
    have hn : natOf i = lo / cs := by rw [natOf, hi, Int.toNat_natCast]
    rw [← hn, ofNat_natOf (hi ▸ Int.natCast_nonneg _)]
  have hsame : Int64.ofNat (p / cs) = i ↔ p / cs = lo / cs := by
    rw [hindex]
    constructor
    · intro h
      rw [← natOf_ofNat hplt, ← natOf_ofNat hllt, h]
    · intro h
      rw [h]
  have hpsplit := Nat.div_add_mod' p cs
  have hlsplit := Nat.div_add_mod' lo cs
  have hpmod : p % cs < cs := Nat.mod_lt p hpos
  by_cases hj : p / cs = lo / cs
  · -- the position is in the chunk that was stored
    rw [if_pos (hsame.mpr hj), getD_overwrite 0 (by simpa using hfit)]
    rw [hj] at hpsplit
    unfold patch
    by_cases hin : lo ≤ p ∧ p < lo + part.length
    · rw [if_pos (by omega), if_pos hin, show p % cs - lo % cs = p - lo by omega]
    · rw [if_neg (by omega), if_neg hin]
      show (window (chunkByte w r s i) 0 cs).getD (p % cs) 0 = sessionByte w r s p
      rw [getD_window 0 _ hpmod, Nat.zero_add, sessionByte, hcs, hsame.mpr hj]
  · rw [if_neg (mt hsame.mp hj), patch, if_neg, sessionByte, hcs]
    rintro ⟨h₁, h₂⟩
    apply hj
    apply Nat.div_eq_of_lt_le
    · omega
    · rw [Nat.succ_mul]; omega

/-- Writing to an overlay file without marking it keeps the world closed. -/
theorem Closed.writeOverlay (h : Closed P w) (r : SessRef) (d : OverlayDir) (i : Int64) (b : Bytes) :
    Closed P (writeOverlay w r d i b) :=
  h.congr rfl rfl rfl rfl rfl rfl rfl fun n => (h.caches n).congr rfl rfl

/-- Marking a chunk of the volume keeps the world closed. -/
theorem Closed.storeChunk (h : Closed P w) (hs : w.sessions r = some s) (d : OverlayDir)
    (hin : InVolume s.volume i) (b : Bytes) : Closed P (storeChunk w r d i b) := by
  refine (h.writeOverlay r d i b).modifySession r _ ?_
  intro s' hs'
  obtain rfl : s' = s := Option.some.inj (hs'.symm.trans hs)
  obtain ⟨-, hbase, hdirty⟩ := h.sessions r s' hs
  refine ⟨rfl, hbase, ?_⟩
  intro j hj
  rcases isSome_lookup_mark.mp (Option.isSome_of_eq_some hj) with rfl | hold
  · exact hin
  · obtain ⟨u, hu⟩ := Option.isSome_iff_exists.mp hold
    exact hdirty j hu

theorem chunkToWrite_spec (b : Backend) (hclosed : Closed P w) (hs : w.sessions (who.node, id) = some s) :
    (machine P allowed who).wp (chunkToWrite P b id s.volume i).run
      (Reads P who allowed (ChunkIntact w (who.node, id) s i)
        (window (chunkByte w (who.node, id) s i) 0 (natOf s.volume.chunkSize)) w) w := by
  unfold chunkToWrite
  rw [wp_run_bind]
  refine wp_access fun f _ => ?_
  simp only [exec, hs, Option.bind_some, orElse_ok]
  by_cases hdirty : (s.dirty.lookup i).isSome
  · rw [if_pos hdirty]
    exact readDirtyChunk_spec hclosed hdirty
  · rw [if_neg hdirty]
    exact resolveChunk_spec b hclosed hs

/-- The outcome of a write of `data` at `offset`. -/
structure Wrote (P : Platform) (who : Caller) (allowed : Fault → World → Op → Prop) (r : SessRef)
    (s : Session) (w : World) (offset : Nat) (data : Bytes) (res : Except Err Unit) (w' : World) :
    Prop where
  frame : WriteFrame who r w w'
  closed : Closed P w'
  session : ∃ s', w'.sessions r = some s' ∧ s'.volume = s.volume ∧
    s'.baseManifest = s.baseManifest ∧ s'.baseSnapshotID = s.baseSnapshotID ∧
    (res = .ok () → (∀ p < 2 ^ 63, sessionByte w' r s' p = patch 0 (sessionByte w r s) offset data p) ∧
      (Intact w r s → Intact w' r s'))
  quiet : Quiet allowed → Intact w r s → res = .ok ()

/-- The state of the loop of `Write` at position `lo`: the data before `lo` is stored. -/
structure Writing (P : Platform) (who : Caller) (r : SessRef) (s₀ : Session) (w₀ : World)
    (offset : Nat) (data : Bytes) (lo : Nat) (s : Session) (w : World) : Prop where
  frame : WriteFrame who r w₀ w
  closed : Closed P w
  session : w.sessions r = some s
  volume : s.volume = s₀.volume
  baseManifest : s.baseManifest = s₀.baseManifest
  baseSnapshotID : s.baseSnapshotID = s₀.baseSnapshotID
  bytes : ∀ p < 2 ^ 63,
    sessionByte w r s p = patch 0 (sessionByte w₀ r s₀) offset (data.take (lo - offset)) p
  intact : Intact w₀ r s₀ → Intact w r s

/-- Reading in between does not disturb the loop. -/
theorem Writing.read {offset : Nat} (h : Writing P who r s₀ w₀ offset data lo s w)
    (hf : ReadFrame who w w') (hc : Closed P w') : Writing P who r s₀ w₀ offset data lo s w' where
  frame := h.frame.trans (hf.write r)
  closed := hc
  session := hf.sessions ▸ h.session
  volume := h.volume
  baseManifest := h.baseManifest
  baseSnapshotID := h.baseSnapshotID
  bytes := by rw [hf.sessionByte]; exact h.bytes
  intact := by
    intro h₀
    obtain ⟨hdir, hchunk⟩ := h.intact h₀
    refine ⟨hf.overlays ▸ hdir, ?_⟩
    simpa only [ChunkIntact, overlayFile, hf.overlays] using hchunk

/-- **One turn of the loop.** -/
theorem Writing.store {offset mid : Nat} (h : Writing P who r s₀ w₀ offset data lo s w)
    (hd : w.overlays r = some d) (hcpos : 0 < s.volume.chunkSize.toInt) (hoff : offset ≤ lo)
    (hlt : lo < mid) (hdata : mid ≤ offset + data.length)
    (hsize : ((offset + data.length : Nat) : Int) ≤ s.volume.sizeBytes.toInt)
    (hi : i.toInt = (lo / natOf s.volume.chunkSize : Nat))
    (hfit : lo % natOf s.volume.chunkSize + (mid - lo) ≤ natOf s.volume.chunkSize) :
    Writing P who r s₀ w₀ offset data mid (s.mark i) (storeChunk w r d i
      (overwrite (window (chunkByte w r s i) 0 (natOf s.volume.chunkSize))
        (lo % natOf s.volume.chunkSize) (slice data (lo - offset) (mid - lo)))) := by
  have hcs : (natOf s.volume.chunkSize : Int) = s.volume.chunkSize.toInt := natOf_cast (by omega)
  have hbound := h.closed.fits h.session
  have hbound := hbound.bound
  have hpart : (slice data (lo - offset) (mid - lo)).length = mid - lo := by
    simp [slice]; omega
  refine ⟨?_, ?_, ?_, h.volume, h.baseManifest, h.baseSnapshotID, ?_, ?_⟩
  · refine h.frame.trans ?_
    simp [WriteFrame, storeChunk, writeOverlay, World.setOverlay, World.modifySession]
  · exact h.closed.storeChunk h.session d (inVolume_of_lt hcpos hi (by omega)) _
  · simp [storeChunk, writeOverlay, World.setOverlay, World.modifySession, h.session]
  · intro p hp
    rw [sessionByte_storeChunk hd (by omega) hi (by rw [hpart]; exact hfit) (by omega) hp,
      patch_congr 0 _ _ (h.bytes p hp)]
    have hpatch := patch_take_slice 0 (sessionByte w₀ r s₀) data offset (lo - offset) (mid - lo)
      (by omega)
    rw [show offset + (lo - offset) = lo by omega,
      show lo - offset + (mid - lo) = mid - offset by omega] at hpatch
    rw [hpatch]
  · intro h₀
    obtain ⟨-, hchunk⟩ := h.intact h₀
    refine ⟨by simp [storeChunk, writeOverlay, World.setOverlay, World.modifySession], ?_⟩
    intro j hj
    rw [overlayFile_storeChunk hd]
    by_cases hji : j = i
    · rw [if_pos hji]
      refine ⟨_, rfl, ?_⟩
      rw [OverlayFile.write_data, length_overwrite (by simp [hpart]; exact hfit), length_window]
      exact le_of_eq hcs
    · rw [if_neg hji]
      rcases isSome_lookup_mark.mp hj with h' | h'
      · exact absurd h' hji
      · exact hchunk j h'

/-- A loop that stops early has still kept the world closed and its effects to the session. -/
theorem Writing.stop {offset : Nat} (h : Writing P who r s₀ w₀ offset data lo s w)
    (hf : WriteFrame who r w w') (hc : Closed P w') (hs : w'.sessions r = some s) {e : Err}
    (hq : Quiet allowed → ¬ Intact w r s) : Wrote P who allowed r s₀ w₀ offset data (.error e) w' where
  frame := h.frame.trans hf
  closed := hc
  session := ⟨s, hs, h.volume, h.baseManifest, h.baseSnapshotID, by rintro ⟨⟩⟩
  quiet := fun hquiet h₀ => absurd (h.intact h₀) (hq hquiet)

/-- The session `s'` has the marks of `s` and one for each range. -/
structure Marks (rs : List ChunkRange) (s s' : Session) : Prop where
  kept : ∀ i, (s.dirty.lookup i).isSome → (s'.dirty.lookup i).isSome
  marked : ∀ r ∈ rs, (s'.dirty.lookup r.index).isSome

theorem Marks.cons {r : ChunkRange} {s' : Session} (h : Marks rs (s.mark r.index) s') :
    Marks (r :: rs) s s' where
  kept := fun i hi => h.kept i (isSome_lookup_mark.mpr (Or.inr hi))
  marked := List.forall_mem_cons.mpr ⟨h.kept _ (isSome_lookup_mark.mpr (Or.inl rfl)), h.marked⟩

theorem writeRanges_marking (b : Backend) {offset : Nat} (hcpos : 0 < s₀.volume.chunkSize.toInt)
    (hsize : ((offset + data.length : Nat) : Int) ≤ s₀.volume.sizeBytes.toInt) {hi : Nat}
    (htiles : Tiles (natOf s₀.volume.chunkSize) lo hi rs) (hhi : hi = offset + data.length)
    (hoff : offset ≤ lo) (h : Writing P who (who.node, id) s₀ w₀ offset data lo s w) {dataPos : Int64}
    (hpos : dataPos.toInt = (lo - offset : Nat)) :
    (machine P allowed who).wp
      (writeRanges P b id s₀.volume data rs dataPos).run
      (fun res w' => Wrote P who allowed (who.node, id) s₀ w₀ offset data res w' ∧
        (res = .ok () → ∃ s', w'.sessions (who.node, id) = some s' ∧ Marks rs s s')) w := by
  have hbound := h.closed.fits h.session
  rw [h.volume] at hbound
  have hbound := hbound.bound
  induction htiles generalizing s w dataPos with
  | nil hi =>
    have hbytes := h.bytes
    rw [hhi, Nat.add_sub_cancel_left, List.take_length] at hbytes
    exact ⟨⟨h.frame, h.closed, ⟨s, h.session, h.volume, h.baseManifest, h.baseSnapshotID,
      fun _ => ⟨hbytes, h.intact⟩⟩, fun _ _ => rfl⟩,
      fun _ => ⟨s, h.session, fun _ hi => hi, fun _ hr => by cases hr⟩⟩
  | @cons lo mid hi r rs hs he hi' hc hlt hle hfit hrest ih =>
    have hpart : (r.reqEnd - r.reqStart).toInt = (mid - lo : Nat) := by
      rw [toInt_sub_of_bounds (by omega), he, hs]
      omega
    have hchunkNat : natOf r.chunkStart = lo % natOf s₀.volume.chunkSize := by
      rw [natOf, hc, Int.toNat_natCast]
    unfold writeRanges
    rw [wp_run_bind, ← h.volume]
    refine wp_mono (chunkToWrite_spec b h.closed h.session) ?_
    rintro res w₁ ⟨hf₁, hc₁, hq₁, hval₁⟩
    have h₁ := h.read hf₁ hc₁
    cases res with
    | error e =>
      refine ⟨h.stop (hf₁.write _) hc₁ h₁.session fun hq hintact => ?_, by rintro ⟨⟩⟩
      exact absurd (hq₁ hq (hintact.chunk r.index)) (by simp)
    | ok chunk =>
      obtain rfl := (hval₁ chunk rfl).1
      rw [orElse_ok, wp_run_bind, wp_ofResult,
        sliceOf_ok hpos hpart (by omega) (by omega), orElse_ok, hchunkNat, ← h.volume,
        ← hf₁.chunkByte, wp_run_bind]
      have hsize' : ((offset + data.length : Nat) : Int) ≤ s.volume.sizeBytes.toInt :=
        h.volume ▸ hsize
      rw [← h.volume] at hi' hfit
      refine wp_writeFile ?_ ?_ ?_ ?_
      · intro d hd
        rw [orElse_ok, wp_run_bind]
        refine wp_access fun f _ => ?_
        rw [orElse_ok, h.volume]
        have h₂ := h₁.store hd (h.volume ▸ hcpos) hoff hlt (hhi ▸ hle) hsize' hi' hfit
        rw [h.volume] at h₂
        refine wp_mono (ih hhi (by omega) h₂ ?_) ?_
        · rw [toInt_add_of_bounds (by omega), hpos, hpart]
          omega
        · rintro res w' ⟨hwrote, hmarks⟩
          refine ⟨hwrote, fun hok => ?_⟩
          obtain ⟨s', hs', hmarks⟩ := hmarks hok
          exact ⟨s', hs', hmarks.cons⟩
      · intro hnone
        refine ⟨h₁.stop (.refl who _ w₁) hc₁ h₁.session fun _ hintact => ?_, by rintro ⟨⟩⟩
        have hdir := hintact.dir
        rw [hnone] at hdir
        cases hdir
      · exact fun hq =>
          ⟨h₁.stop (.refl who _ w₁) hc₁ h₁.session fun h => absurd h hq, by rintro ⟨⟩⟩
      · exact fun hq d b' hd => ⟨h₁.stop (writeFrame_writeOverlay _ w₁ d _ b')
          (hc₁.writeOverlay _ d _ b') h₁.session fun h => absurd h hq, by rintro ⟨⟩⟩

theorem Writing.start (hclosed : Closed P w) (hs : w.sessions r = some s) (offset : Nat) (data : Bytes) :
    Writing P who r s w offset data offset s w where
  frame := .refl who r w
  closed := hclosed
  session := hs
  volume := rfl
  baseManifest := rfl
  baseSnapshotID := rfl
  bytes := by
    intro p _
    rw [Nat.sub_self, List.take_zero, patch, if_neg (by simp)]
  intact := fun h => h

/-- **`Write`**, inside the volume: exactly the positions of the data change, and their chunks are marked. -/
theorem write_marking (b : Backend) (hclosed : Closed P w) (hreg : w.registered (who.node, id) = true)
    (hs : w.sessions (who.node, id) = some s) (hcs : 0 < s.volume.chunkSize.toInt)
    (hlen : data.length < 2 ^ 63) (hrange : InRange s.volume offset (Int64.ofNat data.length)) :
    (machine P allowed who).wp (Backend.write P b id offset data).run
      (fun res w' => Wrote P who allowed (who.node, id) s w (natOf offset) data res w' ∧
        (res = .ok () → ∃ s' rs, w'.sessions (who.node, id) = some s' ∧ Marks rs s s' ∧
          Tiles (natOf s.volume.chunkSize) (natOf offset) (natOf offset + data.length) rs)) w := by
  obtain ⟨hcheck, rs, hrs, htiles⟩ := accepted_of_inRange hcs (hclosed.fits hs).bound hrange
  obtain ⟨ho, -, hle⟩ := hrange
  have hoff : (natOf offset : Int) = offset.toInt := natOf_cast ho
  rw [toInt_ofNat hlen] at hle
  have hneg : ¬ (offset < 0 ∨ offset + Int64.ofNat data.length > s.volume.sizeBytes) := by
    rintro (h | h)
    · have h0 : (0 : Int64).toInt = 0 := rfl
      have := Int64.lt_iff_toInt_lt.mp h
      omega
    · exact hcheck h
  unfold Backend.write
  rw [wp_run_bind]
  refine session_spec hreg hs ?_
  rw [orElse_ok]
  dsimp only
  rw [if_neg hneg, wp_run_bind, wp_ofResult, hrs, orElse_ok]
  rw [natOf_ofNat hlen] at htiles
  refine wp_mono (writeRanges_marking b hcs (by omega) htiles rfl (Nat.le_refl _)
    (.start hclosed hs (natOf offset) data) (by simp)) ?_
  rintro res w' ⟨hwrote, hmarks⟩
  refine ⟨hwrote, fun hok => ?_⟩
  obtain ⟨s', hs', hmarks⟩ := hmarks hok
  exact ⟨s', rs, hs', hmarks, htiles⟩

theorem write_spec (b : Backend) (hclosed : Closed P w) (hreg : w.registered (who.node, id) = true)
    (hs : w.sessions (who.node, id) = some s) (hcs : 0 < s.volume.chunkSize.toInt)
    (hlen : data.length < 2 ^ 63) (hrange : InRange s.volume offset (Int64.ofNat data.length)) :
    (machine P allowed who).wp (Backend.write P b id offset data).run
      (Wrote P who allowed (who.node, id) s w (natOf offset) data) w :=
  wp_mono (write_marking b hclosed hreg hs hcs hlen hrange) fun _ _ h => h.1

/-- `Write` of anything else fails and changes nothing. -/
theorem write_refused (b : Backend) (hreg : w.registered (who.node, id) = true)
    (hs : w.sessions (who.node, id) = some s)
    (hrange : ¬ InRange s.volume offset (Int64.ofNat data.length)) :
    (machine P allowed who).wp (Backend.write P b id offset data).run
      (fun r w' => w' = w ∧ ∃ text, r = .error (.errorf text [])) w := by
  unfold Backend.write
  rw [wp_run_bind]
  refine session_spec hreg hs ?_
  rw [orElse_ok]
  dsimp only
  by_cases hcheck : offset < 0 ∨ offset + Int64.ofNat data.length > s.volume.sizeBytes
  · rw [if_pos hcheck]
    exact ⟨rfl, _, rfl⟩
  · obtain ⟨e, he⟩ := refused_of_not_inRange (Or.inr hrange) fun h => hcheck (Or.inr h)
    rw [if_neg hcheck, wp_run_bind, wp_ofResult, he]
    exact ⟨rfl, _, rfl⟩

end Write

end OrcaBlocks.Storage
