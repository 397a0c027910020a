/-
# OrcaBlocks.Storage.Content — the bytes a session sees, and that chunk resolution returns them.

`chunkByte` says which byte a session has at a position of a chunk: from the overlay file if the
chunk is dirty, else from the object its base manifest names, else zero. The caches do not occur in
it. `resolveChunk` and `resolveChunkRange` go through the caches, and `resolveChunk_spec` and
`resolveChunkRange_spec` say that what they return is nevertheless exactly these bytes.

The results are about atomic runs, under whatever faults the machine allows.
-/
import OrcaBlocks.Storage.Atomic

namespace OrcaBlocks.Storage

open OrcaBlocks.Lib Backend

variable {w w' : World} {r : SessRef} {s : Session} {b data : Bytes} {fine : Prop} {id : String}
  {i : Int64}

/-! ## Bytes -/

/-- The bytes of the chunk object `id`; an object that is missing reads as zeroes. -/
def objectByte (w : World) (id : String) (p : Nat) : UInt8 :=
  ((w.objects (chunkKey id)).getD []).getD p 0

/-- The bytes a manifest gives to chunk `i`. -/
def manifestChunkByte (w : World) (m : Manifest) (i : Int64) (p : Nat) : UInt8 :=
  match m.lookup i with
  | some id => objectByte w id p
  | none => 0

/-- The bytes a session sees in chunk `i`. -/
def chunkByte (w : World) (r : SessRef) (s : Session) (i : Int64) (p : Nat) : UInt8 :=
  if (s.dirty.lookup i).isSome then
    (((overlayFile w r i).map OverlayFile.data).getD []).getD p 0
  else manifestChunkByte w s.baseManifest i p

/-- The byte of a session at a position of its volume. -/
def sessionByte (w : World) (r : SessRef) (s : Session) (p : Nat) : UInt8 :=
  chunkByte w r s (Int64.ofNat (p / natOf s.volume.chunkSize)) (p % natOf s.volume.chunkSize)

/-- The byte of a committed manifest at a position of a volume. -/
def manifestByte (w : World) (v : Volume) (m : Manifest) (p : Nat) : UInt8 :=
  manifestChunkByte w m (Int64.ofNat (p / natOf v.chunkSize)) (p % natOf v.chunkSize)

/-- With nothing dirty a session sees its base. -/
theorem sessionByte_of_clean (h : ∀ i, s.dirty.lookup i = none) (p : Nat) :
    sessionByte w r s p = manifestByte w s.volume s.baseManifest p := by
  unfold sessionByte manifestByte chunkByte
  rw [h]
  rfl

section Atomic

variable {P : Platform} {who : Caller} {allowed : Fault → World → Op → Prop}

/-! ## Resolving a chunk -/

/-- A closed world stays closed when only a cache changes and stays good. -/
theorem Closed.readFrame (h : Closed P w) (hframe : ReadFrame who w w')
    (hgood : CacheGood P w' who.node) : Closed P w' := by
  have hcaches : ∀ n, CacheGood P w' n := by
    intro n
    by_cases hn : n = who.node
    · exact hn ▸ hgood
    · refine (h.caches n).congr ?_ ?_
      · rw [hframe]
        exact Function.update_of_ne hn _ _
      · rw [hframe]
  refine h.congr ?_ ?_ ?_ ?_ ?_ ?_ ?_ hcaches
  all_goals rw [hframe]

theorem ReadFrame.chunkByte (h : ReadFrame who w w') (r : SessRef) (s : Session) :
    chunkByte w' r s = chunkByte w r s := by
  rw [h]
  rfl

theorem ReadFrame.sessionByte (h : ReadFrame who w w') (r : SessRef) (s : Session) :
    sessionByte w' r s = sessionByte w r s := by
  rw [h]
  rfl

theorem ReadFrame.sessions (h : ReadFrame who w w') : w'.sessions = w.sessions := by
  rw [h]

theorem ReadFrame.overlays (h : ReadFrame who w w') : w'.overlays = w.overlays := by
  rw [h]

theorem ReadFrame.objects (h : ReadFrame who w w') : w'.objects = w.objects := by
  rw [h]

/-- A chunk that fits is padded with zeroes to the chunk size. -/
theorem normalizeChunk_ok {chunkSize : Int64} (h : (b.length : Int) ≤ chunkSize.toInt) :
    normalizeChunk b chunkSize = .ok (window (fun p => b.getD p 0) 0 (natOf chunkSize)) := by
  have hle : b.length ≤ natOf chunkSize := by unfold natOf; omega
  rw [← padTo_eq_window 0 hle]
  unfold normalizeChunk
  split
  · rename_i heq
    have hn : natOf chunkSize - b.length = 0 := by unfold natOf; omega
    rw [padTo, hn]
    simp
  · rw [if_neg (by omega)]
    rfl

theorem normalizeChunk_error {chunkSize : Int64} (h : chunkSize.toInt < (b.length : Int)) :
    ∃ e, normalizeChunk b chunkSize = .error e := by
  unfold normalizeChunk
  rw [if_neg (by omega), if_pos (by omega)]
  exact ⟨_, rfl⟩

/-- The file of a session's overlay, read whole. -/
def overlayChunk (w : World) (r : SessRef) (index chunkSize : Int64) : Except Err Bytes :=
  match overlayFile w r index with
  | some file => normalizeChunk file.data chunkSize
  | none => .error .notExist

/-- The outcome of a function that only reads: the world stays closed, a quiet run succeeds where
`fine` holds and only there, and a success gives the value. -/
def Reads (P : Platform) (who : Caller) (allowed : Fault → World → Op → Prop) {α : Type}
    (fine : Prop) (value : α) (w : World) : Except Err α → World → Prop := fun r w' =>
  ReadFrame who w w' ∧ Closed P w' ∧ (Quiet allowed → fine → r = .ok value) ∧
    ∀ a, r = .ok a → a = value ∧ fine

theorem Reads.fail {α : Type} {value : α} (hf : ReadFrame who w w') (hc : Closed P w')
    (hq : ¬ Quiet allowed) (e : Err) : Reads P who allowed fine value w (.error e) w' :=
  ⟨hf, hc, fun h => absurd h hq, by rintro a ⟨⟩⟩

theorem Reads.succeed {α : Type} {value : α} (hf : ReadFrame who w w') (hc : Closed P w') (hfine : fine) :
    Reads P who allowed fine value w (.ok value) w' :=
  ⟨hf, hc, fun _ _ => rfl, by rintro a ⟨⟩; exact ⟨rfl, hfine⟩⟩

/-- Counting is reading. -/
theorem reads_count {c : Counter} {w₀ : World} {Q : Except Err Unit → World → Prop}
    (hf : ReadFrame who w₀ w) (hc : Closed P w)
    (h : ∀ w', ReadFrame who w₀ w' → Closed P w' → Q (.ok ()) w') :
    (machine P allowed who).wp (access (.count id c)).run Q w :=
  wp_count (fun w' hf' hg' => h w' (hf.trans hf') (hc.readFrame hf' hg')) (hc.caches _)

/-- Fetching a chunk that is in the store at full length returns it. -/
theorem fetchChunk_spec (b : Backend) (id : String) {volume : Volume} {chunkID : String}
    (hclosed : Closed P w) (hobject : w.objects (chunkKey chunkID) = some data)
    (hlen : (data.length : Int) = volume.chunkSize.toInt) :
    (machine P allowed who).wp (fetchChunk P b id volume chunkID).run
      (Reads P who allowed True (some data) w) w := by
  have hhash : Hashes P w.hashed chunkID data := hclosed.objects chunkID data hobject
  have hnorm : normalizeChunk data volume.chunkSize = .ok data := by
    rw [normalizeChunk, if_pos hlen]
  unfold fetchChunk
  rw [wp_run_bind]
  refine reads_count (.refl who w) hclosed fun w₁ hf₁ hc₁ => ?_
  rw [orElse_ok, wp_run_bind]
  refine wp_attempt (wp_storeGet ?_ ?_ ?_)
  · intro b' hb'
    obtain rfl : data = b' := by
      rw [hf₁.objects, hobject] at hb'
      exact Option.some.inj hb'
    rw [orElse_ok, wp_run_bind]
    refine reads_count hf₁ hc₁ fun w₂ hf₂ hc₂ => ?_
    rw [orElse_ok, wp_run_bind, wp_ofResult, hnorm, orElse_ok,
      wp_run_bind]
    have hhash₂ : Hashes P w₂.hashed chunkID data := by
      rw [hf₂]
      exact hhash
    refine wp_mono (atomic_cache (atomicContext.put_spec b.cache hhash₂)
      (hc₂.caches _)) ?_
    rintro r w₃ ⟨hframe, hgood, hq⟩
    have hf₃ := hf₂.trans hframe.read
    have hc₃ := hc₂.readFrame hframe.read hgood
    cases r with
    | ok u => exact .succeed hf₃ hc₃ trivial
    | error e => exact .fail hf₃ hc₃ (fun h => by cases hq h) e
  · intro hnone
    rw [hf₁.objects, hobject] at hnone
    cases hnone
  · intro hq
    exact .fail hf₁ hc₁ hq _

/-- The overlay holds the chunk, if the session says so, and it fits. -/
def ChunkIntact (w : World) (r : SessRef) (s : Session) (i : Int64) : Prop :=
  (s.dirty.lookup i).isSome → ∃ file, overlayFile w r i = some file ∧
    (file.data.length : Int) ≤ s.volume.chunkSize.toInt

/-- The bytes of a dirty chunk are those of its overlay file. -/
theorem chunkByte_of_dirty {file : OverlayFile} (hdirty : (s.dirty.lookup i).isSome)
    (hfile : overlayFile w r i = some file) : chunkByte w r s i = fun p => file.data.getD p 0 := by
  funext p
  rw [chunkByte, if_pos hdirty, hfile]
  rfl

theorem chunkByte_of_zero (hclean : ¬ (s.dirty.lookup i).isSome)
    (hbase : s.baseManifest.lookup i = none) : chunkByte w r s i = fun _ => 0 := by
  funext p
  rw [chunkByte, if_neg hclean, manifestChunkByte, hbase]

theorem chunkByte_of_base (hclean : ¬ (s.dirty.lookup i).isSome)
    (hbase : s.baseManifest.lookup i = some id) (hobject : w.objects (chunkKey id) = some data) :
    chunkByte w r s i = fun p => data.getD p 0 := by
  funext p
  rw [chunkByte, if_neg hclean, manifestChunkByte, hbase]
  simp only [objectByte, hobject, Option.getD_some]

theorem readDirtyChunk_spec (hclosed : Closed P w) (hdirty : (s.dirty.lookup i).isSome) :
    (machine P allowed who).wp (readDirtyChunk id i s.volume.chunkSize).run
      (Reads P who allowed (ChunkIntact w (who.node, id) s i)
        (window (chunkByte w (who.node, id) s i) 0 (natOf s.volume.chunkSize)) w) w := by
  unfold readDirtyChunk
  rw [wp_run_bind]
  refine wp_readFile ?_ ?_ ?_
  · intro file hfile
    rw [orElse_ok, wp_ofResult, chunkByte_of_dirty hdirty hfile]
    by_cases hfit : (file.data.length : Int) ≤ s.volume.chunkSize.toInt
    · rw [normalizeChunk_ok hfit]
      exact .succeed (.refl who w) hclosed fun _ => ⟨file, hfile, hfit⟩
    · obtain ⟨e, he⟩ := normalizeChunk_error (Int.not_le.mp hfit)
      rw [he]
      refine ⟨.refl who w, hclosed, fun _ hintact => ?_, by rintro a ⟨⟩⟩
      obtain ⟨file', hfile', hfit'⟩ := hintact hdirty
      rw [hfile, Option.some.injEq] at hfile'
      exact absurd (hfile' ▸ hfit') hfit
  · intro hnone
    refine ⟨.refl who w, hclosed, fun _ hintact => ?_, by rintro a ⟨⟩⟩
    obtain ⟨file, hfile, -⟩ := hintact hdirty
    rw [hnone] at hfile
    cases hfile
  · exact fun hq => .fail (.refl who w) hclosed hq _

/-- The chunk a base manifest names, found in the cache, is the one in the store. -/
theorem Closed.cached_eq (hclosed : Closed P w) (hobject : w.objects (chunkKey id) = some data)
    (hb : Hashes P w.hashed id b) : b = data :=
  hclosed.hashes_unique hb (hclosed.objects id data hobject)

/-- What looking a chunk up in the cache guarantees when it runs alone: nothing, or the part `cut`
of what hashes to the id. -/
def CacheLookup (P : Platform) (who : Caller) (allowed : Fault → World → Op → Prop)
    (cut : Bytes → Bytes) (lookup : String → M (Option Bytes)) : Prop :=
  ∀ chunkID, IsChunkID P chunkID → ∀ w, CacheGood P w who.node →
    (machine P allowed who).wp (lookup chunkID).run (fun r w' => CacheFrame who w w' ∧
      CacheGood P w' who.node ∧ (Quiet allowed → ∃ found, r = .ok found) ∧
        ∀ c, r = .ok (some c) → ∃ data, Hashes P w'.hashed chunkID data ∧ c = cut data) w

/-- Whichever way a chunk is resolved, the answer is the value its overlay file, its base chunk and
the zeroes agree on. -/
theorem resolveWith_spec (b : Backend) (cut : Bytes → Bytes) (hclosed : Closed P w)
    (hsession : w.sessions (who.node, id) = some s) {dirtyPart : M Bytes}
    {cachedPart : String → M (Option Bytes)} {hit : Bytes → M Bytes} {part : Bytes → Bytes}
    {zeroes value : Bytes} (hdirtyPart : (s.dirty.lookup i).isSome →
      (machine P allowed who).wp dirtyPart.run (Reads P who allowed fine value w) w)
    (hfine : ¬ (s.dirty.lookup i).isSome → fine) (hcached : CacheLookup P who allowed cut cachedPart)
    (hzero : ¬ (s.dirty.lookup i).isSome → s.baseManifest.lookup i = none → zeroes = value)
    (hbase : ∀ chunkID data, ¬ (s.dirty.lookup i).isSome → s.baseManifest.lookup i = some chunkID →
      w.objects (chunkKey chunkID) = some data → (data.length : Int) = s.volume.chunkSize.toInt →
        hit (cut data) = pure value ∧ part data = value) :
    (machine P allowed who).wp
      (resolveWith P b id s.volume i dirtyPart cachedPart hit part zeroes).run
      (Reads P who allowed fine value w) w := by
  unfold resolveWith
  rw [wp_run_bind]
  refine wp_access fun f _ => ?_
  simp only [exec, hsession, Option.bind_some, orElse_ok]
  by_cases hdirty : (s.dirty.lookup i).isSome
  · rw [if_pos hdirty]
    exact hdirtyPart hdirty
  · rw [if_neg hdirty, wp_run_bind]
    refine wp_access fun f _ => ?_
    simp only [exec, hsession, Option.bind_some, orElse_ok]
    cases hlookup : s.baseManifest.lookup i with
    | none =>
      rw [wp_run_bind]
      refine reads_count (.refl who w) hclosed fun w₁ hf₁ hc₁ => ?_
      rw [orElse_ok, wp_run_pure, hzero hdirty hlookup]
      exact .succeed hf₁ hc₁ (hfine hdirty)
    | some chunkID =>
      obtain ⟨data, hobject, hlen⟩ :=
        (hclosed.sessions _ s hsession).2.1.chunk i chunkID hlookup
      obtain ⟨hhit, hpart⟩ := hbase chunkID data hdirty hlookup hobject hlen
      have hid : IsChunkID P chunkID := ⟨data, (hclosed.objects chunkID data hobject).1⟩
      refine wp_run_seq (hcached chunkID hid w (hclosed.caches _)) ?_
      rintro r w₁ ⟨hframe, hgood, hq, hfound⟩
      have hf₁ := hframe.read
      have hc₁ := hclosed.readFrame hf₁ hgood
      have hobject₁ : w₁.objects (chunkKey chunkID) = some data := hf₁.objects ▸ hobject
      rcases r with e | _ | cached
      · exact .fail hf₁ hc₁ (fun h => by obtain ⟨_, h⟩ := hq h; cases h) e
      · -- not in the cache: fetch it
        rw [orElse_ok]
        refine wp_run_seq (fetchChunk_spec b id hc₁ hobject₁ hlen) ?_
        rintro r w₂ ⟨hf₂, hc₂, hq₂, hval₂⟩
        have hf := hf₁.trans hf₂
        cases r with
        | error e => exact .fail hf hc₂ (fun h => by cases hq₂ h trivial) e
        | ok found =>
          obtain rfl := (hval₂ found rfl).1
          rw [← hpart]
          exact .succeed hf hc₂ (hfine hdirty)
      · obtain ⟨data', hdata', rfl⟩ := hfound cached rfl
        obtain rfl : data' = data := hc₁.cached_eq hobject₁ hdata'
        rw [orElse_ok, wp_run_bind]
        refine reads_count hf₁ hc₁ fun w₂ hf₂ hc₂ => ?_
        rw [orElse_ok, hhit]
        exact .succeed hf₂ hc₂ (hfine hdirty)

/-- **`resolveChunk` returns the bytes the session sees.** -/
theorem resolveChunk_spec (b : Backend) (hclosed : Closed P w)
    (hsession : w.sessions (who.node, id) = some s) :
    (machine P allowed who).wp (resolveChunk P b id s.volume i).run
      (Reads P who allowed (ChunkIntact w (who.node, id) s i)
        (window (chunkByte w (who.node, id) s i) 0 (natOf s.volume.chunkSize)) w) w := by
  refine resolveWith_spec b (fun data => data) hclosed hsession
    (fun hdirty => readDirtyChunk_spec hclosed hdirty) (fun hclean hdirty => absurd hdirty hclean)
    ?_ ?_ ?_
  · intro chunkID hid w hgood
    refine wp_mono (atomic_cache (atomicContext.get_spec b.cache hid w) hgood) ?_
    rintro r w₁ ⟨hframe, hgood₁, hq, hfound⟩
    exact ⟨hframe, hgood₁, hq, fun c hc => ⟨c, hfound c hc, rfl⟩⟩
  · intro hdirty hlookup
    rw [chunkByte_of_zero hdirty hlookup, window_const]
    rfl
  · intro chunkID data hdirty hlookup hobject hlen
    have hn : natOf s.volume.chunkSize = data.length := by unfold natOf; omega
    have hvalue : window (chunkByte w (who.node, id) s i) 0 (natOf s.volume.chunkSize) = data := by
      rw [chunkByte_of_base hdirty hlookup hobject, hn, window_getD]
    refine ⟨?_, hvalue.symm⟩
    rw [hvalue, normalizeChunk, if_pos hlen]
    rfl

/-- The overlay holds a file for the chunk, if the session says so. A range of it can be read
whatever its length. -/
def ChunkPresent (w : World) (r : SessRef) (s : Session) (i : Int64) : Prop :=
  (s.dirty.lookup i).isSome → ∃ file, overlayFile w r i = some file

theorem readDirtyRange_spec {offset length : Int64} (hclosed : Closed P w)
    (hdirty : (s.dirty.lookup i).isSome) (hoffset : 0 ≤ offset.toInt)
    (hstop : offset.toInt + length.toInt < 2 ^ 63) :
    (machine P allowed who).wp (readDirtyRange id i offset length).run
      (Reads P who allowed (ChunkPresent w (who.node, id) s i)
        (window (chunkByte w (who.node, id) s i) (natOf offset) (natOf length)) w) w := by
  unfold readDirtyRange
  rw [wp_run_bind]
  refine wp_readFileAt hoffset hstop ?_ ?_ ?_
  · intro file hfile
    rw [chunkByte_of_dirty hdirty hfile, ← padTo_slice_eq_window]
    exact .succeed (.refl who w) hclosed fun _ => ⟨file, hfile⟩
  · intro hnone
    refine ⟨.refl who w, hclosed, fun _ hpresent => ?_, by rintro a ⟨⟩⟩
    obtain ⟨file, hfile⟩ := hpresent hdirty
    rw [hnone] at hfile
    cases hfile
  · exact fun hq => .fail (.refl who w) hclosed hq _

/-- **`resolveChunkRange` returns the bytes the session sees**, inside a chunk. -/
theorem resolveChunkRange_spec (b : Backend) {offset length : Int64} (hclosed : Closed P w)
    (hsession : w.sessions (who.node, id) = some s) (hoffset : 0 ≤ offset.toInt)
    (hfit : natOf offset + natOf length ≤ natOf s.volume.chunkSize) :
    (machine P allowed who).wp (resolveChunkRange P b id s.volume i offset length).run
      (Reads P who allowed (ChunkPresent w (who.node, id) s i)
        (window (chunkByte w (who.node, id) s i) (natOf offset) (natOf length)) w) w := by
  have hstop : offset.toInt + length.toInt < 2 ^ 63 := by
    have := natOf_lt s.volume.chunkSize
    unfold natOf at *
    omega
  refine resolveWith_spec b
    (fun data => window (fun p => data.getD p 0) (natOf offset) (natOf length)) hclosed
    hsession (fun hdirty => readDirtyRange_spec hclosed hdirty hoffset hstop)
    (fun hclean hdirty => absurd hdirty hclean) ?_ ?_ ?_
  · exact fun chunkID hid w hgood =>
      atomic_cache ((atomicContext.getRange_spec b.cache hid hoffset length w).mono fun _ _ h =>
        ⟨fun hq => h.1 hq hstop, h.2⟩) hgood
  · intro hdirty hlookup
    rw [chunkByte_of_zero hdirty hlookup, window_const]
    rfl
  · intro chunkID data hdirty hlookup hobject hlen
    have hn : natOf s.volume.chunkSize = data.length := by unfold natOf; omega
    rw [chunkByte_of_base hdirty hlookup hobject]
    exact ⟨rfl, slice_eq_window 0 (hn ▸ hfit)⟩

end Atomic

end OrcaBlocks.Storage
