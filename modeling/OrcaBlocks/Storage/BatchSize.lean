/-
# OrcaBlocks.Storage.BatchSize — a commit does not depend on the size of its batches.

A commit cuts its dirty chunks into batches; in each batch it READS every chunk before it uploads the
first. `Uploading.addAll` is one pass over all chunks without batches, and every way of cutting gives
what it gives (`commitBatches_quiet`): whether a chunk is uploaded depends on the chunks before it,
and these are the same. From the pass the totals and the manifest are read off by induction over the
chunks.

The batches show in ONE case. If the overlay cannot be read at some index, the commit fails whatever
the batches, but the chunks of the batches before are in the store by then
(`commit_batches_differ_when_unreadable`).

The two commits of the result may be given different UUIDs, clocks and map orders.
-/
import OrcaBlocks.Storage.QuietCache
import OrcaBlocks.Storage.Commit
import OrcaBlocks.Storage.GoRuntime

namespace OrcaBlocks.Storage

open OrcaBlocks.Lib Backend Function

variable {items : List (Int64 × Bytes)} {w w' : World} {r : Except Err Snapshot}

/-! ## One pass -/

theorem CommitBatchStats.add_assoc (a b c : CommitBatchStats) :
    (a.add b).add c = a.add (b.add c) := by
  simp [CommitBatchStats.add, Nat.add_assoc]

/-- What uploading changes: the store, the manifest under construction and the totals. -/
structure Uploading where
  objects : String → Option Bytes
  manifest : Manifest
  stats : CommitBatchStats

namespace Uploading

variable (P : Platform)

/-- One chunk: uploaded unless the store has one of its name. -/
def add (u : Uploading) (item : Int64 × Bytes) : Uploading :=
  if (u.objects (chunkKey (P.hash item.2))).isSome then
    { u with
      manifest := u.manifest.insert item.1 (P.hash item.2)
      stats := u.stats.add ⟨1, 0, 1, item.2.length⟩ }
  else
    { objects := update u.objects (chunkKey (P.hash item.2)) (some item.2)
      manifest := u.manifest.insert item.1 (P.hash item.2)
      stats := u.stats.add ⟨1, 1, 0, item.2.length⟩ }

/-- All chunks in order. -/
def addAll (u : Uploading) (items : List (Int64 × Bytes)) : Uploading := items.foldl (add P) u

variable {P} (u : Uploading)

@[simp] theorem addAll_nil : u.addAll P [] = u := rfl

@[simp] theorem addAll_cons (item : Int64 × Bytes) (items : List (Int64 × Bytes)) :
    u.addAll P (item :: items) = (u.add P item).addAll P items := rfl

theorem addAll_append (items items' : List (Int64 × Bytes)) :
    u.addAll P (items ++ items') = (u.addAll P items).addAll P items' := List.foldl_append

/-- The totals of a pass are added to those before it. -/
theorem addAll_stats (o : String → Option Bytes) (m : Manifest) (a b : CommitBatchStats)
    (items : List (Int64 × Bytes)) :
    (⟨o, m, a.add b⟩ : Uploading).addAll P items =
      { (⟨o, m, b⟩ : Uploading).addAll P items with
        stats := a.add ((⟨o, m, b⟩ : Uploading).addAll P items).stats } := by
  induction items generalizing o m b with
  | nil => rfl
  | cons item items ih =>
    simp only [addAll_cons, add]
    split
    · rw [CommitBatchStats.add_assoc, ih]
    · rw [CommitBatchStats.add_assoc, ih]

/-! ## What the pass computes -/

theorem add_objects (item : Int64 × Bytes) (id : String) :
    (u.add P item).objects (chunkKey id) =
      if id = P.hash item.2 ∧ u.objects (chunkKey id) = none then some item.2
      else u.objects (chunkKey id) := by
  unfold add
  split
  · rename_i hfound
    rw [if_neg]
    rintro ⟨rfl, hnone⟩
    simp [hnone] at hfound
  · rename_i hmissing
    by_cases hid : id = P.hash item.2
    · subst hid
      simp [Option.not_isSome_iff_eq_none.mp hmissing]
    · have hkey : chunkKey id ≠ chunkKey (P.hash item.2) := fun h => hid (chunkKey_injective h)
      simp [hid, update_of_ne hkey]

/-- Every chunk is counted once, as uploaded or as skipped. -/
theorem addAll_counts (items : List (Int64 × Bytes)) :
    (u.addAll P items).stats.chunks = u.stats.chunks + items.length ∧
      (u.addAll P items).stats.uploaded + (u.addAll P items).stats.skipped =
        u.stats.uploaded + u.stats.skipped + items.length ∧
      (u.addAll P items).stats.bytes = u.stats.bytes + (items.map fun item => item.2.length).sum := by
  induction items generalizing u with
  | nil => exact ⟨rfl, rfl, rfl⟩
  | cons item items ih =>
    obtain ⟨hchunks, hcounts, hbytes⟩ := ih (u.add P item)
    have hadd : (u.add P item).stats.chunks = u.stats.chunks + 1 ∧
        (u.add P item).stats.uploaded + (u.add P item).stats.skipped =
          u.stats.uploaded + u.stats.skipped + 1 ∧
        (u.add P item).stats.bytes = u.stats.bytes + item.2.length := by
      unfold add
      split
      · exact ⟨rfl, by simp only [CommitBatchStats.add]; omega, rfl⟩
      · exact ⟨rfl, by simp only [CommitBatchStats.add]; omega, rfl⟩
    simp only [addAll_cons, List.length_cons, List.map_cons, List.sum_cons]
    omega

/-- The distinct names of the chunks that a store lacks. -/
def missing (P : Platform) (objects : String → Option Bytes) (items : List (Int64 × Bytes)) :
    Finset String :=
  (items.map fun item => P.hash item.2).toFinset.filter fun id => objects (chunkKey id) = none

/-- One chunk is uploaded for each name the store lacked. -/
theorem addAll_uploaded (items : List (Int64 × Bytes)) :
    (u.addAll P items).stats.uploaded = u.stats.uploaded + (missing P u.objects items).card := by
  induction items generalizing u with
  | nil => rfl
  | cons item items ih =>
    rw [addAll_cons, ih]
    unfold missing
    rw [List.map_cons, List.toFinset_cons, Finset.filter_insert]
    by_cases hfound : (u.objects (chunkKey (P.hash item.2))).isSome
    · have hobjects : (u.add P item).objects = u.objects := by simp [add, hfound]
      have hcount : (u.add P item).stats.uploaded = u.stats.uploaded := by
        simp [add, hfound, CommitBatchStats.add]
      rw [hobjects, hcount, if_neg (by simpa using Option.isSome_iff_ne_none.mp hfound)]
    · have hnone := Option.not_isSome_iff_eq_none.mp hfound
      have hcount : (u.add P item).stats.uploaded = u.stats.uploaded + 1 := by
        simp [add, hfound, CommitBatchStats.add]
      rw [hcount, if_pos hnone]
      generalize (items.map fun item => P.hash item.2).toFinset = names
      -- this name was missing, and of the others those that are missing now
      have hsplit : insert (P.hash item.2) (names.filter fun id => u.objects (chunkKey id) = none) =
          insert (P.hash item.2) (names.filter fun id => (u.add P item).objects (chunkKey id) = none) := by
        ext id
        simp only [Finset.mem_insert, Finset.mem_filter, add_objects]
        by_cases hid : id = P.hash item.2
        · simp [hid]
        · simp [hid]
      rw [hsplit, Finset.card_insert_of_notMem]
      · omega
      · simp [add_objects, hnone]

/-- The manifest names the chunks at their indexes, and elsewhere what it named. -/
theorem addAll_lookup (hnodup : (items.map Prod.fst).Nodup) (i : Int64) :
    (u.addAll P items).manifest.lookup i =
      match items.lookup i with
      | some chunk => some (P.hash chunk)
      | none => u.manifest.lookup i := by
  induction items generalizing u with
  | nil => rfl
  | cons item items ih =>
    obtain ⟨index, chunk⟩ := item
    rw [List.map_cons, List.nodup_cons] at hnodup
    have hmanifest : (u.add P (index, chunk)).manifest = u.manifest.insert index (P.hash chunk) := by
      unfold add
      split
      · rfl
      · rfl
    rw [addAll_cons, ih _ hnodup.2, hmanifest]
    by_cases hi : i = index
    · have hnone : items.lookup i = none := by
        rw [List.lookup_eq_none_iff]
        intro p hp
        have hne : p.1 ≠ index := fun h => hnodup.1 (List.mem_map.mpr ⟨p, hp, h⟩)
        simpa [hi] using hne.symm
      rw [hnone, hi, List.lookup_cons_self]
      simp
    · rw [List.lookup_cons, beq_false_of_ne hi, AList.lookup_insert_ne hi]

end Uploading

/-! ## The overlay -/

section Overlay

variable (w : World) (r : SessRef) (chunkSize : Int64)

/-- The chunks of a list of indexes, as the overlay holds them. -/
def overlayItems : List Int64 → Except Err (List (Int64 × Bytes))
  | [] => .ok []
  | index :: rest => do
    let chunk ← overlayChunk w r index chunkSize
    let items ← overlayItems rest
    .ok ((index, chunk) :: items)

variable {w r chunkSize}

theorem overlayItems_append (indexes indexes' : List Int64) :
    overlayItems w r chunkSize (indexes ++ indexes') =
      (overlayItems w r chunkSize indexes).bind fun items =>
        (overlayItems w r chunkSize indexes').bind fun items' => .ok (items ++ items') := by
  induction indexes with
  | nil =>
    simp only [List.nil_append, overlayItems]
    cases overlayItems w r chunkSize indexes' with
    | error e => rfl
    | ok items => rfl
  | cons index rest ih =>
    simp only [List.cons_append, overlayItems, ih]
    cases overlayChunk w r index chunkSize with
    | error e => rfl
    | ok chunk =>
      cases overlayItems w r chunkSize rest with
      | error e => rfl
      | ok items =>
        cases overlayItems w r chunkSize indexes' with
        | error e => rfl
        | ok items' => rfl

/-- The overlay can be read at all the indexes, or at one of them it cannot. -/
theorem overlayItems_ok_iff {indexes : List Int64} :
    (∃ items, overlayItems w r chunkSize indexes = .ok items) ↔
      ∀ i ∈ indexes, ∃ chunk, overlayChunk w r i chunkSize = .ok chunk := by
  induction indexes with
  | nil => simp [overlayItems]
  | cons index rest ih =>
    rw [List.forall_mem_cons, ← ih]
    simp only [overlayItems]
    cases overlayChunk w r index chunkSize with
    | error e => exact ⟨fun ⟨_, h⟩ => (by cases h), fun ⟨⟨_, h⟩, _⟩ => (by cases h)⟩
    | ok chunk =>
      cases overlayItems w r chunkSize rest with
      | error e => exact ⟨fun ⟨_, h⟩ => (by cases h), fun ⟨_, ⟨_, h⟩⟩ => (by cases h)⟩
      | ok items => exact ⟨fun _ => ⟨⟨_, rfl⟩, _, rfl⟩, fun _ => ⟨_, rfl⟩⟩

theorem overlayItems_spec {indexes : List Int64} (h : overlayItems w r chunkSize indexes = .ok items) :
    items.map Prod.fst = indexes ∧ ∀ item ∈ items, overlayChunk w r item.1 chunkSize = .ok item.2 := by
  induction indexes generalizing items with
  | nil =>
    cases h
    exact ⟨rfl, by simp⟩
  | cons index rest ih =>
    simp only [overlayItems] at h
    generalize hchunk : overlayChunk w r index chunkSize = read at h
    generalize hrest : overlayItems w r chunkSize rest = others at h
    obtain _ | chunk := read
    · cases h
    · obtain _ | items' := others
      · cases h
      · cases h
        obtain ⟨hindexes, hchunks⟩ := ih hrest
        exact ⟨by rw [List.map_cons, hindexes], List.forall_mem_cons.mpr ⟨hchunk, hchunks⟩⟩

theorem overlayItems_congr (h : w'.overlays = w.overlays) (indexes : List Int64) :
    overlayItems w' r chunkSize indexes = overlayItems w r chunkSize indexes := by
  have hchunk : ∀ i, overlayChunk w' r i chunkSize = overlayChunk w r i chunkSize := by
    intro i
    unfold overlayChunk overlayFile
    rw [h]
  induction indexes with
  | nil => rfl
  | cons index rest ih => simp only [overlayItems, hchunk, ih]

end Overlay

/-! ## The batches -/

/-- What the batches of a commit leave alone. -/
structure BatchFrame (w w' : World) : Prop extends UploadFrame w w' where
  snapshots : w'.snapshots = w.snapshots
  stats : w'.stats = w.stats
  uuids : w'.uuids = w.uuids

theorem BatchFrame.refl (w : World) : BatchFrame w w := ⟨.refl w, rfl, rfl, rfl⟩

theorem BatchFrame.trans {w'' : World} (h : BatchFrame w w') (h' : BatchFrame w' w'') :
    BatchFrame w w'' :=
  ⟨h.toUploadFrame.trans h'.toUploadFrame, h'.snapshots.trans h.snapshots, h'.stats.trans h.stats,
    h'.uuids.trans h.uuids⟩

theorem CacheFrame.batchFrame {who : Caller} (h : CacheFrame who w w') : BatchFrame w w' := by
  unfold CacheFrame at h
  rw [h]
  exact ⟨⟨rfl, rfl, rfl, rfl, rfl⟩, rfl, rfl, rfl⟩

theorem CacheFrame.objects {who : Caller} (h : CacheFrame who w w') : w'.objects = w.objects := by
  unfold CacheFrame at h
  rw [h]

/-- The world after a report. -/
def World.report (w : World) (opts : CommitOptions) (p : CommitProgress) : World :=
  { w with progress := if opts.onProgress then p :: w.progress else w.progress }

theorem BatchFrame.report (w : World) (opts : CommitOptions) (p : CommitProgress) :
    BatchFrame w (w.report opts p) := ⟨⟨rfl, rfl, rfl, rfl, rfl⟩, rfl, rfl, rfl⟩

section Batches

variable {P : Platform} {who : Caller} {b : Backend} {id : String} {volume : Volume}

/-- The first loop of a batch reads the overlay. -/
theorem readBatch_quiet (indexes : List Int64) (w : World) :
    (machine P faultFree who).wp (readBatch id volume indexes).run
      (fun r w' =>
        r = (overlayItems w (who.node, id) volume.chunkSize indexes).map
          (fun items => items.map fun item => (⟨item.1, P.hash item.2, item.2⟩ : DirtyChunk)) ∧
        w'.objects = w.objects ∧ BatchFrame w w') w := by
  induction indexes generalizing w with
  | nil => exact ⟨rfl, rfl, .refl w⟩
  | cons index rest ih =>
    unfold readBatch readDirtyChunk outside
    rw [wp_run_bind, wp_run_bind]
    refine quiet_perform ?_
    simp only [overlayItems, overlayChunk, overlayFile, exec, Fault.on, execReadOverlay]
    cases (w.overlays (who.node, id)).bind fun d => d index with
    | none => exact ⟨rfl, rfl, .refl w⟩
    | some file =>
      dsimp only
      rw [orElse_ok]
      cases hnorm : normalizeChunk file.data volume.chunkSize with
      | error e => exact ⟨rfl, rfl, .refl w⟩
      | ok chunk =>
        show (machine P faultFree who).wp (do
          let chunkID ← access (.hashChunk chunk)
          let batch ← readBatch id volume rest
          pure (⟨index, chunkID, chunk⟩ :: batch) : M (List DirtyChunk)).run _ w
        rw [wp_run_bind]
        refine quiet_access ?_
        rw [orElse_ok]
        refine wp_run_seq (ih _) ?_
        rintro r w' ⟨rfl, hobjects, hframe⟩
        have hhash : BatchFrame w (exec P who .none w (.hashChunk chunk)).2 :=
          ⟨⟨rfl, rfl, rfl, rfl, rfl⟩, rfl, rfl, rfl⟩
        rw [overlayItems_congr hhash.overlays]
        cases overlayItems w (who.node, id) volume.chunkSize rest with
        | error e => exact ⟨rfl, hobjects, hhash.trans hframe⟩
        | ok items => exact ⟨rfl, hobjects, hhash.trans hframe⟩

theorem uploadChunk_quiet (item : DirtyChunk) (w : World) :
    (machine P faultFree who).wp (uploadChunk item).run
      (fun r w' => BatchFrame w w' ∧
        if (w.objects (chunkKey item.id)).isSome then r = .ok false ∧ w'.objects = w.objects
        else r = .ok true ∧
          w'.objects = update w.objects (chunkKey item.id) (some item.bytes)) w := by
  unfold uploadChunk outside
  rw [wp_run_bind]
  refine quiet_perform ?_
  show Machine.orElse _ _ (.ok (w.objects (chunkKey item.id)).isSome) w
  rw [orElse_ok]
  split
  · exact ⟨.refl w, rfl, rfl⟩
  · rw [wp_run_bind]
    exact quiet_perform ⟨⟨⟨rfl, rfl, rfl, rfl, rfl⟩, rfl, rfl, rfl⟩, rfl, rfl⟩

/-- A chunk goes into the cache under its hash. -/
theorem putChunk_quiet (chunk : Bytes) (w : World) :
    (machine P faultFree who).wp (b.cache.put P (P.hash chunk) chunk).run
      (fun r w' => r = .ok () ∧ CacheFrame who w w') w := by
  have hid : IsChunkID P (P.hash chunk) := ⟨chunk, rfl⟩
  have hpath : b.cache.path (P.hash chunk) = b.cache.dir ++ [P.hash chunk] :=
    filepathJoin_plain _ (hid.plain P) (hid.ne_empty P)
  have hname : P.hash chunk ≠ "dirty-sessions" := by
    intro h
    have hlen := hid.length P
    rw [h] at hlen
    exact absurd hlen (by decide)
  have huses : Uses (fun o : Op => o.OnCache = true) (b.cache.put P (P.hash chunk) chunk) := by
    refine uses_put P b.cache ?_ rfl
    intro o ho
    cases o with
    | getMemory _ | getMemoryRange _ _ _ | putMemory _ _ _ => rfl
    | _ => exact ho
  refine wp_mono (wp_and (put_quiet hpath hname chunk w) (frame_onCache huses w)) ?_
  exact fun r w' h => ⟨h.1.1, h.2⟩

/-- The second loop uploads. -/
theorem uploadBatch_quiet (items : List (Int64 × Bytes)) (manifest : Manifest)
    (stats : CommitBatchStats) (w : World) :
    (machine P faultFree who).wp (uploadBatch P b
        (items.map fun item => ⟨item.1, P.hash item.2, item.2⟩) manifest stats).run
      (fun r w' =>
        let u := (⟨w.objects, manifest, stats⟩ : Uploading).addAll P items
        r = .ok (u.manifest, u.stats) ∧ w'.objects = u.objects ∧ BatchFrame w w') w := by
  induction items generalizing manifest stats w with
  | nil => exact ⟨rfl, rfl, .refl w⟩
  | cons item items ih =>
    obtain ⟨index, chunk⟩ := item
    simp only [List.map_cons, Uploading.addAll_cons]
    unfold uploadBatch
    refine wp_run_seq (uploadChunk_quiet _ w) ?_
    rintro r w₁ ⟨hframe₁, hstored⟩
    -- whether the chunk was uploaded is what the pass says
    have hadd : ∃ uploaded, r = .ok uploaded ∧
        (⟨w.objects, manifest, stats⟩ : Uploading).add P (index, chunk) =
          ⟨w₁.objects, manifest.insert index (P.hash chunk), stats.add
            ⟨1, if uploaded then 1 else 0, if uploaded then 0 else 1, chunk.length⟩⟩ := by
      unfold Uploading.add
      dsimp only at hstored ⊢
      split at hstored
      · rename_i hfound
        rw [if_pos hfound, hstored.2]
        exact ⟨false, hstored.1, rfl⟩
      · rename_i hmissing
        rw [if_neg hmissing, hstored.2]
        exact ⟨true, hstored.1, rfl⟩
    obtain ⟨uploaded, rfl, hadd⟩ := hadd
    rw [hadd, orElse_ok]
    refine wp_run_seq (putChunk_quiet chunk w₁) ?_
    rintro r w₂ ⟨rfl, hframe₂⟩
    rw [orElse_ok]
    refine wp_mono (ih _ _ w₂) ?_
    rintro r w' ⟨rfl, hobjects, hframe⟩
    rw [hframe₂.objects] at hobjects ⊢
    exact ⟨rfl, hobjects, (hframe₁.trans hframe₂.batchFrame).trans hframe⟩

/-- One batch. -/
theorem commitDirtyBatch_quiet (indexes : List Int64) (manifest : Manifest) (w : World) :
    (machine P faultFree who).wp (commitDirtyBatch P b id volume indexes manifest).run
      (fun r w' =>
        match overlayItems w (who.node, id) volume.chunkSize indexes with
        | .error e => r = .error e
        | .ok items =>
          let u := (⟨w.objects, manifest, ⟨0, 0, 0, 0⟩⟩ : Uploading).addAll P items
          r = .ok (u.manifest, u.stats) ∧ w'.objects = u.objects ∧ BatchFrame w w') w := by
  unfold commitDirtyBatch
  refine wp_run_seq (readBatch_quiet indexes w) ?_
  rintro r w₁ ⟨rfl, hobjects, hframe₁⟩
  cases overlayItems w (who.node, id) volume.chunkSize indexes with
  | error e => rfl
  | ok items =>
    refine wp_mono (uploadBatch_quiet items manifest ⟨0, 0, 0, 0⟩ w₁) ?_
    rintro r w₂ ⟨rfl, hobjects₂, hframe₂⟩
    rw [hobjects] at hobjects₂ ⊢
    exact ⟨rfl, hobjects₂, hframe₁.trans hframe₂⟩

theorem progress_quiet (opts : CommitOptions) (p : CommitProgress) (w : World) :
    (machine P faultFree who).wp (progress opts p).run
      (fun r w' => r = .ok () ∧ w' = w.report opts p) w := by
  unfold progress World.report
  split
  · exact quiet_access ⟨rfl, rfl⟩
  · exact ⟨rfl, rfl⟩

/-- A report, and then the rest. -/
theorem wp_progress {opts : CommitOptions} {p : CommitProgress} {α : Type} {rest : M α}
    {Q : Except Err α → World → Prop} (h : (machine P faultFree who).wp rest.run Q (w.report opts p)) :
    (machine P faultFree who).wp (progress opts p >>= fun _ => rest).run Q w := by
  refine wp_run_seq (progress_quiet opts p w) ?_
  rintro r w' ⟨rfl, rfl⟩
  exact h

/-- **Any batches make one pass.** They fail exactly if the overlay cannot be read. -/
theorem commitBatches_quiet (opts : CommitOptions) (total : Nat) {batchSize : Nat} (hsize : 0 < batchSize)
    (fuel : Nat) (indexes : List Int64) (hfuel : indexes.length ≤ fuel) (manifest : Manifest)
    (stats : CommitBatchStats) (w : World) :
    (machine P faultFree who).wp (commitBatches P b opts id volume total batchSize fuel indexes
        manifest stats).run
      (fun r w' =>
        match overlayItems w (who.node, id) volume.chunkSize indexes with
        | .error _ => ∃ e, r = .error e
        | .ok items =>
          let u := (⟨w.objects, manifest, stats⟩ : Uploading).addAll P items
          r = .ok (u.manifest, u.stats) ∧ w'.objects = u.objects ∧ BatchFrame w w') w := by
  induction fuel generalizing indexes manifest stats w with
  | zero =>
    obtain rfl := List.eq_nil_of_length_eq_zero (Nat.le_zero.mp hfuel)
    exact ⟨rfl, rfl, .refl w⟩
  | succ fuel ih =>
    unfold commitBatches
    split
    · rename_i hnil
      subst hnil
      exact ⟨rfl, rfl, .refl w⟩
    · rename_i hne
      have hpos := List.length_pos_of_ne_nil hne
      refine wp_run_seq (commitDirtyBatch_quiet (indexes.take batchSize) manifest w) ?_
      intro r w₁ hbatch
      have hsplit : overlayItems w (who.node, id) volume.chunkSize
          (indexes.take batchSize ++ indexes.drop batchSize) = _ := overlayItems_append _ _
      rw [List.take_append_drop] at hsplit
      rw [hsplit]
      generalize overlayItems w (who.node, id) volume.chunkSize (indexes.take batchSize) = first
        at hbatch
      obtain e | items := first
      · obtain rfl := hbatch
        exact ⟨e, rfl⟩
      · obtain ⟨rfl, hobjects₁, hframe₁⟩ := hbatch
        rw [orElse_ok]
        dsimp only [Except.bind]
        refine wp_progress ?_
        have hreport : ∀ p, BatchFrame w (w₁.report opts p) := fun p => hframe₁.trans (.report w₁ opts p)
        refine wp_mono (ih (indexes.drop batchSize) (by rw [List.length_drop]; omega) _ _ _) ?_
        intro r w' hrest
        rw [overlayItems_congr (hreport _).overlays] at hrest
        generalize overlayItems w (who.node, id) volume.chunkSize (indexes.drop batchSize) = second
          at hrest
        obtain e | items' := second
        · exact hrest
        · obtain ⟨rfl, hobjects, hframe⟩ := hrest
          -- the totals of the batch, added to those before it, are those of the pass so far
          have hpass : (⟨w₁.objects, ((⟨w.objects, manifest, ⟨0, 0, 0, 0⟩⟩ : Uploading).addAll P
              items).manifest, stats.add ((⟨w.objects, manifest, ⟨0, 0, 0, 0⟩⟩ : Uploading).addAll P
              items).stats⟩ : Uploading) = (⟨w.objects, manifest, stats⟩ : Uploading).addAll P items := by
            have hzero : stats = stats.add ⟨0, 0, 0, 0⟩ := rfl
            conv_rhs => rw [hzero, Uploading.addAll_stats]
            rw [hobjects₁]
          have hsame : ∀ p, (w₁.report opts p).objects = w₁.objects := fun _ => rfl
          rw [hsame, hpass, ← Uploading.addAll_append] at hobjects ⊢
          exact ⟨rfl, hobjects, (hreport _).trans hframe⟩

/-! ## The whole commit -/

/-- A snapshot is recorded under the next UUID. -/
theorem recordSnapshot_quiet (opts : CommitOptions) (total : Nat) (manifest : Manifest)
    (stats : CommitBatchStats) (w : World) :
    (machine P faultFree who).wp (recordSnapshot P opts volume total manifest stats).run
      (fun r w' =>
        r = .ok ⟨P.uuid w.uuids, volume.volumeID, manifestKey (P.uuid w.uuids)⟩ ∧
        w'.objects = update w.objects (manifestKey (P.uuid w.uuids))
          (some (P.marshalIndent (manifestToWire manifest))) ∧
        UploadFrame w w' ∧ w'.stats = w.stats) w := by
  unfold recordSnapshot saveManifest outside
  rw [wp_run_bind]
  refine quiet_access ?_
  rw [orElse_ok]
  refine wp_progress ?_
  rw [wp_run_bind]
  refine quiet_perform ?_
  show Machine.orElse _ _ (.ok ()) _
  rw [orElse_ok]
  refine wp_progress ?_
  rw [wp_run_bind]
  refine quiet_perform ?_
  exact ⟨rfl, rfl, ⟨rfl, rfl, rfl, rfl, rfl⟩, rfl⟩

/-- The volume and the session move to the snapshot, if the volume is in the repository. -/
theorem moveTo_quiet (opts : CommitOptions) (total : Nat) (manifest : Manifest)
    (stats : CommitBatchStats) (snapshot : Snapshot) {s : Session} (w : World)
    (hs : w.sessions (who.node, id) = some s) :
    (machine P faultFree who).wp (moveTo opts id total manifest stats snapshot).run
      (fun r w' => w'.objects = w.objects ∧ w'.stats = w.stats ∧ w'.registered = w.registered ∧
        match w.volumes snapshot.volumeID with
        | none => r = .error .notFound ∧ w'.sessions = w.sessions ∧ w'.overlays = w.overlays
        | some _ => r = .ok snapshot ∧
            w'.sessions (who.node, id) = some { s with
              baseSnapshotID := snapshot.snapshotID, baseManifest := manifest, dirty := ∅ } ∧
            w'.overlays (who.node, id) = some (fun _ => none) ∧
            (opts.onProgress = true → w'.progress.head? =
              some (snapshotProgress "done" total stats manifest snapshot.snapshotID))) w := by
  unfold moveTo
  dsimp only
  refine wp_progress ?_
  unfold outside
  rw [wp_run_bind]
  refine quiet_perform ?_
  simp only [exec, Fault.on, execUpdateVolume, World.report]
  cases w.volumes snapshot.volumeID with
  | none => exact ⟨rfl, rfl, rfl, rfl, rfl, rfl⟩
  | some v =>
    dsimp only
    rw [orElse_ok, wp_run_bind]
    refine quiet_access ?_
    rw [orElse_ok]
    refine wp_progress ?_
    unfold clearDirtyOverlay outside
    rw [wp_run_bind, wp_run_bind]
    refine quiet_perform ?_
    show Machine.orElse _ _ (.ok ()) _
    rw [orElse_ok, wp_run_bind]
    refine quiet_perform ?_
    show Machine.orElse _ _ (.ok ()) _
    rw [orElse_ok]
    refine quiet_access ?_
    rw [orElse_ok]
    refine wp_progress ⟨rfl, rfl, rfl, rfl, ?_, ?_, ?_⟩
    · simp [exec, execRemoveAll, Fault.on, World.report, World.modifySession, World.setOverlay, hs]
    · simp [exec, execRemoveAll, Fault.on, World.report, World.modifySession, World.setOverlay]
    · intro hreport
      simp [World.report, hreport]

/-- The dirty indexes of a session, in order. -/
def Session.dirtyIndexes (s : Session) : List Int64 := s.dirty.keys.insertionSort (· ≤ ·)

/-- Sorting undoes the order in which a map is visited. -/
theorem sort_rangeOrder (P : Platform) (keys : List Int64) :
    (P.rangeOrder keys).insertionSort (· ≤ ·) = keys.insertionSort (· ≤ ·) := by
  have : IsTrans Int64 (· ≤ ·) := ⟨fun _ _ _ => Int64.le_trans⟩
  refine List.Perm.eq_of_pairwise (fun a b _ _ => Int64.le_antisymm) (List.pairwise_insertionSort _ _)
    (List.pairwise_insertionSort _ _) ?_
  exact (List.perm_insertionSort _ _).trans ((P.rangeOrder_perm keys).trans (List.perm_insertionSort _ _).symm)

/-- How a commit ends, from the pass over the dirty chunks. -/
def CommitEnds (P : Platform) (w : World) (ref : SessRef) (s : Session) (opts : CommitOptions)
    (r : Except Err Snapshot) (w' : World) : Prop :=
  match overlayItems w ref s.volume.chunkSize s.dirtyIndexes with
  | .error _ => ∃ e, r = .error e
  | .ok items =>
    let u := (⟨w.objects, s.baseManifest, ⟨0, 0, 0, 0⟩⟩ : Uploading).addAll P items
    let snapshotID := P.uuid w.uuids
    w'.objects = update u.objects (manifestKey snapshotID)
      (some (P.marshalIndent (manifestToWire u.manifest))) ∧
    w'.stats = w.stats ∧ w'.registered = w.registered ∧
    match w.volumes s.volume.volumeID with
    | none => r = .error .notFound ∧ w'.sessions = w.sessions ∧ w'.overlays = w.overlays
    | some _ => r = .ok ⟨snapshotID, s.volume.volumeID, manifestKey snapshotID⟩ ∧
        w'.sessions ref = some { s with
          baseSnapshotID := snapshotID, baseManifest := u.manifest, dirty := ∅ } ∧
        w'.overlays ref = some (fun _ => none) ∧
        (opts.onProgress = true → w'.progress.head? = some (snapshotProgress "done"
          s.dirtyIndexes.length u.stats u.manifest snapshotID))

theorem commit_quiet {s : Session} (opts : CommitOptions) (w : World)
    (hreg : w.registered (who.node, id) = true) (hs : w.sessions (who.node, id) = some s) :
    (machine P faultFree who).wp (b.commitWithOptions P id opts).run
      (CommitEnds P w (who.node, id) s opts) w := by
  unfold commitWithOptions Backend.session
  rw [wp_run_bind, wp_run_bind]
  refine quiet_access ?_
  simp only [exec, hreg, if_true, hs, Option.map_some, orElse_ok]
  show (machine P faultFree who).wp (do
    let manifest : Manifest ← access (.baseManifest id)
    let keys : List Int64 ← access (.dirtyIndexes id)
    b.commitCollected P id opts s.volume manifest keys : M Snapshot).run _ w
  rw [wp_run_bind]
  refine quiet_access ?_
  rw [orElse_ok, wp_run_bind]
  refine quiet_access ?_
  simp only [exec, hs, Option.map_some, Option.getD_some, orElse_ok]
  unfold commitCollected prepareSnapshot
  dsimp only
  rw [sort_rangeOrder, ← Session.dirtyIndexes]
  rw [wp_run_bind]
  refine wp_progress ?_
  refine wp_run_seq (commitBatches_quiet opts s.dirtyIndexes.length (uploadBatchChunks_pos opts)
    s.dirtyIndexes.length s.dirtyIndexes (Nat.le_refl _) s.baseManifest ⟨0, 0, 0, 0⟩ _) ?_
  intro r w₁ hbatches
  rw [overlayItems_congr (BatchFrame.report w opts _).overlays] at hbatches
  unfold CommitEnds
  generalize overlayItems w (who.node, id) s.volume.chunkSize s.dirtyIndexes = read at hbatches
  obtain e | items := read
  · obtain ⟨e, rfl⟩ := hbatches
    exact ⟨e, rfl⟩
  · obtain ⟨rfl, hobjects₁, hframe⟩ := hbatches
    have hframe₁ := (BatchFrame.report w opts _).trans hframe
    dsimp only at hobjects₁ ⊢
    have hsame : ∀ p, (w.report opts p).objects = w.objects := fun _ => rfl
    rw [hsame] at hobjects₁ ⊢
    generalize (⟨w.objects, s.baseManifest, ⟨0, 0, 0, 0⟩⟩ : Uploading).addAll P items = u at hobjects₁
    rw [orElse_ok]
    refine wp_run_seq (recordSnapshot_quiet opts s.dirtyIndexes.length u.manifest u.stats w₁) ?_
    rintro r w₂ ⟨rfl, hobjects₂, hframe₂, hstats₂⟩
    have hs₂ : w₂.sessions (who.node, id) = some s := by
      rw [hframe₂.sessions, hframe₁.sessions]
      exact hs
    show (machine P faultFree who).wp (moveTo opts id s.dirtyIndexes.length u.manifest u.stats
      ⟨P.uuid w₁.uuids, s.volume.volumeID, manifestKey (P.uuid w₁.uuids)⟩).run _ w₂
    refine wp_mono (moveTo_quiet opts s.dirtyIndexes.length u.manifest u.stats _ w₂ hs₂) ?_
    rintro r w₃ ⟨hobjects₃, hstats₃, hregistered₃, hend⟩
    rw [hframe₂.volumes, hframe₁.volumes, hframe₂.sessions, hframe₁.sessions, hframe₂.overlays,
      hframe₁.overlays, hframe₁.uuids] at hend
    refine ⟨?_, ?_, ?_, hend⟩
    · rw [hobjects₃, hobjects₂, hobjects₁, hframe₁.uuids]
    · rw [hstats₃, hstats₂, hframe₁.stats]
    · rw [hregistered₃, hframe₂.registered, hframe₁.registered]

end Batches

/-! ## Two commits -/

/-- A session without the name of its snapshot. -/
def Session.unnamed (s : Session) : Session := { s with baseSnapshotID := "" }

/-- The totals of a report. -/
def CommitProgress.totals (p : CommitProgress) : Nat × Nat × Nat × Nat :=
  (p.doneChunks, p.uploaded, p.skipped, p.bytes)

/-- Two commits produced the same, up to the name of the snapshot. -/
structure SameCommit (ref : SessRef) (opts : CommitOptions) (r r' : Except Err Snapshot)
    (w w' : World) : Prop where
  result : r.map Snapshot.volumeID = r'.map Snapshot.volumeID
  manifest : ∀ a a', r = .ok a → r' = .ok a' → w.objects a.manifestKey = w'.objects a'.manifestKey
  chunks : ∀ id, w.objects (chunkKey id) = w'.objects (chunkKey id)
  totals : opts.onProgress = true → ∀ a, r = .ok a →
    w.progress.head?.map CommitProgress.totals = w'.progress.head?.map CommitProgress.totals
  session : (w.sessions ref).map Session.unnamed = (w'.sessions ref).map Session.unnamed
  overlay : w.overlays ref = w'.overlays ref
  stats : w.stats ref = w'.stats ref
  registered : w.registered ref = w'.registered ref

/-- Every dirty chunk has an overlay file that fits the chunk size. -/
def OverlayReadable (w : World) (ref : SessRef) (s : Session) : Prop :=
  ∀ i ∈ s.dirty.keys, ∃ chunk, overlayChunk w ref i s.volume.chunkSize = .ok chunk

/-- The contents of the dirty chunks. -/
def dirtyContents (w : World) (ref : SessRef) (s : Session) : Finset Bytes :=
  (s.dirty.keys.filterMap fun i => (overlayChunk w ref i s.volume.chunkSize).toOption).toFinset

/-- What a successful commit did: the manifest is the base's, overridden at the dirty indexes by the
hashes of the overlay's chunks, and the last report gives the totals. -/
structure CommitDid (P : Platform) (w : World) (ref : SessRef) (s : Session) (opts : CommitOptions)
    (snapshot : Snapshot) (w' : World) : Prop where
  manifest : ∃ m, (w'.sessions ref).map Session.baseManifest = some m ∧
    w'.objects snapshot.manifestKey = some (P.marshalIndent (manifestToWire m)) ∧
    ∀ i, m.lookup i = if i ∈ s.dirty.keys then
      (overlayChunk w ref i s.volume.chunkSize).toOption.map P.hash else s.baseManifest.lookup i
  report : opts.onProgress = true → ∃ p, w'.progress.head? = some p ∧ p.phase = "done" ∧
    p.doneChunks = s.dirty.keys.length ∧ p.uploaded + p.skipped = p.doneChunks ∧
    p.uploaded = (((dirtyContents w ref s).image P.hash).filter fun id =>
      w.objects (chunkKey id) = none).card ∧
    ((∀ a ∈ dirtyContents w ref s, ∀ b ∈ dirtyContents w ref s, P.hash a = P.hash b → a = b) →
      p.uploaded = ((dirtyContents w ref s).filter fun chunk =>
        w.objects (chunkKey (P.hash chunk)) = none).card)

section Two

variable {P : Platform} {ref : SessRef} {s : Session} {opts : CommitOptions}

theorem dirtyIndexes_perm (s : Session) : s.dirtyIndexes.Perm s.dirty.keys := List.perm_insertionSort _ _

theorem overlayReadable_iff :
    OverlayReadable w ref s ↔ ∃ items, overlayItems w ref s.volume.chunkSize s.dirtyIndexes = .ok items := by
  rw [overlayItems_ok_iff]
  exact forall_congr' fun i => by rw [(dirtyIndexes_perm s).mem_iff]

theorem mem_dirtyContents (h : overlayItems w ref s.volume.chunkSize s.dirtyIndexes = .ok items)
    (chunk : Bytes) : chunk ∈ dirtyContents w ref s ↔ ∃ item ∈ items, item.2 = chunk := by
  obtain ⟨hindexes, hchunks⟩ := overlayItems_spec h
  unfold dirtyContents
  rw [List.mem_toFinset, List.mem_filterMap]
  constructor
  · rintro ⟨i, hi, hchunk⟩
    rw [← (dirtyIndexes_perm s).mem_iff, ← hindexes] at hi
    obtain ⟨item, hitem, rfl⟩ := List.mem_map.mp hi
    rw [hchunks item hitem] at hchunk
    exact ⟨item, hitem, Option.some.inj hchunk⟩
  · rintro ⟨item, hitem, rfl⟩
    refine ⟨item.1, ?_, by rw [hchunks item hitem]; rfl⟩
    rw [← (dirtyIndexes_perm s).mem_iff, ← hindexes]
    exact List.mem_map.mpr ⟨item, hitem, rfl⟩

theorem missing_eq (h : overlayItems w ref s.volume.chunkSize s.dirtyIndexes = .ok items) :
    Uploading.missing P w.objects items = ((dirtyContents w ref s).image P.hash).filter fun id =>
      w.objects (chunkKey id) = none := by
  unfold Uploading.missing
  congr 1
  ext id
  simp only [List.mem_toFinset, List.mem_map, Finset.mem_image, mem_dirtyContents h]
  constructor
  · rintro ⟨item, hitem, rfl⟩
    exact ⟨item.2, ⟨item, hitem, rfl⟩, rfl⟩
  · rintro ⟨chunk, ⟨item, hitem, rfl⟩, rfl⟩
    exact ⟨item, hitem, rfl⟩

theorem lookup_overlayItems (h : overlayItems w ref s.volume.chunkSize s.dirtyIndexes = .ok items)
    (i : Int64) :
    items.lookup i =
      if i ∈ s.dirty.keys then (overlayChunk w ref i s.volume.chunkSize).toOption else none := by
  obtain ⟨hindexes, hchunks⟩ := overlayItems_spec h
  cases hlookup : items.lookup i with
  | some chunk =>
    obtain ⟨before, after, hlist, -⟩ := List.lookup_eq_some_iff.mp hlookup
    have hmem : (i, chunk) ∈ items := by simp [hlist]
    have hi : i ∈ s.dirty.keys := by
      rw [← (dirtyIndexes_perm s).mem_iff, ← hindexes]
      exact List.mem_map.mpr ⟨_, hmem, rfl⟩
    rw [if_pos hi, hchunks _ hmem]
    rfl
  | none =>
    rw [if_neg]
    intro hi
    rw [← (dirtyIndexes_perm s).mem_iff, ← hindexes] at hi
    obtain ⟨item, hitem, rfl⟩ := List.mem_map.mp hi
    exact absurd (List.lookup_eq_none_iff.mp hlookup item hitem) (by simp)

/-- What the end of a successful commit says. -/
theorem CommitEnds.did {snapshot : Snapshot} (h : CommitEnds P w ref s opts r w')
    (hok : r = .ok snapshot) : CommitDid P w ref s opts snapshot w' := by
  subst hok
  unfold CommitEnds at h
  generalize hitems : overlayItems w ref s.volume.chunkSize s.dirtyIndexes = read at h
  obtain e | items := read
  · obtain ⟨e, he⟩ := h
    cases he
  · obtain ⟨hobjects, -, -, hend⟩ := h
    cases hvolume : w.volumes s.volume.volumeID with
    | none =>
      rw [hvolume] at hend
      cases hend.1
    | some v =>
      rw [hvolume] at hend
      obtain ⟨hsnapshot, hsession, -, hreport⟩ := hend
      cases hsnapshot
      obtain ⟨hindexes, -⟩ := overlayItems_spec hitems
      have hnodup : (items.map Prod.fst).Nodup := by
        rw [hindexes]
        exact (dirtyIndexes_perm s).nodup_iff.mpr s.dirty.nodupKeys
      have hlength : items.length = s.dirty.keys.length := by
        rw [← List.length_map (f := Prod.fst), hindexes, (dirtyIndexes_perm s).length_eq]
      refine ⟨⟨_, by rw [hsession]; rfl, by rw [hobjects, update_self], ?_⟩, ?_⟩
      · intro i
        rw [Uploading.addAll_lookup _ hnodup, lookup_overlayItems hitems]
        by_cases hi : i ∈ s.dirty.keys
        · obtain ⟨chunk, hchunk⟩ := overlayReadable_iff.mpr ⟨items, hitems⟩ i hi
          simp [hi, hchunk, Except.toOption]
        · simp [hi]
      · intro honprogress
        obtain ⟨hchunks, hcounts, -⟩ := Uploading.addAll_counts (P := P)
          ⟨w.objects, s.baseManifest, ⟨0, 0, 0, 0⟩⟩ items
        have huploaded := Uploading.addAll_uploaded (P := P)
          ⟨w.objects, s.baseManifest, ⟨0, 0, 0, 0⟩⟩ items
        rw [missing_eq hitems] at huploaded
        simp only [Nat.zero_add] at hchunks hcounts huploaded
        refine ⟨_, hreport honprogress, rfl, hchunks.trans hlength, hcounts.trans hchunks.symm,
          huploaded, fun hinj => huploaded.trans ?_⟩
        -- without collisions there is one content for each name
        rw [Finset.filter_image, Finset.card_image_of_injOn]
        exact fun a ha b hb => hinj a (Finset.mem_filter.mp ha).1 b (Finset.mem_filter.mp hb).1

/-- Two ends over the same pass. -/
theorem CommitEnds.same {P' : Platform} (hsum : P.sum256 = P'.sum256)
    (hjson : P.marshalIndent = P'.marshalIndent) {opts' : CommitOptions}
    (hprogress : opts.onProgress = opts'.onProgress) {r' : Except Err Snapshot} {w₁ w₂ : World}
    (hreadable : OverlayReadable w ref s) (h : CommitEnds P w ref s opts r w₁)
    (h' : CommitEnds P' w ref s opts' r' w₂) : SameCommit ref opts r r' w₁ w₂ := by
  have hhash : P'.hash = P.hash := by
    funext chunk
    unfold Platform.hash
    rw [hsum]
  obtain ⟨items, hitems⟩ := overlayReadable_iff.mp hreadable
  have hpass : ∀ u : Uploading, u.addAll P' items = u.addAll P items := by
    have hadd : Uploading.add P' = Uploading.add P := by
      funext u item
      simp only [Uploading.add, hhash]
    intro u
    unfold Uploading.addAll
    rw [hadd]
  unfold CommitEnds at h h'
  rw [hitems] at h h'
  dsimp only at h h'
  rw [hpass] at h'
  generalize (⟨w.objects, s.baseManifest, ⟨0, 0, 0, 0⟩⟩ : Uploading).addAll P items = u at h h'
  obtain ⟨hobjects, hstats, hregistered, hend⟩ := h
  obtain ⟨hobjects', hstats', hregistered', hend'⟩ := h'
  have hchunks : ∀ id, w₁.objects (chunkKey id) = w₂.objects (chunkKey id) := by
    intro id
    rw [hobjects, hobjects', update_of_ne (chunkKey_ne_manifestKey _ _),
      update_of_ne (chunkKey_ne_manifestKey _ _)]
  have hstats₁ : w₁.stats ref = w₂.stats ref := by rw [hstats, hstats']
  have hregistered₁ : w₁.registered ref = w₂.registered ref := by rw [hregistered, hregistered']
  cases hvolume : w.volumes s.volume.volumeID with
  | none =>
    rw [hvolume] at hend hend'
    obtain ⟨rfl, hsessions, hoverlays⟩ := hend
    obtain ⟨rfl, hsessions', hoverlays'⟩ := hend'
    exact ⟨rfl, fun a a' ha => (by cases ha), hchunks, fun _ a ha => (by cases ha),
      by rw [hsessions, hsessions'], by rw [hoverlays, hoverlays'], hstats₁, hregistered₁⟩
  | some v =>
    rw [hvolume] at hend hend'
    obtain ⟨rfl, hsession, hoverlay, hreport⟩ := hend
    obtain ⟨rfl, hsession', hoverlay', hreport'⟩ := hend'
    refine ⟨rfl, ?_, hchunks, ?_, ?_, by rw [hoverlay, hoverlay'], hstats₁, hregistered₁⟩
    · rintro a a' ⟨⟩ ⟨⟩
      rw [hobjects, hobjects', update_self, update_self, hjson]
    · intro honprogress a _
      rw [hreport honprogress, hreport' (hprogress ▸ honprogress)]
      rfl
    · rw [hsession, hsession']
      rfl

/-- A commit of what can be read fails only if the volume is gone. -/
theorem CommitEnds.ok_iff (hreadable : OverlayReadable w ref s) (h : CommitEnds P w ref s opts r w') :
    (∃ snapshot, r = .ok snapshot) ↔ (w.volumes s.volume.volumeID).isSome := by
  obtain ⟨items, hitems⟩ := overlayReadable_iff.mp hreadable
  unfold CommitEnds at h
  rw [hitems] at h
  obtain ⟨-, -, -, hend⟩ := h
  cases hvolume : w.volumes s.volume.volumeID with
  | none =>
    rw [hvolume] at hend
    simp [hend.1]
  | some v =>
    rw [hvolume] at hend
    simp [hend.1]

end Two

/-- **A commit does not depend on its batches.** Two commits of one session, in any batches, fail both
if the overlay cannot be read. Else they both SUCCEED if the volume is recorded, they produce the same, up to
the name of the snapshot, and what they produce is the pass over the dirty chunks. -/
theorem commit_ignores_batch_size {P P' : Platform} (hsum : P.sum256 = P'.sum256)
    (hjson : P.marshalIndent = P'.marshalIndent) {who : Caller} {b : Backend} {id : String} {s : Session}
    {opts opts' : CommitOptions} (hprogress : opts.onProgress = opts'.onProgress) {w w₁ w₂ : World}
    {tr tr' : List (Op × Fault)} {r r' : Except Err Snapshot}
    (hreg : w.registered (who.node, id) = true) (hs : w.sessions (who.node, id) = some s)
    (hrun : (machine P faultFree who).Runs (b.commitWithOptions P id opts).run w tr r w₁)
    (hrun' : (machine P' faultFree who).Runs (b.commitWithOptions P' id opts').run w tr' r' w₂) :
    (OverlayReadable w (who.node, id) s →
      SameCommit (who.node, id) opts r r' w₁ w₂ ∧
        ((∃ snapshot, r = .ok snapshot) ↔ (w.volumes s.volume.volumeID).isSome) ∧
        ∀ snapshot, r = .ok snapshot → CommitDid P w (who.node, id) s opts snapshot w₁) ∧
    (¬ OverlayReadable w (who.node, id) s → (∃ e, r = .error e) ∧ ∃ e, r' = .error e) := by
  have hends := hrun.wp (commit_quiet opts w hreg hs)
  have hends' := hrun'.wp (commit_quiet opts' w hreg hs)
  refine ⟨fun hreadable =>
    ⟨hends.same hsum hjson hprogress hreadable hends', hends.ok_iff hreadable, fun _ hok => hends.did hok⟩, ?_⟩
  · intro hunreadable
    rw [overlayReadable_iff, not_exists] at hunreadable
    unfold CommitEnds at hends hends'
    generalize overlayItems w (who.node, id) s.volume.chunkSize s.dirtyIndexes = read
      at hunreadable hends hends'
    obtain e | items := read
    · exact ⟨hends, hends'⟩
    · exact absurd rfl (hunreadable items)

/-! ## Two sessions -/

/-- A session of a volume of two-byte chunks with two dirty chunks, the first one byte long. -/
def twoDirty (second : Bytes) : World :=
  { World.initial with
    volumes := fun id => if id = "v" then some ⟨"v", 8, 2, "", ""⟩ else none
    sessions := fun ref => if ref = (0, "s") then
      some ⟨⟨"v", 8, 2, "", ""⟩, "", ∅, ((∅ : AList fun _ : Int64 => Unit).insert 0 ()).insert 1 ()⟩
      else none
    registered := fun ref => ref = (0, "s")
    overlays := fun ref => if ref = (0, "s") then
      some fun i => if i = 0 then some ⟨[1], [], false⟩ else if i = 1 then some ⟨second, [], false⟩ else none
      else none }

/-- Two equal chunks, committed in batches of one and of sixteen. -/
theorem commit_ignores_batch_size_equalChunks :
    let b : Backend := ⟨"node-1", newLocalCacheWithMemory ["cache"] 0 0⟩
    ∃ r r' w₁ w₂, SameCommit (0, "s") ⟨1, true⟩ r r' w₁ w₂ ∧ (∃ snapshot, r = .ok snapshot) ∧
      w₁.progress.head?.map CommitProgress.totals = some (2, 1, 1, 4) ∧
      (∃ tr, (machine goRuntime faultFree ⟨0, 0⟩).Runs
        (b.commitWithOptions goRuntime "s" ⟨1, true⟩).run (twoDirty [1, 0]) tr r w₁) ∧
      ∃ tr, (machine goRuntime faultFree ⟨0, 0⟩).Runs
        (b.commitWithOptions goRuntime "s" ⟨0, true⟩).run (twoDirty [1, 0]) tr r' w₂ := by
  intro b
  let w := twoDirty [1, 0]
  have hrun := runs_faultFree goRuntime ⟨0, 0⟩ (b.commitWithOptions goRuntime "s" ⟨1, true⟩).run w
  have hrun' := runs_faultFree goRuntime ⟨0, 0⟩ (b.commitWithOptions goRuntime "s" ⟨0, true⟩).run w
  have hreadable : OverlayReadable w (0, "s")
      ⟨⟨"v", 8, 2, "", ""⟩, "", ∅, ((∅ : AList fun _ : Int64 => Unit).insert 0 ()).insert 1 ()⟩ := by
    intro i hi
    have hi' : i = 1 ∨ i = 0 := by simpa using hi
    rcases hi' with rfl | rfl
    · exact ⟨_, rfl⟩
    · exact ⟨_, rfl⟩
  have hprogress : (⟨1, true⟩ : CommitOptions).onProgress = (⟨0, true⟩ : CommitOptions).onProgress := rfl
  have hsame := (commit_ignores_batch_size rfl rfl hprogress rfl rfl hrun hrun').1 hreadable
  exact ⟨_, _, _, _, hsame.1, hsame.2.1.mpr rfl, by decide +kernel, ⟨_, hrun⟩, _, hrun'⟩

/-- A chunk that cannot be read, after one that can: the commit fails in batches of one and of two, but
the first chunk is in the store only after batches of one. -/
theorem commit_batches_differ_when_unreadable :
    let b : Backend := ⟨"node-1", newLocalCacheWithMemory ["cache"] 0 0⟩
    ∃ tr tr' r r' w₁ w₂, (machine goRuntime faultFree ⟨0, 0⟩).Runs
        (b.commitWithOptions goRuntime "s" ⟨1, false⟩).run (twoDirty [1, 2, 3]) tr r w₁ ∧
      (machine goRuntime faultFree ⟨0, 0⟩).Runs
        (b.commitWithOptions goRuntime "s" ⟨2, false⟩).run (twoDirty [1, 2, 3]) tr' r' w₂ ∧
      ¬ ∀ id, w₁.objects (chunkKey id) = w₂.objects (chunkKey id) := by
  intro b
  let w := twoDirty [1, 2, 3]
  refine ⟨_, _, _, _, _, _,
    runs_faultFree goRuntime ⟨0, 0⟩ (b.commitWithOptions goRuntime "s" ⟨1, false⟩).run w,
    runs_faultFree goRuntime ⟨0, 0⟩ (b.commitWithOptions goRuntime "s" ⟨2, false⟩).run w, ?_⟩
  intro hsame
  exact absurd (hsame (goRuntime.hash [1, 0])) (by decide +kernel)

end OrcaBlocks.Storage
