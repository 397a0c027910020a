/-
# OrcaBlocks.Storage.Commit — what `CommitWithOptions` does, step by step.

A commit reads and uploads the dirty chunks in batches, then publishes: manifest, snapshot, pointer,
base, overlay. Each function gets ONE specification, under interference (`CommitContext`). It always
keeps the world closed. If the others leave the session alone (`alone`), the manifest built is that of
the bytes the session had when its dirty indexes were taken. If besides nothing fails (`quiet`), the
commit succeeds. A pool of arbitrary threads, an atomic call under faults and a fault-free call are
three instances.
-/
import OrcaBlocks.Storage.Content
import OrcaBlocks.Storage.Threads

namespace OrcaBlocks.Storage

open OrcaBlocks.Lib Backend Function

variable {w w' w₀ w₁ : World} {α : Type} {r : SessRef} {s : Session} {i : Int64} {id : String}
  {volume : Volume} {chunk : Int64 → Bytes} {done indexes : List Int64} {base m manifest : Manifest}
  {snap : Snapshot}

/-! ## Context -/

/-- What a commit leaves alone until it moves the pointer. -/
structure UploadFrame (w w' : World) : Prop where
  volumes : w'.volumes = w.volumes
  images : w'.images = w.images
  sessions : w'.sessions = w.sessions
  registered : w'.registered = w.registered
  overlays : w'.overlays = w.overlays

theorem UploadFrame.refl (w : World) : UploadFrame w w := ⟨rfl, rfl, rfl, rfl, rfl⟩

theorem UploadFrame.trans {w'' : World} (h : UploadFrame w w') (h' : UploadFrame w' w'') :
    UploadFrame w w'' :=
  ⟨h'.volumes.trans h.volumes, h'.images.trans h.images, h'.sessions.trans h.sessions,
    h'.registered.trans h.registered, h'.overlays.trans h.overlays⟩

/-- The assumptions the specifications of a commit share. -/
structure CommitContext (P : Platform) (who : Caller) (allowed : Fault → World → Op → Prop)
    (R : World → World → Prop) (alone quiet : Prop) : Prop where
  free : ∀ f w o, allowed f w o → CollisionFree P w o
  rely : ∀ w w', R w w' → Rely P who w w'
  frame : alone → ∀ w w', R w w' → UploadFrame w w'
  noFault : quiet → ∀ f w o, allowed f w o → f = .none
  still : quiet → ∀ w w', R w w' → w' = w
  quietAlone : quiet → alone

/-- The precondition of a thread that keeps the world closed and whose own steps are within `F`. -/
abbrev Guarded (P : Platform) (who : Caller) (allowed : Fault → World → Op → Prop)
    (R F : World → World → Prop) {α : Type} (t : Prog sig α) (Q : α → World → Prop)
    (w : World) : Prop :=
  WpRG (machine P allowed who) (Closed P) R (fun a b => Guar P who a b ∧ F a b) t Q w

/-- From one world of the thread to a later one. -/
structure Later (alone : Prop) (w w' : World) : Prop where
  grows : Grows w w'
  frame : alone → UploadFrame w w'

theorem Later.refl (alone : Prop) (w : World) : Later alone w w := ⟨.refl w, fun _ => .refl w⟩

theorem Later.trans {alone : Prop} {w'' : World} (h : Later alone w w') (h' : Later alone w' w'') :
    Later alone w w'' :=
  ⟨h.grows.trans h'.grows, fun ha => (h.frame ha).trans (h'.frame ha)⟩

section Commit

variable {P : Platform} {who : Caller} {allowed : Fault → World → Op → Prop}
variable {R : World → World → Prop} {alone quiet : Prop}
variable (ctx : CommitContext P who allowed R alone quiet)
include ctx

/-! ## Rules -/

theorem CommitContext.later (h : R w w') : Later alone w w' :=
  ⟨(ctx.rely w w' h).grows, fun ha => ctx.frame ha w w' h⟩

/-- One operation of the uploads. -/
theorem upload_op {o : Op} {Q : Res o → World → Prop}
    (h : ∀ w₁ f, R w w₁ → Closed P w₁ → allowed f w₁ o →
      Kept P who w₁ (exec P who f w₁ o).2 ∧ UploadFrame w₁ (exec P who f w₁ o).2 ∧
        (Later alone w (exec P who f w₁ o).2 → Q (exec P who f w₁ o).1 (exec P who f w₁ o).2)) :
    Guarded P who allowed R UploadFrame (perform o) Q w := by
  intro w₁ hR hclosed f hf
  obtain ⟨hkept, hframe, hQ⟩ := h w₁ f hR hclosed hf
  refine ⟨hkept.closed, ⟨hkept.guar, hframe⟩, hQ ?_⟩
  exact (ctx.later hR).trans ⟨hkept.guar.grows, fun _ => hframe⟩

omit ctx in
/-- One operation of which only the closure is asked. -/
theorem guarded_op {o : Op} {Q : Res o → World → Prop}
    (h : ∀ w₁ f, R w w₁ → Closed P w₁ → allowed f w₁ o →
      Kept P who w₁ (exec P who f w₁ o).2 ∧ Q (exec P who f w₁ o).1 (exec P who f w₁ o).2) :
    Guarded P who allowed R (fun _ _ => True) (perform o) Q w := by
  intro w₁ hR hclosed f hf
  obtain ⟨hkept, hQ⟩ := h w₁ f hR hclosed hf
  exact ⟨hkept.closed, ⟨hkept.guar, trivial⟩, hQ⟩

/-- Across a whole function of the uploads. -/
theorem upload_later {t : Prog sig α} {Q : α → World → Prop}
    (h : Guarded P who allowed R UploadFrame t Q w) :
    Guarded P who allowed R UploadFrame t (fun a w' => Later alone w w' ∧ Q a w') w :=
  WpRG.remember (Later.refl alone) (fun h h' => h.trans h') ctx.later
    (fun _ h => ⟨h.1.grows, fun _ => h.2⟩) h

theorem guarded_grows {F : World → World → Prop} {t : Prog sig α} {Q : α → World → Prop}
    (h : Guarded P who allowed R F t Q w) :
    Guarded P who allowed R F t (fun a w' => Grows w w' ∧ Q a w') w :=
  WpRG.remember Grows.refl (fun h h' => h.trans h') (fun h => (ctx.rely _ _ h).grows)
    (fun _ h => h.1.grows) h

/-- A function of the uploads, then anything. -/
theorem guarded_bind {F : World → World → Prop} (hF : ∀ a b, UploadFrame a b → F a b) {β : Type}
    {x : M α} {g : α → M β} {Q : Except Err β → World → Prop} {S : Except Err α → World → Prop}
    (h : Guarded P who allowed R UploadFrame x.run S w)
    (herr : ∀ e w', Later alone w w' → S (.error e) w' → Q (.error e) w')
    (hok : ∀ a w', Later alone w w' → S (.ok a) w' → Guarded P who allowed R F (g a).run Q w') :
    Guarded P who allowed R F (x >>= g).run Q w := by
  have hx : Guarded P who allowed R F x.run (fun r w' => Later alone w w' ∧ S r w') w :=
    (upload_later ctx h).guarantee fun _ _ _ hstep => ⟨hstep.1, hF _ _ hstep.2⟩
  refine run_bind_iff.mpr (hx.mono ?_)
  intro r w' hr
  obtain ⟨hlater, hS⟩ := hr
  cases r with
  | error e => exact herr e w' hlater hS
  | ok a => exact hok a w' hlater hS

theorem upload_bind {β : Type} {x : M α} {g : α → M β} {Q : Except Err β → World → Prop}
    {S : Except Err α → World → Prop} (h : Guarded P who allowed R UploadFrame x.run S w)
    (herr : ∀ e w', Later alone w w' → S (.error e) w' → Q (.error e) w')
    (hok : ∀ a w', Later alone w w' → S (.ok a) w' →
      Guarded P who allowed R UploadFrame (g a).run Q w') :
    Guarded P who allowed R UploadFrame (x >>= g).run Q w :=
  guarded_bind ctx (fun _ _ h => h) h herr hok

theorem commit_cacheContext : CacheContext P who allowed (Closed P) R quiet where
  good := fun _ h => h.caches who.node
  step := fun _ _ h hstep => h.cacheStep hstep
  rely := fun w w' h => by
    have hrely := ctx.rely w w' h
    exact ⟨hrely.grows.hashed, hrely.grows.temps, hrely.grows.tempOwner, hrely.temps who.node⟩
  noFault := ctx.noFault
  alone := ctx.still

omit ctx in
theorem CacheStep.uploadFrame (h : CacheStep P who w w') : UploadFrame w w' := by
  refine ⟨?_, ?_, ?_, ?_, ?_⟩
  all_goals rw [h.frame]

omit ctx in
theorem upload_cache {t : Prog sig α} {Q : α → World → Prop}
    (h : WpRG (machine P allowed who) (Closed P) R (CacheStep P who) t Q w) :
    Guarded P who allowed R UploadFrame t Q w :=
  h.guarantee fun _ _ _ hstep => ⟨hstep.guar, hstep.uploadFrame⟩

/-! ## Reading a batch -/

omit ctx in
/-- The bytes of dirty chunks are in overlay files, which uploads leave alone. -/
theorem UploadFrame.chunkByte_dirty (h : UploadFrame w w') (hdirty : (s.dirty.lookup i).isSome) :
    chunkByte w' r s i = chunkByte w r s i := by
  funext p
  rw [chunkByte, chunkByte, if_pos hdirty, if_pos hdirty, overlayFile, overlayFile, h.overlays]

omit ctx in
theorem UploadFrame.chunkIntact (h : UploadFrame w w') (hintact : ChunkIntact w r s i) :
    ChunkIntact w' r s i := by
  rwa [ChunkIntact, overlayFile, h.overlays]

/-- The chunk `i` of a session, as a whole. -/
def sessionChunk (w : World) (r : SessRef) (s : Session) (i : Int64) : Bytes :=
  window (chunkByte w r s i) 0 (natOf s.volume.chunkSize)

theorem readDirtyChunk_upload (hdirty : (s.dirty.lookup i).isSome) :
    Guarded P who allowed R UploadFrame (readDirtyChunk id i s.volume.chunkSize).run
      (fun r _ => (∀ c, r = .ok c → (c.length : Int) = s.volume.chunkSize.toInt ∧
          (alone → c = sessionChunk w (who.node, id) s i)) ∧
        (quiet → ChunkIntact w (who.node, id) s i → ∃ c, r = .ok c)) w := by
  unfold readDirtyChunk
  refine run_bind_iff.mpr (upload_op ctx fun w₁ f hR hclosed hf => ?_)
  rw [exec_read f w₁ (o := .readFile id i) rfl]
  refine ⟨.refl hclosed, .refl w₁, fun _ => ?_⟩
  cases hres : (exec P who f w₁ (.readFile id i)).1 with
  | error e =>
    refine ⟨fun c h => (by cases h), fun hq hintact => ?_⟩
    obtain rfl := ctx.noFault hq _ _ _ hf
    obtain rfl := ctx.still hq _ _ hR
    obtain ⟨file, hfile, -⟩ := hintact hdirty
    rw [overlayFile] at hfile
    simp only [exec, Fault.on, execReadOverlay, hfile] at hres
    cases hres
  | ok data =>
    obtain ⟨file, hfile, rfl⟩ : ∃ file, overlayFile w₁ (who.node, id) i = some file ∧
        file.data = data := by
      revert hres
      refine Fault.on_cases (motive := fun d => d.1 = .ok data → _) ?_ (fun _ h => by cases h)
        fun _ h => by cases h
      unfold execReadOverlay overlayFile
      intro hres
      split at hres
      · rename_i file hfile
        exact ⟨file, hfile, Except.ok.inj hres⟩
      · cases hres
    show (∀ c, normalizeChunk file.data s.volume.chunkSize = .ok c → _) ∧
      (quiet → _ → ∃ c, normalizeChunk file.data s.volume.chunkSize = .ok c)
    have hfit : (file.data.length : Int) ≤ s.volume.chunkSize.toInt →
        normalizeChunk file.data s.volume.chunkSize =
          .ok (sessionChunk w₁ (who.node, id) s i) := by
      intro hle
      rw [normalizeChunk_ok hle, sessionChunk, chunkByte_of_dirty hdirty hfile]
    refine ⟨fun c hc => ⟨length_normalizeChunk hc, fun ha => ?_⟩, fun hq hintact => ?_⟩
    · have hle : (file.data.length : Int) ≤ s.volume.chunkSize.toInt := by
        by_contra hgt
        obtain ⟨e, he⟩ := normalizeChunk_error (Int.not_le.mp hgt)
        rw [hc] at he
        cases he
      rw [hfit hle] at hc
      rw [← Except.ok.inj hc, sessionChunk, sessionChunk,
        (ctx.frame ha _ _ hR).chunkByte_dirty hdirty]
    · obtain rfl := ctx.still hq _ _ hR
      obtain ⟨file', hfile', hle⟩ := hintact hdirty
      obtain rfl : file = file' := Option.some.inj (hfile.symm.trans hfile')
      exact ⟨_, hfit hle⟩

/-- A chunk of a batch: hashed, of full length, inside the volume. -/
structure GoodItem (P : Platform) (w : World) (volume : Volume) (item : DirtyChunk) :
    Prop where
  hashes : Hashes P w.hashed item.id item.bytes
  length : (item.bytes.length : Int) = volume.chunkSize.toInt
  inVolume : InVolume volume item.index

omit ctx in
theorem GoodItem.grow {item : DirtyChunk} (h : GoodItem P w volume item) (hgrows : Grows w w') :
    GoodItem P w' volume item :=
  ⟨h.hashes.grow hgrows, h.length, h.inVolume⟩

/-- The chunks of a batch: those of the indexes, with the bytes `chunk` gives them. -/
structure GoodBatch (P : Platform) (alone : Prop) (w : World) (volume : Volume)
    (chunk : Int64 → Bytes) (indexes : List Int64) (batch : List DirtyChunk) : Prop where
  indexes : batch.map DirtyChunk.index = indexes
  good : ∀ item ∈ batch, GoodItem P w volume item
  bytes : alone → ∀ item ∈ batch, item.bytes = chunk item.index

/-- Reading the chunks of `indexes` gives `chunk`. -/
structure Readable (alone : Prop) (r : SessRef) (s : Session) (chunk : Int64 → Bytes)
    (indexes : List Int64) (w : World) : Prop where
  inVolume : ∀ i ∈ indexes, InVolume s.volume i
  dirty : ∀ i ∈ indexes, (s.dirty.lookup i).isSome
  chunk : alone → ∀ i ∈ indexes, sessionChunk w r s i = chunk i

omit ctx in
theorem Readable.later (h : Readable alone r s chunk indexes w) (hlater : Later alone w w') :
    Readable alone r s chunk indexes w' where
  inVolume := h.inVolume
  dirty := h.dirty
  chunk := by
    intro ha i hi
    rw [sessionChunk, (hlater.frame ha).chunkByte_dirty (h.dirty i hi)]
    exact h.chunk ha i hi

omit ctx in
theorem Readable.subset {indexes' : List Int64} (h : Readable alone r s chunk indexes w)
    (hsub : ∀ i ∈ indexes', i ∈ indexes) : Readable alone r s chunk indexes' w :=
  ⟨fun i hi => h.inVolume i (hsub i hi), fun i hi => h.dirty i (hsub i hi),
    fun ha i hi => h.chunk ha i (hsub i hi)⟩

theorem readBatch_upload (hread : Readable alone (who.node, id) s chunk indexes w) :
    Guarded P who allowed R UploadFrame (readBatch id s.volume indexes).run
      (fun r w' => (∀ batch, r = .ok batch → GoodBatch P alone w' s.volume chunk indexes batch) ∧
        (quiet → (∀ i ∈ indexes, ChunkIntact w (who.node, id) s i) → ∃ batch, r = .ok batch)) w := by
  induction indexes generalizing w with
  | nil =>
    refine ⟨fun batch h => ?_, fun _ _ => ⟨_, rfl⟩⟩
    obtain rfl := Except.ok.inj h
    exact ⟨rfl, by simp, by simp⟩
  | cons i rest ih =>
    have hdirty := hread.dirty i List.mem_cons_self
    unfold readBatch
    refine upload_bind ctx (readDirtyChunk_upload ctx hdirty) ?_ ?_
    · intro e w' _ herr
      refine ⟨fun batch h => (by cases h), fun hq hintact => ?_⟩
      obtain ⟨c, hc⟩ := herr.2 hq (hintact i List.mem_cons_self)
      cases hc
    · intro c w₁ hl₁ hc
      obtain ⟨hlen, hbytes⟩ := hc.1 c rfl
      refine run_bind_iff.mpr (run_lift_iff.mpr (upload_op ctx fun w₂ f hR hclosed hf =>
        ⟨kept_hashChunk hclosed f (ctx.free _ _ _ hf), ⟨rfl, rfl, rfl, rfl, rfl⟩,
          fun hl₂ => ?_⟩))
      rw [orElse_ok]
      have hitem : GoodItem P (exec P who f w₂ (.hashChunk c)).2 s.volume ⟨i, P.hash c, c⟩ :=
        ⟨⟨rfl, List.mem_cons_self⟩, hlen, hread.inVolume i List.mem_cons_self⟩
      have hrest : Readable alone (who.node, id) s chunk rest _ :=
        (hread.later (hl₁.trans hl₂)).subset fun j hj => List.mem_cons_of_mem _ hj
      refine upload_bind ctx (ih hrest) ?_ ?_
      · intro e w' _ herr
        refine ⟨fun batch h => (by cases h), fun hq hintact => ?_⟩
        have hframe := (hl₁.trans hl₂).frame (ctx.quietAlone hq)
        obtain ⟨batch, hbatch⟩ := herr.2 hq fun j hj =>
          hframe.chunkIntact (hintact j (List.mem_cons_of_mem _ hj))
        cases hbatch
      · intro batch w₃ hl₃ hbatch
        refine ⟨fun batch' h => ?_, fun _ _ => ⟨_, rfl⟩⟩
        obtain rfl := Except.ok.inj h
        obtain ⟨hindexes, hgood, heq⟩ := hbatch.1 batch rfl
        refine ⟨by rw [List.map_cons, hindexes], ?_, ?_⟩
        · intro item hmem
          rcases List.mem_cons.mp hmem with rfl | hmem
          · exact hitem.grow hl₃.grows
          · exact hgood item hmem
        · intro ha item hmem
          rcases List.mem_cons.mp hmem with rfl | hmem
          · exact (hbytes ha).trans (hread.chunk ha i List.mem_cons_self)
          · exact heq ha item hmem

/-! ## Uploading a batch -/

omit ctx in
/-- A `Put` that answers success has stored the object. -/
theorem storePut_ok {f : Fault} {key : String} {b : Bytes} {u : Unit}
    (h : (exec P who f w (.storePut key b)).1 = .ok u) :
    (exec P who f w (.storePut key b)).2 =
      { w with objects := update w.objects key (some b) } := by
  cases f with
  | none => rfl
  | _ => cases h

omit ctx in
theorem uploadFrame_storePut (f : Fault) (w : World) (key : String) (b : Bytes) :
    UploadFrame w (exec P who f w (.storePut key b)).2 :=
  Fault.on_cases (motive := fun d => UploadFrame w d.2) ⟨rfl, rfl, rfl, rfl, rfl⟩
    (fun _ => ⟨rfl, rfl, rfl, rfl, rfl⟩) fun _ => .refl w

/-- After `uploadChunk` the store has the chunk, whether it was uploaded or found. -/
theorem uploadChunk_upload {item : DirtyChunk} (hitem : GoodItem P w volume item) :
    Guarded P who allowed R UploadFrame (uploadChunk item).run
      (fun r w' => (∀ u, r = .ok u → w'.objects (chunkKey item.id) = some item.bytes) ∧
        (quiet → ∃ u, r = .ok u)) w := by
  unfold uploadChunk
  refine run_bind_iff.mpr (upload_op ctx fun w₁ f hR hclosed hf => ?_)
  rw [exec_read f w₁ (o := .storeExists (chunkKey item.id)) rfl]
  refine ⟨.refl hclosed, .refl w₁, fun hl₁ => ?_⟩
  cases hres : (exec P who f w₁ (.storeExists (chunkKey item.id))).1 with
  | error e =>
    refine ⟨fun u h => (by cases h), fun hq => ?_⟩
    obtain rfl := ctx.noFault hq _ _ _ hf
    cases hres
  | ok found =>
    have hfound : found = (w₁.objects (chunkKey item.id)).isSome := by
      cases f with
      | none => exact (Except.ok.inj hres).symm
      | _ => cases hres
    rw [orElse_ok]
    cases found with
    | true =>
      -- an object of this name hashes to the name, so it is this chunk
      obtain ⟨b, hb⟩ := Option.isSome_iff_exists.mp hfound.symm
      refine ⟨fun u _ => ?_, fun _ => ⟨_, rfl⟩⟩
      show w₁.objects (chunkKey item.id) = some item.bytes
      rw [hb, hclosed.hashes_unique (hclosed.objects item.id b hb)
        (hitem.grow hl₁.grows).hashes]
    | false =>
      rw [if_neg (by simp)]
      refine run_bind_iff.mpr (upload_op ctx fun w₂ f₂ hR₂ hclosed₂ hf₂ => ?_)
      have hitem₂ := (hitem.grow hl₁.grows).grow (ctx.rely _ _ hR₂).grows
      refine ⟨kept_putChunk hclosed₂ f₂ hitem₂.hashes, uploadFrame_storePut f₂ w₂ _ _,
        fun _ => ?_⟩
      cases hput : (exec P who f₂ w₂ (.storePut (chunkKey item.id) item.bytes)).1 with
      | error e =>
        refine ⟨fun u h => (by cases h), fun hq => ?_⟩
        obtain rfl := ctx.noFault hq _ _ _ hf₂
        cases hput
      | ok v =>
        refine ⟨fun u _ => ?_, fun _ => ⟨_, rfl⟩⟩
        show (exec P who f₂ w₂ (.storePut (chunkKey item.id) item.bytes)).2.objects _ = _
        rw [storePut_ok hput]
        exact update_self _ _ _

/-- The manifest after a batch: its chunks under their indexes, the rest as it was. -/
structure Uploaded (batch : List DirtyChunk) (m m' : Manifest) : Prop where
  new : ∀ item ∈ batch, m'.lookup item.index = some item.id
  old : ∀ i, i ∉ batch.map DirtyChunk.index → m'.lookup i = m.lookup i

theorem uploadBatch_upload (b : Backend) {batch : List DirtyChunk}
    (hnodup : (batch.map DirtyChunk.index).Nodup) (stats : CommitBatchStats)
    (hbatch : ∀ item ∈ batch, GoodItem P w volume item)
    (hmanifest : GoodManifest w.objects volume manifest) :
    Guarded P who allowed R UploadFrame (uploadBatch P b batch manifest stats).run
      (fun r w' => (∀ p, r = .ok p → GoodManifest w'.objects volume p.1 ∧
          Uploaded batch manifest p.1) ∧ (quiet → ∃ p, r = .ok p)) w := by
  induction batch generalizing manifest stats w with
  | nil =>
    refine ⟨fun p h => ?_, fun _ => ⟨_, rfl⟩⟩
    obtain rfl := Except.ok.inj h
    exact ⟨hmanifest, by simp, fun _ _ => rfl⟩
  | cons item rest ih =>
    have hitem := hbatch item List.mem_cons_self
    obtain ⟨hfirst, hrest⟩ := List.nodup_cons.mp hnodup
    unfold uploadBatch
    refine upload_bind ctx (uploadChunk_upload ctx hitem) ?_ ?_
    · intro e w' _ herr
      refine ⟨fun p h => (by cases h), fun hq => ?_⟩
      obtain ⟨u, hu⟩ := herr.2 hq
      cases hu
    · intro uploaded w₁ hl₁ hobject
      refine upload_bind ctx (upload_cache ((commit_cacheContext ctx).put_spec b.cache
        (hitem.grow hl₁.grows).hashes)) ?_ ?_
      · intro e w' _ herr
        refine ⟨fun p h => (by cases h), fun hq => ?_⟩
        cases herr hq
      · intro _ w₂ hl₂ _
        have hgood := ((hmanifest.grow hl₁.grows).grow hl₂.grows).insert hitem.inVolume
          (hl₂.grows.objects _ _ (hobject.1 uploaded rfl)) hitem.length
        refine WpRG.mono (ih hrest _ (fun item' hmem => ?_) hgood) ?_
        · exact ((hbatch item' (List.mem_cons_of_mem _ hmem)).grow hl₁.grows).grow hl₂.grows
        · intro r w₃ hr
          refine ⟨fun p hp => ?_, hr.2⟩
          obtain ⟨hgood', hnew, hold⟩ := hr.1 p hp
          refine ⟨hgood', ?_, ?_⟩
          · intro item' hmem
            rcases List.mem_cons.mp hmem with rfl | hmem
            · rw [hold _ hfirst, AList.lookup_insert]
            · exact hnew item' hmem
          · intro i hi
            rw [List.map_cons, List.mem_cons, not_or] at hi
            rw [hold i hi.2, AList.lookup_insert_ne hi.1]

/-- **What has been built.** The indexes `done` name chunks that were hashed, with the bytes `chunk`
gives them; every other index is as in `base`. -/
structure Built (P : Platform) (alone : Prop) (chunk : Int64 → Bytes) (base : Manifest)
    (done : List Int64) (m : Manifest) (hashed : List Bytes) : Prop where
  new : ∀ i ∈ done, ∃ c, m.lookup i = some (P.hash c) ∧ c ∈ hashed ∧ (alone → c = chunk i)
  old : ∀ i, i ∉ done → m.lookup i = base.lookup i

omit ctx in
theorem Built.start (P : Platform) (alone : Prop) (chunk : Int64 → Bytes) (base : Manifest)
    (hashed : List Bytes) : Built P alone chunk base [] base hashed :=
  ⟨by simp, fun _ _ => rfl⟩

omit ctx in
theorem Built.grow (h : Built P alone chunk base done m w.hashed) (hgrows : Grows w w') :
    Built P alone chunk base done m w'.hashed where
  new := by
    intro i hi
    obtain ⟨c, hc, hmem, heq⟩ := h.new i hi
    exact ⟨c, hc, hgrows.hashed c hmem, heq⟩
  old := h.old

omit ctx in
theorem Built.congr {chunk' : Int64 → Bytes} {done' : List Int64} {hashed : List Bytes}
    (h : Built P alone chunk base done m hashed) (hchunk : alone → ∀ i ∈ done', chunk' i = chunk i)
    (hdone : ∀ i, i ∈ done' ↔ i ∈ done) : Built P alone chunk' base done' m hashed where
  new := by
    intro i hi
    obtain ⟨c, hc, hmem, heq⟩ := h.new i ((hdone i).mp hi)
    exact ⟨c, hc, hmem, fun ha => (heq ha).trans (hchunk ha i hi).symm⟩
  old := fun i hi => h.old i fun hmem => hi ((hdone i).mpr hmem)

omit ctx in
/-- One more batch. -/
theorem Built.batch {m' : Manifest} {batch : List DirtyChunk}
    (h : Built P alone chunk base done m w.hashed)
    (hbatch : GoodBatch P alone w volume chunk indexes batch) (hup : Uploaded batch m m')
    (hdisjoint : ∀ i ∈ done, i ∉ indexes) : Built P alone chunk base (done ++ indexes) m' w.hashed where
  new := by
    intro i hi
    rcases List.mem_append.mp hi with hi | hi
    · rw [hup.old i (hbatch.indexes ▸ hdisjoint i hi)]
      exact h.new i hi
    · rw [← hbatch.indexes] at hi
      obtain ⟨item, hmem, rfl⟩ := List.mem_map.mp hi
      obtain ⟨hhash, hhashed⟩ := (hbatch.good item hmem).hashes
      exact ⟨item.bytes, by rw [hup.new item hmem, hhash], hhashed, fun ha =>
        hbatch.bytes ha item hmem⟩
  old := by
    intro i hi
    rw [List.mem_append, not_or] at hi
    rw [hup.old i (hbatch.indexes ▸ hi.2)]
    exact h.old i hi.1

theorem commitDirtyBatch_upload (b : Backend) (hnodup : indexes.Nodup)
    (hread : Readable alone (who.node, id) s chunk indexes w)
    (hmanifest : GoodManifest w.objects s.volume manifest) :
    Guarded P who allowed R UploadFrame
      (commitDirtyBatch P b id s.volume indexes manifest).run
      (fun r w' => (∀ p, r = .ok p → GoodManifest w'.objects s.volume p.1 ∧
          ∃ batch, GoodBatch P alone w' s.volume chunk indexes batch ∧ Uploaded batch manifest p.1) ∧
        (quiet → (∀ i ∈ indexes, ChunkIntact w (who.node, id) s i) → ∃ p, r = .ok p)) w := by
  unfold commitDirtyBatch
  refine upload_bind ctx (readBatch_upload ctx hread) ?_ ?_
  · intro e w' _ herr
    refine ⟨fun p h => (by cases h), fun hq hintact => ?_⟩
    obtain ⟨batch, hbatch⟩ := herr.2 hq hintact
    cases hbatch
  · intro batch w₁ hl₁ hbatch
    have hgood := hbatch.1 batch rfl
    refine WpRG.mono (upload_later ctx (uploadBatch_upload ctx b (hgood.indexes.symm ▸ hnodup) _
      hgood.good (hmanifest.grow hl₁.grows))) ?_
    intro r w₂ hr
    obtain ⟨hl₂, hok, hq⟩ := hr
    refine ⟨fun p hp => ?_, fun hquiet _ => hq hquiet⟩
    obtain ⟨hmanifest', hup⟩ := hok p hp
    exact ⟨hmanifest', batch, ⟨hgood.indexes, fun item hmem => (hgood.good item hmem).grow hl₂.grows,
      hgood.bytes⟩, hup⟩

theorem progress_upload (opts : CommitOptions) (p : CommitProgress) :
    Guarded P who allowed R UploadFrame (progress opts p).run
      (fun r w' => r = .ok () ∧ Rely P who w w') w := by
  unfold progress
  split
  · refine run_lift_iff.mpr (upload_op ctx fun w₁ f hR hclosed _ => ?_)
    have hlocal : LocalFrame w₁ (exec P who f w₁ (.onProgress p)).2 := exec_local f w₁ rfl
    exact ⟨hlocal.kept hclosed, ⟨rfl, rfl, rfl, rfl, rfl⟩, fun _ =>
      ⟨rfl, (ctx.rely _ _ hR).trans (hlocal.respects _)⟩⟩
  · exact ⟨rfl, .refl P _ w⟩

omit ctx in
theorem commitBatches_done (b : Backend) (opts : CommitOptions) (total : Nat) {batchSize fuel : Nat}
    {stats : CommitBatchStats} {S : Prop} (hmanifest : GoodManifest w.objects s.volume manifest)
    (hbuilt : Built P alone chunk base done manifest w.hashed) :
    Guarded P who allowed R UploadFrame (commitBatches P b opts id s.volume total batchSize
        fuel [] manifest stats).run
      (fun r w' => (∀ p, r = .ok p → GoodManifest w'.objects s.volume p.1 ∧
          Built P alone chunk base (done ++ []) p.1 w'.hashed) ∧ (quiet → S → ∃ p, r = .ok p)) w := by
  have hdone : commitBatches P b opts id s.volume total batchSize fuel [] manifest stats =
      pure (manifest, stats) := by
    cases fuel with
    | zero => rfl
    | succ fuel => rw [commitBatches, if_pos rfl]
  rw [hdone, List.append_nil]
  refine ⟨fun p h => ?_, fun _ _ => ⟨_, rfl⟩⟩
  obtain rfl := Except.ok.inj h
  exact ⟨hmanifest, hbuilt⟩

/-- **The loop over batches** builds the manifest of all the indexes. -/
theorem commitBatches_upload (b : Backend) (opts : CommitOptions) (total : Nat) {batchSize : Nat}
    (hbatch : 0 < batchSize) {fuel : Nat} (hfuel : indexes.length ≤ fuel)
    (hnodup : (done ++ indexes).Nodup) (stats : CommitBatchStats)
    (hread : Readable alone (who.node, id) s chunk indexes w)
    (hmanifest : GoodManifest w.objects s.volume manifest)
    (hbuilt : Built P alone chunk base done manifest w.hashed) :
    Guarded P who allowed R UploadFrame (commitBatches P b opts id s.volume total batchSize
        fuel indexes manifest stats).run
      (fun r w' => (∀ p, r = .ok p → GoodManifest w'.objects s.volume p.1 ∧
          Built P alone chunk base (done ++ indexes) p.1 w'.hashed) ∧
        (quiet → (∀ i ∈ indexes, ChunkIntact w (who.node, id) s i) → ∃ p, r = .ok p)) w := by
  induction fuel generalizing done indexes manifest stats w with
  | zero =>
    obtain rfl := List.eq_nil_of_length_eq_zero (Nat.le_zero.mp hfuel)
    exact commitBatches_done b opts total hmanifest hbuilt
  | succ fuel ih =>
    by_cases hempty : indexes = []
    · subst hempty
      exact commitBatches_done b opts total hmanifest hbuilt
    · unfold commitBatches
      rw [if_neg hempty]
      have hsplit : indexes.take batchSize ++ indexes.drop batchSize = indexes :=
        List.take_append_drop batchSize indexes
      have htake : (indexes.take batchSize).Nodup :=
        ((List.nodup_append.mp hnodup).2.1).sublist (List.take_sublist _ _)
      have hdisjoint : ∀ i ∈ done, i ∉ indexes.take batchSize := by
        intro i hi hmem
        exact (List.nodup_append.mp hnodup).2.2 i hi i (List.mem_of_mem_take hmem) rfl
      refine upload_bind ctx (commitDirtyBatch_upload ctx b htake
        (hread.subset fun i hi => List.mem_of_mem_take hi) hmanifest) ?_ ?_
      · intro e w' _ herr
        refine ⟨fun p h => (by cases h), fun hq hintact => ?_⟩
        obtain ⟨p, hp⟩ := herr.2 hq fun i hi => hintact i (List.mem_of_mem_take hi)
        cases hp
      · intro p w₁ hl₁ hp
        obtain ⟨manifest', batch⟩ := p
        obtain ⟨hgood, items, hitems, hup⟩ := hp.1 _ rfl
        have hbuilt₁ := (hbuilt.grow hl₁.grows).batch hitems hup hdisjoint
        refine upload_bind ctx (progress_upload ctx opts _) (fun _ _ _ h => by cases h.1) ?_
        intro _ w₂ hl₂ _
        have hshort : (indexes.drop batchSize).length ≤ fuel := by
          rw [List.length_drop]
          omega
        have hrest : Readable alone (who.node, id) s chunk (indexes.drop batchSize) w₂ :=
          (hread.later (hl₁.trans hl₂)).subset fun i hi => List.mem_of_mem_drop hi
        refine (ih hshort (by rwa [List.append_assoc, hsplit]) _ hrest (hgood.grow hl₂.grows)
          (hbuilt₁.grow hl₂.grows)).mono ?_
        intro r w₃ hr
        refine ⟨fun p hp => ?_, fun hq hintact => hr.2 hq fun i hi => ?_⟩
        · have hlast := hr.1 p hp
          rwa [List.append_assoc, hsplit] at hlast
        · exact ((hl₁.trans hl₂).frame (ctx.quietAlone hq)).chunkIntact
            (hintact i (List.mem_of_mem_drop hi))

/-! ## Recording the snapshot -/

/-- The volume a thread works for is in the repository, with the sizes it knows. -/
def HasVolume (w : World) (volume : Volume) : Prop :=
  ∃ v, w.volumes volume.volumeID = some v ∧ SameShape volume v

omit ctx in
theorem HasVolume.grow (h : HasVolume w volume) (hgrows : Grows w w') : HasVolume w' volume := by
  obtain ⟨v, hv, hshape⟩ := h
  obtain ⟨v', hv', hshape'⟩ := hgrows.volumes _ v hv
  exact ⟨v', hv', hshape.trans hshape'⟩

/-- The snapshot is in the repository and its manifest, with the lookups of `m`, in the store. -/
structure Recorded (P : Platform) (w : World) (volume : Volume) (m : Manifest) (snap : Snapshot) :
    Prop where
  recorded : w.snapshots snap.snapshotID = some snap
  named : snap.snapshotID ≠ ""
  volumeID : snap.volumeID = volume.volumeID
  stored : ∃ m', manifestAt P w.objects snap.manifestKey = some m' ∧ ∀ i, m'.lookup i = m.lookup i

omit ctx in
theorem Recorded.grow (h : Recorded P w volume m snap) (hgrows : Grows w w') :
    Recorded P w' volume m snap := by
  obtain ⟨m', hm', hlookup⟩ := h.stored
  exact ⟨hgrows.snapshots _ _ h.recorded, h.named, h.volumeID, m', manifestAt_grow hm' hgrows,
    hlookup⟩

/-- **The manifest goes under an unused name of the thread**, and decodes to what was saved. -/
theorem saveManifest_upload {k : Nat} (hunused : Unused P who w k)
    (hmanifest : GoodManifest w.objects volume manifest) :
    Guarded P who allowed R UploadFrame
      (saveManifest P (manifestKey (P.uuid k)) manifest).run
      (fun r w' => (∀ u, r = .ok u → w'.snapshots (P.uuid k) = none ∧
          ∃ m, manifestAt P w'.objects (manifestKey (P.uuid k)) = some m ∧
            ∀ i, m.lookup i = manifest.lookup i) ∧ (quiet → ∃ u, r = .ok u)) w := by
  unfold saveManifest
  refine upload_op ctx fun w₁ f hR hclosed hf => ?_
  have hrely := ctx.rely _ _ hR
  have hunused₁ := hunused.rely hrely
  refine ⟨kept_putManifest hclosed f hunused₁.lt hunused₁.owner hunused₁.manifest _,
    uploadFrame_storePut f w₁ _ _, fun _ => ⟨fun u hu => ?_, fun hq => ?_⟩⟩
  · have hplain : ∀ i id, manifest.lookup i = some id → PlainString id :=
      fun i id hi => ((hmanifest.grow hrely.grows).isChunkID hclosed hi).plain P
    rw [storePut_ok hu]
    obtain ⟨m, hm, hlookup⟩ := manifestAt_saved P (update_self _ _ _) hplain
    exact ⟨hunused₁.snapshot, m, hm, hlookup⟩
  · obtain rfl := ctx.noFault hq _ _ _ hf
    exact ⟨(), rfl⟩

omit ctx in
theorem none_of_grows (h : w'.snapshots id = none) (hgrows : Grows w w') : w.snapshots id = none := by
  cases hw : w.snapshots id with
  | none => rfl
  | some snap =>
    rw [hgrows.snapshots _ _ hw] at h
    cases h

theorem newString_upload {Q : Except Err String → World → Prop}
    (h : ∀ k w', Later alone w w' → Unused P who w' k → w.snapshots (P.uuid k) = none →
      Q (.ok (P.uuid k)) w') : Guarded P who allowed R UploadFrame (access .newString).run Q w := by
  refine run_lift_iff.mpr (upload_op ctx fun w₁ f hR hclosed _ =>
    ⟨harmless_newString f w₁ hclosed, ⟨rfl, rfl, rfl, rfl, rfl⟩, fun hl₁ => ?_⟩)
  obtain ⟨hobject, hsnapshot, hsession⟩ := hclosed.fresh w₁.uuids (Nat.le_refl _)
  exact h w₁.uuids _ hl₁
    ⟨Nat.lt_succ_self _, update_self _ _ _, hobject, hsnapshot, hsession⟩
    (none_of_grows hsnapshot (ctx.rely _ _ hR).grows)

theorem recordSnapshot_upload (opts : CommitOptions) (total : Nat) (stats : CommitBatchStats)
    (hvolume : HasVolume w volume) (hmanifest : GoodManifest w.objects volume manifest) :
    Guarded P who allowed R UploadFrame
      (recordSnapshot P opts volume total manifest stats).run
      (fun r w' => (∀ snap, r = .ok snap → Recorded P w' volume manifest snap ∧
          w.snapshots snap.snapshotID = none) ∧ (quiet → ∃ snap, r = .ok snap)) w := by
  unfold recordSnapshot
  refine run_bind_iff.mpr (newString_upload ctx fun k w₁ hl₁ hunused hfresh => ?_)
  rw [orElse_ok]
  refine upload_bind ctx (progress_upload ctx opts _) (fun _ _ _ h => by cases h.1)
    fun _ w₂ hl₂ hp₂ => ?_
  have hunused₂ := hunused.rely hp₂.2
  have hl₁₂ := hl₁.trans hl₂
  refine upload_bind ctx (saveManifest_upload ctx hunused₂ (hmanifest.grow hl₁₂.grows)) ?_ ?_
  · intro e w' _ herr
    refine ⟨fun snap h => (by cases h), fun hq => ?_⟩
    obtain ⟨u, hu⟩ := herr.2 hq
    cases hu
  intro _ w₃ hl₃ hsaved
  obtain ⟨hnone, m, hm, hlookup⟩ := hsaved.1 _ rfl
  have hl₁₃ := hl₁₂.trans hl₃
  have hlt₃ : k < w₃.uuids := hunused₂.lt.trans_le hl₃.grows.uuids
  have howner₃ : w₃.uuidOwner k = who :=
    (hl₃.grows.uuidOwner k hunused₂.lt).trans hunused₂.owner
  dsimp only
  refine upload_bind ctx (progress_upload ctx opts _) (fun _ _ _ h => by cases h.1)
    fun _ w₄ hl₄ hp₄ => ?_
  -- the manifest is in the store and the name is still unused: the snapshot can be recorded
  refine run_bind_iff.mpr (upload_op ctx fun w₅ f₅ hR₅ hclosed₅ hf₅ => ?_)
  have hrely₅ : Rely P who w₃ w₅ := hp₄.2.trans (ctx.rely _ _ hR₅)
  obtain ⟨v, hv, hshape⟩ := (hvolume.grow hl₁₃.grows).grow hrely₅.grows
  have hgood : GoodManifest w₅.objects v m :=
    (((hmanifest.grow hl₁₃.grows).grow hrely₅.grows).congr hlookup).shape hshape
  have hm₅ := manifestAt_grow hm hrely₅.grows
  refine ⟨kept_createSnapshot hclosed₅ f₅ (hlt₃.trans_le hrely₅.grows.uuids)
    ((hrely₅.grows.uuidOwner k hlt₃).trans howner₃) ((hrely₅.snapshots k hlt₃ howner₃).trans hnone)
    rfl hv ⟨m, hm₅, hgood⟩, ?_, fun _ => ?_⟩
  · exact Fault.on_cases (motive := fun d => UploadFrame w₅ d.2) ⟨rfl, rfl, rfl, rfl, rfl⟩
      (fun _ => ⟨rfl, rfl, rfl, rfl, rfl⟩) fun _ => .refl w₅
  · cases f₅ with
    | none =>
      refine ⟨fun snap h => ?_, fun _ => ⟨_, rfl⟩⟩
      obtain rfl := Except.ok.inj h
      exact ⟨⟨update_self _ _ _, P.uuid_ne_empty k, rfl, m, hm₅, hlookup⟩, hfresh⟩
    | _ => exact ⟨fun _ h => (by cases h), fun hq => by cases ctx.noFault hq _ _ _ hf₅⟩

/-! ## Moving the pointer -/

/-- The volume of a snapshot names it as its latest. -/
def World.setLatest (w : World) (snap : Snapshot) : World :=
  { w with
    volumes := update w.volumes snap.volumeID
      ((w.volumes snap.volumeID).map fun v => { v with latestSnapshotID := snap.snapshotID }) }

/-- **The pointer moved.** The volume names the snapshot, the session object is now `s`, and of the
overlays only the session's own may have changed. -/
structure Moved (w w' : World) (r : SessRef) (snap : Snapshot) (s : Session) : Prop where
  volumes : w'.volumes = (w.setLatest snap).volumes
  images : w'.images = w.images
  sessions : w'.sessions = update w.sessions r (some s)
  registered : w'.registered = w.registered
  overlays : ∀ r', r' ≠ r → w'.overlays r' = w.overlays r'

section Moved

variable {w₂ : World}

omit ctx in
theorem Moved.setLatest (h : UploadFrame w w₁) (hs : w.sessions r = some s) :
    Moved w (w₁.setLatest snap) r snap s where
  volumes := by
    rw [World.setLatest, World.setLatest, h.volumes]
  images := h.images
  sessions := by
    rw [← hs, update_eq_self]
    exact h.sessions
  registered := h.registered
  overlays := fun r' _ => congrFun h.overlays r'

omit ctx in
theorem Moved.from (h : Moved w₁ w₂ r snap s) (h' : UploadFrame w w₁) : Moved w w₂ r snap s where
  volumes := by
    rw [h.volumes, World.setLatest, World.setLatest, h'.volumes]
  images := h.images.trans h'.images
  sessions := by
    rw [h.sessions, h'.sessions]
  registered := h.registered.trans h'.registered
  overlays := fun r' hr => (h.overlays r' hr).trans (congrFun h'.overlays r')

omit ctx in
theorem Moved.frame (h : Moved w w₁ r snap s) (h' : UploadFrame w₁ w₂) : Moved w w₂ r snap s :=
  ⟨h'.volumes.trans h.volumes, h'.images.trans h.images, h'.sessions.trans h.sessions,
    h'.registered.trans h.registered, fun r' hr => by rw [h'.overlays, h.overlays r' hr]⟩

omit ctx in
theorem Moved.setOverlay (h : Moved w w₁ r snap s) (d : Option OverlayDir) :
    Moved w (w₁.setOverlay r d) r snap s :=
  { h with overlays := fun r' hr => (update_of_ne hr _ _).trans (h.overlays r' hr) }

omit ctx in
theorem Moved.modifySession (h : Moved w w₁ r snap s) (f : Session → Session) :
    Moved w (w₁.modifySession r f) r snap (f s) :=
  { h with
    sessions := by
      show update w₁.sessions r ((w₁.sessions r).map f) = _
      rw [h.sessions, update_self, update_idem]
      rfl }

omit ctx in
theorem exec_removeAll (f : Fault) (w : World) (id : String) :
    (f = .none ∧ exec P who f w (.removeAll id) = (.ok (), w.setOverlay (who.node, id) none)) ∨
      (f ≠ .none ∧ ∃ e d, exec P who f w (.removeAll id) =
        (.error e, w.setOverlay (who.node, id) d)) := by
  have hsame : w.setOverlay (who.node, id) (w.overlays (who.node, id)) = w := by
    rw [World.setOverlay, update_eq_self]
  cases f with
  | none => exact Or.inl ⟨rfl, rfl⟩
  | late => exact Or.inr ⟨by simp, .io, none, rfl⟩
  | kept keep => exact Or.inr ⟨by simp, .io, _, rfl⟩
  | _ => exact Or.inr ⟨by simp, .io, w.overlays (who.node, id), by rw [hsame]; rfl⟩

omit ctx in
theorem exec_mkdirAll (f : Fault) (w : World) (id : String) :
    (f = .none ∧ exec P who f w (.mkdirAll id) = (.ok (), w.setOverlay (who.node, id)
        (some ((w.overlays (who.node, id)).getD fun _ => none)))) ∨
      (f ≠ .none ∧ ∃ e d, exec P who f w (.mkdirAll id) =
        (.error e, w.setOverlay (who.node, id) d)) := by
  have hsame : w.setOverlay (who.node, id) (w.overlays (who.node, id)) = w := by
    rw [World.setOverlay, update_eq_self]
  cases f with
  | none => exact Or.inl ⟨rfl, rfl⟩
  | late => exact Or.inr ⟨by simp, .io, _, rfl⟩
  | _ => exact Or.inr ⟨by simp, .io, w.overlays (who.node, id), by rw [hsame]; rfl⟩

end Moved

/-- One of the calls that clear an overlay may fail. -/
def ClearMayFail (allowed : Fault → World → Op → Prop) (id : String) : Prop :=
  ∃ f w o, (o = .removeAll id ∨ o = .mkdirAll id) ∧ allowed f w o ∧ f ≠ .none

/-- What `clearDirtyOverlay` makes of a session. -/
def Session.clean (s : Session) : Session := { s with dirty := ∅ }

theorem removeAll_guarded (hmoved : alone → Moved w₀ w (who.node, id) snap s) :
    Guarded P who allowed R (fun _ _ => True) (perform (.removeAll id))
      (fun r w' => (∀ e, r = .error e → ClearMayFail allowed id) ∧
        (alone → Moved w₀ w' (who.node, id) snap s ∧
          (r = .ok () → w'.overlays (who.node, id) = none))) w := by
  refine guarded_op fun w₁ f hR hclosed hf => ⟨harmless_of_isLocal rfl f w₁ hclosed, ?_⟩
  have hmoved₁ := fun ha => (hmoved ha).frame (ctx.frame ha _ _ hR)
  rcases exec_removeAll f w₁ id with ⟨-, hexec⟩ | ⟨hne, e, d, hexec⟩
  · rw [hexec]
    refine ⟨fun e h => (by cases h), fun ha => ⟨(hmoved₁ ha).setOverlay none, fun _ => ?_⟩⟩
    exact update_self _ _ _
  · rw [hexec]
    exact ⟨fun _ _ => ⟨f, w₁, _, Or.inl rfl, hf, hne⟩, fun ha =>
      ⟨(hmoved₁ ha).setOverlay d, fun h => by cases h⟩⟩

theorem mkdirAll_guarded
    (hmoved : alone → Moved w₀ w (who.node, id) snap s ∧ w.overlays (who.node, id) = none) :
    Guarded P who allowed R (fun _ _ => True) (perform (.mkdirAll id))
      (fun r w' => (∀ e, r = .error e → ClearMayFail allowed id) ∧
        (alone → Moved w₀ w' (who.node, id) snap s ∧
          (r = .ok () → w'.overlays (who.node, id) = some fun _ => none))) w := by
  refine guarded_op fun w₁ f hR hclosed hf => ⟨harmless_of_isLocal rfl f w₁ hclosed, ?_⟩
  have hmoved₁ := fun ha => (hmoved ha).1.frame (ctx.frame ha _ _ hR)
  rcases exec_mkdirAll f w₁ id with ⟨-, hexec⟩ | ⟨hne, e, d, hexec⟩
  · rw [hexec]
    refine ⟨fun e h => (by cases h), fun ha => ⟨(hmoved₁ ha).setOverlay _, fun _ => ?_⟩⟩
    have hnone : w₁.overlays (who.node, id) = none :=
      (congrFun (ctx.frame ha _ _ hR).overlays _).trans (hmoved ha).2
    simp only [World.setOverlay, update_self, hnone, Option.getD_none]
  · rw [hexec]
    exact ⟨fun _ _ => ⟨f, w₁, _, Or.inr rfl, hf, hne⟩, fun ha =>
      ⟨(hmoved₁ ha).setOverlay d, fun h => by cases h⟩⟩

theorem clearDirtyOverlay_guarded (hmoved : alone → Moved w₀ w (who.node, id) snap s) :
    Guarded P who allowed R (fun _ _ => True) (clearDirtyOverlay id).run
      (fun r w' => (∀ e, r = .error e →
          ClearMayFail allowed id ∧ (alone → Moved w₀ w' (who.node, id) snap s)) ∧
        (∀ u, r = .ok u → alone → Moved w₀ w' (who.node, id) snap s.clean ∧
          w'.overlays (who.node, id) = some fun _ => none)) w := by
  unfold clearDirtyOverlay
  refine run_bind_iff.mpr ((removeAll_guarded ctx hmoved).mono fun r w₁ h₁ => ?_)
  cases r with
  | error e => exact ⟨fun _ _ => ⟨h₁.1 e rfl, fun ha => (h₁.2 ha).1⟩, fun _ h => by cases h⟩
  | ok u =>
    refine run_bind_iff.mpr ((mkdirAll_guarded ctx fun ha =>
      ⟨(h₁.2 ha).1, (h₁.2 ha).2 rfl⟩).mono fun r w₂ h₂ => ?_)
    cases r with
    | error e => exact ⟨fun _ _ => ⟨h₂.1 e rfl, fun ha => (h₂.2 ha).1⟩, fun _ h => by cases h⟩
    | ok u =>
      refine run_lift_iff.mpr (guarded_op fun w₃ f hR hclosed _ =>
        ⟨harmless_resetDirty id f w₃ hclosed, fun _ h => (by cases h), fun _ _ ha => ?_⟩)
      have hframe := ctx.frame ha _ _ hR
      exact ⟨((h₂.2 ha).1.frame hframe).modifySession fun s => { s with dirty := ∅ },
        (congrFun hframe.overlays _).trans ((h₂.2 ha).2 rfl)⟩

/-- The session on its new base. -/
def Session.rebase (s : Session) (snap : Snapshot) (m : Manifest) : Session :=
  { s with baseSnapshotID := snap.snapshotID, baseManifest := m }

/-- The reply to the move of the pointer may be lost. -/
def MoveMayBeLate (allowed : Fault → World → Op → Prop) : Prop :=
  ∃ w volumeID snapshotID, allowed .late w (.updateLatestSnapshot volumeID snapshotID)

/-- **How `moveTo` ends.** If it fails, either nothing has moved yet, or the pointer has and the session
does not know, or everything has and it was the overlay that could not be cleared. -/
structure MoveOutcome (P : Platform) (who : Caller) (allowed : Fault → World → Op → Prop)
    (alone quiet : Prop) (id : String) (s : Session) (m : Manifest) (snap : Snapshot) (w : World)
    (r : Except Err Snapshot) (w' : World) : Prop where
  error : ∀ e, r = .error e → (alone → UploadFrame w w') ∨
    (MoveMayBeLate allowed ∧ (alone → Moved w w' (who.node, id) snap s)) ∨
    (ClearMayFail allowed id ∧ (alone → Moved w w' (who.node, id) snap (s.rebase snap m)))
  ok : ∀ snap', r = .ok snap' → snap' = snap ∧
    (alone → Moved w w' (who.node, id) snap (s.rebase snap m).clean ∧
      w'.overlays (who.node, id) = some fun _ => none)
  quiet : quiet → r = .ok snap

theorem moveTo_guarded (opts : CommitOptions) (total : Nat) (stats : CommitBatchStats)
    (hopen : Open who w id s.volume) (hsession : alone → w.sessions (who.node, id) = some s)
    (hvolume : HasVolume w s.volume) (hmanifest : GoodManifest w.objects s.volume manifest)
    (hrec : Recorded P w s.volume manifest snap) :
    Guarded P who allowed R (fun _ _ => True)
      (moveTo opts id total manifest stats snap).run
      (MoveOutcome P who allowed alone quiet id s manifest snap w) w := by
  unfold moveTo
  dsimp only
  refine guarded_bind ctx (fun _ _ _ => trivial) (progress_upload ctx opts _)
    (fun _ _ _ h => by cases h.1) fun _ w₁ hl₁ _ => ?_
  refine run_bind_iff.mpr (guarded_op fun w₂ f hR₂ hclosed₂ hf => ?_)
  have hl₂ := hl₁.trans (ctx.later hR₂)
  have hrec₂ := hrec.grow hl₂.grows
  have hkept : Kept P who w₂
      (exec P who f w₂ (.updateLatestSnapshot snap.volumeID snap.snapshotID)).2 :=
    kept_updateLatestSnapshot hclosed₂ f hrec₂.recorded rfl
  refine ⟨hkept, ?_⟩
  obtain ⟨v, hv, -⟩ := hvolume.grow hl₂.grows
  rw [← hrec.volumeID] at hv
  have hexec : execUpdateVolume w₂ snap.volumeID
      (fun v => { v with latestSnapshotID := snap.snapshotID }) = (.ok (), w₂.setLatest snap) := by
    simp only [execUpdateVolume, World.setLatest, hv, Option.map_some]
  have hmoved₃ : alone → Moved w (w₂.setLatest snap) (who.node, id) snap s :=
    fun ha => Moved.setLatest (hl₂.frame ha) (hsession ha)
  simp only [exec, hexec] at hkept ⊢
  cases f with
  | none =>
    have hgrows₃ : Grows w (w₂.setLatest snap) := hl₂.grows.trans hkept.guar.grows
    simp only [Fault.on, orElse_ok]
    refine run_bind_iff.mpr (run_lift_iff.mpr (guarded_op fun w₄ f₄ hR₄ hclosed₄ _ => ?_))
    have hgrows₄ := hgrows₃.trans (ctx.rely _ _ hR₄).grows
    refine ⟨kept_setBase hclosed₄ f₄ fun s' hs' => ?_, ?_⟩
    · obtain ⟨s'', hs'', hvol⟩ := hopen.grow hgrows₄
      obtain rfl : s' = s'' := Option.some.inj (hs'.symm.trans hs'')
      exact hvol.symm ▸ hmanifest.grow hgrows₄
    have hmoved₄ := fun ha => ((hmoved₃ ha).frame (ctx.frame ha _ _ hR₄)).modifySession fun s =>
      { s with baseSnapshotID := snap.snapshotID, baseManifest := manifest }
    rw [orElse_ok]
    refine guarded_bind ctx (fun _ _ _ => trivial) (progress_upload ctx opts _)
      (fun _ _ _ h => by cases h.1) fun _ w₅ hl₅ _ => ?_
    have hmoved₅ := fun ha => (hmoved₄ ha).frame (hl₅.frame ha)
    refine run_bind_iff.mpr ((clearDirtyOverlay_guarded ctx hmoved₅).mono fun r w₆ hr => ?_)
    cases r with
    | error e =>
      refine ⟨fun _ _ => Or.inr (Or.inr (hr.1 e rfl)), fun _ h => (by cases h), fun hq => ?_⟩
      obtain ⟨f, w', o, -, hf, hne⟩ := (hr.1 e rfl).1
      exact absurd (ctx.noFault hq f w' o hf) hne
    | ok u =>
      rw [orElse_ok]
      refine guarded_bind ctx (fun _ _ _ => trivial) (progress_upload ctx opts _)
        (fun _ _ _ h => by cases h.1) fun _ w₇ hl₇ _ => ?_
      refine ⟨fun _ h => (by cases h), fun snap' h => ⟨(Except.ok.inj h).symm, fun ha => ?_⟩,
        fun _ => rfl⟩
      obtain ⟨hmoved, hempty⟩ := hr.2 u rfl ha
      exact ⟨hmoved.frame (hl₇.frame ha), (congrFun (hl₇.frame ha).overlays _).trans hempty⟩
  | late =>
    exact ⟨fun _ _ => Or.inr (Or.inl ⟨⟨_, _, _, hf⟩, hmoved₃⟩),
      fun _ h => (by cases h), fun hq => by cases ctx.noFault hq _ _ _ hf⟩
  | _ =>
    exact ⟨fun _ _ => Or.inl fun ha => hl₂.frame ha, fun _ h => (by cases h),
      fun hq => by cases ctx.noFault hq _ _ _ hf⟩

/-! ## The whole commit -/

/-- **A snapshot was made** of the session `s` as it was in `w`, over the manifest `base`: it is
recorded, under a name not recorded before, with a manifest `m` that gives each dirty index the hash of
its chunk and leaves the others as in `base`. -/
structure Committed (P : Platform) (alone : Prop) (who : Caller) (id : String) (s : Session)
    (base m : Manifest) (snap : Snapshot) (w w' : World) : Prop where
  recorded : Recorded P w' s.volume m snap
  fresh : w.snapshots snap.snapshotID = none
  built : Built P alone (sessionChunk w (who.node, id) s) base s.dirty.keys m w'.hashed
  good : GoodManifest w'.objects s.volume m
  session : Open who w' id s.volume

/-- **How a commit ends**, from the collection of the dirty indexes of `s` in `w` on. -/
structure CommitOutcome (P : Platform) (alone quiet : Prop) (who : Caller)
    (allowed : Fault → World → Op → Prop) (id : String) (s : Session) (base : Manifest) (w : World)
    (r : Except Err Snapshot) (w' : World) : Prop where
  error : ∀ e, r = .error e → (alone → UploadFrame w w') ∨
    ∃ snap m, Committed P alone who id s base m snap w w' ∧
      ((MoveMayBeLate allowed ∧ (alone → Moved w w' (who.node, id) snap s)) ∨
        (ClearMayFail allowed id ∧ (alone → Moved w w' (who.node, id) snap (s.rebase snap m))))
  ok : ∀ snap, r = .ok snap → ∃ m, Committed P alone who id s base m snap w w' ∧
    (alone → Moved w w' (who.node, id) snap (s.rebase snap m).clean ∧
      w'.overlays (who.node, id) = some fun _ => none)
  quiet : quiet → (∀ i, ChunkIntact w (who.node, id) s i) → ∃ snap, r = .ok snap

omit ctx in
theorem uploadBatchChunks_pos (opts : CommitOptions) : 0 < uploadBatchChunks opts := by
  unfold uploadBatchChunks
  split
  · decide
  · rename_i hpos
    rw [Int64.le_iff_toInt_le] at hpos
    have hzero : (0 : Int64).toInt = 0 := rfl
    unfold natOf
    omega

omit ctx in
theorem Committed.grow (h : Committed P alone who id s base m snap w w₁) (hgrows : Grows w₁ w') :
    Committed P alone who id s base m snap w w' :=
  ⟨h.recorded.grow hgrows, h.fresh, h.built.grow hgrows, h.good.grow hgrows, h.session.grow hgrows⟩

/-- Everything before the pointer moves. -/
theorem prepareSnapshot_upload (b : Backend) (opts : CommitOptions) (hclosed : Closed P w)
    (hs : w.sessions (who.node, id) = some s) (hindexes : indexes.Perm s.dirty.keys)
    (hbase : GoodManifest w.objects s.volume base) :
    Guarded P who allowed R UploadFrame
      (prepareSnapshot P b id opts s.volume base indexes).run
      (fun r w' => (∀ m stats snap, r = .ok (m, stats, snap) →
          Committed P alone who id s base m snap w w') ∧
        (quiet → (∀ i, ChunkIntact w (who.node, id) s i) → ∃ p, r = .ok p)) w := by
  obtain ⟨hvolume, -, hdirty⟩ := hclosed.sessions _ s hs
  have hmem : ∀ i, i ∈ indexes ↔ i ∈ s.dirty.keys := fun i => hindexes.mem_iff
  have hnodup : indexes.Nodup := hindexes.nodup_iff.mpr s.dirty.keys_nodup
  have hread : Readable alone (who.node, id) s (sessionChunk w (who.node, id) s) indexes w := by
    have hsome : ∀ i ∈ indexes, (s.dirty.lookup i).isSome := fun i hi =>
      AList.lookup_isSome.mpr ((hmem i).mp hi)
    refine ⟨fun i hi => ?_, hsome, fun _ _ _ => rfl⟩
    obtain ⟨u, hu⟩ := Option.isSome_iff_exists.mp (hsome i hi)
    exact hdirty i hu
  unfold prepareSnapshot
  dsimp only
  refine upload_bind ctx (progress_upload ctx opts _) (fun _ _ _ h => by cases h.1) fun _ w₁ hl₁ _ => ?_
  refine upload_bind ctx (commitBatches_upload ctx b opts _ (uploadBatchChunks_pos opts)
    (Nat.le_refl _) (show ([] ++ indexes).Nodup from hnodup) _ (hread.later hl₁)
    (hbase.grow hl₁.grows) (Built.start P alone _ base _)) ?_ ?_
  · intro e w' hl herr
    refine ⟨fun _ _ _ h => (by cases h), fun hq hintact => ?_⟩
    obtain ⟨p, hp⟩ := herr.2 hq fun i _ =>
      (hl₁.frame (ctx.quietAlone hq)).chunkIntact (hintact i)
    cases hp
  intro p w₂ hl₂ hp
  obtain ⟨manifest, stats⟩ := p
  obtain ⟨hgood, hbuilt⟩ := hp.1 _ rfl
  have hl₁₂ := hl₁.trans hl₂
  dsimp only
  refine upload_bind ctx (recordSnapshot_upload ctx opts _ stats
    (HasVolume.grow hvolume hl₁₂.grows) hgood) ?_ ?_
  · intro e w' hl herr
    refine ⟨fun _ _ _ h => (by cases h), fun hq _ => ?_⟩
    obtain ⟨snap, hsnap⟩ := herr.2 hq
    cases hsnap
  intro snap w₃ hl₃ hrecorded
  obtain ⟨hrec, hfresh⟩ := hrecorded.1 snap rfl
  have hl₁₃ := hl₁₂.trans hl₃
  refine ⟨fun m' stats' snap' hok => ?_, fun _ _ => ⟨_, rfl⟩⟩
  cases hok
  exact ⟨hrec, none_of_grows hfresh hl₁₂.grows,
    (hbuilt.congr (fun _ _ _ => rfl) fun i => (hmem i).symm).grow hl₃.grows, hgood.grow hl₃.grows,
    Open.grow ⟨s, hs, rfl⟩ hl₁₃.grows⟩

theorem commitCollected_guarded (b : Backend) (opts : CommitOptions) {keys : List Int64}
    (hclosed : Closed P w) (hs : w.sessions (who.node, id) = some s) (hkeys : keys.Perm s.dirty.keys)
    (hbase : GoodManifest w.objects s.volume base) :
    Guarded P who allowed R (fun _ _ => True)
      (commitCollected P b id opts s.volume base keys).run
      (CommitOutcome P alone quiet who allowed id s base w) w := by
  have hvolume := (hclosed.sessions _ s hs).1
  unfold commitCollected
  dsimp only
  refine guarded_bind ctx (fun _ _ _ => trivial) (prepareSnapshot_upload ctx b opts hclosed hs
    ((List.perm_insertionSort _ _).trans hkeys) hbase) ?_ ?_
  · intro e w' hl herr
    refine ⟨fun _ _ => Or.inl hl.frame, fun _ h => (by cases h), fun hq hintact => ?_⟩
    obtain ⟨p, hp⟩ := herr.2 hq hintact
    cases hp
  rintro ⟨manifest, stats, snap⟩ w₁ hl₁ hprepared
  have hcommitted := hprepared.1 _ _ _ rfl
  have hsession : alone → w₁.sessions (who.node, id) = some s := fun ha =>
    (congrFun (hl₁.frame ha).sessions _).trans hs
  refine (guarded_grows ctx (moveTo_guarded ctx opts _ stats hcommitted.session hsession
    (HasVolume.grow hvolume hl₁.grows) hcommitted.good hcommitted.recorded)).mono ?_
  rintro r w' ⟨hgrows, hmove⟩
  refine ⟨fun e he => ?_, fun snap' hok => ?_, fun hq _ => ⟨snap, hmove.quiet hq⟩⟩
  · rcases hmove.error e he with hframe | ⟨hmay, hmoved⟩ | ⟨hmay, hmoved⟩
    · exact Or.inl fun ha => (hl₁.frame ha).trans (hframe ha)
    · exact Or.inr ⟨snap, manifest, hcommitted.grow hgrows, Or.inl ⟨hmay, fun ha =>
        (hmoved ha).from (hl₁.frame ha)⟩⟩
    · exact Or.inr ⟨snap, manifest, hcommitted.grow hgrows, Or.inr ⟨hmay, fun ha =>
        (hmoved ha).from (hl₁.frame ha)⟩⟩
  · obtain ⟨rfl, hmoved⟩ := hmove.ok snap' hok
    exact ⟨manifest, hcommitted.grow hgrows, fun ha =>
      ⟨(hmoved ha).1.from (hl₁.frame ha), (hmoved ha).2⟩⟩

omit ctx in
theorem Committed.from (h : Committed P alone who id s base m snap w₁ w') (hl : Later alone w w₁) :
    Committed P alone who id s base m snap w w' where
  recorded := h.recorded
  fresh := none_of_grows h.fresh hl.grows
  built := by
    refine h.built.congr (fun ha i hi => ?_) fun i => Iff.rfl
    rw [sessionChunk, sessionChunk,
      (hl.frame ha).chunkByte_dirty (AList.lookup_isSome.mpr hi)]
  good := h.good
  session := h.session

theorem CommitOutcome.from {r : Except Err Snapshot}
    (h : CommitOutcome P alone quiet who allowed id s base w₁ r w') (hl : Later alone w w₁) :
    CommitOutcome P alone quiet who allowed id s base w r w' where
  error := by
    intro e he
    rcases h.error e he with hframe | ⟨snap, m, hcommitted, hend⟩
    · exact Or.inl fun ha => (hl.frame ha).trans (hframe ha)
    · refine Or.inr ⟨snap, m, hcommitted.from hl, ?_⟩
      exact hend.imp (fun h => ⟨h.1, fun ha => (h.2 ha).from (hl.frame ha)⟩)
        fun h => ⟨h.1, fun ha => (h.2 ha).from (hl.frame ha)⟩
  ok := by
    intro snap hok
    obtain ⟨m, hcommitted, hmoved⟩ := h.ok snap hok
    exact ⟨m, hcommitted.from hl, fun ha => ⟨(hmoved ha).1.from (hl.frame ha), (hmoved ha).2⟩⟩
  quiet := fun hq hintact => h.quiet hq fun i =>
    (hl.frame (ctx.quietAlone hq)).chunkIntact (hintact i)

theorem session_upload (id : String) (w : World) :
    Guarded P who allowed R UploadFrame (Backend.session id).run
      (fun r w' => (r = .error .notFound ∧ (alone →
          w.registered (who.node, id) = false ∨ w.sessions (who.node, id) = none)) ∨
        ∃ s, r = .ok s.volume ∧ w'.sessions (who.node, id) = some s ∧
          (alone → w.registered (who.node, id) = true ∧ w.sessions (who.node, id) = some s)) w := by
  unfold Backend.session
  refine run_bind_iff.mpr (run_lift_iff.mpr (upload_op ctx fun w₁ f hR hclosed _ => ?_))
  rw [exec_read f w₁ (o := .lookupSession id) rfl]
  refine ⟨.refl hclosed, .refl w₁, fun _ => ?_⟩
  rw [orElse_ok]
  have hregistered : alone → w₁.registered = w.registered := fun ha => (ctx.frame ha _ _ hR).registered
  have hsessions : alone → w₁.sessions = w.sessions := fun ha => (ctx.frame ha _ _ hR).sessions
  simp only [exec]
  cases hr : w₁.registered (who.node, id) with
  | false =>
    rw [if_neg (by simp)]
    exact Or.inl ⟨rfl, fun ha => Or.inl (hregistered ha ▸ hr)⟩
  | true =>
    rw [if_pos rfl]
    cases hs : w₁.sessions (who.node, id) with
    | none => exact Or.inl ⟨rfl, fun ha => Or.inr (hsessions ha ▸ hs)⟩
    | some s => exact Or.inr ⟨s, rfl, hs, fun ha => ⟨hregistered ha ▸ hr, hsessions ha ▸ hs⟩⟩

/-- **`CommitWithOptions`.** Either the session is not known, or the commit ends as `CommitOutcome`
says; if the others leave the session alone, for the session as it was when the call began. -/
theorem commitWithOptions_guarded (b : Backend) (id : String) (opts : CommitOptions) (w : World) :
    Guarded P who allowed R (fun _ _ => True) (commitWithOptions P b id opts).run
      (fun r w' => (r = .error .notFound ∧ (alone → UploadFrame w w' ∧
          (w.registered (who.node, id) = false ∨ w.sessions (who.node, id) = none))) ∨
        ∃ s base, (alone → w.registered (who.node, id) = true ∧
            w.sessions (who.node, id) = some s ∧ base = s.baseManifest) ∧
          CommitOutcome P alone quiet who allowed id s base w r w') w := by
  unfold commitWithOptions
  refine guarded_bind ctx (fun _ _ _ => trivial) (session_upload ctx id w) ?_ ?_
  · intro e w' hl herr
    rcases herr with ⟨he, hunknown⟩ | ⟨s, he, -⟩
    · exact Or.inl ⟨by rw [Except.error.inj he], fun ha => ⟨hl.frame ha, hunknown ha⟩⟩
    · cases he
  intro volume w₁ hl₁ hfound
  rcases hfound with ⟨he, -⟩ | ⟨s₁, hvolume, hs₁, halone⟩
  · cases he
  obtain rfl := Except.ok.inj hvolume
  -- the base manifest and the dirty indexes are read one after the other
  refine run_bind_iff.mpr (run_lift_iff.mpr (guarded_op fun w₂ f₂ hR₂ hclosed₂ _ => ?_))
  rw [exec_read f₂ w₂ (o := .baseManifest id) rfl]
  refine ⟨.refl hclosed₂, ?_⟩
  obtain ⟨s₂, hs₂, hvol₂⟩ := (ctx.rely _ _ hR₂).grows.sessions _ s₁ hs₁
  have hbase₂ : GoodManifest w₂.objects s₁.volume s₂.baseManifest :=
    hvol₂ ▸ (hclosed₂.sessions _ s₂ hs₂).2.1
  rw [orElse_ok]
  simp only [exec, hs₂, Option.map_some, Option.getD_some]
  refine run_bind_iff.mpr (run_lift_iff.mpr (guarded_op fun w₃ f₃ hR₃ hclosed₃ _ => ?_))
  rw [exec_read f₃ w₃ (o := .dirtyIndexes id) rfl]
  refine ⟨.refl hclosed₃, ?_⟩
  obtain ⟨s₃, hs₃, hvol₃⟩ := (ctx.rely _ _ hR₃).grows.sessions _ s₂ hs₂
  rw [orElse_ok]
  simp only [exec, hs₃, Option.map_some, Option.getD_some]
  have hvol : s₁.volume = s₃.volume := (hvol₃.trans hvol₂).symm
  rw [hvol]
  have hl₁₃ : Later alone w w₃ := hl₁.trans ((ctx.later hR₂).trans (ctx.later hR₃))
  refine (commitCollected_guarded ctx b opts hclosed₃ hs₃ (P.rangeOrder_perm _)
    (hvol ▸ hbase₂.grow (ctx.rely _ _ hR₃).grows)).mono fun r w' hr => ?_
  refine Or.inr ⟨s₃, s₂.baseManifest, fun ha => ?_, hr.from ctx hl₁₃⟩
  have hsame : ∀ {w' : World} {s' : Session}, UploadFrame w w' →
      w'.sessions (who.node, id) = some s' → s' = s₁ := fun hframe hs' =>
    Option.some.inj ((hs'.symm.trans (congrFun hframe.sessions _)).trans (halone ha).2)
  obtain rfl := hsame (hl₁₃.frame ha) hs₃
  obtain rfl := hsame ((hl₁.trans (ctx.later hR₂)).frame ha) hs₂
  exact ⟨(halone ha).1, (halone ha).2, rfl⟩

omit ctx in
/-- **The snapshot has the bytes of the session.** -/
theorem Committed.manifestChunkByte_eq (h : Committed P alone who id s s.baseManifest m snap w w')
    (ha : alone) (hclosed : Closed P w) (hclosed' : Closed P w') (hgrows : Grows w w')
    (hs : w.sessions (who.node, id) = some s) (i : Int64) {p : Nat} (hp : p < natOf s.volume.chunkSize) :
    manifestChunkByte w' m i p = chunkByte w (who.node, id) s i p := by
  by_cases hi : i ∈ s.dirty.keys
  · obtain ⟨c, hlookup, hhashed, hc⟩ := h.built.new i hi
    obtain ⟨data, hdata, -⟩ := h.good.chunk i _ hlookup
    have hsame : data = c :=
      hclosed'.hashes_unique (hclosed'.objects _ data hdata) ⟨rfl, hhashed⟩
    rw [manifestChunkByte, hlookup]
    show objectByte w' (P.hash c) p = _
    rw [objectByte, hdata, hsame, hc ha, Option.getD_some, sessionChunk, getD_window 0 _ hp,
      Nat.zero_add]
  · have hclean : ¬ (s.dirty.lookup i).isSome := fun hsome => hi (AList.lookup_isSome.mp hsome)
    rw [chunkByte, if_neg hclean, manifestChunkByte, manifestChunkByte,
      h.built.old i hi]
    cases hlookup : s.baseManifest.lookup i with
    | none => rfl
    | some chunkID =>
      obtain ⟨data, hdata, -⟩ := (hclosed.sessions _ s hs).2.1.chunk i _ hlookup
      show objectByte w' chunkID p = objectByte w chunkID p
      rw [objectByte, objectByte, hdata, hgrows.objects _ _ hdata]

omit ctx in
theorem Committed.manifestByte_eq (h : Committed P alone who id s s.baseManifest m snap w w')
    (ha : alone) (hclosed : Closed P w) (hclosed' : Closed P w') (hgrows : Grows w w')
    (hs : w.sessions (who.node, id) = some s) (hcs : 0 < s.volume.chunkSize.toInt) (p : Nat) :
    manifestByte w' s.volume m p = sessionByte w (who.node, id) s p :=
  h.manifestChunkByte_eq ha hclosed hclosed' hgrows hs _
    (Nat.mod_lt _ (by unfold natOf; omega))

end Commit

/-! ## In a pool -/

/-- In a pool of arbitrary threads the others may do anything to the session. -/
theorem commitContext_pool {P : Platform} {who : Caller} {allowed : Fault → World → Op → Prop}
    (hfree : ∀ f w o, allowed f w o → CollisionFree P w o) :
    CommitContext P who allowed (Rely P who) False False :=
  ⟨hfree, fun _ _ h => h, fun h => h.elim, fun h => h.elim, fun h => h.elim, fun h => h⟩

/-- **`CommitWithOptions`** keeps the world closed, and the snapshot it returns is recorded. -/
theorem commitWithOptions_safe {P : Platform} {who : Caller}
    {allowed : Fault → World → Op → Prop} (hfree : ∀ f w o, allowed f w o → CollisionFree P w o)
    (b : Backend) (id : String) (opts : CommitOptions) (w : World) :
    Safe P who allowed (commitWithOptions P b id opts).run
      (fun r w' => ∀ s, r = .ok s → w'.snapshots s.snapshotID = some s ∧
        ∃ v, Open who w' id v ∧ s.volumeID = v.volumeID) w := by
  refine ((commitWithOptions_guarded (commitContext_pool hfree) b id opts w).guarantee
    fun _ _ _ h => h.1).mono ?_
  intro r w' hr snap hsnap
  rcases hr with ⟨he, -⟩ | ⟨s, base, -, hout⟩
  · rw [hsnap] at he
    cases he
  · obtain ⟨m, hcommitted, -⟩ := hout.ok snap hsnap
    exact ⟨hcommitted.recorded.recorded, s.volume, hcommitted.session, hcommitted.recorded.volumeID⟩

end OrcaBlocks.Storage
