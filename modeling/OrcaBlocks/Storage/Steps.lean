/-
# OrcaBlocks.Storage.Steps — what ONE operation does to closure and to other threads.

Threads share the repository, the object store and the caches without locks. What keeps them apart
is OWNERSHIP OF NAMES: the manifest object, the snapshot and the session of a UUID are only made by
the thread that received it, and a temporary file of a cache is only written by the thread that
made it. `Respects P of` says of a step that it grows the shared state and leaves alone what belongs
to the callers `of`. A thread relies on the others to respect it (`Rely`) and guarantees to respect
everyone else (`Guar`).

There is one lemma for each operation that changes what closure is about, with the precondition
under which it keeps the world closed (`Kept`). All other operations need none (`Op.Harmless`).
-/
import OrcaBlocks.Storage.CacheSpec

namespace OrcaBlocks.Storage

open OrcaBlocks.Lib Function

variable {k : Nat} {α : Type} {o : Op} {b : Bytes} {id key : String} {s : Snapshot} {v : Volume}

/-! ## Ownership -/

/-- The step leaves alone what belongs to the callers `of`. -/
structure Respects (P : Platform) (of : Caller → Prop) (w w' : World) : Prop where
  grows : Grows w w'
  temps : ∀ n, ∀ k < w.temps, of (w.tempOwner k) → TempKept n k w w'
  manifests : ∀ k < w.uuids, of (w.uuidOwner k) →
    w'.objects (manifestKey (P.uuid k)) = w.objects (manifestKey (P.uuid k))
  snapshots : ∀ k < w.uuids, of (w.uuidOwner k) → w'.snapshots (P.uuid k) = w.snapshots (P.uuid k)
  sessions : ∀ k < w.uuids, of (w.uuidOwner k) → ∀ n,
    w.sessions (n, P.uuid k) = none → w'.sessions (n, P.uuid k) = none

/-- What a thread relies on. -/
abbrev Rely (P : Platform) (who : Caller) : World → World → Prop := Respects P (· = who)

/-- What a thread guarantees. -/
abbrev Guar (P : Platform) (who : Caller) : World → World → Prop := Respects P (· ≠ who)

section Respects

variable {P : Platform} {of : Caller → Prop} {who : Caller} {w w' w'' : World}

theorem TempKept.trans {n : Nat} (h : TempKept n k w w') (h' : TempKept n k w' w'') :
    TempKept n k w w'' := by
  intro dir file'' hfile''
  obtain ⟨file', hfile', hdata'⟩ := h' dir file'' hfile''
  obtain ⟨file, hfile, hdata⟩ := h dir file' hfile'
  exact ⟨file, hfile, hdata.trans hdata'⟩

/-- A step that does not touch the caches keeps every temporary file. -/
theorem TempKept.of_eq (hcaches : w'.caches = w.caches) (n k : Nat) : TempKept n k w w' := by
  intro dir file hfile
  rw [hcaches] at hfile
  exact ⟨file, hfile, rfl⟩

theorem Respects.refl (P : Platform) (of : Caller → Prop) (w : World) : Respects P of w w where
  grows := .refl w
  temps := fun n k _ _ => .refl n k w
  manifests := fun _ _ _ => rfl
  snapshots := fun _ _ _ => rfl
  sessions := fun _ _ _ _ h => h

theorem Respects.trans (h : Respects P of w w') (h' : Respects P of w' w'') :
    Respects P of w w'' where
  grows := h.grows.trans h'.grows
  temps := by
    intro n k hk hof
    refine (h.temps n k hk hof).trans (h'.temps n k (hk.trans_le h.grows.temps) ?_)
    rwa [h.grows.tempOwner k hk]
  manifests := by
    intro k hk hof
    rw [h'.manifests k (hk.trans_le h.grows.uuids) (by rwa [h.grows.uuidOwner k hk]),
      h.manifests k hk hof]
  snapshots := by
    intro k hk hof
    rw [h'.snapshots k (hk.trans_le h.grows.uuids) (by rwa [h.grows.uuidOwner k hk]),
      h.snapshots k hk hof]
  sessions := by
    intro k hk hof n hnone
    exact h'.sessions k (hk.trans_le h.grows.uuids) (by rwa [h.grows.uuidOwner k hk]) n
      (h.sessions k hk hof n hnone)

theorem Respects.mono {of' : Caller → Prop} (h : Respects P of w w') (hof : ∀ c, of' c → of c) :
    Respects P of' w w' where
  grows := h.grows
  temps := fun n k hk h' => h.temps n k hk (hof _ h')
  manifests := fun k hk h' => h.manifests k hk (hof _ h')
  snapshots := fun k hk h' => h.snapshots k hk (hof _ h')
  sessions := fun k hk h' => h.sessions k hk (hof _ h')

/-- What one thread guarantees, every other relies on. -/
theorem Guar.rely {other : Caller} (h : Guar P who w w') (hne : who ≠ other) :
    Rely P other w w' :=
  h.mono fun _ hc hwho => hne (hwho.symm.trans hc)

/-- A step that grows the world and touches no manifest, snapshot, session or cache. -/
theorem Respects.of_grows (hgrows : Grows w w') (hobjects : w'.objects = w.objects)
    (hsnapshots : w'.snapshots = w.snapshots)
    (hsessions : ∀ r, w.sessions r = none → w'.sessions r = none)
    (hcaches : w'.caches = w.caches) : Respects P of w w' where
  grows := hgrows
  temps := fun n k _ _ => .of_eq hcaches n k
  manifests := fun _ _ _ => by rw [hobjects]
  snapshots := fun _ _ _ => by rw [hsnapshots]
  sessions := fun _ _ _ n h => hsessions _ h

theorem CacheStep.caches_of_ne (h : CacheStep P who w w') {n : Nat} (hn : n ≠ who.node) :
    w'.caches n = w.caches n := by
  rw [h.frame]
  exact update_of_ne hn _ _

/-- A cache operation respects everyone else. -/
theorem CacheStep.guar (h : CacheStep P who w w') : Guar P who w w' := by
  have hframe := h.frame
  have htemps : ∀ n, ∀ k < w.temps, w.tempOwner k ≠ who → TempKept n k w w' := by
    intro n k hk howner
    by_cases hn : n = who.node
    · exact hn ▸ h.foreign k hk howner
    · intro dir file hfile
      rw [h.caches_of_ne hn] at hfile
      exact ⟨file, hfile, rfl⟩
  have hgrows : Grows w w' := by
    refine ⟨?_, ?_, ?_, ?_, ?_, ?_, h.temps, ?_, h.tempOwner⟩
    all_goals rw [hframe]
    · exact fun _ _ hb => hb
    · exact fun _ _ hs => hs
    · exact fun _ v hv => ⟨v, hv, .refl v⟩
    · exact fun _ s hs => ⟨s, hs, rfl⟩
    · exact fun _ hb => hb
    · exact fun _ _ => rfl
  refine ⟨hgrows, htemps, ?_, ?_, ?_⟩
  all_goals rw [hframe]
  · exact fun _ _ _ => rfl
  · exact fun _ _ _ => rfl
  · exact fun _ _ _ _ hnone => hnone

/-- A cache operation keeps the world closed. -/
theorem Closed.cacheStep (hclosed : Closed P w) (h : CacheStep P who w w') : Closed P w' := by
  have hcaches : ∀ n, CacheGood P w' n := by
    intro n
    by_cases hn : n = who.node
    · exact hn ▸ h.good
    · exact (hclosed.caches n).congr (h.caches_of_ne hn) (by rw [h.frame])
  refine hclosed.congr ?_ ?_ ?_ ?_ ?_ ?_ ?_ hcaches
  all_goals rw [h.frame]

end Respects

/-! ## Operations -/

section Operations

variable (P : Platform) (who : Caller)

/-- The world stays closed, and everyone else is respected. -/
structure Kept (w w' : World) : Prop where
  closed : Closed P w'
  guar : Guar P who w w'

/-- A volume is created once, and its sizes fit. -/
def CreatesFresh (w : World) : Op → Prop
  | .createVolume v => w.volumes v.volumeID = none ∧ SizesFit v.withDefaults
  | _ => True

/-- The steps the results about closure are for. -/
def Admissible (w : World) (o : Op) : Prop := CollisionFree P w o ∧ CreatesFresh w o

/-- Closure needs nothing of this operation. -/
def Op.Harmless (o : Op) : Prop :=
  ∀ f w, Closed P w → Kept P who w (exec P who f w o).2

variable {P who} {w w' : World}

theorem Kept.refl (h : Closed P w) : Kept P who w w := ⟨h, .refl P _ w⟩

/-- A call under a fault does what its success does, or nothing. -/
theorem kept_on (hclosed : Closed P w) (f : Fault) {d : Except Err α × World} (hdone : Kept P who w d.2) :
    Kept P who w (f.on w d).2 :=
  Fault.on_cases (motive := fun d => Kept P who w d.2) hdone (fun _ => hdone) fun _ =>
    .refl hclosed

/-! ### Operations that need nothing -/

/-- Only what closure does not speak about changes. -/
def LocalFrame (w w' : World) : Prop :=
  w' = { w with
    registered := w'.registered
    stats := w'.stats
    overlays := w'.overlays
    progress := w'.progress }

theorem LocalFrame.refl (w : World) : LocalFrame w w := rfl

theorem LocalFrame.closed (hclosed : Closed P w) (h : LocalFrame w w') : Closed P w' := by
  unfold LocalFrame at h
  refine hclosed.congr ?_ ?_ ?_ ?_ ?_ ?_ ?_ ?_
  all_goals rw [h]
  exact fun n => (hclosed.caches n).congr rfl rfl

/-- Such a step respects everyone, the thread itself included. -/
theorem LocalFrame.respects (of : Caller → Prop) (h : LocalFrame w w') : Respects P of w w' := by
  unfold LocalFrame at h
  refine .of_grows ⟨?_, ?_, ?_, ?_, ?_, ?_, ?_, ?_, ?_⟩ ?_ ?_ ?_ ?_
  all_goals rw [h]
  · exact fun _ _ hb => hb
  · exact fun _ _ hs => hs
  · exact fun _ v hv => ⟨v, hv, .refl v⟩
  · exact fun _ s hs => ⟨s, hs, rfl⟩
  · exact fun _ hb => hb
  · exact fun _ _ => rfl
  · exact fun _ _ => rfl
  · exact fun _ hnone => hnone

theorem LocalFrame.kept (hclosed : Closed P w) (h : LocalFrame w w') : Kept P who w w' :=
  ⟨h.closed hclosed, h.respects _⟩

/-- The operations that only read, or only touch an overlay, a counter or the map of sessions. -/
def Op.isLocal : Op → Bool
  | .getVolume _ | .getSnapshot _ | .getBaseImage _ | .storeGet _ | .storeExists _
  | .onProgress _ | .lookupSession _ | .deleteSession _ | .isDirty _ _ | .dirtyIndexes _
  | .baseChunk _ _ | .baseManifest _ | .count _ _ | .mkdirAll _ | .removeAll _ | .readFile _ _
  | .readFileAt _ _ _ _ | .writeFile _ _ _ | .syncFile _ _ | .syncDir _ => true
  | _ => false

/-- The operations that only read. -/
def Op.isRead : Op → Bool
  | .getVolume _ | .getSnapshot _ | .getBaseImage _ | .storeGet _ | .storeExists _
  | .lookupSession _ | .isDirty _ _ | .dirtyIndexes _ | .baseChunk _ _ | .baseManifest _
  | .readFile _ _ | .readFileAt _ _ _ _ => true
  | _ => false

private theorem state_on (f : Fault) {d : Except Err α × World} (h : d.2 = w) : (f.on w d).2 = w :=
  Fault.on_cases (motive := fun d => d.2 = w) h (fun _ => h) fun _ => rfl

private theorem state_get (found : Option α) : (execGet w found).2 = w := by
  cases found with
  | some a => rfl
  | none => rfl

private theorem state_readOverlay (r : SessRef) (i : Int64) {act : OverlayFile → Except Err α × World}
    (h : ∀ file, (act file).2 = w) : (execReadOverlay w r i act).2 = w := by
  unfold execReadOverlay
  split
  · exact h _
  · rfl

theorem exec_read (f : Fault) (w : World) (h : o.isRead = true) : (exec P who f w o).2 = w := by
  cases o with
  | getVolume id => exact state_on f (state_get _)
  | getSnapshot id => exact state_on f (state_get _)
  | getBaseImage id => exact state_on f (state_get _)
  | storeGet key => exact state_on f (state_get _)
  | storeExists key => exact state_on f (d := (.ok _, w)) rfl
  | readFile id i => exact state_on f (state_readOverlay _ i fun _ => rfl)
  | readFileAt id i offset length => exact state_on f (state_readOverlay _ i fun _ => rfl)
  | lookupSession _ | isDirty _ _ | dirtyIndexes _ | baseChunk _ _ | baseManifest _ => rfl
  | _ => cases h

private theorem localFrame_on (f : Fault) {d : Except Err α × World} (h : LocalFrame w d.2) :
    LocalFrame w (f.on w d).2 :=
  Fault.on_cases (motive := fun d => LocalFrame w d.2) h (fun _ => h) fun _ => .refl w

theorem exec_local (f : Fault) (w : World) (h : o.isLocal = true) :
    LocalFrame w (exec P who f w o).2 := by
  by_cases hread : o.isRead = true
  · rw [exec_read f w hread]
    exact .refl w
  cases o with
  | mkdirAll id => exact localFrame_on f (d := (.ok (), _)) rfl
  | syncFile id i =>
    refine localFrame_on f ?_
    unfold execReadOverlay
    split
    · rfl
    · exact .refl w
  | syncDir id =>
    refine localFrame_on f ?_
    split
    · rfl
    · exact .refl w
  | removeAll id =>
    show LocalFrame w (execRemoveAll f w (who.node, id)).2
    cases f with
    | _ => rfl
  | writeFile id i b =>
    show LocalFrame w (execWriteFile f w (who.node, id) i b).2
    unfold execWriteFile
    split
    · exact .refl w
    · cases f with
      | _ => rfl
  | onProgress _ | deleteSession _ | count _ _ => rfl
  | _ => first | exact absurd rfl hread | cases h

theorem harmless_of_isLocal (h : o.isLocal = true) : o.Harmless P who :=
  fun f w hclosed => (exec_local f w h).kept hclosed

/-! ### Names, hashes and session objects -/

theorem harmless_newString : Op.Harmless P who .newString := by
  intro f w hclosed
  refine ⟨?_, .of_grows ?_ rfl rfl (fun _ h => h) rfl⟩
  · exact { hclosed with
      caches := fun n => (hclosed.caches n).congr rfl rfl
      fresh := fun k hk => hclosed.fresh k (Nat.le_of_succ_le hk) }
  · exact { Grows.refl w with
      uuids := Nat.le_succ _
      uuidOwner := fun k hk => update_of_ne hk.ne _ _ }

theorem kept_hashChunk (hclosed : Closed P w) (f : Fault) (hfree : CollisionFree P w (.hashChunk b)) :
    Kept P who w (exec P who f w (.hashChunk b)).2 := by
  have hgrow : ∀ id c, Hashes P w.hashed id c → Hashes P (b :: w.hashed) id c :=
    fun _ _ h => ⟨h.1, List.mem_cons_of_mem _ h.2⟩
  refine ⟨?_, .of_grows ?_ rfl rfl (fun _ h => h) rfl⟩
  · refine { hclosed with
      noCollision := ?_
      objects := fun id c hc => hgrow id c (hclosed.objects id c hc)
      caches := fun n => ⟨(hclosed.caches n).memory.mono hgrow, fun dir id file hid hfile =>
        hgrow _ _ ((hclosed.caches n).files dir id file hid hfile)⟩ }
    intro c hc c' hc' heq
    rcases List.mem_cons.mp hc with rfl | hold
    · rcases List.mem_cons.mp hc' with rfl | hold'
      · rfl
      · exact (hfree c' hold' heq.symm).symm
    · rcases List.mem_cons.mp hc' with rfl | hold'
      · exact hfree c hold heq
      · exact hclosed.noCollision c hold c' hold' heq
  · exact { Grows.refl w with hashed := fun _ hc => List.mem_cons_of_mem _ hc }

/-- A session object changes and stays a good session of its volume. -/
theorem kept_modifySession (hclosed : Closed P w) (r : SessRef) {f : Session → Session}
    (hf : ∀ s, w.sessions r = some s → (f s).volume = s.volume ∧
      GoodManifest w.objects s.volume (f s).baseManifest ∧
        ∀ i, (f s).dirty.lookup i = some () → InVolume s.volume i) :
    Kept P who w (w.modifySession r f) := by
  refine ⟨hclosed.modifySession r f hf, .of_grows ?_ rfl rfl ?_ rfl⟩
  · refine { Grows.refl w with sessions := ?_ }
    intro r' s hs
    by_cases hr : r' = r
    · subst hr
      exact ⟨f s, by simp [World.modifySession, hs], (hf s hs).1⟩
    · exact ⟨s, by simp [World.modifySession, hr, hs], rfl⟩
  · intro r' hnone
    by_cases hr : r' = r
    · subst hr
      simp [World.modifySession, hnone]
    · simp [World.modifySession, hr, hnone]

theorem harmless_resetDirty (id : String) : Op.Harmless P who (.resetDirty id) := by
  intro f w hclosed
  refine kept_modifySession hclosed (who.node, id) fun s hs => ?_
  refine ⟨rfl, (hclosed.sessions _ s hs).2.1, ?_⟩
  intro i hi
  simp at hi

theorem kept_setDirty (hclosed : Closed P w) (f : Fault) {i : Int64}
    (hin : ∀ s, w.sessions (who.node, id) = some s → InVolume s.volume i) :
    Kept P who w (exec P who f w (.setDirty id i)).2 := by
  refine kept_modifySession hclosed (who.node, id) fun s hs => ?_
  obtain ⟨-, hbase, hdirty⟩ := hclosed.sessions _ s hs
  refine ⟨rfl, hbase, ?_⟩
  intro j hj
  by_cases hji : j = i
  · exact hji ▸ hin s hs
  · rw [AList.lookup_insert_ne hji] at hj
    exact hdirty j hj

theorem kept_setBase (hclosed : Closed P w) (f : Fault) {snapshotID : String} {m : Manifest}
    (hgood : ∀ s, w.sessions (who.node, id) = some s → GoodManifest w.objects s.volume m) :
    Kept P who w (exec P who f w (.setBase id snapshotID m)).2 :=
  kept_modifySession hclosed (who.node, id) fun s hs =>
    ⟨rfl, hgood s hs, (hclosed.sessions _ s hs).2.2⟩

/-- The name of a session is a UUID of the thread that adds it. -/
theorem kept_addSession (hclosed : Closed P w) (f : Fault) (hk : k < w.uuids)
    (howner : w.uuidOwner k = who) (hnone : w.sessions (who.node, P.uuid k) = none) {s : Session}
    (hv : w.volumes s.volume.volumeID = some v) (hshape : SameShape s.volume v)
    (hgood : GoodManifest w.objects s.volume s.baseManifest) (hclean : ∀ i, s.dirty.lookup i = none) :
    Kept P who w (exec P who f w (.addSession (P.uuid k) s)).2 := by
  have hother : ∀ r, r ≠ (who.node, P.uuid k) →
      (exec P who f w (.addSession (P.uuid k) s)).2.sessions r = w.sessions r :=
    fun r hr => update_of_ne hr _ _
  refine ⟨?_, ?_, ?_, ?_, ?_, ?_⟩
  · refine { hclosed with
      sessions := ?_
      caches := fun n => (hclosed.caches n).congr rfl rfl
      fresh := ?_ }
    · intro r s' hs'
      by_cases hr : r = (who.node, P.uuid k)
      · subst hr
        obtain rfl : s = s' := by simpa [exec, World.setSession] using hs'
        refine ⟨⟨v, hv, hshape⟩, hgood, ?_⟩
        intro i hi
        rw [hclean i] at hi
        cases hi
      · exact hclosed.sessions r s' ((hother r hr).symm.trans hs')
    · intro k' hk'
      obtain ⟨hobj, hsnap, hsess⟩ := hclosed.fresh k' hk'
      refine ⟨hobj, hsnap, fun n => (hother _ ?_).trans (hsess n)⟩
      intro hr
      have : k' = k := P.uuid_injective (Prod.mk.inj hr).2
      have hk'' : w.uuids ≤ k' := hk'
      omega
  · refine { Grows.refl w with sessions := ?_ }
    intro r s' hs'
    refine ⟨s', (hother r ?_).trans hs', rfl⟩
    rintro rfl
    rw [hnone] at hs'
    cases hs'
  · exact fun n j _ _ => .of_eq rfl n j
  · exact fun _ _ _ => rfl
  · exact fun _ _ _ => rfl
  · intro j hj hne n hnone'
    refine (hother _ ?_).trans hnone'
    intro hr
    obtain rfl : j = k := P.uuid_injective (Prod.mk.inj hr).2
    exact hne howner

/-! ### The object store and the repository -/

/-- An object appears: manifests that were good stay good. -/
private theorem grows_put (hsame : ∀ b', w.objects key = some b' → b' = b) :
    Grows w { w with objects := update w.objects key (some b) } := by
  refine { Grows.refl w with objects := ?_ }
  intro key' b' hb'
  by_cases hkey : key' = key
  · subst hkey
    simp [hsame b' hb']
  · simpa [hkey] using hb'

/-- An object appears: a chunk under its own name, or a manifest under a name already given out. -/
private theorem closed_put (hclosed : Closed P w) (hsame : ∀ b', w.objects key = some b' → b' = b)
    (hchunk : ∀ id, key = chunkKey id → Hashes P w.hashed id b)
    (hused : ∀ k, w.uuids ≤ k → manifestKey (P.uuid k) ≠ key) :
    Closed P { w with objects := update w.objects key (some b) } := by
  have hgrows := grows_put hsame
  refine { hclosed with
    objects := ?_
    snapshots := ?_
    sessions := ?_
    caches := fun n => (hclosed.caches n).congr rfl rfl
    fresh := ?_ }
  · intro id b' hb'
    by_cases hkey : chunkKey id = key
    · obtain rfl : b = b' := by simpa [hkey] using hb'
      exact hchunk id hkey.symm
    · exact hclosed.objects id b' (by simpa [hkey] using hb')
  · intro sid s hs
    obtain ⟨hid, v, hv, hgood⟩ := hclosed.snapshots sid s hs
    exact ⟨hid, v, hv, hgood.grow hgrows⟩
  · intro r s hs
    obtain ⟨hvol, hbase, hdirty⟩ := hclosed.sessions r s hs
    exact ⟨hvol, hbase.grow hgrows, hdirty⟩
  · intro k hk
    exact ⟨(update_of_ne (hused k hk) _ _).trans (hclosed.fresh k hk).1,
      (hclosed.fresh k hk).2⟩

/-- An object appears that is no manifest of another thread. -/
private theorem guar_put (hsame : ∀ b', w.objects key = some b' → b' = b)
    (hmine : ∀ k, w.uuidOwner k ≠ who → manifestKey (P.uuid k) ≠ key) :
    Guar P who w { w with objects := update w.objects key (some b) } where
  grows := grows_put hsame
  temps := fun n k _ _ => .of_eq rfl n k
  manifests := fun k _ hne => update_of_ne (hmine k hne) _ _
  snapshots := fun _ _ _ => rfl
  sessions := fun _ _ _ _ hnone => hnone

/-- What an upload of a chunk does: the object under a chunk's name hashes to the name. -/
theorem kept_putChunk (hclosed : Closed P w) (f : Fault) (hb : Hashes P w.hashed id b) :
    Kept P who w (exec P who f w (.storePut (chunkKey id) b)).2 := by
  have hsame : ∀ b', w.objects (chunkKey id) = some b' → b' = b :=
    fun b' hb' => hclosed.hashes_unique (hclosed.objects id b' hb') hb
  have hne : ∀ k, manifestKey k ≠ chunkKey id := fun k => (chunkKey_ne_manifestKey id k).symm
  refine kept_on hclosed f ⟨closed_put hclosed hsame ?_ fun _ _ => hne _,
    guar_put hsame fun _ _ => hne _⟩
  intro id' hid
  exact chunkKey_injective hid ▸ hb

/-- A manifest is written once, under a UUID of the thread. -/
theorem kept_putManifest (hclosed : Closed P w) (f : Fault) (hk : k < w.uuids)
    (howner : w.uuidOwner k = who) (hnone : w.objects (manifestKey (P.uuid k)) = none) (raw : Bytes) :
    Kept P who w (exec P who f w (.storePut (manifestKey (P.uuid k)) raw)).2 := by
  have hsame : ∀ b', w.objects (manifestKey (P.uuid k)) = some b' → b' = raw := by
    intro b' hb'
    rw [hnone] at hb'
    cases hb'
  have hinj : ∀ j, manifestKey (P.uuid j) = manifestKey (P.uuid k) → j = k :=
    fun j h => P.uuid_injective (manifestKey_injective h)
  refine kept_on hclosed f ⟨closed_put hclosed hsame ?_ ?_, guar_put hsame ?_⟩
  · exact fun id hid => absurd hid.symm (chunkKey_ne_manifestKey id _)
  · intro j hj h
    have := hinj j h
    omega
  · intro j hne h
    exact hne (hinj j h ▸ howner)

/-- A snapshot is recorded once, under a UUID of the thread, after its manifest. -/
theorem kept_createSnapshot (hclosed : Closed P w) (f : Fault) (hk : k < w.uuids)
    (howner : w.uuidOwner k = who) (hnone : w.snapshots (P.uuid k) = none)
    (hid : s.snapshotID = P.uuid k) (hv : w.volumes s.volumeID = some v)
    (hgood : GoodSnapshot P w.objects v s) : Kept P who w (exec P who f w (.createSnapshot s)).2 := by
  refine kept_on hclosed f ?_
  have hother : ∀ id, id ≠ P.uuid k →
      update w.snapshots s.snapshotID (some s) id = w.snapshots id :=
    fun id h => update_of_ne (hid ▸ h) _ _
  have hold : ∀ id s', w.snapshots id = some s' → id ≠ P.uuid k := by
    rintro id s' hs' rfl
    rw [hnone] at hs'
    cases hs'
  have hkeep : ∀ id s', w.snapshots id = some s' →
      update w.snapshots s.snapshotID (some s) id = some s' :=
    fun id s' hs' => (hother id (hold id s' hs')).trans hs'
  refine ⟨{ hclosed with
      snapshots := ?_
      latest := ?_
      images := ?_
      caches := fun n => (hclosed.caches n).congr rfl rfl
      fresh := ?_ }, { Grows.refl w with snapshots := hkeep }, ?_, ?_, ?_, ?_⟩
  · intro id s' hs'
    by_cases hids : id = P.uuid k
    · subst hids
      obtain rfl : s = s' := by simpa [hid] using hs'
      exact ⟨hid, v, hv, hgood⟩
    · exact hclosed.snapshots id s' ((hother id hids).symm.trans hs')
  · intro id v' hv' hne
    obtain ⟨s', hs', hshape⟩ := hclosed.latest id v' hv' hne
    exact ⟨s', hkeep _ s' hs', hshape⟩
  · intro id i hi
    obtain ⟨s', hs', hvol⟩ := hclosed.images id i hi
    exact ⟨s', hkeep _ s' hs', hvol⟩
  · intro j hj
    have hj' : w.uuids ≤ j := hj
    obtain ⟨hobj, hsnap, hsess⟩ := hclosed.fresh j hj
    exact ⟨hobj, (hother _ (P.uuid_injective.ne (by omega))).trans hsnap, hsess⟩
  · exact fun n j _ _ => .of_eq rfl n j
  · exact fun _ _ _ => rfl
  · intro j _ hne
    refine hother _ (P.uuid_injective.ne ?_)
    rintro rfl
    exact hne howner
  · exact fun _ _ _ _ hnone => hnone

/-- A volume changes in its pointer or its last node, and keeps its sizes. -/
theorem kept_updateVolume (hclosed : Closed P w) (f : Fault) (id : String) {g : Volume → Volume}
    (hg : ∀ v, w.volumes id = some v → (g v).volumeID = v.volumeID ∧ SameShape v (g v) ∧
      ((g v).latestSnapshotID ≠ "" → ∃ s, w.snapshots (g v).latestSnapshotID = some s ∧
        ∀ v', w.volumes s.volumeID = some v' → SameShape v v')) :
    Kept P who w (f.on w (execUpdateVolume w id g)).2 := by
  refine kept_on hclosed f ?_
  unfold execUpdateVolume
  cases hv : w.volumes id with
  | none => exact .refl hclosed
  | some v =>
    obtain ⟨hid, hshape, hlatest⟩ := hg v hv
    -- read in either direction, a volume of one world is a volume of the other, of equal shape
    have hnew : ∀ i u, update w.volumes id (some (g v)) i = some u →
        ∃ u₀, w.volumes i = some u₀ ∧ SameShape u₀ u ∧ u₀.volumeID = u.volumeID := by
      intro i u hu
      by_cases hi : i = id
      · subst hi
        obtain rfl : g v = u := by simpa using hu
        exact ⟨v, hv, hshape, hid.symm⟩
      · exact ⟨u, by simpa [hi] using hu, .refl u, rfl⟩
    have hold : ∀ i u, w.volumes i = some u →
        ∃ u', update w.volumes id (some (g v)) i = some u' ∧ SameShape u u' := by
      intro i u hu
      by_cases hi : i = id
      · subst hi
        obtain rfl : v = u := Option.some.inj (hv.symm.trans hu)
        exact ⟨g v, by simp, hshape⟩
      · exact ⟨u, by simpa [hi] using hu, .refl u⟩
    refine ⟨{ hclosed with
        volumes := ?_
        snapshots := ?_
        latest := ?_
        sessions := ?_
        caches := fun n => (hclosed.caches n).congr rfl rfl }, .of_grows
          { Grows.refl w with volumes := hold } rfl rfl (fun _ h => h) rfl⟩
    · intro i u hu
      obtain ⟨u₀, hu₀, hs, hvid⟩ := hnew i u hu
      obtain ⟨hi, hbound, hsize, hchunk⟩ := hclosed.volumes i u₀ hu₀
      rw [hs.1, hs.2] at hbound
      exact ⟨hvid.symm.trans hi, hbound, hs.1 ▸ hsize, hs.2 ▸ hchunk⟩
    · intro sid s hs
      obtain ⟨hsid, u, hu, hgood⟩ := hclosed.snapshots sid s hs
      obtain ⟨u', hu', hs'⟩ := hold _ u hu
      exact ⟨hsid, u', hu', hgood.shape hs'⟩
    · intro i u hu hne
      have hfound : ∃ s, w.snapshots u.latestSnapshotID = some s ∧
          ∀ u', w.volumes s.volumeID = some u' → SameShape u u' := by
        by_cases hi : i = id
        · subst hi
          obtain rfl : g v = u := by simpa using hu
          obtain ⟨s, hs, hall⟩ := hlatest hne
          exact ⟨s, hs, fun u' hu' => hshape.symm.trans (hall u' hu')⟩
        · exact hclosed.latest i u (by simpa [hi] using hu) hne
      obtain ⟨s, hs, hall⟩ := hfound
      refine ⟨s, hs, fun u' hu' => ?_⟩
      obtain ⟨u₀, hu₀, hs', -⟩ := hnew _ u' hu'
      exact (hall u₀ hu₀).trans hs'
    · intro r s hs
      obtain ⟨⟨u, hu, hsh⟩, hrest⟩ := hclosed.sessions r s hs
      obtain ⟨u', hu', hsh'⟩ := hold _ u hu
      exact ⟨⟨u', hu', hsh.trans hsh'⟩, hrest⟩

theorem harmless_updateLastNode (id nodeID : String) :
    Op.Harmless P who (.updateLastNode id nodeID) := fun f _ hclosed =>
  kept_updateVolume hclosed f id fun v hv => ⟨rfl, .refl v, hclosed.latest id v hv⟩

/-- The pointer of a volume moves to a recorded snapshot OF THAT VOLUME. -/
theorem kept_updateLatestSnapshot (hclosed : Closed P w) (f : Fault) {snapshotID : String}
    (hs : w.snapshots snapshotID = some s) (hvol : s.volumeID = id) :
    Kept P who w (exec P who f w (.updateLatestSnapshot id snapshotID)).2 := by
  refine kept_updateVolume hclosed f id fun v hv => ⟨rfl, .refl v, fun _ => ⟨s, hs, ?_⟩⟩
  intro v' hv'
  rw [hvol, hv, Option.some.injEq] at hv'
  exact hv' ▸ .refl v

/-- A new volume, empty or on a snapshot of a volume of the same sizes. -/
theorem kept_createVolume (hclosed : Closed P w) (f : Fault) (hfresh : CreatesFresh w (.createVolume v))
    (hlatest : v.latestSnapshotID ≠ "" → ∃ s, w.snapshots v.latestSnapshotID = some s ∧
      ∀ v', w.volumes s.volumeID = some v' → SameShape v.withDefaults v') :
    Kept P who w (exec P who f w (.createVolume v)).2 := by
  obtain ⟨hnone, hfits⟩ := hfresh
  refine kept_on hclosed f ?_
  have hkeep : ∀ i u, w.volumes i = some u →
      update w.volumes v.volumeID (some v.withDefaults) i = some u := by
    intro i u hu
    have hi : i ≠ v.volumeID := by
      rintro rfl
      rw [hnone] at hu
      cases hu
    simpa [hi] using hu
  have hvolume : ∀ s sid, w.snapshots sid = some s → ∀ u,
      update w.volumes v.volumeID (some v.withDefaults) s.volumeID = some u →
        w.volumes s.volumeID = some u := by
    intro s sid hs u hu
    obtain ⟨-, u₀, hu₀, -⟩ := hclosed.snapshots sid s hs
    rw [hkeep _ u₀ hu₀] at hu
    exact hu ▸ hu₀
  refine ⟨{ hclosed with
      volumes := ?_
      snapshots := ?_
      latest := ?_
      sessions := ?_
      caches := fun n => (hclosed.caches n).congr rfl rfl }, .of_grows
        { Grows.refl w with volumes := fun i u hu => ⟨u, hkeep i u hu, .refl u⟩ }
        rfl rfl (fun _ h => h) rfl⟩
  · intro i u hu
    by_cases hi : i = v.volumeID
    · subst hi
      obtain rfl : v.withDefaults = u := by simpa [execCreateVolume] using hu
      exact ⟨rfl, hfits⟩
    · exact hclosed.volumes i u (by simpa [execCreateVolume, hi] using hu)
  · intro sid s hs
    obtain ⟨hsid, u, hu, hgood⟩ := hclosed.snapshots sid s hs
    exact ⟨hsid, u, hkeep _ u hu, hgood⟩
  · intro i u hu hne
    by_cases hi : i = v.volumeID
    · subst hi
      obtain rfl : v.withDefaults = u := by simpa [execCreateVolume] using hu
      obtain ⟨s, hs, hall⟩ := hlatest hne
      exact ⟨s, hs, fun u' hu' => hall u' (hvolume s _ hs u' hu')⟩
    · obtain ⟨s, hs, hall⟩ :=
        hclosed.latest i u (by simpa [execCreateVolume, hi] using hu) hne
      exact ⟨s, hs, fun u' hu' => hall u' (hvolume s _ hs u' hu')⟩
  · intro r s hs
    obtain ⟨⟨u, hu, hsh⟩, hrest⟩ := hclosed.sessions r s hs
    exact ⟨⟨u, hkeep _ u hu, hsh⟩, hrest⟩

/-- A base image names a recorded snapshot of its own volume. -/
theorem kept_createBaseImage (hclosed : Closed P w) (f : Fault) {i : BaseImage}
    (hs : w.snapshots i.snapshotID = some s) (hvol : s.volumeID = i.volumeID) :
    Kept P who w (exec P who f w (.createBaseImage i)).2 := by
  refine kept_on hclosed f ⟨{ hclosed with
      images := ?_
      caches := fun n => (hclosed.caches n).congr rfl rfl }, .of_grows
        { Grows.refl w with } rfl rfl (fun _ h => h) rfl⟩
  intro id i' hi'
  by_cases hid : id = i.baseImageID
  · subst hid
    obtain rfl : i = i' := by simpa using hi'
    exact ⟨s, hs, hvol⟩
  · exact hclosed.images id i' (by simpa [hid] using hi')

end Operations

end OrcaBlocks.Storage
