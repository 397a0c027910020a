/-
# OrcaBlocks.Storage.FetchOnce — a node fetches each chunk at most once while its cache has room.

The events of a node are the chunks it fetches from the object store and the chunks it commits, in
order. While all of them together fit in the cache, every chunk that appears among the events is a
FILE of the cache (`Stored`): nothing was evicted, so a miss is of a chunk that never appeared. The
memory tier does not enter into it.

`Stocked` says this under the condition that the chunks of the events so far fit. The condition only
gets stronger along a run, so the invariant needs no knowledge of what is still to come; a result
about a run asks for the condition once, at its end.

The counters of a session are compared with the events of the calls made on it.
-/
import OrcaBlocks.Storage.QuietCache
import OrcaBlocks.Storage.DiskEviction
import OrcaBlocks.Storage.FlatArray

namespace OrcaBlocks.Storage

open OrcaBlocks.Lib Backend Function

variable {n : Nat} {w' : World} {o : Op} {α : Type} {index : Int64} {request : Request}

/-! ## Events -/

/-- What a node does with a chunk of the object store. -/
inductive ChunkEvent where
  | fetch (id : String)
  | commit (id : String)
  deriving DecidableEq, Repr

namespace ChunkEvent

def id : ChunkEvent → String
  | .fetch id => id
  | .commit id => id

def isFetch : ChunkEvent → Bool
  | .fetch _ => true
  | .commit _ => false

end ChunkEvent

/-- The chunk a key of the object store names. -/
def chunkOf (key : String) : Option String :=
  match key.toList with
  | 'c' :: 'h' :: 'u' :: 'n' :: 'k' :: 's' :: '/' :: name => some (String.ofList name)
  | _ => none

@[simp] theorem chunkOf_chunkKey (id : String) : chunkOf (chunkKey id) = some id := by
  simp [chunkOf, chunkKey]

theorem chunkOf_eq_none {key : String} (h : ∀ id, key ≠ chunkKey id) : chunkOf key = none := by
  unfold chunkOf
  split
  · rename_i name hkey
    refine absurd ?_ (h (String.ofList name))
    apply String.toList_injective
    simp [chunkKey, hkey]
  · rfl

/-- A commit asks whether the store has a chunk before it uploads it. -/
def Op.chunkEvent : Op → Option ChunkEvent
  | .storeGet key => (chunkOf key).map .fetch
  | .storeExists key => (chunkOf key).map .commit
  | _ => none

/-- The chunks of a list of events. -/
def names (es : List ChunkEvent) : Finset String := (es.map ChunkEvent.id).toFinset

/-- How many events are fetches. -/
def fetches (es : List ChunkEvent) : Nat := es.countP ChunkEvent.isFetch

@[simp] theorem mem_names {es : List ChunkEvent} {id : String} : id ∈ names es ↔ ∃ e ∈ es, e.id = id := by
  simp [names]

@[simp] theorem names_append (es : List ChunkEvent) (e : ChunkEvent) :
    names (es ++ [e]) = insert e.id (names es) := by
  ext id
  simp only [mem_names, List.mem_append, List.mem_singleton, Finset.mem_insert]
  constructor
  · rintro ⟨e', he | rfl, rfl⟩
    · exact Or.inr ⟨e', he, rfl⟩
    · exact Or.inl rfl
  · rintro (rfl | ⟨e', he, rfl⟩)
    · exact ⟨e, Or.inr rfl, rfl⟩
    · exact ⟨e', Or.inl he, rfl⟩

@[simp] theorem fetches_append (es es' : List ChunkEvent) : fetches (es ++ es') = fetches es + fetches es' :=
  List.countP_append

/-- No chunk is fetched that was fetched or committed before. -/
def FetchesNew (es : List ChunkEvent) : Prop :=
  es.Pairwise fun earlier later => later.isFetch = true → earlier.id ≠ later.id

theorem FetchesNew.append {es : List ChunkEvent} {e : ChunkEvent} (h : FetchesNew es)
    (he : e.isFetch = true → e.id ∉ names es) : FetchesNew (es ++ [e]) := by
  refine List.pairwise_append.mpr ⟨h, List.pairwise_singleton _ _, ?_⟩
  intro earlier hearlier later hlater hfetch heq
  rw [List.mem_singleton] at hlater
  subst hlater
  exact he hfetch (mem_names.mpr ⟨earlier, hearlier, heq⟩)

/-- Each chunk is fetched at most once. -/
theorem FetchesNew.count_le {es : List ChunkEvent} (h : FetchesNew es) (id : String) :
    es.count (.fetch id) ≤ 1 := by
  have hnodup : (es.filter ChunkEvent.isFetch).Nodup := by
    refine (List.Pairwise.filter _ h).imp_of_mem ?_
    rintro e e' - he' hnew rfl
    exact hnew (List.mem_filter.mp he').2 rfl
  rw [← List.count_filter (p := ChunkEvent.isFetch) rfl]
  exact List.nodup_iff_count_le_one.mp hnodup _

/-- A chunk is not fetched once it was committed. -/
theorem FetchesNew.after_commit {es before after : List ChunkEvent} {id : String} (h : FetchesNew es)
    (hes : es = before ++ .commit id :: after) : ChunkEvent.fetch id ∉ after := by
  subst hes
  intro hmem
  obtain ⟨-, hrest, -⟩ := List.pairwise_append.mp h
  exact (List.pairwise_cons.mp hrest).1 _ hmem rfl rfl

/-! ## The stock of a node -/

/-- The length of a chunk in the store. -/
def objectSize (w : World) (id : String) : Nat := ((w.objects (chunkKey id)).map List.length).getD 0

/-- What the distinct chunks of the events measure. -/
def totalSize (w : World) (es : List ChunkEvent) : Nat := ∑ id ∈ names es, objectSize w id

/-- The files of the cache are the chunks of the events. -/
structure Stored (c : LocalCache) (n : Nat) (w : World) (es : List ChunkEvent) : Prop where
  only : ∀ path file, (w.disk n).files.lookup path = some file →
    ∃ id ∈ names es, path = c.dir ++ [id] ∧ w.objects (chunkKey id) = some file.data
  all : ∀ id ∈ names es, (w.disk n).files.lookup (c.dir ++ [id]) ≠ none
  new : FetchesNew es

/-- While the chunks of the events fit in the cache, they are its files. -/
def Stocked (c : LocalCache) (n : Nat) (w : World) (es : List ChunkEvent) : Prop :=
  (totalSize w es : Int) ≤ c.maxSize.toInt → Stored c n w es

section Stock

variable {P : Platform} {c : LocalCache} {who : Caller} {w : World} {es : List ChunkEvent}

theorem objectSize_le (hgrow : ∀ id b, w.objects (chunkKey id) = some b → w'.objects (chunkKey id) = some b)
    (id : String) : objectSize w id ≤ objectSize w' id := by
  unfold objectSize
  cases hid : w.objects (chunkKey id) with
  | none => exact Nat.zero_le _
  | some b => rw [hgrow id b hid]

/-- More events on a larger store measure more. -/
theorem totalSize_le (hgrow : ∀ id b, w.objects (chunkKey id) = some b → w'.objects (chunkKey id) = some b)
    (e : ChunkEvent) : totalSize w es ≤ totalSize w' (es ++ [e]) := by
  calc totalSize w es ≤ ∑ id ∈ names es, objectSize w' id :=
        Finset.sum_le_sum fun id _ => objectSize_le hgrow id
    _ ≤ totalSize w' (es ++ [e]) := by
        refine Finset.sum_le_sum_of_subset ?_
        rw [names_append]
        exact Finset.subset_insert _ _

theorem stocked_empty (h : (w.caches n).files = ∅) : Stocked c n w [] := by
  intro _
  have hfiles : (w.disk n).files = ∅ := h
  refine ⟨fun path file hfile => ?_, fun id hid => by simp at hid, List.Pairwise.nil⟩
  rw [hfiles, AList.lookup_empty] at hfile
  cases hfile

/-- Times do not matter, nor does anything but the files and the chunks in the store. -/
theorem Stocked.congr (h : Stocked c n w es) (hfiles : SameFiles (w.disk n).files (w'.disk n).files)
    (hobjects : ∀ id, w'.objects (chunkKey id) = w.objects (chunkKey id)) : Stocked c n w' es := by
  intro hfits
  have hsize : totalSize w' es = totalSize w es :=
    Finset.sum_congr rfl fun id _ => by rw [objectSize, objectSize, hobjects]
  obtain ⟨honly, hall, hnew⟩ := h (hsize ▸ hfits)
  refine ⟨fun path file hfile => ?_, fun id hid => ?_, hnew⟩
  · have hpath := hfiles path
    rw [hfile, Option.map_some] at hpath
    obtain ⟨old, hold, hdata⟩ := Option.map_eq_some_iff.mp hpath.symm
    obtain ⟨id, hid, hplace, hobject⟩ := honly path old hold
    exact ⟨id, hid, hplace, by rw [hobjects, hobject, hdata]⟩
  · exact fun hnone => hall id hid (hfiles.lookup_none.mp hnone)

/-- The name of a file of the directory. -/
private def itemName (it : EvictItem) : String := it.path.getLast?.getD ""

/-- Files that are chunks of the events measure at most what these measure. -/
theorem dirSize_le_totalSize {files : AList fun _ : Path => CacheFile} {dir : Path}
    (honly : ∀ path file, files.lookup path = some file →
      ∃ id ∈ names es, path = dir ++ [id] ∧ w.objects (chunkKey id) = some file.data) :
    sizeSum (dirItems files dir) ≤ totalSize w es := by
  have hitem : ∀ it ∈ dirItems files dir, itemName it ∈ names es ∧ it.path = dir ++ [itemName it] ∧
      it.size = objectSize w (itemName it) := by
    intro it hit
    obtain ⟨file, hfile, -, hsize, -⟩ := mem_dirItems.mp hit
    obtain ⟨id, hid, hpath, hobject⟩ := honly it.path file hfile
    have hname : itemName it = id := by simp [itemName, hpath]
    rw [hname]
    exact ⟨hid, hpath, by rw [hsize, objectSize, hobject]; rfl⟩
  have hnodup : ((dirItems files dir).map itemName).Nodup := by
    have hpaths : ((dirItems files dir).map EvictItem.path) =
        ((dirItems files dir).map itemName).map fun id => dir ++ [id] := by
      rw [List.map_map]
      exact List.map_congr_left fun it hit => (hitem it hit).2.1
    exact List.Nodup.of_map _ (hpaths ▸ nodup_dirItems)
  calc sizeSum (dirItems files dir)
      = (((dirItems files dir).map itemName).map (objectSize w)).sum := by
        rw [sizeSum, List.map_map]
        exact congrArg List.sum (List.map_congr_left fun it hit => (hitem it hit).2.2)
    _ = ∑ id ∈ ((dirItems files dir).map itemName).toFinset, objectSize w id :=
        (List.sum_toFinset _ hnodup).symm
    _ ≤ totalSize w es := by
        refine Finset.sum_le_sum_of_subset fun id hid => ?_
        obtain ⟨it, hit, rfl⟩ := List.mem_map.mp (List.mem_toFinset.mp hid)
        exact (hitem it hit).1

/-- A directory that fits stays as it is. -/
theorem evicted_eq_nil {files : AList fun _ : Path => CacheFile}
    (h : (sizeSum (dirItems files c.dir) : Int) ≤ c.maxSize.toInt) : Disk.evicted P c files = [] := by
  have hmax : c.maxSize.toInt < 2 ^ 63 := by
    have := c.maxSize.toInt_lt
    omega
  have htotal : itemsTotal (dirItems files c.dir) ≤ c.maxSize := by
    rw [Int64.le_iff_toInt_le, itemsTotal_eq, toInt_ofNat (by omega)]
    exact h
  unfold Disk.evicted
  cases P.sortItems (dirItems files c.dir) with
  | nil => rfl
  | cons it items => rw [evictedItems, if_pos htotal]

/-- A chunk of the store is put in the cache and nothing has to go. -/
theorem Stocked.place {w₀ : World} {e : ChunkEvent} {b : Bytes} (h : Stocked c who.node w₀ es)
    (hfiles : (w.disk who.node).files = (w₀.disk who.node).files)
    (hgrow : ∀ id d, w₀.objects (chunkKey id) = some d → w.objects (chunkKey id) = some d)
    (hclosed : Closed P w) (hobject : w.objects (chunkKey e.id) = some b)
    (hmiss : e.isFetch = true → (w.disk who.node).files.lookup (c.dir ++ [e.id]) = none)
    (hobjects : w'.objects = w.objects)
    (hdisk : (w'.disk who.node).files =
      Disk.removeItems (Disk.evicted P c (w.placed P who c e.id b)) (w.placed P who c e.id b)) :
    Stocked c who.node w' (es ++ [e]) := by
  intro hfits
  have hfits' : (totalSize w (es ++ [e]) : Int) ≤ c.maxSize.toInt := by
    simpa only [totalSize, objectSize, hobjects] using hfits
  have hbefore : (totalSize w₀ es : Int) ≤ c.maxSize.toInt :=
    le_trans (by exact_mod_cast totalSize_le hgrow e) hfits'
  obtain ⟨honly, hall, hnew⟩ := h hbefore
  have hchunkID : ∀ id d, w.objects (chunkKey id) = some d → IsChunkID P id :=
    fun id d hd => ⟨d, (hclosed.objects id d hd).1⟩
  have hpath : c.path e.id = c.dir ++ [e.id] := by
    have hid := hchunkID e.id b hobject
    exact filepathJoin_plain c.dir (hid.plain P) (hid.ne_empty P)
  have hplaced : ∀ path, (w.placed P who c e.id b).lookup path =
      if path = c.dir ++ [e.id] then some ⟨b, P.now (w.ticks + 2)⟩
      else if path = c.dir ++ [tempName w.temps] then none
      else (w₀.disk who.node).files.lookup path := by
    intro path
    rw [World.placed, hpath, hfiles]
    by_cases hp : path = c.dir ++ [e.id]
    · rw [if_pos hp, hp, AList.lookup_insert]
    · rw [if_neg hp, AList.lookup_insert_ne hp]
      by_cases ht : path = c.dir ++ [tempName w.temps]
      · rw [if_pos ht, ht, AList.lookup_erase]
      · rw [if_neg ht, AList.lookup_erase_ne ht]
  have honly' : ∀ path file, (w.placed P who c e.id b).lookup path = some file →
      ∃ id ∈ names (es ++ [e]), path = c.dir ++ [id] ∧ w.objects (chunkKey id) = some file.data := by
    intro path file hfile
    rw [hplaced] at hfile
    split at hfile
    · rename_i hp
      cases hfile
      exact ⟨e.id, by simp, hp, hobject⟩
    · split at hfile
      · cases hfile
      · obtain ⟨id, hid, hp, hdata⟩ := honly path file hfile
        exact ⟨id, by rw [names_append]; exact Finset.mem_insert_of_mem hid, hp, hgrow id _ hdata⟩
  have hkeep : (w'.disk who.node).files = w.placed P who c e.id b := by
    rw [hdisk, evicted_eq_nil (le_trans (by exact_mod_cast dirSize_le_totalSize honly') hfits')]
    rfl
  refine ⟨fun path file hfile => ?_, fun id hid => ?_, hnew.append fun hfetch hmem => ?_⟩
  · rw [hkeep] at hfile
    rw [hobjects]
    exact honly' path file hfile
  · rw [hkeep, hplaced]
    rw [names_append, Finset.mem_insert] at hid
    split
    · exact Option.some_ne_none _
    · rename_i hp
      have hid' : id ∈ names es := hid.resolve_left fun heq => hp (by rw [heq])
      -- a chunk's file is not a temporary one
      rw [if_neg]
      · exact hall id hid'
      · intro ht
        obtain ⟨file, hfile⟩ := Option.ne_none_iff_exists'.mp (hall id hid')
        obtain ⟨id', -, hp', hdata⟩ := honly _ file hfile
        have hsame : id = tempName w.temps := by simpa using ht
        have hsame' : id = id' := by simpa using hp'
        refine tempName_not_chunkID P w.temps ?_
        rw [← hsame, hsame']
        exact hchunkID id' _ (hgrow id' _ hdata)
  · rw [hfiles] at hmiss
    exact hall e.id hmem (hmiss hfetch)

end Stock

/-! ## What the rest of a call does not touch -/

/-- No snapshot's manifest is stored under the key of a chunk. -/
def ManifestsApart (w : World) : Prop :=
  ∀ id s, w.snapshots id = some s → ∀ chunkID, s.manifestKey ≠ chunkKey chunkID

/-- The sessions are those of before, on the same volumes. -/
structure SessionsKept (w w' : World) : Prop where
  sessions : ∀ r, (w'.sessions r).map Session.volume = (w.sessions r).map Session.volume
  hashed : ∀ b ∈ w.hashed, b ∈ w'.hashed
  apart : ManifestsApart w → ManifestsApart w'

/-- So are the counters, the files of the node's cache and the chunks in the store. -/
structure Aside (n : Nat) (w w' : World) : Prop extends SessionsKept w w' where
  stats : w'.stats = w.stats
  files : (w'.disk n).files = (w.disk n).files
  objects : ∀ id, w'.objects (chunkKey id) = w.objects (chunkKey id)

theorem Aside.refl (n : Nat) (w : World) : Aside n w w :=
  ⟨⟨fun _ => rfl, fun _ h => h, fun h => h⟩, rfl, rfl, fun _ => rfl⟩

theorem Aside.trans {w w'' : World} (h : Aside n w w') (h' : Aside n w' w'') : Aside n w w'' where
  sessions := fun r => (h'.sessions r).trans (h.sessions r)
  hashed := fun b hb => h'.hashed b (h.hashed b hb)
  apart := fun ha => h'.apart (h.apart ha)
  stats := h'.stats.trans h.stats
  files := h'.files.trans h.files
  objects := fun id => (h'.objects id).trans (h.objects id)

/-- The operations that concern neither the chunks of the cache and the store nor the counters. -/
def Op.Aside : Op → Prop
  | .storePut key _ | .storeGet key => ∀ chunkID, key ≠ chunkKey chunkID
  | .createSnapshot s => ∀ chunkID, s.manifestKey ≠ chunkKey chunkID
  | .storeExists _ | .count _ _ | .addSession _ _ => False
  | o => o.OnFiles = false

theorem aside_modifySession (n : Nat) (w : World) (r : SessRef) {f : Session → Session}
    (hf : ∀ s, (f s).volume = s.volume) : Aside n w (w.modifySession r f) := by
  refine ⟨⟨fun r' => ?_, fun _ h => h, fun h => h⟩, rfl, rfl, fun _ => rfl⟩
  show (update w.sessions r ((w.sessions r).map f) r').map _ = _
  by_cases hr : r' = r
  · subst hr
    rw [update_self]
    cases w.sessions r' with
    | none => rfl
    | some s => exact congrArg some (hf s)
  · rw [update_of_ne hr]

theorem exec_aside {P : Platform} {who : Caller} (ho : o.Aside) (w : World) :
    Aside who.node w (exec P who .none w o).2 := by
  have hmemory : ∀ memory, Aside who.node w (w.setMemory who.node memory) := fun memory =>
    ⟨⟨fun _ => rfl, fun _ h => h, fun h => h⟩, rfl, by rw [disk_setMemory], fun _ => rfl⟩
  by_cases hread : o.isRead = true
  · rw [exec_read .none w hread]
    exact .refl _ w
  cases o with
  | storePut key b =>
    refine ⟨⟨fun _ => rfl, fun _ h => h, fun h => h⟩, rfl, rfl, fun id => ?_⟩
    exact update_of_ne (ho id).symm _ _
  | createSnapshot s =>
    refine ⟨⟨fun _ => rfl, fun _ h => h, fun h id s' hs' => ?_⟩, rfl, rfl, fun _ => rfl⟩
    change update w.snapshots s.snapshotID (some s) id = some s' at hs'
    by_cases hid : id = s.snapshotID
    · rw [hid, update_self] at hs'
      cases hs'
      exact ho
    · rw [update_of_ne hid] at hs'
      exact h id s' hs'
  | hashChunk b =>
    exact ⟨⟨fun _ => rfl, fun _ h => List.mem_cons_of_mem _ h, fun h => h⟩, rfl, rfl, fun _ => rfl⟩
  | setDirty id index => exact aside_modifySession _ w _ fun _ => rfl
  | setBase id snapshotID m => exact aside_modifySession _ w _ fun _ => rfl
  | resetDirty id => exact aside_modifySession _ w _ fun _ => rfl
  | getMemory chunkID => exact hmemory _
  | getMemoryRange chunkID offset length => exact hmemory _
  | putMemory memoryMax chunkID b => exact hmemory _
  | storeExists key => exact ho.elim
  | count id c => exact ho.elim
  | addSession id s => exact ho.elim
  | _ =>
    first
      | exact absurd rfl hread
      | exact absurd (show true = false from ho) (by decide)
      | exact ⟨⟨fun _ => rfl, fun _ h => h, fun h => h⟩, rfl, rfl, fun _ => rfl⟩
      | (simp only [exec, Fault.on, execUpdateVolume, execReadOverlay, execWriteFile]
         split <;> exact ⟨⟨fun _ => rfl, fun _ h => h, fun h => h⟩, rfl, rfl, fun _ => rfl⟩)

theorem chunkEvent_aside (ho : o.Aside) : o.chunkEvent = none := by
  cases o with
  | storeGet key => exact congrArg (Option.map ChunkEvent.fetch) (chunkOf_eq_none ho)
  | storeExists key => exact ho.elim
  | _ => rfl

theorem chunkEvent_onCache (ho : o.OnCache = true) : o.chunkEvent = none := by
  cases o with
  | storeGet key => cases ho
  | storeExists key => cases ho
  | _ => rfl

theorem CacheFrame.sessionsKept {who : Caller} {w : World} (h : CacheFrame who w w') :
    SessionsKept w w' ∧ w'.stats = w.stats ∧ w'.objects = w.objects := by
  unfold CacheFrame at h
  rw [h]
  exact ⟨⟨fun _ => rfl, fun _ h => h, fun h => h⟩, rfl, rfl⟩

/-! ## A call -/

/-- The machine of one call on a node without faults, with the events; all its states are closed. -/
def nodeMachine (P : Platform) (who : Caller) : Machine sig (World × List ChunkEvent) Fault :=
  ((machine P faultFree who).within (Closed P)).watched Op.chunkEvent

section Rules

variable {P : Platform} {who : Caller} {w : World} {es : List ChunkEvent}

theorem node_perform {Q : Res o → World × List ChunkEvent → Prop}
    (h : Closed P (exec P who .none w o).2 →
      Q (exec P who .none w o).1 ((exec P who .none w o).2, es ++ o.chunkEvent.toList)) :
    (nodeMachine P who).wp (perform o) Q (w, es) := by
  rintro f ⟨rfl, hclosed⟩
  exact h hclosed

theorem node_access {Q : Except Err (Res o) → World × List ChunkEvent → Prop}
    (h : Closed P (exec P who .none w o).2 →
      Q (.ok (exec P who .none w o).1) ((exec P who .none w o).2, es ++ o.chunkEvent.toList)) :
    (nodeMachine P who).wp (access o).run Q (w, es) := by
  unfold access
  rw [wp_run_lift]
  exact node_perform h

/-- A program of operations that stand aside. -/
theorem node_aside {x : Prog sig α} (hx : Prog.Only (S := sig) Op.Aside x) (hclosed : Closed P w) :
    (nodeMachine P who).wp x
      (fun _ s => Aside who.node w s.1 ∧ Closed P s.1 ∧ s.2 = es) (w, es) := by
  refine wp_of_only
    (I := fun s : World × List ChunkEvent => Aside who.node w s.1 ∧ Closed P s.1 ∧ s.2 = es) hx
    ⟨.refl _ w, hclosed, rfl⟩ ?_
  rintro o _ ⟨w₁, es₁⟩ ho ⟨hframe, -, rfl⟩ ⟨rfl, hclosed₁⟩
  refine ⟨hframe.trans (exec_aside ho w₁), hclosed₁, ?_⟩
  show es₁ ++ o.chunkEvent.toList = es₁
  rw [chunkEvent_aside ho, Option.toList_none, List.append_nil]

/-- The functions of the cache. -/
theorem node_cache {x : M α} {Q : Except Err α → World → Prop}
    (hx : Uses (fun o : Op => o.OnCache = true) x) (hclosed : Closed P w)
    (h : (machine P faultFree who).wp x.run Q w) :
    (nodeMachine P who).wp x.run
      (fun r s => (((Q r s.1 ∧ CacheFrame who w s.1) ∧ Closed P s.1) ∧ s.2 = es)) (w, es) := by
  have hquiet : Prog.Only (S := sig) (fun o : Op => o.chunkEvent = none) x.run := by
    exact hx.mono fun o ho => chunkEvent_onCache ho
  exact wp_watched hquiet
    (wp_within (wp_and h (frame_onCache hx w)) hclosed)

end Rules

/-- The misses and the fetches counted for the session `r` are the fetches among the events. -/
structure Counted (r : SessRef) (w : World) (es : List ChunkEvent) (w' : World)
    (es' : List ChunkEvent) : Prop where
  misses : (w'.stats r).cacheMisses + fetches es = (w.stats r).cacheMisses + fetches es'
  remote : (w'.stats r).remoteFetches + fetches es = (w.stats r).remoteFetches + fetches es'
  others : ∀ r', r' ≠ r → w'.stats r' = w.stats r'

section Counted

variable {r : SessRef} {w w'' : World} {es es' es'' : List ChunkEvent}

theorem Counted.of_eq (hstats : w'.stats = w.stats) (hfetches : fetches es' = fetches es) :
    Counted r w es w' es' :=
  ⟨by rw [hstats, hfetches], by rw [hstats, hfetches], fun _ _ => by rw [hstats]⟩

theorem Counted.trans (h : Counted r w es w' es') (h' : Counted r w' es' w'' es'') :
    Counted r w es w'' es'' := by
  refine ⟨?_, ?_, fun r' hr' => (h'.others r' hr').trans (h.others r' hr')⟩
  · have h₁ := h.misses
    have h₂ := h'.misses
    omega
  · have h₁ := h.remote
    have h₂ := h'.remote
    omega

end Counted

/-- **The invariant of a call** on the session `id` of a node, begun in `s₀`. The chunks `chunks` were
hashed. -/
structure During (P : Platform) (c : LocalCache) (n : Nat) (id : String) (volume : Volume)
    (chunks : List Bytes) (s₀ s : World × List ChunkEvent) : Prop where
  closed : Closed P s.1
  stocked : Stocked c n s.1 s.2
  apart : ManifestsApart s.1
  counted : Counted (n, id) s₀.1 s₀.2 s.1 s.2
  sessions : ∀ r, (s.1.sessions r).map Session.volume = (s₀.1.sessions r).map Session.volume
  volume : ∀ session, s.1.sessions (n, id) = some session → session.volume = volume
  hashed : ∀ b ∈ chunks, b ∈ s.1.hashed

section During

variable {P : Platform} {who : Caller} {b : Backend} {id : String} {volume : Volume} {chunks : List Bytes}
variable {s₀ : World × List ChunkEvent} {w : World} {es es' : List ChunkEvent}

variable (P who b id volume chunks s₀) in
/-- The program keeps the invariant. -/
abbrev Stays {α : Type} (x : Prog sig α) (s : World × List ChunkEvent) : Prop :=
  (nodeMachine P who).wp x (fun _ s' => During P b.cache who.node id volume chunks s₀ s') s

theorem During.step (h : During P b.cache who.node id volume chunks s₀ (w, es)) (hclosed : Closed P w')
    (hstocked : Stocked b.cache who.node w' es') (hkept : SessionsKept w w')
    (hcounted : Counted (who.node, id) w es w' es') :
    During P b.cache who.node id volume chunks s₀ (w', es') where
  closed := hclosed
  stocked := hstocked
  apart := hkept.apart h.apart
  counted := h.counted.trans hcounted
  sessions := fun r => (hkept.sessions r).trans (h.sessions r)
  volume := by
    intro session hsession
    have hmap := hkept.sessions (who.node, id)
    dsimp only at hsession
    rw [hsession, Option.map_some] at hmap
    obtain ⟨old, hold, hvolume⟩ := Option.map_eq_some_iff.mp hmap.symm
    rw [← hvolume]
    exact h.volume old hold
  hashed := fun b hb => hkept.hashed b (h.hashed b hb)

theorem During.aside (h : During P b.cache who.node id volume chunks s₀ (w, es)) (hclosed : Closed P w')
    (hframe : Aside who.node w w') : During P b.cache who.node id volume chunks s₀ (w', es) :=
  h.step hclosed (h.stocked.congr (fun path => by rw [hframe.files]) hframe.objects)
    hframe.toSessionsKept (.of_eq hframe.stats rfl)

theorem wp_aside {x : Prog sig α} (hx : Prog.Only (S := sig) Op.Aside x) {s : World × List ChunkEvent}
    (h : During P b.cache who.node id volume chunks s₀ s) : Stays P who b id volume chunks s₀ x s := by
  refine wp_mono (node_aside hx h.closed) ?_
  rintro _ ⟨w', es'⟩ ⟨hframe, hclosed, rfl⟩
  exact h.aside hclosed hframe

/-! ### Chunks -/

/-- Neither misses nor fetches are counted. -/
theorem count_during {counter : Counter} (hmiss : counter ≠ .cacheMisses)
    (hfetch : counter ≠ .remoteFetches)
    (h : During P b.cache who.node id volume chunks s₀ (w, es)) :
    Stays P who b id volume chunks s₀ (access (.count id counter)).run (w, es) := by
  refine node_access fun hclosed => ?_
  have hes : es ++ (Op.count id counter).chunkEvent.toList = es := List.append_nil es
  rw [hes]
  have hbump : ∀ stats : SessionStats, (stats.bump counter).cacheMisses = stats.cacheMisses ∧
      (stats.bump counter).remoteFetches = stats.remoteFetches := by
    intro stats
    cases counter with
    | cacheMisses => exact absurd rfl hmiss
    | remoteFetches => exact absurd rfl hfetch
    | cacheHits => exact ⟨rfl, rfl⟩
    | zeroFills => exact ⟨rfl, rfl⟩
  refine h.step hclosed (h.stocked.congr (fun _ => rfl) fun _ => rfl)
    ⟨fun _ => rfl, fun _ hb => hb, fun ha => ha⟩ ⟨?_, ?_, fun r hr => ?_⟩
  · simp [exec, hbump]
  · simp [exec, hbump]
  · simp [exec, update_of_ne hr]

theorem uses_get_onCache (chunkID : String) :
    Uses (fun o : Op => o.OnCache = true) (b.cache.get chunkID) := by
  refine uses_get b.cache (fun o ho => ?_) rfl fun _ => rfl
  cases o with
  | _ => first | exact ho | cases ho

theorem uses_getRange_onCache (chunkID : String) (offset length : Int64) :
    Uses (fun o : Op => o.OnCache = true) (b.cache.getRange chunkID offset length) := by
  refine uses_getRange b.cache (fun o ho => ?_) rfl
  cases o with
  | _ => first | exact ho | cases ho

theorem uses_put_onCache (chunkID : String) (data : Bytes) :
    Uses (fun o : Op => o.OnCache = true) (b.cache.put P chunkID data) := by
  refine uses_put P b.cache (fun o ho => ?_) rfl
  cases o with
  | _ => first | exact ho | cases ho

/-- `Put` of a chunk that is in the store. -/
theorem put_during {w₁ : World} {e : ChunkEvent} {data : Bytes}
    (hstocked : Stocked b.cache who.node w es)
    (hfiles : (w₁.disk who.node).files = (w.disk who.node).files)
    (hgrow : ∀ id d, w.objects (chunkKey id) = some d → w₁.objects (chunkKey id) = some d)
    (hclosed : Closed P w₁) (hobject : w₁.objects (chunkKey e.id) = some data)
    (hmiss : e.isFetch = true → (w₁.disk who.node).files.lookup (b.cache.dir ++ [e.id]) = none) :
    (nodeMachine P who).wp (b.cache.put P e.id data).run
      (fun r s => r = .ok () ∧ s.2 = es ++ [e] ∧ Closed P s.1 ∧
        Stocked b.cache who.node s.1 (es ++ [e]) ∧ SessionsKept w₁ s.1 ∧ s.1.stats = w₁.stats)
      (w₁, es ++ [e]) := by
  have hid : IsChunkID P e.id := ⟨data, (hclosed.objects e.id data hobject).1⟩
  have hpath : b.cache.path e.id = b.cache.dir ++ [e.id] :=
    filepathJoin_plain b.cache.dir (hid.plain P) (hid.ne_empty P)
  have hname : e.id ≠ "dirty-sessions" := by
    intro heq
    have := hid.length P
    rw [heq] at this
    exact absurd this (by decide)
  refine wp_mono (node_cache (uses_put_onCache e.id data) hclosed
    (put_quiet hpath hname data w₁)) ?_
  rintro r ⟨w', es'⟩ ⟨⟨⟨⟨rfl, hdisk⟩, hframe⟩, hclosed'⟩, rfl⟩
  obtain ⟨hkept, hstats, hobjects⟩ := hframe.sessionsKept
  exact ⟨rfl, rfl, hclosed', hstocked.place hfiles hgrow hclosed hobject hmiss hobjects
    (congrArg Disk.files hdisk), hkept, hstats⟩

/-- A fetch is counted as a miss and as a fetch. -/
theorem fetchChunk_during {chunkID : String} {data : Bytes}
    (h : During P b.cache who.node id volume chunks s₀ (w, es))
    (hmiss : (w.disk who.node).files.lookup (b.cache.dir ++ [chunkID]) = none)
    (hobject : w.objects (chunkKey chunkID) = some data)
    (hlength : (data.length : Int) = volume.chunkSize.toInt) :
    Stays P who b id volume chunks s₀ (fetchChunk P b id volume chunkID).run (w, es) := by
  have hnorm : normalizeChunk data volume.chunkSize = .ok data := by
    rw [normalizeChunk, if_pos hlength]
  unfold fetchChunk
  refine wp_run_bind.mpr (node_access fun hclosed₁ => ?_)
  rw [orElse_ok]
  unfold attempt
  rw [wp_run_bind, wp_run_lift]
  refine node_perform fun _ => ?_
  rw [orElse_ok]
  have hget : exec P who .none (exec P who .none w (.count id .cacheMisses)).2
      (.storeGet (chunkKey chunkID)) = (.ok data, (exec P who .none w (.count id .cacheMisses)).2) := by
    show execGet _ (w.objects (chunkKey chunkID)) = _
    rw [hobject]
    rfl
  rw [hget]
  dsimp only
  rw [wp_run_bind]
  refine node_access fun hclosed₃ => ?_
  rw [orElse_ok, wp_run_bind, hnorm]
  show (nodeMachine P who).wp (b.cache.put P chunkID data >>= fun _ => pure (some data) : M _).run _ _
  have hevents : es ++ (Op.count id .cacheMisses).chunkEvent.toList ++
      (Op.storeGet (chunkKey chunkID)).chunkEvent.toList ++
      (Op.count id .remoteFetches).chunkEvent.toList = es ++ [.fetch chunkID] := by
    simp [Op.chunkEvent]
  rw [hevents]
  refine wp_run_seq (put_during (e := .fetch chunkID) h.stocked rfl (fun _ _ hd => hd) hclosed₃
    hobject fun _ => hmiss) ?_
  rintro _ ⟨w₄, es₄⟩ ⟨rfl, rfl, hclosed₄, hstocked₄, hkept, hstats⟩
  refine h.step hclosed₄ hstocked₄ ⟨hkept.sessions, hkept.hashed, hkept.apart⟩ ⟨?_, ?_, fun r hr => ?_⟩
  · rw [hstats, fetches_append]
    simp [exec, SessionStats.bump, fetches, ChunkEvent.isFetch]
    omega
  · rw [hstats, fetches_append]
    simp [exec, SessionStats.bump, fetches, ChunkEvent.isFetch]
    omega
  · rw [hstats]
    simp [exec, update_of_ne hr]

/-- A sequence of two parts that keep the invariant. -/
theorem bind_during {β : Type} {x : M α} {f : α → M β} {s : World × List ChunkEvent}
    (hx : Stays P who b id volume chunks s₀ x.run s)
    (hf : ∀ a s', During P b.cache who.node id volume chunks s₀ s' →
      Stays P who b id volume chunks s₀ (f a).run s') :
    Stays P who b id volume chunks s₀ (x >>= f).run s := by
  refine wp_run_seq hx ?_
  rintro (e | a) s' hs'
  · exact hs'
  · exact hf a s' hs'

/-- The branch on the chunk of the base manifest. -/
theorem wp_baseChunk {o : Option String} {x : M Bytes} {y : String → M Bytes}
    {Q : Except Err Bytes → World × List ChunkEvent → Prop} {s : World × List ChunkEvent}
    (hnone : o = none → (nodeMachine P who).wp x.run Q s)
    (hsome : ∀ chunkID, o = some chunkID → (nodeMachine P who).wp (y chunkID).run Q s) :
    (nodeMachine P who).wp (ExceptT.run (match o with
      | none => x
      | some chunkID => y chunkID)) Q s := by
  cases o with
  | none => exact hnone rfl
  | some chunkID => exact hsome chunkID rfl

/-- One resolution. -/
theorem resolveWith_during {dirtyPart : M Bytes} {cachedPart : String → M (Option Bytes)}
    {hit : Bytes → M Bytes} {part : Bytes → Bytes} {zeroes : Bytes} (hdirty : Uses Op.Aside dirtyPart)
    (huses : ∀ chunkID, Uses (fun o : Op => o.OnCache = true) (cachedPart chunkID))
    (hcached : ∀ chunkID w, (machine P faultFree who).wp (cachedPart chunkID).run
      (LookedUp who b.cache chunkID w) w) (hhit : ∀ cached, Uses Op.Aside (hit cached))
    (h : During P b.cache who.node id volume chunks s₀ (w, es)) :
    Stays P who b id volume chunks s₀
      (resolveWith P b id volume index dirtyPart cachedPart hit part zeroes).run (w, es) := by
  have hpure : ∀ {s : World × List ChunkEvent} (bytes : Bytes),
      During P b.cache who.node id volume chunks s₀ s →
        Stays P who b id volume chunks s₀ (pure bytes : M Bytes).run s := fun _ hs => hs
  unfold resolveWith
  refine wp_run_bind.mpr (node_access fun _ => ?_)
  rw [orElse_ok, show (Op.isDirty id index).chunkEvent = none from rfl, Option.toList_none,
    List.append_nil]
  split
  · exact wp_aside hdirty h
  · rw [wp_run_bind]
    refine node_access fun _ => ?_
    rw [orElse_ok, show (Op.baseChunk id index).chunkEvent = none from rfl, Option.toList_none,
      List.append_nil]
    refine wp_baseChunk (o := (w.sessions (who.node, id)).bind fun s => s.baseManifest.lookup index)
      (s := (w, es)) (fun _ => ?_) fun chunkID hbase => ?_
    · exact bind_during (count_during (by simp) (by simp) h) fun _ s hs => hpure zeroes hs
    · -- the chunk is in the store, at full length
      obtain ⟨session, hsession, hlookup⟩ := Option.bind_eq_some_iff.mp hbase
      obtain ⟨data, hobject, hlength⟩ := (h.closed.sessions _ session hsession).2.1.chunk index chunkID hlookup
      rw [h.volume session hsession] at hlength
      have hid : IsChunkID P chunkID := ⟨data, (h.closed.objects chunkID data hobject).1⟩
      have hpath : b.cache.path chunkID = b.cache.dir ++ [chunkID] :=
        filepathJoin_plain b.cache.dir (hid.plain P) (hid.ne_empty P)
      refine wp_run_seq (node_cache (huses chunkID) h.closed (hcached chunkID w)) ?_
      rintro r ⟨w₁, es₁⟩ ⟨⟨⟨⟨hsame, hnone⟩, hframe⟩, hclosed₁⟩, rfl⟩
      obtain ⟨hkept, hstats, hobjects⟩ := hframe.sessionsKept
      have h₁ : During P b.cache who.node id volume chunks s₀ (w₁, es₁) :=
        h.step hclosed₁ (h.stocked.congr hsame fun id => by rw [hobjects]) hkept (.of_eq hstats rfl)
      obtain _ | _ | cached := r
      · exact h₁
      · rw [orElse_ok]
        have hmiss : (w₁.disk who.node).files.lookup (b.cache.dir ++ [chunkID]) = none := by
          rw [hsame.lookup_none, ← hpath]
          exact hnone rfl
        refine bind_during (fetchChunk_during h₁ hmiss (by rw [hobjects, hobject]) hlength) ?_
        rintro (_ | remote) s hs
        · exact hpure zeroes hs
        · exact hpure (part remote) hs
      · rw [orElse_ok]
        exact bind_during (count_during (by simp) (by simp) h₁) fun _ s hs =>
          wp_aside (hhit cached) hs

theorem uses_readDirtyChunk (index chunkSize : Int64) :
    Uses Op.Aside (readDirtyChunk id index chunkSize) := by
  have hread : Op.Aside (.readFile id index) := rfl
  exact (uses_outside (only_perform hread)).bind fun _ => uses_ofResult _

theorem resolveChunk_during (index : Int64) {s : World × List ChunkEvent}
    (h : During P b.cache who.node id volume chunks s₀ s) :
    Stays P who b id volume chunks s₀ (resolveChunk P b id volume index).run s := by
  exact resolveWith_during (uses_readDirtyChunk _ _) (fun chunkID => uses_get_onCache chunkID)
    (fun _ w => wp_mono (get_quiet w) fun _ _ h => h.1) (fun _ => uses_ofResult _) h

theorem resolveChunkRange_during (index offset length : Int64) {s : World × List ChunkEvent}
    (h : During P b.cache who.node id volume chunks s₀ s) :
    Stays P who b id volume chunks s₀ (resolveChunkRange P b id volume index offset length).run s := by
  have hread : Op.Aside (.readFileAt id index offset length) := rfl
  exact resolveWith_during ((uses_outside (only_perform hread)).bind fun _ => uses_pure _)
    (fun chunkID => uses_getRange_onCache chunkID offset length)
    (fun _ w => wp_mono (getRange_quiet w) fun _ _ h => h.1) (fun _ => uses_pure _) h

/-! ### The loops -/

theorem readRanges_during (ranges : List ChunkRange) (out : Bytes) (outPos : Int64)
    {s : World × List ChunkEvent} (h : During P b.cache who.node id volume chunks s₀ s) :
    Stays P who b id volume chunks s₀ (readRanges P b id volume ranges out outPos).run s := by
  induction ranges generalizing out outPos s with
  | nil => exact h
  | cons r rest ih =>
    unfold readRanges
    refine bind_during (resolveChunkRange_during _ _ _ h) fun part s₁ h₁ => ?_
    exact bind_during (wp_aside (uses_ofResult _) h₁) fun _ s₂ h₂ => ih _ _ h₂

theorem writeRanges_during (data : Bytes) (ranges : List ChunkRange) (dataPos : Int64)
    {s : World × List ChunkEvent} (h : During P b.cache who.node id volume chunks s₀ s) :
    Stays P who b id volume chunks s₀ (writeRanges P b id volume data ranges dataPos).run s := by
  induction ranges generalizing dataPos s with
  | nil => exact h
  | cons r rest ih =>
    have haside : Op.Aside (.isDirty id r.index) ∧ Op.Aside (.setDirty id r.index) ∧
        ∀ chunk, Op.Aside (.writeFile id r.index chunk) := ⟨rfl, rfl, fun _ => rfl⟩
    unfold writeRanges
    refine bind_during ?_ fun chunk s₁ h₁ => ?_
    · unfold chunkToWrite
      refine bind_during (wp_aside (uses_access haside.1) h) fun dirty s₁ h₁ => ?_
      split
      · exact wp_aside (uses_readDirtyChunk _ _) h₁
      · exact resolveChunk_during _ h₁
    · refine bind_during (wp_aside (uses_ofResult _) h₁) fun part s₂ h₂ => ?_
      refine bind_during (wp_aside (uses_outside (only_perform (haside.2.2 _))) h₂) fun _ s₃ h₃ => ?_
      exact bind_during (wp_aside (uses_access haside.2.1) h₃) fun _ s₄ h₄ => ih _ h₄

/-! ### Commit -/

/-- More chunks were hashed. -/
theorem During.hash {chunks' : List Bytes} {s : World × List ChunkEvent}
    (h : During P b.cache who.node id volume chunks s₀ s) (hchunks : ∀ b ∈ chunks', b ∈ s.1.hashed) :
    During P b.cache who.node id volume chunks' s₀ s :=
  ⟨h.closed, h.stocked, h.apart, h.counted, h.sessions, h.volume, hchunks⟩

/-- The chunks of a batch are hashed when it is read. -/
theorem readBatch_during (indexes : List Int64) {s : World × List ChunkEvent}
    (h : During P b.cache who.node id volume chunks s₀ s) :
    (nodeMachine P who).wp (readBatch id volume indexes).run
      (fun r s' => During P b.cache who.node id volume chunks s₀ s' ∧
        ∀ batch, r = .ok batch → (∀ item ∈ batch, P.hash item.bytes = item.id) ∧
          During P b.cache who.node id volume (chunks ++ batch.map DirtyChunk.bytes) s₀ s') s := by
  induction indexes generalizing s chunks with
  | nil =>
    refine ⟨h, ?_⟩
    rintro batch hbatch
    cases hbatch
    exact ⟨by simp, by simpa using h⟩
  | cons index rest ih =>
    unfold readBatch
    refine wp_run_seq (wp_aside (uses_readDirtyChunk _ _) h) ?_
    rintro (e | chunk) ⟨w₁, es₁⟩ h₁
    · exact ⟨h₁, fun batch hbatch => by cases hbatch⟩
    · rw [orElse_ok, wp_run_bind]
      refine node_access fun hclosed₂ => ?_
      rw [orElse_ok, wp_run_bind,
        show (Op.hashChunk chunk).chunkEvent = none from rfl, Option.toList_none, List.append_nil]
      have h₂ : During P b.cache who.node id volume (chunks ++ [chunk]) s₀
          ((exec P who .none w₁ (.hashChunk chunk)).2, es₁) := by
        have haside : Op.Aside (.hashChunk chunk) := rfl
        refine (h₁.aside hclosed₂ (exec_aside haside w₁)).hash ?_
        intro c hc
        rcases List.mem_append.mp hc with hc | hc
        · exact List.mem_cons_of_mem _ (h₁.hashed c hc)
        · rw [List.mem_singleton] at hc
          subst hc
          exact List.mem_cons_self ..
      refine wp_mono (ih h₂) ?_
      rintro (e | batch) s₃ ⟨h₃, hbatch⟩
      · refine ⟨h₃.hash fun c hc => h₃.hashed c (List.mem_append_left _ hc), ?_⟩
        rintro batch hbatch
        cases hbatch
      · obtain ⟨hhash, h₄⟩ := hbatch batch rfl
        refine ⟨h₃.hash fun c hc => h₃.hashed c (List.mem_append_left _ hc), ?_⟩
        rintro _ hbatch
        cases hbatch
        refine ⟨List.forall_mem_cons.mpr ⟨rfl, hhash⟩, ?_⟩
        rwa [List.append_assoc] at h₄

/-- A chunk of a commit is in the store before it is put in the cache. -/
theorem uploadChunk_during {item : DirtyChunk} (hhash : P.hash item.bytes = item.id)
    (hitem : item.bytes ∈ chunks) (h : During P b.cache who.node id volume chunks s₀ (w, es)) :
    (nodeMachine P who).wp (uploadChunk item).run
      (fun r s => (∃ uploaded, r = .ok uploaded) ∧ s.2 = es ++ [.commit item.id] ∧ Closed P s.1 ∧
        (s.1.disk who.node).files = (w.disk who.node).files ∧
        (∀ id d, w.objects (chunkKey id) = some d → s.1.objects (chunkKey id) = some d) ∧
        s.1.objects (chunkKey item.id) = some item.bytes ∧ SessionsKept w s.1 ∧
        s.1.stats = w.stats) (w, es) := by
  unfold uploadChunk outside
  rw [wp_run_bind]
  refine node_perform fun _ => ?_
  have hevent : es ++ (Op.storeExists (chunkKey item.id)).chunkEvent.toList = es ++ [.commit item.id] := by
    simp [Op.chunkEvent]
  rw [hevent]
  show Machine.orElse _ _ (.ok (w.objects (chunkKey item.id)).isSome) (w, es ++ [.commit item.id])
  rw [orElse_ok]
  cases hfound : w.objects (chunkKey item.id) with
  | some data =>
    -- no two chunks hashed have one hash
    obtain ⟨hdata, hmem⟩ := h.closed.objects item.id data hfound
    have hsame : data = item.bytes :=
      h.closed.noCollision data hmem item.bytes (h.hashed _ hitem) (hdata.trans hhash.symm)
    exact ⟨⟨false, rfl⟩, rfl, h.closed, rfl, fun _ _ hd => hd, by rw [hfound, hsame],
      ⟨fun _ => rfl, fun _ hb => hb, fun ha => ha⟩, rfl⟩
  | none =>
    show (nodeMachine P who).wp (outside (perform (.storePut (chunkKey item.id) item.bytes)) >>=
      fun _ => pure true : M Bool).run _ _
    unfold outside
    rw [wp_run_bind]
    refine node_perform fun hclosed => ?_
    rw [show (Op.storePut (chunkKey item.id) item.bytes).chunkEvent = none from rfl,
      Option.toList_none, List.append_nil]
    refine ⟨⟨true, rfl⟩, rfl, hclosed, rfl, fun other d hd => ?_, update_self ..,
      ⟨fun _ => rfl, fun _ hb => hb, fun ha => ha⟩, rfl⟩
    have hne : chunkKey other ≠ chunkKey item.id := by
      intro heq
      rw [heq, hfound] at hd
      cases hd
    show update w.objects (chunkKey item.id) (some item.bytes) (chunkKey other) = some d
    rw [update_of_ne hne, hd]

theorem uploadBatch_during (batch : List DirtyChunk) (manifest : Manifest)
    (stats : CommitBatchStats) {s : World × List ChunkEvent}
    (hhash : ∀ item ∈ batch, P.hash item.bytes = item.id) (hbatch : ∀ item ∈ batch, item.bytes ∈ chunks)
    (h : During P b.cache who.node id volume chunks s₀ s) :
    Stays P who b id volume chunks s₀ (uploadBatch P b batch manifest stats).run s := by
  induction batch generalizing manifest stats s with
  | nil => exact h
  | cons item rest ih =>
    obtain ⟨w, es⟩ := s
    unfold uploadBatch
    refine wp_run_seq (uploadChunk_during (hhash item (List.mem_cons_self ..))
      (hbatch item (List.mem_cons_self ..)) h) ?_
    rintro _ ⟨w₁, es₁⟩ ⟨⟨uploaded, rfl⟩, rfl, hclosed₁, hfiles₁, hgrow₁, hobject₁, hkept₁, hstats₁⟩
    rw [orElse_ok]
    refine wp_run_seq (put_during (e := .commit item.id) h.stocked hfiles₁ hgrow₁ hclosed₁ hobject₁
      (fun hfetch => by cases hfetch)) ?_
    rintro _ ⟨w₂, es₂⟩ ⟨rfl, rfl, hclosed₂, hstocked₂, hkept₂, hstats₂⟩
    rw [orElse_ok]
    refine ih _ _ (fun i hi => hhash i (List.mem_cons_of_mem _ hi))
      (fun i hi => hbatch i (List.mem_cons_of_mem _ hi)) ?_
    refine h.step hclosed₂ hstocked₂ ⟨fun r => ?_, fun c hc => ?_, fun ha => ?_⟩ ?_
    · exact (hkept₂.sessions r).trans (hkept₁.sessions r)
    · exact hkept₂.hashed c (hkept₁.hashed c hc)
    · exact hkept₂.apart (hkept₁.apart ha)
    · exact .of_eq (hstats₂.trans hstats₁) (fetches_append _ _)

theorem uses_progress (opts : CommitOptions) (p : CommitProgress) :
    Uses Op.Aside (progress opts p) := by
  unfold progress
  split
  · exact uses_access rfl
  · exact uses_pure ()

theorem commitBatches_during (opts : CommitOptions) (total batchSize fuel : Nat) (indexes : List Int64)
    (manifest : Manifest) (stats : CommitBatchStats) {s : World × List ChunkEvent}
    (h : During P b.cache who.node id volume [] s₀ s) :
    (nodeMachine P who).wp
      (commitBatches P b opts id volume total batchSize fuel indexes manifest stats).run
      (fun _ s' => During P b.cache who.node id volume [] s₀ s') s := by
  induction fuel generalizing indexes manifest stats s with
  | zero => exact h
  | succ fuel ih =>
    unfold commitBatches
    split
    · exact h
    · refine bind_during ?_ fun batch s₁ h₁ => ?_
      · unfold commitDirtyBatch
        refine wp_run_seq (readBatch_during _ h) ?_
        rintro (e | batch) s₁ ⟨h₁, hbatch⟩
        · exact h₁
        · obtain ⟨hhash, h₂⟩ := hbatch batch rfl
          rw [orElse_ok]
          refine wp_mono (uploadBatch_during batch _ _ hhash (fun item hitem => ?_) h₂) ?_
          · exact List.mem_append_right _ (List.mem_map_of_mem hitem)
          · exact fun _ s₃ h₃ => h₃.hash (by simp)
      · refine bind_during (wp_aside (uses_progress _ _) h₁) fun _ s₂ h₂ => ?_
        exact ih _ _ _ h₂

theorem uses_recordSnapshot (opts : CommitOptions) (total : Nat) (manifest : Manifest)
    (stats : CommitBatchStats) : Uses Op.Aside (recordSnapshot P opts volume total manifest stats) := by
  have hapart : ∀ snapshotID chunkID : String, manifestKey snapshotID ≠ chunkKey chunkID :=
    fun snapshotID chunkID => (chunkKey_ne_manifestKey chunkID snapshotID).symm
  have hnew : Op.Aside .newString := rfl
  unfold recordSnapshot
  refine (uses_access hnew).bind fun snapshotID => (uses_progress _ _).bind fun _ => ?_
  refine (uses_outside (only_perform (hapart snapshotID))).bind fun _ => ?_
  refine (uses_progress _ _).bind fun _ => ?_
  exact (uses_outside (only_perform (hapart snapshotID))).bind fun _ => uses_pure _

theorem uses_moveTo (opts : CommitOptions) (total : Nat) (manifest : Manifest)
    (stats : CommitBatchStats) (snapshot : Snapshot) :
    Uses Op.Aside (moveTo opts id total manifest stats snapshot) := by
  have hmove : Op.Aside (.updateLatestSnapshot snapshot.volumeID snapshot.snapshotID) ∧
      Op.Aside (.setBase id snapshot.snapshotID manifest) := ⟨rfl, rfl⟩
  have hoverlay : Op.Aside (.removeAll id) ∧ Op.Aside (.mkdirAll id) := ⟨rfl, rfl⟩
  unfold moveTo clearDirtyOverlay
  refine (uses_progress _ _).bind fun _ => (uses_outside (only_perform hmove.1)).bind fun _ => ?_
  refine (uses_access hmove.2).bind fun _ => (uses_progress _ _).bind fun _ => ?_
  refine Uses.bind ?_ fun _ => (uses_progress _ _).bind fun _ => uses_pure _
  exact (uses_outside (only_perform hoverlay.1)).bind fun _ =>
    (uses_outside (only_perform hoverlay.2)).bind fun _ => uses_access rfl

theorem commitCollected_during (opts : CommitOptions) (manifest : Manifest) (keys : List Int64)
    {s : World × List ChunkEvent} (h : During P b.cache who.node id volume [] s₀ s) :
    (nodeMachine P who).wp (commitCollected P b id opts volume manifest keys).run
      (fun _ s' => During P b.cache who.node id volume [] s₀ s') s := by
  unfold commitCollected prepareSnapshot
  refine bind_during ?_ fun _ s₁ h₁ => wp_aside (uses_moveTo _ _ _ _ _) h₁
  refine bind_during (wp_aside (uses_progress _ _) h) fun _ s₁ h₁ => ?_
  refine bind_during (commitBatches_during _ _ _ _ _ _ _ h₁) fun _ s₂ h₂ => ?_
  exact bind_during (wp_aside (uses_recordSnapshot _ _ _ _) h₂) fun _ s₃ h₃ => h₃

end During

/-! ## Calls -/

/-- The session a call is made on. -/
def Request.session : Request → Option String
  | .read sessionID _ _ | .write sessionID _ _ | .commit sessionID _ | .stop sessionID => some sessionID
  | .createVolume _ _ _ | .startSession _ => none

/-- What a call leaves: the stock, and counters that count its fetches for its session. A session it
starts has counted nothing. -/
structure Served (c : LocalCache) (n : Nat) (request : Request) (w : World) (es : List ChunkEvent)
    (w' : World) (es' : List ChunkEvent) : Prop where
  stocked : Stocked c n w' es'
  apart : ManifestsApart w'
  onSession : ∀ id, request.session = some id →
    Counted (n, id) w es w' es' ∧ (w.sessions (n, id) = none → fetches es' = fetches es)
  onNone : request.session = none →
    fetches es' = fetches es ∧ ∀ r, w.sessions r ≠ none → w'.stats r = w.stats r
  sessions : ∀ r, w.sessions r ≠ none → w'.sessions r ≠ none
  started : ∀ r, w.sessions r = none → w'.sessions r ≠ none →
    request.session = none ∧ w'.stats r = ⟨0, 0, 0, 0⟩

section Calls

variable {P : Platform} {who : Caller} {b : Backend} {w : World} {es : List ChunkEvent}

theorem During.served {id : String} {volume : Volume} {chunks : List Bytes} {es' : List ChunkEvent}
    (hrequest : request.session = some id)
    (h : During P b.cache who.node id volume chunks (w, es) (w', es'))
    (hnone : w.sessions (who.node, id) = none → fetches es' = fetches es) :
    Served b.cache who.node request w es w' es' where
  stocked := h.stocked
  apart := h.apart
  onSession := by
    rintro id' hid'
    rw [hrequest] at hid'
    cases hid'
    exact ⟨h.counted, hnone⟩
  onNone := fun h => by rw [hrequest] at h; cases h
  sessions := by
    intro r hr hnone'
    have hmap := h.sessions r
    dsimp only at hmap
    rw [hnone', Option.map_none] at hmap
    exact hr (Option.map_eq_none_iff.mp hmap.symm)
  started := by
    intro r hr hsome
    have hmap := h.sessions r
    dsimp only at hmap
    rw [hr, Option.map_none] at hmap
    exact absurd (Option.map_eq_none_iff.mp hmap) hsome

theorem node_answer {x : M α} {reply : α → Reply} {Q : World × List ChunkEvent → Prop}
    {s : World × List ChunkEvent} (h : (nodeMachine P who).wp x.run (fun _ s' => Q s') s) :
    (nodeMachine P who).wp (answer x reply) (fun _ s' => Q s') s := by
  unfold answer
  rw [wp_bind]
  exact wp_mono h fun _ _ hs => hs

/-- A call that looks its session up and then keeps the invariant. -/
theorem sessionCall_served {id : String} {f : Volume → M α} (hrequest : request.session = some id)
    (hf : ∀ volume s, During P b.cache who.node id volume [] (w, es) s →
      (nodeMachine P who).wp (f volume).run
        (fun _ s' => During P b.cache who.node id volume [] (w, es) s') s) (hclosed : Closed P w)
    (hstocked : Stocked b.cache who.node w es) (hapart : ManifestsApart w) :
    (nodeMachine P who).wp (Backend.session id >>= f).run
      (fun _ s' => Served b.cache who.node request w es s'.1 s'.2) (w, es) := by
  have hstart : ∀ volume, (∀ session, w.sessions (who.node, id) = some session → session.volume = volume) →
      During P b.cache who.node id volume [] (w, es) (w, es) := fun volume hvolume =>
    ⟨hclosed, hstocked, hapart, .of_eq rfl rfl, fun _ => rfl, hvolume, by simp⟩
  have hlookup : ∀ volume, (exec P who .none w (.lookupSession id)).1 = some volume →
      ∃ session, w.sessions (who.node, id) = some session ∧ session.volume = volume := by
    intro volume hfound
    simp only [exec] at hfound
    split at hfound
    · exact Option.map_eq_some_iff.mp hfound
    · cases hfound
  unfold Backend.session
  rw [wp_run_bind, wp_run_bind]
  refine node_access fun _ => ?_
  rw [orElse_ok, show (Op.lookupSession id).chunkEvent = none from rfl, Option.toList_none,
    List.append_nil]
  cases hfound : (exec P who .none w (.lookupSession id)).1 with
  | none =>
    have hsame := hstart (((w.sessions (who.node, id)).map Session.volume).getD ⟨"", 0, 0, "", ""⟩)
      fun session hsession => by rw [hsession]; rfl
    exact hsame.served hrequest fun _ => rfl
  | some volume =>
    obtain ⟨session, hsession, rfl⟩ := hlookup volume hfound
    have hopen := hstart session.volume fun session' hsession' => by
      rw [hsession] at hsession'
      cases hsession'
      rfl
    show (nodeMachine P who).wp (f session.volume).run _ (w, es)
    refine wp_mono (hf session.volume (w, es) hopen) fun _ s' hs' => ?_
    exact hs'.served hrequest fun hnone => by rw [hsession] at hnone; cases hnone

theorem stop_served (id : String) (hclosed : Closed P w) (hstocked : Stocked b.cache who.node w es)
    (hapart : ManifestsApart w) :
    (nodeMachine P who).wp (Backend.stop id).run
      (fun _ s' => Served b.cache who.node (.stop id) w es s'.1 s'.2) (w, es) := by
  have haside : Op.Aside (.deleteSession id) ∧ Op.Aside (.removeAll id) := ⟨rfl, rfl⟩
  have huses : Uses Op.Aside (Backend.stop id) := by
    unfold Backend.stop
    refine (uses_access haside.1).bind fun ok => ?_
    split
    · exact uses_outside (only_perform haside.2)
    · exact uses_throw _
  refine wp_mono (node_aside huses hclosed) ?_
  rintro _ ⟨w', es'⟩ ⟨hframe, hclosed', rfl⟩
  have hstart : During P b.cache who.node id
      (((w.sessions (who.node, id)).map Session.volume).getD ⟨"", 0, 0, "", ""⟩) [] (w, es') (w, es') :=
    ⟨hclosed, hstocked, hapart, .of_eq rfl rfl, fun _ => rfl,
      fun session hsession => by rw [show w.sessions _ = some session from hsession]; rfl, by simp⟩
  exact (hstart.aside hclosed' hframe).served rfl fun _ => rfl

/-- The manifest a session starts from is read from a key of its own. -/
theorem latestManifest_aside (volume : Volume) (hclosed : Closed P w) (hapart : ManifestsApart w) :
    (nodeMachine P who).wp (latestManifest P volume).run
      (fun _ s => Aside who.node w s.1 ∧ Closed P s.1 ∧ s.2 = es) (w, es) := by
  unfold latestManifest
  split
  · unfold outside
    rw [wp_run_bind]
    refine node_perform fun hclosed₁ => ?_
    rw [show (Op.getSnapshot volume.latestSnapshotID).chunkEvent = none from rfl, Option.toList_none,
      List.append_nil]
    simp only [exec, Fault.on, execGet]
    cases hfound : w.snapshots volume.latestSnapshotID with
    | none => exact ⟨.refl _ w, hclosed, rfl⟩
    | some snapshot =>
      have haside : Op.Aside (.storeGet snapshot.manifestKey) := hapart _ snapshot hfound
      have huses : Uses Op.Aside (loadManifest P snapshot.manifestKey) := by
        unfold loadManifest
        refine (uses_outside (only_perform haside)).bind fun raw => ?_
        split
        · exact uses_throw _
        · exact uses_ofResult _
      exact node_aside huses hclosed
  · exact ⟨.refl _ w, hclosed, rfl⟩

/-- A session is added to those there are. -/
theorem Served.addSession {w₁ w₂ : World} {id volumeID : String} {session : Session}
    (h : Served b.cache who.node (.startSession volumeID) w es w₁ es)
    (hnew : w₁.sessions (who.node, id) = none)
    (hframe : Aside who.node (exec P who .none w₁ (.addSession id session)).2 w₂) :
    Served b.cache who.node (.startSession volumeID) w es w₂ es := by
  have hsame : ∀ r, r ≠ (who.node, id) →
      (w₂.sessions r = none ↔ w₁.sessions r = none) ∧ w₂.stats r = w₁.stats r := by
    intro r hr
    constructor
    · rw [← Option.map_eq_none_iff (f := Session.volume), hframe.sessions r, Option.map_eq_none_iff]
      show update w₁.sessions _ _ r = none ↔ _
      rw [update_of_ne hr]
    · rw [hframe.stats]
      exact update_of_ne hr _ _
  refine ⟨?_, hframe.apart h.apart, fun id hid => (by cases hid), fun _ => ⟨rfl, fun r hr => ?_⟩,
    fun r hr => ?_, fun r hr hsome => ⟨rfl, ?_⟩⟩
  · exact h.stocked.congr (fun path => by rw [hframe.files]; rfl) hframe.objects
  · have hne : r ≠ (who.node, id) := fun heq => h.sessions r hr (heq ▸ hnew)
    exact (hsame r hne).2.trans ((h.onNone rfl).2 r hr)
  · have hne : r ≠ (who.node, id) := fun heq => h.sessions r hr (heq ▸ hnew)
    exact mt (hsame r hne).1.mp (h.sessions r hr)
  · by_cases hne : r = (who.node, id)
    · rw [hne, hframe.stats]
      exact update_self ..
    · rw [(hsame r hne).2]
      exact (h.started r hr (mt (hsame r hne).1.mpr hsome)).2

theorem startSession_served (volumeID : String) (hclosed : Closed P w)
    (hstocked : Stocked b.cache who.node w es) (hapart : ManifestsApart w) :
    (nodeMachine P who).wp (b.startSession P volumeID).run
      (fun _ s' => Served b.cache who.node (.startSession volumeID) w es s'.1 s'.2) (w, es) := by
  -- before the session is added, and where the call fails first
  have hearly : ∀ {w' : World}, Aside who.node w w' →
      Served b.cache who.node (.startSession volumeID) w es w' es := by
    intro w' hframe
    have hmap : ∀ r, w'.sessions r = none ↔ w.sessions r = none := by
      intro r
      rw [← Option.map_eq_none_iff (f := Session.volume), hframe.sessions r, Option.map_eq_none_iff]
    exact ⟨hstocked.congr (fun path => by rw [hframe.files]) hframe.objects, hframe.apart hapart,
      fun id hid => (by cases hid), fun _ => ⟨rfl, fun r _ => by rw [hframe.stats]⟩,
      fun r hr => mt (hmap r).mp hr, fun r hr hsome => absurd ((hmap r).mpr hr) hsome⟩
  unfold Backend.startSession
  rw [wp_run_bind]
  have hvolume : Op.Aside (.getVolume volumeID) := rfl
  refine wp_mono (node_aside (uses_outside (only_perform hvolume)) hclosed) ?_
  rintro (e | volume) ⟨w₁, es₁⟩ ⟨hframe₁, hclosed₁, rfl⟩
  · exact hearly hframe₁
  rw [orElse_ok]
  refine wp_run_seq (latestManifest_aside volume hclosed₁ (hframe₁.apart hapart)) ?_
  rintro (e | manifest) ⟨w₂, es₂⟩ ⟨hframe₂, hclosed₂, rfl⟩
  · exact hearly (hframe₁.trans hframe₂)
  rw [orElse_ok, wp_run_bind]
  refine node_access fun hclosed₃ => ?_
  rw [orElse_ok, show Op.newString.chunkEvent = none from rfl, Option.toList_none,
    List.append_nil, wp_run_bind]
  -- the id is new
  have hnew : w₂.sessions (who.node, P.uuid w₂.uuids) = none :=
    (hclosed₂.fresh w₂.uuids (le_refl _)).2.2 who.node
  have hstring : Op.Aside .newString := rfl
  have hmkdir : Op.Aside (.mkdirAll (P.uuid w₂.uuids)) := rfl
  show (nodeMachine P who).wp (outside (perform (.mkdirAll (P.uuid w₂.uuids)))).run _ _
  refine wp_mono (node_aside (uses_outside (only_perform hmkdir)) hclosed₃) ?_
  rintro r ⟨w₄, es₄⟩ ⟨hframe₄, hclosed₄, rfl⟩
  have hframe : Aside who.node w₂ w₄ := (exec_aside hstring w₂).trans hframe₄
  have hbefore : Aside who.node w w₄ := (hframe₁.trans hframe₂).trans hframe
  have hnew₄ : w₄.sessions (who.node, P.uuid w₂.uuids) = none := by
    have hmap := hframe.sessions (who.node, P.uuid w₂.uuids)
    rw [hnew, Option.map_none] at hmap
    exact Option.map_eq_none_iff.mp hmap
  obtain e | _ := r
  · exact hearly hbefore
  rw [orElse_ok, wp_run_bind]
  refine node_access fun hclosed₅ => ?_
  simp only [orElse_ok, Op.chunkEvent, Option.toList_none, List.append_nil]
  have hlast : Op.Aside (.updateLastNode volumeID b.nodeID) ∧
      Op.Aside (.deleteSession (P.uuid w₂.uuids)) ∧ Op.Aside (.removeAll (P.uuid w₂.uuids)) :=
    ⟨rfl, rfl, rfl⟩
  refine wp_mono (node_aside ?_ hclosed₅) ?_
  · refine Uses.bind (uses_attempt (only_perform hlast.1)) fun updated => ?_
    split
    · exact uses_pure _
    · refine (uses_access hlast.2.1).bind fun _ => ?_
      exact (uses_attempt (only_perform hlast.2.2)).bind fun _ => uses_throw _
  · rintro _ ⟨w₆, es₆⟩ ⟨hframe₆, hclosed₆, rfl⟩
    exact (hearly hbefore).addSession hnew₄ hframe₆

/-- The calls of a node on its sessions. -/
def Request.OnSessions : Request → Prop
  | .createVolume _ _ _ => False
  | _ => True

/-- **One call.** -/
theorem request_served (hrequest : request.OnSessions) (hclosed : Closed P w)
    (hstocked : Stocked b.cache who.node w es) (hapart : ManifestsApart w) :
    (nodeMachine P who).wp (request.prog P b)
      (fun _ s' => Served b.cache who.node request w es s'.1 s'.2) (w, es) := by
  cases request with
  | createVolume id sizeBytes chunkSize => exact hrequest.elim
  | startSession volumeID => exact node_answer (startSession_served volumeID hclosed hstocked hapart)
  | stop id => exact node_answer (stop_served id hclosed hstocked hapart)
  | read id offset length =>
    refine node_answer (sessionCall_served rfl (fun volume s h => ?_) hclosed hstocked hapart)
    split
    · exact h
    · cases chunkIndexes offset length volume.chunkSize with
      | error e => exact h
      | ok ranges => exact readRanges_during ranges _ _ h
  | write id offset data =>
    refine node_answer (sessionCall_served rfl (fun volume s h => ?_) hclosed hstocked hapart)
    dsimp only
    split
    · exact h
    · cases chunkIndexes offset (Int64.ofNat data.1.length) volume.chunkSize with
      | error e => exact h
      | ok ranges => exact writeRanges_during data.1 ranges _ h
  | commit id opts =>
    refine node_answer (sessionCall_served rfl (fun volume s h => ?_) hclosed hstocked hapart)
    have haside : Op.Aside (.baseManifest id) ∧ Op.Aside (.dirtyIndexes id) := ⟨rfl, rfl⟩
    refine bind_during (wp_aside (uses_access haside.1) h) fun manifest s₁ h₁ => ?_
    refine bind_during (wp_aside (uses_access haside.2) h₁) fun keys s₂ h₂ => ?_
    exact commitCollected_during opts manifest keys h₂

/-- Every state of a call is closed. -/
theorem request_runs (hrequest : request.OnSessions) (hclosed : Closed P w) {tr : List (Op × Fault)}
    {reply : Reply} (hrun : (machine P (unfailing P) who).Runs (request.prog P b) w tr reply w') :
    Closed P w' ∧ ∀ es, (nodeMachine P who).Runs (request.prog P b) (w, es) tr reply
      (w', es ++ (tr.map Prod.fst).filterMap Op.chunkEvent) := by
  have hfree : ∀ f w o, unfailing P f w o → CollisionFree P w o := fun f w o h => h.2
  have hanswer : ∀ {α : Type} {x : M α} {reply : α → Reply} {Q : Except Err α → World → Prop},
      Safe P who (unfailing P) x.run Q w → Safe P who (unfailing P) (answer x reply) (fun _ _ => True) w :=
    fun h => WpRG.bind_iff.mpr (h.mono fun _ _ _ => trivial)
  have hsafe : Safe P who (unfailing P) (request.prog P b) (fun _ _ => True) w := by
    cases request with
    | createVolume id sizeBytes chunkSize => exact hrequest.elim
    | startSession volumeID => exact hanswer (startSession_safe b volumeID w)
    | read id offset length => exact hanswer (read_safe b id offset length w)
    | write id offset data => exact hanswer (write_safe b id offset data.1 w)
    | commit id opts => exact hanswer (commitWithOptions_safe hfree b id opts w)
    | stop id => exact hanswer (stop_safe id w)
  have hrely : ∀ w, Rely P who w w := fun w => .refl P _ w
  have hwithin := hsafe.runs_within hrely hclosed hrun
  have hexec : ((machine P faultFree who).within (Closed P)).exec =
      ((machine P (unfailing P) who).within (Closed P)).exec := rfl
  have hquiet := hwithin.mono hexec fun e _ s hallowed => ⟨hallowed.1.1, hallowed.2⟩
  exact ⟨(hrun.wp (hsafe.wp hrely hclosed)).1, hquiet.watched⟩

end Calls

/-! ## Runs -/

/-- Calls of one node, one after the other and without faults. Each is logged with the operations it
performed. -/
def nodeRun (P : Platform) (b : Backend) (n : Nat) :
    World → List (Nat × Request) → List (Request × List Op) × World
  | w, [] => ([], w)
  | w, (slot, request) :: calls =>
    let M := machine P faultFree ⟨n, slot⟩
    let rest := nodeRun P b n (M.run (fun _ => .none) (request.prog P b) w).2 calls
    ((request, (M.trace (fun _ => .none) (request.prog P b) w).map Prod.fst) :: rest.1, rest.2)

/-- The chunks fetched and committed in a run. -/
def events (log : List (Request × List Op)) : List ChunkEvent :=
  log.flatMap fun call => call.2.filterMap Op.chunkEvent

/-- The fetches made for a session: those of the calls on it. -/
def fetchesFor (id : String) (log : List (Request × List Op)) : Nat :=
  fetches (events (log.filter fun call => call.1.session = some id))

/-- The counters of a session; one that does not exist yet has counted nothing. -/
def World.statsAt (w : World) (r : SessRef) : SessionStats :=
  if (w.sessions r).isSome then w.stats r else ⟨0, 0, 0, 0⟩

section Runs

variable {P : Platform} {b : Backend} {w : World} {es new : List ChunkEvent}

/-- A call adds its fetches to the counters of its session. -/
theorem Served.statsAt (h : Served b.cache n request w es w' (es ++ new)) (id : String) :
    let k := if request.session = some id then fetches new else 0
    (w'.statsAt (n, id)).cacheMisses = (w.statsAt (n, id)).cacheMisses + k ∧
      (w'.statsAt (n, id)).remoteFetches = (w.statsAt (n, id)).remoteFetches + k := by
  intro k
  have hsessions := h.sessions (n, id)
  have hstarted := h.started (n, id)
  unfold World.statsAt
  by_cases hold : w.sessions (n, id) = none
  · -- no call is made on a session before it exists
    have hk : k = 0 := by
      by_cases hid : request.session = some id
      · have := (h.onSession id hid).2 hold
        rw [fetches_append] at this
        simp only [k, if_pos hid]
        omega
      · exact if_neg hid
    have hzero : (if (w'.sessions (n, id)).isSome then w'.stats (n, id) else ⟨0, 0, 0, 0⟩) =
        (⟨0, 0, 0, 0⟩ : SessionStats) := by
      split
      · rename_i hsome
        exact (hstarted hold (Option.isSome_iff_ne_none.mp hsome)).2
      · rfl
    rw [hzero, hold, hk]
    exact ⟨rfl, rfl⟩
  · rw [if_pos (Option.isSome_iff_ne_none.mpr (hsessions hold)), if_pos (Option.isSome_iff_ne_none.mpr hold)]
    cases hrequest : request.session with
    | none =>
      rw [(h.onNone hrequest).2 _ hold]
      simp [k, hrequest]
    | some id' =>
      obtain ⟨hcounted, -⟩ := h.onSession id' hrequest
      by_cases hid : id' = id
      · subst hid
        have hmisses := hcounted.misses
        have hremote := hcounted.remote
        rw [fetches_append] at hmisses hremote
        simp only [k, hrequest, if_true]
        omega
      · rw [hcounted.others (n, id) (by simpa using fun h => hid h.symm)]
        simp [k, hrequest, hid]

/-- A call without faults that hashes no two chunks to one hash. -/
theorem nodeRun_runs {slot : Nat}
    (h : NoCollision P ((machine P faultFree ⟨n, slot⟩).run (fun _ => .none) (request.prog P b) w).2.hashed) :
    NoCollision P w.hashed ∧ (machine P (unfailing P) ⟨n, slot⟩).Runs (request.prog P b) w
      ((machine P faultFree ⟨n, slot⟩).trace (fun _ => .none) (request.prog P b) w)
      ((machine P faultFree ⟨n, slot⟩).run (fun _ => .none) (request.prog P b) w).1
      ((machine P faultFree ⟨n, slot⟩).run (fun _ => .none) (request.prog P b) w).2 := by
  have hexec : (machine P (unfailing P) ⟨n, slot⟩).exec = (machine P faultFree ⟨n, slot⟩).exec := rfl
  exact runs_run_of_final (K := fun w => NoCollision P w.hashed) hexec
    (fun w o h => (collisionFree_of_noCollision .none w o h).imp_right fun hfree => ⟨rfl, hfree⟩) _ w h

theorem nodeRun_noCollision (calls : List (Nat × Request))
    (h : NoCollision P (nodeRun P b n w calls).2.hashed) : NoCollision P w.hashed := by
  induction calls generalizing w with
  | nil => exact h
  | cons call calls ih => exact (nodeRun_runs (ih h)).1

/-- **What a run of calls keeps.** -/
theorem nodeRun_invariant (calls : List (Nat × Request)) (hcalls : ∀ call ∈ calls, call.2.OnSessions)
    (hclosed : Closed P w) (hstocked : Stocked b.cache n w es) (hapart : ManifestsApart w)
    (hcollision : NoCollision P (nodeRun P b n w calls).2.hashed) :
    Closed P (nodeRun P b n w calls).2 ∧ ManifestsApart (nodeRun P b n w calls).2 ∧
      Stocked b.cache n (nodeRun P b n w calls).2 (es ++ events (nodeRun P b n w calls).1) ∧
      ∀ id, ((nodeRun P b n w calls).2.statsAt (n, id)).cacheMisses =
          (w.statsAt (n, id)).cacheMisses + fetchesFor id (nodeRun P b n w calls).1 ∧
        ((nodeRun P b n w calls).2.statsAt (n, id)).remoteFetches =
          (w.statsAt (n, id)).remoteFetches + fetchesFor id (nodeRun P b n w calls).1 := by
  induction calls generalizing w es with
  | nil => exact ⟨hclosed, hapart, by simpa [nodeRun, events] using hstocked, fun id => ⟨rfl, rfl⟩⟩
  | cons call calls ih =>
    obtain ⟨slot, request⟩ := call
    let M := machine P faultFree ⟨n, slot⟩
    let ops := (M.trace (fun _ => .none) (request.prog P b) w).map Prod.fst
    let w₁ := (M.run (fun _ => .none) (request.prog P b) w).2
    have hrun : nodeRun P b n w ((slot, request) :: calls) =
      ((request, ops) :: (nodeRun P b n w₁ calls).1, (nodeRun P b n w₁ calls).2) := rfl
    rw [hrun] at hcollision ⊢
    dsimp only at hcollision ⊢
    have hrequest : request.OnSessions := hcalls _ (List.mem_cons_self ..)
    obtain ⟨hclosed₁, hwatched⟩ := request_runs hrequest hclosed
      (nodeRun_runs (nodeRun_noCollision calls hcollision)).2
    have hserved : Served b.cache n request w es w₁ (es ++ ops.filterMap Op.chunkEvent) :=
      (hwatched es).wp (request_served hrequest hclosed hstocked hapart)
    obtain ⟨hclosed', hapart', hstocked', hcounters⟩ :=
      ih (fun call hcall => hcalls call (List.mem_cons_of_mem _ hcall)) hclosed₁ hserved.stocked hserved.apart hcollision
    refine ⟨hclosed', hapart', ?_, fun id => ?_⟩
    · rwa [events, List.flatMap_cons, ← List.append_assoc]
    · obtain ⟨hmisses, hremote⟩ := hserved.statsAt id
      have hsplit : fetchesFor id ((request, ops) :: (nodeRun P b n w₁ calls).1) =
          (if request.session = some id then fetches (ops.filterMap Op.chunkEvent) else 0) +
            fetchesFor id (nodeRun P b n w₁ calls).1 := by
        unfold fetchesFor events
        rw [List.filter_cons]
        split
        · rename_i hid
          rw [if_pos (by simpa using hid), List.flatMap_cons, fetches_append]
        · rename_i hid
          rw [if_neg (by simpa using hid), Nat.zero_add]
      rw [hsplit, (hcounters id).1, (hcounters id).2, hmisses, hremote]
      exact ⟨Nat.add_assoc .., Nat.add_assoc ..⟩

end Runs

/-! ## One resolution -/

/-- What one resolution of a clean chunk adds to the counters of its session: for a chunk of the base
one hit or one miss, for a hole one zero fill and nothing else. -/
def CountsOnce (r : SessRef) (mapped : Bool) (w w' : World) : Prop :=
  (∀ r', r' ≠ r → w'.stats r' = w.stats r') ∧
    if mapped then
      ((w'.stats r).cacheHits = (w.stats r).cacheHits + 1 ∧
        (w'.stats r).cacheMisses = (w.stats r).cacheMisses) ∨
      ((w'.stats r).cacheHits = (w.stats r).cacheHits ∧
        (w'.stats r).cacheMisses = (w.stats r).cacheMisses + 1)
    else w'.stats r = (w.stats r).bump .zeroFills

section Resolution

variable {P : Platform} {who : Caller} {b : Backend} {id : String} {volume : Volume} {w : World}

/-- A fetch that succeeds or not counts one miss. -/
theorem fetchChunk_counts (chunkID : String) (w : World) :
    (machine P faultFree who).wp (fetchChunk P b id volume chunkID).run
      (fun _ w' => (∀ r, r ≠ (who.node, id) → w'.stats r = w.stats r) ∧
        (w'.stats (who.node, id)).cacheHits = (w.stats (who.node, id)).cacheHits ∧
        (w'.stats (who.node, id)).cacheMisses = (w.stats (who.node, id)).cacheMisses + 1) w := by
  let w₁ := (exec P who .none w (.count id .cacheMisses)).2
  have hstats : ∀ counter, counter = .zeroFills ∨ counter = .remoteFetches → ∀ w' : World,
      w'.stats = (exec P who .none w₁ (.count id counter)).2.stats →
      (∀ r, r ≠ (who.node, id) → w'.stats r = w.stats r) ∧
        (w'.stats (who.node, id)).cacheHits = (w.stats (who.node, id)).cacheHits ∧
        (w'.stats (who.node, id)).cacheMisses = (w.stats (who.node, id)).cacheMisses + 1 := by
    intro counter hcounter w' hw'
    rw [hw']
    refine ⟨fun r hr => ?_, ?_⟩
    · simp [exec, w₁, update_of_ne hr]
    · rcases hcounter with rfl | rfl
      · simp [exec, w₁, SessionStats.bump]
      · simp [exec, w₁, SessionStats.bump]
  unfold fetchChunk
  rw [wp_run_bind]
  refine quiet_access ?_
  rw [orElse_ok, wp_run_bind]
  refine wp_attempt (quiet_perform ?_)
  show Machine.orElse _ _ (.ok (execGet w₁ (w.objects (chunkKey chunkID))).1)
    (execGet w₁ (w.objects (chunkKey chunkID))).2
  rw [orElse_ok]
  cases w.objects (chunkKey chunkID) with
  | none =>
    rw [execGet, wp_run_bind]
    exact quiet_access (hstats .zeroFills (Or.inl rfl) _ rfl)
  | some data =>
    rw [execGet, wp_run_bind]
    refine quiet_access ?_
    have hcounted := hstats .remoteFetches (Or.inr rfl)
    rw [orElse_ok, wp_run_bind]
    cases normalizeChunk data volume.chunkSize with
    | error e => exact hcounted _ rfl
    | ok remote =>
      show (machine P faultFree who).wp (b.cache.put P chunkID remote >>= fun _ =>
        pure (some remote) : M _).run _ _
      refine wp_run_seq (frame_onCache (uses_put_onCache chunkID remote) _) ?_
      rintro (e | u) w₃ hframe
      · exact hcounted w₃ hframe.sessionsKept.2.1
      · exact hcounted w₃ hframe.sessionsKept.2.1

theorem resolveWith_counts {dirtyPart : M Bytes} {cachedPart : String → M (Option Bytes)}
    {hit : Bytes → M Bytes} {part : Bytes → Bytes} {zeroes : Bytes} {session : Session}
    (hsession : w.sessions (who.node, id) = some session) (hclean : session.dirty.lookup index = none)
    (huses : ∀ chunkID, Uses (fun o : Op => o.OnCache = true) (cachedPart chunkID))
    (hcached : ∀ chunkID, (machine P faultFree who).wp (cachedPart chunkID).run
      (fun r _ => ∃ found, r = .ok found) w)
    (hhit : ∀ cached, Uses (fun o : Op => o.OnCache = true) (hit cached)) :
    (machine P faultFree who).wp
      (resolveWith P b id volume index dirtyPart cachedPart hit part zeroes).run
      (fun _ w' => CountsOnce (who.node, id) (session.baseManifest.lookup index).isSome w w') w := by
  have hdirty : (exec P who .none w (.isDirty id index)).1 = false := by
    simp [exec, hsession, hclean]
  have hbase : (exec P who .none w (.baseChunk id index)).1 = session.baseManifest.lookup index := by
    simp [exec, hsession]
  have hread : (exec P who .none w (.isDirty id index)).2 = w := rfl
  unfold resolveWith
  rw [wp_run_bind]
  refine quiet_access ?_
  rw [orElse_ok, hdirty, hread, if_neg (by simp), wp_run_bind]
  refine quiet_access ?_
  rw [orElse_ok, hbase]
  cases session.baseManifest.lookup index with
  | none =>
    dsimp only
    rw [wp_run_bind]
    refine quiet_access ⟨fun r hr => update_of_ne hr _ _, ?_⟩
    exact update_self ..
  | some chunkID =>
    dsimp only
    refine wp_run_seq (wp_and (hcached chunkID) (frame_onCache (huses chunkID) w)) ?_
    rintro _ w₁ ⟨⟨found, rfl⟩, hframe⟩
    have hstats : w₁.stats = w.stats := hframe.sessionsKept.2.1
    rw [orElse_ok]
    cases found with
    | some cached =>
      dsimp only
      rw [wp_run_bind]
      refine quiet_access ?_
      rw [orElse_ok]
      refine wp_mono (frame_onCache (hhit cached) _) fun _ w₃ hframe₃ => ?_
      rw [CountsOnce, hframe₃.sessionsKept.2.1]
      refine ⟨fun r hr => ?_, Or.inl ?_⟩
      · simp [exec, hstats, update_of_ne hr]
      · simp [exec, hstats, SessionStats.bump]
    | none =>
      dsimp only
      refine wp_run_seq (fetchChunk_counts chunkID w₁) ?_
      rintro r w₂ ⟨hothers, hhits, hmisses⟩
      rw [hstats] at hothers hhits hmisses
      have hcounts : CountsOnce (who.node, id) true w w₂ := ⟨hothers, Or.inr ⟨hhits, hmisses⟩⟩
      obtain e | _ | remote := r
      · exact hcounts
      · exact hcounts
      · exact hcounts

theorem resolveChunk_counts {session : Session} (hsession : w.sessions (who.node, id) = some session)
    (hclean : session.dirty.lookup index = none) :
    (machine P faultFree who).wp (resolveChunk P b id volume index).run
      (fun _ w' => CountsOnce (who.node, id) (session.baseManifest.lookup index).isSome w w') w :=
  resolveWith_counts hsession hclean (fun chunkID => uses_get_onCache chunkID)
    (fun _ => wp_mono (get_quiet w) fun _ _ h => h.2) fun _ => uses_ofResult _

theorem resolveChunkRange_counts {offset length : Int64} {session : Session}
    (hsession : w.sessions (who.node, id) = some session) (hclean : session.dirty.lookup index = none)
    (hoffset : 0 ≤ offset.toInt) (hstop : offset.toInt + length.toInt < 2 ^ 63) :
    (machine P faultFree who).wp (resolveChunkRange P b id volume index offset length).run
      (fun _ w' => CountsOnce (who.node, id) (session.baseManifest.lookup index).isSome w w') w :=
  resolveWith_counts hsession hclean (fun chunkID => uses_getRange_onCache chunkID offset length)
    (fun _ => wp_mono (getRange_quiet w) fun _ _ h => h.2 hoffset hstop) fun _ => uses_pure _

end Resolution

/-! ## The result -/

/-- The resolutions of a chunk: `resolveChunk`, and `resolveChunkRange` of a range a chunk can have. -/
inductive Resolves (P : Platform) (b : Backend) (id : String) (volume : Volume) (index : Int64) :
    M Bytes → Prop
  | chunk : Resolves P b id volume index (resolveChunk P b id volume index)
  | range {offset length : Int64} (hoffset : 0 ≤ offset.toInt)
      (hstop : offset.toInt + length.toInt < 2 ^ 63) :
      Resolves P b id volume index (resolveChunkRange P b id volume index offset length)

/-- **A node fetches each chunk at most once while it fits.** For any calls on the sessions of a node
whose cache has no file yet: if the chunks it fetches and commits are together no larger than the
cache, it fetches none twice and none after committing it, and each session's misses and fetches are
the fetches made for it. The last part, one count for each resolution, holds in whatever state a
resolution begins. -/
theorem fetches_once {P : Platform} {b : Backend} {n : Nat} {w : World} {calls : List (Nat × Request)}
    (hclosed : Closed P w) (hapart : ManifestsApart w) (hempty : (w.caches n).files = ∅)
    (hcalls : ∀ call ∈ calls, call.2.OnSessions)
    (hcollision : NoCollision P (nodeRun P b n w calls).2.hashed)
    (hfits : (totalSize (nodeRun P b n w calls).2 (events (nodeRun P b n w calls).1) : Int) ≤
      b.cache.maxSize.toInt) :
    let log := (nodeRun P b n w calls).1
    let w' := (nodeRun P b n w calls).2
    (∀ id, (events log).count (.fetch id) ≤ 1) ∧
      (∀ before id after, events log = before ++ .commit id :: after → ChunkEvent.fetch id ∉ after) ∧
      (∀ id, w'.sessions (n, id) ≠ none →
        (w'.stats (n, id)).cacheMisses = (w.statsAt (n, id)).cacheMisses + fetchesFor id log ∧
        (w'.stats (n, id)).remoteFetches = (w.statsAt (n, id)).remoteFetches + fetchesFor id log) ∧
      ∀ (slot : Nat) (u u' : World) (id : String) (volume : Volume) (index : Int64) (session : Session)
        (x : M Bytes) (tr : List (Op × Fault)) (r : Except Err Bytes),
        Resolves P b id volume index x → u.sessions (n, id) = some session →
        session.dirty.lookup index = none →
        (machine P faultFree ⟨n, slot⟩).Runs x.run u tr r u' →
        CountsOnce (n, id) (session.baseManifest.lookup index).isSome u u' := by
  intro log w'
  obtain ⟨-, -, hstocked, hcounters⟩ :=
    nodeRun_invariant calls hcalls hclosed (stocked_empty hempty) hapart hcollision
  rw [List.nil_append] at hstocked
  have hnew : FetchesNew (events log) := (hstocked hfits).new
  refine ⟨hnew.count_le, fun before id after => hnew.after_commit, fun id hid => ?_, ?_⟩
  · have hsome : w'.statsAt (n, id) = w'.stats (n, id) := if_pos (Option.isSome_iff_ne_none.mpr hid)
    rw [← hsome]
    exact hcounters id
  · intro slot u u' id volume index session x tr r hx hsession hclean hrun
    let who : Caller := ⟨n, slot⟩
    have hsession' : u.sessions (who.node, id) = some session := hsession
    cases hx with
    | chunk => exact hrun.wp (resolveChunk_counts hsession' hclean)
    | range hoffset hstop =>
      exact hrun.wp (resolveChunkRange_counts hsession' hclean hoffset hstop)

/-- A volume of two chunks, not written yet. -/
def oneVolume : World :=
  { World.initial with volumes := fun id => if id = "v" then some ⟨"v", 4, 2, "", ""⟩ else none }

/-- A node writes the first chunk and commits it. -/
def writeAndCommit : List (Nat × Request) :=
  [(0, .startSession "v"), (0, .write (goRuntime.uuid 0) 0 ⟨[1, 2], by decide⟩),
    (0, .commit (goRuntime.uuid 0) ⟨0, false⟩)]

def oneCommitted : World := (nodeRun goRuntime plainNode 0 oneVolume writeAndCommit).2

/-- Another node reads the volume twice. -/
def readTwice : List (Nat × Request) :=
  [(0, .startSession "v"), (0, .read (goRuntime.uuid 2) 0 4), (0, .read (goRuntime.uuid 2) 0 4)]

theorem closed_oneVolume : Closed goRuntime oneVolume where
  noCollision := by rintro _ ⟨⟩
  objects := by rintro _ _ ⟨⟩
  volumes := by
    intro id v hv
    obtain ⟨rfl, hv⟩ := Option.ite_none_right_eq_some.mp hv
    cases hv
    exact ⟨rfl, by decide, by decide, by decide⟩
  snapshots := by rintro _ _ ⟨⟩
  latest := by
    intro id v hv hlatest
    obtain ⟨rfl, hv⟩ := Option.ite_none_right_eq_some.mp hv
    cases hv
    exact absurd rfl hlatest
  images := by rintro _ _ ⟨⟩
  sessions := by rintro _ _ ⟨⟩
  caches := fun n => (closed_initial.caches n).congr rfl rfl
  fresh := fun _ _ => ⟨rfl, rfl, fun _ => rfl⟩

theorem closed_oneCommitted
    (hcollision : NoCollision goRuntime (nodeRun goRuntime plainNode 0 oneVolume writeAndCommit).2.hashed) :
    Closed goRuntime oneCommitted ∧ ManifestsApart oneCommitted := by
  have hapart : ManifestsApart oneVolume := fun id s hs => by cases hs
  have hcalls : ∀ call ∈ writeAndCommit, call.2.OnSessions := by
    simp [writeAndCommit, Request.OnSessions]
  have hempty : (oneVolume.caches 0).files = ∅ := rfl
  have hrun := nodeRun_invariant writeAndCommit hcalls closed_oneVolume (stocked_empty hempty) hapart
    hcollision
  exact ⟨hrun.1, hrun.2.1⟩

/-- The other node fetches the chunk once. -/
theorem fetches_once_readTwice :
    events (nodeRun goRuntime plainNode 1 oneCommitted readTwice).1 = [.fetch (goRuntime.hash [1, 2])] ∧
      (nodeRun goRuntime plainNode 1 oneCommitted readTwice).2.stats (1, goRuntime.uuid 2) = ⟨1, 1, 1, 2⟩ ∧
      ∀ id, (events (nodeRun goRuntime plainNode 1 oneCommitted readTwice).1).count (.fetch id) ≤ 1 := by
  have hrun : (fun run : List (Request × List Op) × World =>
      (events run.1, run.2.stats (1, goRuntime.uuid 2), run.2.hashed,
        objectSize run.2 (goRuntime.hash [1, 2]), (oneCommitted.caches 1).files.entries.length))
      (nodeRun goRuntime plainNode 1 oneCommitted readTwice) =
        ([.fetch (goRuntime.hash [1, 2])], ⟨1, 1, 1, 2⟩, [[1, 2]], 2, 0) := by
    decide +kernel
  simp only [Prod.mk.injEq] at hrun
  obtain ⟨hevents, hstats, hhashed, hsize, hfiles⟩ := hrun
  have hcalls : ∀ call ∈ readTwice, call.2.OnSessions := by
    simp [readTwice, Request.OnSessions]
  have hcollision : NoCollision goRuntime
      (nodeRun goRuntime plainNode 1 oneCommitted readTwice).2.hashed := by
    rw [hhashed]
    rintro c hc c' hc' -
    rw [List.mem_singleton.mp hc, List.mem_singleton.mp hc']
  have hbefore : NoCollision goRuntime oneCommitted.hashed := nodeRun_noCollision readTwice hcollision
  rw [oneCommitted] at hbefore
  obtain ⟨hclosed, hapart⟩ := closed_oneCommitted hbefore
  have hempty : (oneCommitted.caches 1).files = ∅ :=
    AList.ext (List.length_eq_zero_iff.mp hfiles)
  have hresult := fetches_once hclosed hapart hempty hcalls hcollision (by
    rw [hevents]
    simp only [totalSize, names, List.map_cons, List.map_nil, ChunkEvent.id, List.toFinset_cons,
      List.toFinset_nil, insert_empty_eq, Finset.sum_singleton, hsize]
    decide)
  exact ⟨hevents, hstats, hresult.1⟩

end OrcaBlocks.Storage
