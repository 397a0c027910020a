/-
# OrcaBlocks.Storage.FileTree — the cache on a file system with directories.

The engine names its cache files by hashes, and for these the files alone matter. A cache as such is
given ARBITRARY ids: `filepath.Join` may lead them to a directory, below a regular file, out of the
cache directory, or to a path the file system refuses. `treeMachine` is the storage engine's machine,
without faults, with what the calls answer then: opening a directory succeeds and reading it fails,
except that `ReadAt` of no bytes reads nothing; `Rename` needs an existing directory and does not
replace one; `CreateTemp` picks a name that is not there (its LABEL is the name picked).

Run on it, the functions of the cache compute pure functions of the node's `Disk`: its files, its
memory tier and the clock. `cacheServe_refines` says so for each call, `cacheServeAll_refines` for
each sequence; which names `CreateTemp` picks makes no difference.
-/
import OrcaBlocks.Storage.CacheOps

namespace OrcaBlocks.Storage

open OrcaBlocks.Lib

variable {files : AList fun _ : Path => CacheFile} {path : Path} {file : CacheFile}

/-! ## Directories -/

/-- What stays as it is while a cache runs: which paths are directories, and which the file system
takes at all (no NUL byte, no name that is too long). -/
structure FileTree where
  isDir : Path → Bool
  accepts : Path → Bool

/-- What a path leads to. -/
inductive Found where
  | directory
  | file (file : CacheFile)
  | missing
  | refused
  deriving DecidableEq, Repr

/-- A proper ancestor of the path is a regular file. -/
def blocked (files : AList fun _ : Path => CacheFile) (path : Path) : Bool :=
  (List.range path.length).any fun n => (files.lookup (path.take n)).isSome

/-- What `open` finds. -/
def FileTree.find (t : FileTree) (files : AList fun _ : Path => CacheFile) (path : Path) : Found :=
  if t.accepts path && !blocked files path then
    if t.isDir path then .directory
    else
      match files.lookup path with
      | some file => .file file
      | none => .missing
  else .refused

theorem find_eq_file {t : FileTree} (h : t.find files path = .file file) :
    files.lookup path = some file := by
  unfold FileTree.find at h
  split at h
  · split at h
    · cases h
    · split at h
      · rename_i hfile
        cases h
        exact hfile
      · cases h
  · cases h

/-- A file may be renamed to the path. -/
def FileTree.takes (t : FileTree) (path : Path) : Bool :=
  t.accepts path && path ≠ [] && t.isDir path.dropLast && !t.isDir path

/-- A file system with one directory, for the cache. -/
def cacheOnly : FileTree := ⟨fun path => path = [] ∨ path = ["cache"], fun _ => true⟩

/-! ## The machine -/

section Exec

variable (P : Platform) (t : FileTree) (who : Caller)

/-- `os.ReadFile`. -/
def Found.readFile : Found → Except Err Bytes
  | .file f => .ok f.data
  | .missing => .error .notExist
  | .directory | .refused => .error .io

/-- `os.Open` and `file.ReadAt`: the loop of `ReadAt` asks the file system only while there are bytes
to read. -/
def Found.readFileAt (offset length : Int64) : Found → Except Err Bytes
  | .file f => readAtBytes f.data offset length
  | .directory => if 0 ≤ offset ∧ length ≤ 0 then .ok [] else .error .io
  | .missing => .error .notExist
  | .refused => .error .io

/-- `os.CreateTemp(dir, ".chunk-*")`, with the name it picks. -/
def treeCreateTemp (name : Nat) (w : World) (dir : Path) : Except Err Path × World :=
  let path := dir ++ [tempName name]
  if t.isDir dir then
    (.ok path, (w.setFiles who.node ((w.caches who.node).files.insert path ⟨[], P.now w.ticks⟩)).tick)
  else (.error .notExist, w)

/-- `os.Rename(src, dst)`. -/
def treeRename (w : World) (src dst : Path) : Except Err Unit × World :=
  execCacheFile who w src fun file =>
    if t.takes dst then
      (.ok (), w.setFiles who.node (((w.caches who.node).files.erase src).insert dst file))
    else (.error .io, w)

/-- One operation, without faults. -/
def treeExec (name : Nat) (w : World) : (o : Op) → Res o × World
  | .cacheReadFile path => ((t.find (w.caches who.node).files path).readFile, w)
  | .cacheReadFileAt path offset length =>
    ((t.find (w.caches who.node).files path).readFileAt offset length, w)
  | .createTemp dir => treeCreateTemp P t who name w dir
  | .rename src dst => treeRename t who w src dst
  | o => exec P who .none w o

/-- The machine of a node's cache: the environment only picks the names of temporary files, new ones
each time. -/
def treeMachine : Machine sig World Nat where
  exec := treeExec P t who
  allowed name w o := ∀ dir, o = .createTemp dir →
    t.isDir (dir ++ [tempName name]) = false ∧
      (w.caches who.node).files.lookup (dir ++ [tempName name]) = none

/-- The environment's choice can be checked: the name is new. -/
instance (name : Nat) (w : World) (o : Op) : Decidable ((treeMachine P t who).allowed name w o) :=
  match o with
  | .createTemp dir =>
    decidable_of_iff (t.isDir (dir ++ [tempName name]) = false ∧
      (w.caches who.node).files.lookup (dir ++ [tempName name]) = none)
      ⟨fun h _ heq => (Op.createTemp.inj heq) ▸ h, fun h => h dir rfl⟩
  | .getVolume _ | .createVolume _ | .updateLatestSnapshot _ _ | .updateLastNode _ _
  | .createSnapshot _ | .getSnapshot _ | .createBaseImage _ | .getBaseImage _ | .storePut _ _
  | .storeGet _ | .storeExists _ | .newString | .hashChunk _ | .onProgress _ | .lookupSession _
  | .addSession _ _ | .deleteSession _ | .isDirty _ _ | .setDirty _ _ | .dirtyIndexes _
  | .baseChunk _ _ | .baseManifest _ | .setBase _ _ _ | .resetDirty _ | .count _ _ | .mkdirAll _
  | .removeAll _ | .readFile _ _ | .readFileAt _ _ _ _ | .writeFile _ _ _ | .syncFile _ _
  | .syncDir _ | .getMemory _ | .getMemoryRange _ _ _ | .putMemory _ _ _ | .countEvicted
  | .cacheReadFile _ | .cacheReadFileAt _ _ _ | .writeTemp _ _ | .closeTemp _ | .chmod _
  | .rename _ _ | .chtimes _ | .removePath _ | .readDir _ => isTrue fun _ heq => nomatch heq

end Exec

/-! ## The functions of the cache on a disk -/

/-- A node's cache: the files, the memory tier and the clock. -/
structure Disk where
  files : AList fun _ : Path => CacheFile
  memory : MemoryTier
  ticks : Nat

/-- The cache of a node in a world. -/
def World.disk (w : World) (n : Nat) : Disk := ⟨(w.caches n).files, (w.caches n).memory, w.ticks⟩

/-- The files `evictLocked` removes. -/
def evictedItems (maxSize : Int64) : List EvictItem → Int64 → List EvictItem
  | [], _ => []
  | it :: rest, total =>
    if total ≤ maxSize then [] else it :: evictedItems maxSize rest (total - Int64.ofNat it.size)

/-- `total`, as `evictLocked` computes it. -/
def itemsTotal (items : List EvictItem) : Int64 :=
  items.foldl (fun total it => total + Int64.ofNat it.size) 0

namespace Disk

variable (P : Platform) (t : FileTree) (c : LocalCache) (d : Disk)

/-- `os.Chtimes(path, now, now)`. -/
def touch (path : Path) : Disk :=
  match d.files.lookup path with
  | some file =>
    { d with files := d.files.insert path { file with modTime := P.now d.ticks }, ticks := d.ticks + 1 }
  | none => d

/-- `Get`. -/
def get (chunkID : String) : Except Err (Option Bytes) × Disk :=
  match d.memory.getMemory chunkID with
  | (some b, memory) => (.ok (some b), { d with memory := memory })
  | (none, memory) =>
    match (t.find d.files (c.path chunkID)).readFile with
    | .error .notExist => (.ok none, { d with memory := memory })
    | .error err => (.error err, { d with memory := memory })
    | .ok b =>
      (.ok (some b),
       { d.touch P (c.path chunkID) with
         memory := MemoryTier.putMemoryLocked c.memoryMax memory chunkID b })

/-- `GetRange`. -/
def getRange (chunkID : String) (offset length : Int64) : Except Err (Option Bytes) × Disk :=
  match d.memory.getMemoryRange chunkID offset length with
  | (some b, memory) => (.ok (some b), { d with memory := memory })
  | (none, memory) =>
    match (t.find d.files (c.path chunkID)).readFileAt offset length with
    | .error .notExist => (.ok none, { d with memory := memory })
    | .error err => (.error err, { d with memory := memory })
    | .ok b =>
      (.ok (some (padTo 0 b (natOf length))),
       { d.touch P (c.path chunkID) with memory := memory })

/-- The files after the new chunk was renamed into place and stamped, before any is evicted. -/
def placed (chunkID : String) (b : Bytes) : AList fun _ : Path => CacheFile :=
  d.files.insert (c.path chunkID) ⟨b, P.now (d.ticks + 2)⟩

/-- What `Put` evicts, from the files after the new chunk was put. -/
def evicted (files : AList fun _ : Path => CacheFile) : List EvictItem :=
  evictedItems c.maxSize (P.sortItems (dirItems files c.dir)) (itemsTotal (dirItems files c.dir))

/-- Remove the files of a list of items. -/
def removeItems (items : List EvictItem) (files : AList fun _ : Path => CacheFile) :
    AList fun _ : Path => CacheFile :=
  items.foldl (fun files it => files.erase it.path) files

/-- `Put`. A `Put` that fails has taken two readings of the clock. -/
def put (chunkID : String) (b : Bytes) : Except Err Unit × Disk :=
  if t.isDir c.dir then
    if t.takes (c.path chunkID) then
      let files := d.placed P c chunkID b
      (.ok (), ⟨removeItems (evicted P c files) files,
        MemoryTier.putMemoryLocked c.memoryMax d.memory chunkID b, d.ticks + 3⟩)
    else (.error .io, { d with ticks := d.ticks + 2 })
  else (.error .notExist, d)

/-- One call. -/
def serve : CacheCall → Except Err (Option Bytes) × Disk
  | .put chunkID b =>
    match d.put P t c chunkID b with
    | (.ok (), d') => (.ok none, d')
    | (.error err, d') => (.error err, d')
  | .get chunkID => d.get P t c chunkID
  | .getRange chunkID offset length => d.getRange P t c chunkID offset length

/-- Calls one after the other. -/
def serveAll : List CacheCall → Disk → List (Except Err (Option Bytes)) × Disk
  | [], d => ([], d)
  | call :: calls, d =>
    let rest := serveAll calls (d.serve P t c call).2
    ((d.serve P t c call).1 :: rest.1, rest.2)

theorem lookup_removeItems (items : List EvictItem) (files : AList fun _ : Path => CacheFile)
    (path : Path) : (removeItems items files).lookup path =
      if path ∈ items.map EvictItem.path then none else files.lookup path := by
  induction items generalizing files with
  | nil => simp [Disk.removeItems]
  | cons it items ih =>
    show (removeItems items (files.erase it.path)).lookup path = _
    rw [ih, List.map_cons]
    by_cases hrest : path ∈ items.map EvictItem.path
    · rw [if_pos hrest, if_pos (List.mem_cons_of_mem _ hrest)]
    · rw [if_neg hrest]
      by_cases hp : path = it.path
      · rw [if_pos (by simp [hp]), hp, AList.lookup_erase]
      · rw [if_neg (by simp [hp, hrest]), AList.lookup_erase_ne hp]

theorem lookup_removeItems_eq_some {items : List EvictItem} :
    (removeItems items files).lookup path = some file ↔
      path ∉ items.map EvictItem.path ∧ files.lookup path = some file := by
  rw [lookup_removeItems]
  split
  · simp [*]
  · simp [*]

end Disk

/-! ## The programs compute these functions -/

section Refines

variable {P : Platform} {t : FileTree} {who : Caller} {c : LocalCache} {w : World}

/-- What a part of a cache function leaves behind: the given disk, and the store as it was. -/
def Leaves (who : Caller) (w : World) (d : Disk) (w' : World) : Prop :=
  w'.disk who.node = d ∧ w'.objects = w.objects

/-- An operation other than `CreateTemp` has one outcome. -/
theorem tree_perform {o : Op} (ho : ∀ dir, o ≠ .createTemp dir) {Q : Res o → World → Prop}
    (h : Q (treeExec P t who 0 w o).1 (treeExec P t who 0 w o).2) :
    (treeMachine P t who).wp (perform o) Q w := by
  intro name _
  have hsame : treeExec P t who name w o = treeExec P t who 0 w o := by
    cases o with
    | createTemp dir => exact absurd rfl (ho dir)
    | _ => rfl
  show Q (treeExec P t who name w o).1 (treeExec P t who name w o).2
  rw [hsame]
  exact h

theorem tree_access {o : Op} (ho : ∀ dir, o ≠ .createTemp dir) {Q : Except Err (Res o) → World → Prop}
    (h : Q (.ok (treeExec P t who 0 w o).1) (treeExec P t who 0 w o).2) :
    (treeMachine P t who).wp (access o).run Q w := by
  unfold access
  rw [wp_run_lift]
  exact tree_perform ho h

@[simp] theorem disk_setFiles (w : World) (n : Nat) (files : AList fun _ : Path => CacheFile) :
    (w.setFiles n files).disk n = { w.disk n with files := files } := by
  simp [World.disk, World.setFiles, World.setCache]

@[simp] theorem disk_setMemory (w : World) (n : Nat) (memory : MemoryTier) :
    (w.setMemory n memory).disk n = { w.disk n with memory := memory } := by
  simp [World.disk, World.setMemory, World.setCache]

theorem touch_refines (path : Path) :
    (treeMachine P t who).wp (LocalCache.touch path).run
      (fun r w' => r = .ok () ∧ Leaves who w ((w.disk who.node).touch P path) w') w := by
  unfold LocalCache.touch attempt
  rw [wp_run_bind, wp_run_lift]
  refine tree_perform (by simp) ⟨rfl, ?_⟩
  show Leaves who w _ (exec P who .none w (.chtimes path)).2
  simp only [exec, Fault.on, execCacheFile, Leaves, Disk.touch, World.disk]
  cases hfile : (w.caches who.node).files.lookup path with
  | none => simp
  | some file => simp [World.setFiles, World.setCache, World.tick]

/-- The file times are stamped independently of the memory tier. -/
private theorem touch_setMemory (d : Disk) (memory : MemoryTier) (path : Path) :
    Disk.touch P { d with memory := memory } path = { d.touch P path with memory := memory } := by
  unfold Disk.touch
  dsimp only
  split
  · rfl
  · rfl

theorem get_refines (chunkID : String) :
    (treeMachine P t who).wp (c.get chunkID).run
      (fun r w' => r = ((w.disk who.node).get P t c chunkID).1 ∧
        Leaves who w ((w.disk who.node).get P t c chunkID).2 w') w := by
  have hmem : (w.disk who.node).memory = (w.caches who.node).memory := rfl
  unfold LocalCache.get
  rw [wp_run_bind]
  refine tree_access (by simp) ?_
  simp only [orElse_ok, treeExec, exec, Disk.get, hmem]
  generalize (w.caches who.node).memory.getMemory chunkID = looked
  obtain ⟨_ | b, memory⟩ := looked
  · dsimp only
    unfold attempt
    rw [wp_run_bind, wp_run_lift]
    refine tree_perform (by simp) ?_
    have hfiles : ((w.setMemory who.node memory).caches who.node).files = (w.disk who.node).files := by
      simp [World.disk, World.setMemory, World.setCache]
    simp only [orElse_ok, treeExec, hfiles]
    generalize (t.find (w.disk who.node).files (c.path chunkID)).readFile = read
    split
    · exact ⟨rfl, by simp, rfl⟩
    · rename_i err hne
      exact ⟨by simp, by simp, rfl⟩
    · rename_i b
      refine wp_run_seq (touch_refines (c.path chunkID)) ?_
      rintro _ w₁ ⟨rfl, hdisk, hobjects⟩
      rw [disk_setMemory, touch_setMemory] at hdisk
      have hmem₁ : (w₁.caches who.node).memory = memory := congrArg Disk.memory hdisk
      simp only [orElse_ok]
      rw [wp_run_bind]
      refine tree_access (by simp) ⟨rfl, ?_, hobjects⟩
      simp only [treeExec, exec, disk_setMemory, hmem₁, hdisk]
  · exact ⟨rfl, by simp, rfl⟩

theorem getRange_refines (chunkID : String) (offset length : Int64) :
    (treeMachine P t who).wp (c.getRange chunkID offset length).run
      (fun r w' => r = ((w.disk who.node).getRange P t c chunkID offset length).1 ∧
        Leaves who w ((w.disk who.node).getRange P t c chunkID offset length).2 w') w := by
  have hmem : (w.disk who.node).memory = (w.caches who.node).memory := rfl
  unfold LocalCache.getRange
  rw [wp_run_bind]
  refine tree_access (by simp) ?_
  simp only [orElse_ok, treeExec, exec, Disk.getRange, hmem]
  generalize (w.caches who.node).memory.getMemoryRange chunkID offset length = looked
  obtain ⟨_ | b, memory⟩ := looked
  · dsimp only
    unfold attempt
    rw [wp_run_bind, wp_run_lift]
    refine tree_perform (by simp) ?_
    have hfiles : ((w.setMemory who.node memory).caches who.node).files = (w.disk who.node).files := by
      simp [World.disk, World.setMemory, World.setCache]
    simp only [orElse_ok, treeExec, hfiles]
    generalize (t.find (w.disk who.node).files (c.path chunkID)).readFileAt offset length = read
    split
    · exact ⟨rfl, by simp, rfl⟩
    · exact ⟨by simp, by simp, rfl⟩
    · refine wp_run_seq (touch_refines (c.path chunkID)) ?_
      rintro _ w₁ ⟨rfl, hdisk, hobjects⟩
      rw [disk_setMemory, touch_setMemory] at hdisk
      exact ⟨rfl, hdisk, hobjects⟩
  · exact ⟨rfl, by simp, rfl⟩

private theorem erase_of_lookup_none (h : files.lookup path = none) : files.erase path = files :=
  AList.ext (List.kerase_of_notMem_keys (AList.lookup_eq_none.mp h))

theorem evictItems_refines (items : List EvictItem) (total : Int64) (w : World) :
    (treeMachine P t who).wp (c.evictItems items total).run
      (fun r w' => r = .ok () ∧ Leaves who w { w.disk who.node with
        files := Disk.removeItems (evictedItems c.maxSize items total) (w.disk who.node).files } w') w := by
  induction items generalizing total w with
  | nil => exact ⟨rfl, rfl, rfl⟩
  | cons it rest ih =>
    unfold LocalCache.evictItems evictedItems
    split
    · exact ⟨rfl, rfl, rfl⟩
    · unfold attempt
      rw [wp_run_bind, wp_run_lift]
      refine tree_perform (by simp) ?_
      simp only [orElse_ok]
      -- a file that is already gone counts as evicted
      have hremoved : ((treeExec P t who 0 w (.removePath it.path)).1 = .ok () ∨
          (treeExec P t who 0 w (.removePath it.path)).1 = .error .notExist) ∧
          Leaves who w { w.disk who.node with files := (w.disk who.node).files.erase it.path }
            (treeExec P t who 0 w (.removePath it.path)).2 := by
        simp only [treeExec, exec, Fault.on, execCacheFile]
        cases hfile : (w.caches who.node).files.lookup it.path with
        | some file => exact ⟨Or.inl rfl, by simp [World.disk, World.setFiles, World.setCache], rfl⟩
        | none =>
          refine ⟨Or.inr rfl, ?_, rfl⟩
          rw [erase_of_lookup_none (show (w.disk who.node).files.lookup it.path = none from hfile)]
      obtain ⟨hres, hdisk, hobjects⟩ := hremoved
      have hnext : (treeMachine P t who).wp (do
            let _ ← access .countEvicted
            c.evictItems rest (total - Int64.ofNat it.size) : M Unit).run
          (fun r w' => r = .ok () ∧ Leaves who w { w.disk who.node with
            files := Disk.removeItems (it :: evictedItems c.maxSize rest (total - Int64.ofNat it.size))
              (w.disk who.node).files } w') (treeExec P t who 0 w (.removePath it.path)).2 := by
        rw [wp_run_bind]
        refine tree_access (by simp) ?_
        simp only [orElse_ok]
        refine wp_mono (ih _ _) ?_
        rintro r w' ⟨rfl, hdisk', hobjects'⟩
        have hcounted : (treeExec P t who 0 (treeExec P t who 0 w (.removePath it.path)).2
            .countEvicted).2.disk who.node =
              (treeExec P t who 0 w (.removePath it.path)).2.disk who.node := by
          simp [treeExec, exec, World.disk, World.setCache]
        rw [hcounted, hdisk] at hdisk'
        exact ⟨rfl, hdisk', hobjects'.trans hobjects⟩
      rcases hres with hres | hres
      · rw [hres]
        exact hnext
      · rw [hres]
        exact hnext

theorem evictLocked_refines (w : World) :
    (treeMachine P t who).wp (c.evictLocked P).run
      (fun r w' => r = .ok () ∧ Leaves who w { w.disk who.node with
        files := Disk.removeItems (Disk.evicted P c (w.disk who.node).files) (w.disk who.node).files } w')
      w := by
  unfold LocalCache.evictLocked outside
  rw [wp_run_bind]
  refine tree_perform (by simp) ?_
  exact evictItems_refines _ _ w

/-- A step of `Put`: an error removes the temporary file. -/
private theorem wp_orDiscard {tmpPath : Path} {call : Prog sig (Except Err Unit)}
    {Q : Except Err Unit → World → Prop}
    (h : (treeMachine P t who).wp call (fun r w' => (r = .ok () → Q (.ok ()) w') ∧
      ∀ e, r = .error e → Q (.error e) (treeExec P t who 0 w' (.removePath tmpPath)).2) w) :
    (treeMachine P t who).wp (LocalCache.orDiscard tmpPath call).run Q w := by
  unfold LocalCache.orDiscard attempt
  rw [wp_run_bind, wp_run_lift]
  refine wp_mono h ?_
  rintro (e | u) w' ⟨hok, herr⟩
  · show (treeMachine P t who).wp (LocalCache.discard tmpPath >>= fun _ => throw e : M Unit).run Q w'
    unfold LocalCache.discard attempt
    rw [wp_run_bind, wp_run_bind, wp_run_lift]
    exact tree_perform (by simp) (herr e rfl)
  · exact hok rfl

/-- A temporary file that was renamed or removed leaves no trace. -/
private theorem erase_insert_of_lookup_none (h : files.lookup path = none) :
    (files.insert path file).erase path = files := by
  refine AList.ext ?_
  show List.kerase path (files.insert path file).entries = files.entries
  rw [AList.entries_insert_of_notMem (AList.lookup_eq_none.mp h)]
  exact List.kerase_cons_eq rfl

/-- The end of `Put`: the file in its place is stamped, the memory tier is filled, the oldest files
go. -/
theorem finish_refines {chunkID : String} {b : Bytes} {time : Int}
    (hfile : (w.disk who.node).files.lookup (c.path chunkID) = some ⟨b, time⟩) :
    let d := w.disk who.node
    let files := d.files.insert (c.path chunkID) ⟨b, P.now d.ticks⟩
    (treeMachine P t who).wp (do
        LocalCache.touch (c.path chunkID)
        let _ ← access (.putMemory c.memoryMax chunkID b)
        c.evictLocked P : M Unit).run
      (fun r w' => r = .ok () ∧ Leaves who w ⟨Disk.removeItems (Disk.evicted P c files) files,
        MemoryTier.putMemoryLocked c.memoryMax d.memory chunkID b, d.ticks + 1⟩ w') w := by
  intro d files
  -- stamped, the file has the clock's next reading
  have hstamped : d.touch P (c.path chunkID) = ⟨files, d.memory, d.ticks + 1⟩ := by
    simp [Disk.touch, d, files, hfile]
  refine wp_run_seq (touch_refines (c.path chunkID)) ?_
  rintro _ w₂ ⟨rfl, hdisk₂, hobjects₂⟩
  rw [hstamped] at hdisk₂
  rw [orElse_ok, wp_run_bind]
  refine tree_access (by simp) ?_
  rw [orElse_ok]
  refine wp_mono (evictLocked_refines _) ?_
  rintro _ w₃ ⟨rfl, hdisk₃, hobjects₃⟩
  have hmem₂ : (w₂.caches who.node).memory = d.memory := congrArg Disk.memory hdisk₂
  simp only [treeExec, exec, disk_setMemory, hdisk₂, hmem₂] at hdisk₃
  exact ⟨rfl, hdisk₃, hobjects₃.trans hobjects₂⟩

/-- `Put` once its temporary file is written: the file goes to its place and the oldest files go, or
it is discarded. -/
private theorem install_refines {tmpPath : Path} {chunkID : String} {b : Bytes} {time : Int}
    (hfile : (w.caches who.node).files.lookup tmpPath = some ⟨b, time⟩) :
    let d := w.disk who.node
    let files := (d.files.erase tmpPath).insert (c.path chunkID) ⟨b, P.now d.ticks⟩
    (treeMachine P t who).wp (do
        LocalCache.orDiscard tmpPath (perform (.closeTemp tmpPath))
        LocalCache.orDiscard tmpPath (perform (.chmod tmpPath))
        LocalCache.orDiscard tmpPath (perform (.rename tmpPath (c.path chunkID)))
        LocalCache.touch (c.path chunkID)
        let _ ← access (.putMemory c.memoryMax chunkID b)
        c.evictLocked P : M Unit).run
      (fun r w' =>
        if t.takes (c.path chunkID) then
          r = .ok () ∧ Leaves who w ⟨Disk.removeItems (Disk.evicted P c files) files,
            MemoryTier.putMemoryLocked c.memoryMax d.memory chunkID b, d.ticks + 1⟩ w'
        else r = .error .io ∧ Leaves who w { d with files := d.files.erase tmpPath } w') w := by
  intro d files
  have hclose : treeExec P t who 0 w (.closeTemp tmpPath) = (.ok (), w) := rfl
  have hchmod : treeExec P t who 0 w (.chmod tmpPath) = (.ok (), w) := by
    simp [treeExec, exec, Fault.on, execCacheFile, hfile]
  rw [wp_run_bind]
  refine wp_orDiscard (tree_perform (by simp) ?_)
  rw [hclose]
  refine ⟨fun _ => ?_, fun e he => by cases he⟩
  rw [orElse_ok, wp_run_bind]
  refine wp_orDiscard (tree_perform (by simp) ?_)
  rw [hchmod]
  refine ⟨fun _ => ?_, fun e he => by cases he⟩
  rw [orElse_ok, wp_run_bind]
  refine wp_orDiscard (tree_perform (by simp) ?_)
  by_cases htakes : t.takes (c.path chunkID) = true
  · let w₁ := w.setFiles who.node ((d.files.erase tmpPath).insert (c.path chunkID) ⟨b, time⟩)
    have hrename : treeExec P t who 0 w (.rename tmpPath (c.path chunkID)) = (.ok (), w₁) := by
      simp only [treeExec, treeRename, execCacheFile, hfile, htakes, if_true]
      rfl
    simp only [htakes, if_true]
    rw [hrename]
    refine ⟨fun _ => ?_, fun e he => by cases he⟩
    have hdisk₁ : w₁.disk who.node =
        { d with files := (d.files.erase tmpPath).insert (c.path chunkID) ⟨b, time⟩ } := disk_setFiles ..
    have hplaced : (w₁.disk who.node).files.lookup (c.path chunkID) = some ⟨b, time⟩ := by
      rw [hdisk₁, AList.lookup_insert]
    refine wp_mono (finish_refines hplaced) ?_
    rintro _ w₂ ⟨rfl, hdisk₂, hobjects₂⟩
    simp only [hdisk₁, AList.insert_insert] at hdisk₂
    exact ⟨rfl, hdisk₂, hobjects₂⟩
  · have hrename : treeExec P t who 0 w (.rename tmpPath (c.path chunkID)) = (.error .io, w) := by
      simp [treeExec, treeRename, execCacheFile, hfile, htakes]
    have hremove : (treeExec P t who 0 w (.removePath tmpPath)).2 =
        w.setFiles who.node (d.files.erase tmpPath) := by
      simp only [treeExec, exec, Fault.on, execCacheFile, hfile]
      rfl
    rw [hrename]
    refine ⟨fun h => (by cases h), ?_⟩
    rintro _ ⟨⟩
    rw [orElse_error, hremove, if_neg htakes]
    exact ⟨rfl, disk_setFiles .., rfl⟩

theorem put_refines (chunkID : String) (b : Bytes) :
    (treeMachine P t who).wp (c.put P chunkID b).run
      (fun r w' => r = ((w.disk who.node).put P t c chunkID b).1 ∧
        Leaves who w ((w.disk who.node).put P t c chunkID b).2 w') w := by
  unfold LocalCache.put outside
  rw [wp_run_bind]
  intro name hname
  obtain ⟨-, hfree⟩ := hname c.dir rfl
  show Machine.orElse _ _ (treeCreateTemp P t who name w c.dir).1 (treeCreateTemp P t who name w c.dir).2
  unfold treeCreateTemp Disk.put
  generalize c.dir ++ [tempName name] = tmpPath at hfree
  by_cases hdir : t.isDir c.dir = true
  · rw [if_pos hdir, if_pos hdir]
    let w₁ := (w.setFiles who.node ((w.caches who.node).files.insert tmpPath ⟨[], P.now w.ticks⟩)).tick
    let w₂ := (w₁.setFiles who.node
      ((w.caches who.node).files.insert tmpPath ⟨b, P.now (w.ticks + 1)⟩)).tick
    have hwrite : treeExec P t who 0 w₁ (.writeTemp tmpPath b) = (.ok (), w₂) := by
      simp [treeExec, exec, execWriteTemp, Fault.on, w₁, w₂, World.setFiles, World.setCache,
        World.tick, AList.insert_insert]
    have hfile₂ : (w₂.caches who.node).files.lookup tmpPath = some ⟨b, P.now (w.ticks + 1)⟩ := by
      simp [w₂, World.setFiles, World.setCache, World.tick]
    have hdisk₂ : w₂.disk who.node = ⟨(w.disk who.node).files.insert tmpPath ⟨b, P.now (w.ticks + 1)⟩,
        (w.disk who.node).memory, (w.disk who.node).ticks + 2⟩ := by
      simp [w₂, w₁, World.disk, World.setFiles, World.setCache, World.tick]
    unfold attempt
    rw [orElse_ok, wp_run_bind, wp_run_lift]
    refine tree_perform (by simp) ?_
    rw [hwrite, orElse_ok]
    refine wp_mono (install_refines hfile₂) ?_
    intro r w' hend
    -- the temporary file is gone again
    rw [hdisk₂, erase_insert_of_lookup_none (show (w.disk who.node).files.lookup tmpPath = none from hfree)]
      at hend
    by_cases htakes : t.takes (c.path chunkID) = true
    · rw [if_pos htakes] at hend ⊢
      exact hend
    · rw [if_neg htakes] at hend ⊢
      exact hend
  · rw [if_neg hdir, if_neg hdir]
    exact ⟨rfl, rfl, rfl⟩

theorem cacheServe_refines (call : CacheCall) :
    (treeMachine P t who).wp (c.serve P call).run
      (fun r w' => r = ((w.disk who.node).serve P t c call).1 ∧
        Leaves who w ((w.disk who.node).serve P t c call).2 w') w := by
  cases call with
  | get id => exact get_refines id
  | getRange id offset length => exact getRange_refines id offset length
  | put id b =>
    unfold LocalCache.serve
    refine wp_run_seq (put_refines id b) ?_
    rintro r w' ⟨rfl, hleaves⟩
    dsimp only [Disk.serve]
    generalize (w.disk who.node).put P t c id b = done at hleaves ⊢
    obtain ⟨_ | _, d⟩ := done
    · exact ⟨rfl, hleaves⟩
    · exact ⟨rfl, hleaves⟩

/-- **Every sequence of calls computes its function of the disk.** -/
theorem cacheServeAll_refines {calls : List CacheCall} {answers : List (Except Err (Option Bytes))}
    {w' : World} (hrun : (treeMachine P t who).RunsAll (calls.map fun call => (c.serve P call).run) w
      answers w') :
    (answers, w'.disk who.node) = Disk.serveAll P t c calls (w.disk who.node) := by
  induction calls generalizing w answers with
  | nil =>
    cases hrun
    rfl
  | cons call calls ih =>
    cases hrun with
    | cons first rest =>
      obtain ⟨rfl, hdisk, -⟩ := first.wp (cacheServe_refines call)
      have htail := ih rest
      rw [hdisk] at htail
      rw [Disk.serveAll, ← htail]

end Refines

end OrcaBlocks.Storage
