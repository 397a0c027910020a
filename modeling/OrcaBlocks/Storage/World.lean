/-
# OrcaBlocks.Storage.World — everything `pkg/storage` touches, and one step on it.

The `World` is the shared repository and object store, and for each node the memory of its
`Backend` (the `*Session` objects, the `sessions` map), the overlay directories on its disk and its
local cache. `Op` lists the SINGLE operations the engine performs on it: one call to the repository,
the object store or the file system, or one access to memory other goroutines can reach. `exec`
says what each does, under a `Fault` chosen by the environment.

What the code takes from outside `src/` is a `Platform`: SHA-256, UUIDs, `encoding/json`, the clock,
`sort.Slice` and the order of `range` over a map, each with the documented behaviour the engine
relies on as a field. Nothing is assumed about SHA-256 except the length of its output; which chunks
were hashed is recorded in the ghost field `hashed`, so that a result that needs collision-freedom
can ask for it on the chunks of its own run. The ghost fields `uuidOwner` and `tempOwner` record who
received each UUID and who made each temporary file.

A file of an overlay has a volatile content (`data`) and a durable one: `synced` is what the disk
holds of the file, and the file is found again after a power loss only if its directory entry was
made durable (`linked`).
-/
import OrcaBlocks.Lib.Prog
import OrcaBlocks.Storage.MemoryTier

namespace OrcaBlocks.Storage

open OrcaBlocks.Lib Function

/-! ## Code outside the repository -/

/-- A path, as its components from the root. -/
abbrev Path := List String

/-- A file of the cache directory as `evictLocked` lists it. -/
structure EvictItem where
  path : Path
  size : Nat
  modTime : Int
  deriving DecidableEq, Repr

/-- A string that `encoding/json` writes between quotes without escaping. -/
def PlainString (s : String) : Prop := ∀ c ∈ s.toList, c.isAlphanum ∨ c = '-'

structure Platform where
  /-- `sha256.Sum256`. -/
  sum256 : Bytes → Bytes
  sum256_length : ∀ b, (sum256 b).length = 32
  /-- The `n`-th value of `uuid.NewString`. -/
  uuid : Nat → String
  uuid_injective : Injective uuid
  uuid_ne_empty : ∀ n, uuid n ≠ ""
  /-- `json.MarshalIndent(w, "", "  ")` and `json.Unmarshal` into a `map[string]string`. -/
  marshalIndent : Wire → Bytes
  unmarshal : Bytes → Option Wire
  unmarshal_marshalIndent : ∀ w : Wire,
    (∀ e ∈ w.entries, PlainString e.1 ∧ PlainString e.2) →
      ∃ w', unmarshal (marshalIndent w) = some w' ∧ ∀ k, w'.lookup k = w.lookup k
  /-- The `n`-th reading of the clock. -/
  now : Nat → Int
  /-- `sort.Slice` by modification time, not necessarily stable. -/
  sortItems : List EvictItem → List EvictItem
  sortItems_perm : ∀ l, (sortItems l).Perm l
  sortItems_sorted : ∀ l, (sortItems l).Pairwise fun a b => a.modTime ≤ b.modTime
  /-- The order in which `range` visits the keys of a map. -/
  rangeOrder : List Int64 → List Int64
  rangeOrder_perm : ∀ l, (rangeOrder l).Perm l

/-- `HashChunk`. -/
def Platform.hash (P : Platform) (b : Bytes) : String := hexEncode (P.sum256 b)

/-- One component of a path, as `filepath.Clean` treats it. -/
def cleanStep (acc : Path) (component : String) : Path :=
  if component = "" ∨ component = "." then acc
  else if component = ".." then acc.dropLast
  else acc ++ [component]

/-- `filepath.Join(dir, name)`. -/
def filepathJoin (dir : Path) (name : String) : Path :=
  ((name.toList.splitOn '/').map String.ofList).foldl cleanStep dir

/-! ## State -/

structure CacheFile where
  data : Bytes
  modTime : Int
  deriving DecidableEq, Repr

/-- The mutable part of a node's `LocalCache`: the files on its disk and the memory tier. -/
structure CacheState where
  files : AList fun _ : Path => CacheFile
  memory : MemoryTier
  evicted : Nat

structure OverlayFile where
  data : Bytes
  synced : Bytes
  linked : Bool
  deriving DecidableEq, Repr

/-- A directory of overlay files, by chunk index. -/
abbrev OverlayDir := Int64 → Option OverlayFile

/-- A `*Session` (its counters are in `World.stats`, its `DirtyDir` in `World.overlays`). -/
structure Session where
  volume : Volume
  baseSnapshotID : String
  baseManifest : Manifest
  dirty : AList fun _ : Int64 => Unit

structure SessionStats where
  cacheHits : Nat
  cacheMisses : Nat
  remoteFetches : Nat
  zeroFills : Nat
  deriving DecidableEq, Repr

/-- The counters of `SessionStats`. -/
inductive Counter where
  | cacheHits | cacheMisses | remoteFetches | zeroFills
  deriving DecidableEq, Repr

def SessionStats.bump (s : SessionStats) : Counter → SessionStats
  | .cacheHits => { s with cacheHits := s.cacheHits + 1 }
  | .cacheMisses => { s with cacheMisses := s.cacheMisses + 1 }
  | .remoteFetches => { s with remoteFetches := s.remoteFetches + 1 }
  | .zeroFills => { s with zeroFills := s.zeroFills + 1 }

structure CommitProgress where
  phase : String
  doneChunks : Nat
  totalChunks : Nat
  uploaded : Nat
  skipped : Nat
  bytes : Nat
  snapshotID : String
  manifestKey : String
  manifestItems : Nat
  deriving DecidableEq, Repr

/-- A node and, on it, a thread. -/
structure Caller where
  node : Nat
  slot : Nat
  deriving DecidableEq, Repr

/-- A session is named by its node and its id. -/
abbrev SessRef := Nat × String

structure World where
  /-- The repository: volumes, snapshots, base images. -/
  volumes : String → Option Volume
  snapshots : String → Option Snapshot
  images : String → Option BaseImage
  /-- The object store. -/
  objects : String → Option Bytes
  /-- Every `*Session` ever built, and which of them `Backend.sessions` maps. -/
  sessions : SessRef → Option Session
  registered : SessRef → Bool
  stats : SessRef → SessionStats
  /-- The overlay directories on disk; `none` when the directory does not exist. -/
  overlays : SessRef → Option OverlayDir
  caches : Nat → CacheState
  /-- How many UUIDs and temporary files were made, and how often the clock was read. -/
  uuids : Nat
  temps : Nat
  ticks : Nat
  /-- What `OnProgress` callbacks were given, latest first. -/
  progress : List CommitProgress
  /-- Ghost: the chunks `HashChunk` was applied to. -/
  hashed : List Bytes
  /-- Ghost: who received the `n`-th UUID, and who made the `n`-th temporary file. -/
  uuidOwner : Nat → Caller
  tempOwner : Nat → Caller

/-- Nothing stored, no session, every cache empty. -/
def World.initial : World where
  volumes := fun _ => none
  snapshots := fun _ => none
  images := fun _ => none
  objects := fun _ => none
  sessions := fun _ => none
  registered := fun _ => false
  stats := fun _ => ⟨0, 0, 0, 0⟩
  overlays := fun _ => none
  caches := fun _ => ⟨∅, MemoryTier.empty, 0⟩
  uuids := 0
  temps := 0
  ticks := 0
  progress := []
  hashed := []
  uuidOwner := fun _ => ⟨0, 0⟩
  tempOwner := fun _ => ⟨0, 0⟩

/-! ## Operations -/

inductive Op where
  -- Repository
  | getVolume (volumeID : String)
  | createVolume (volume : Volume)
  | updateLatestSnapshot (volumeID snapshotID : String)
  | updateLastNode (volumeID nodeID : String)
  | createSnapshot (snapshot : Snapshot)
  | getSnapshot (snapshotID : String)
  | createBaseImage (image : BaseImage)
  | getBaseImage (baseImageID : String)
  -- ObjectStore
  | storePut (key : String) (b : Bytes)
  | storeGet (key : String)
  | storeExists (key : String)
  -- uuid.NewString, HashChunk, opts.OnProgress
  | newString
  | hashChunk (b : Bytes)
  | onProgress (p : CommitProgress)
  -- Backend.sessions and the fields of a *Session
  | lookupSession (id : String)
  | addSession (id : String) (s : Session)
  | deleteSession (id : String)
  | isDirty (id : String) (index : Int64)
  | setDirty (id : String) (index : Int64)
  | dirtyIndexes (id : String)
  | baseChunk (id : String) (index : Int64)
  | baseManifest (id : String)
  | setBase (id snapshotID : String) (m : Manifest)
  | resetDirty (id : String)
  | count (id : String) (c : Counter)
  -- the session's DirtyDir
  | mkdirAll (id : String)
  | removeAll (id : String)
  | readFile (id : String) (index : Int64)
  | readFileAt (id : String) (index offset length : Int64)
  | writeFile (id : String) (index : Int64) (b : Bytes)
  | syncFile (id : String) (index : Int64)
  | syncDir (id : String)
  -- LocalCache: the sections under c.mu, and the files
  | getMemory (chunkID : String)
  | getMemoryRange (chunkID : String) (offset length : Int64)
  | putMemory (memoryMax : Int64) (chunkID : String) (b : Bytes)
  | countEvicted
  | cacheReadFile (path : Path)
  | cacheReadFileAt (path : Path) (offset length : Int64)
  | createTemp (dir : Path)
  | writeTemp (path : Path) (b : Bytes)
  | closeTemp (path : Path)
  | chmod (path : Path)
  | rename (src dst : Path)
  | chtimes (path : Path)
  | removePath (path : Path)
  | readDir (dir : Path)

/-- The answer to each operation. -/
@[reducible] def Res : Op → Type
  | .getVolume _ => Except Err Volume
  | .createVolume _ => Except Err Volume
  | .updateLatestSnapshot _ _ => Except Err Unit
  | .updateLastNode _ _ => Except Err Unit
  | .createSnapshot _ => Except Err Unit
  | .getSnapshot _ => Except Err Snapshot
  | .createBaseImage _ => Except Err BaseImage
  | .getBaseImage _ => Except Err BaseImage
  | .storePut _ _ => Except Err Unit
  | .storeGet _ => Except Err Bytes
  | .storeExists _ => Except Err Bool
  | .newString => String
  | .hashChunk _ => String
  | .onProgress _ => Unit
  | .lookupSession _ => Option Volume
  | .addSession _ _ => Unit
  | .deleteSession _ => Bool
  | .isDirty _ _ => Bool
  | .setDirty _ _ => Unit
  | .dirtyIndexes _ => List Int64
  | .baseChunk _ _ => Option String
  | .baseManifest _ => Manifest
  | .setBase _ _ _ => Unit
  | .resetDirty _ => Unit
  | .count _ _ => Unit
  | .mkdirAll _ => Except Err Unit
  | .removeAll _ => Except Err Unit
  | .readFile _ _ => Except Err Bytes
  | .readFileAt _ _ _ _ => Except Err Bytes
  | .writeFile _ _ _ => Except Err Unit
  | .syncFile _ _ => Except Err Unit
  | .syncDir _ => Except Err Unit
  | .getMemory _ => Option Bytes
  | .getMemoryRange _ _ _ => Option Bytes
  | .putMemory _ _ _ => Unit
  | .countEvicted => Unit
  | .cacheReadFile _ => Except Err Bytes
  | .cacheReadFileAt _ _ _ => Except Err Bytes
  | .createTemp _ => Except Err Path
  | .writeTemp _ _ => Except Err Unit
  | .closeTemp _ => Except Err Unit
  | .chmod _ => Except Err Unit
  | .rename _ _ => Except Err Unit
  | .chtimes _ => Except Err Unit
  | .removePath _ => Except Err Unit
  | .readDir _ => Except Err (List EvictItem)

/-- The signature of the storage engine. -/
abbrev sig : Sig := ⟨Op, Res⟩

/-! ## Faults -/

/-- What the environment may do to one outside call. Calls that only access memory cannot fail. -/
inductive Fault where
  /-- The call succeeds. -/
  | none
  /-- The call fails and has no effect. -/
  | fail
  /-- The call takes effect and its reply is lost: the caller sees a failure. -/
  | late
  /-- A file write fails after truncating the file and writing `n` bytes. -/
  | wrote (n : Nat)
  /-- A `RemoveAll` fails after removing the files `keep` rejects. -/
  | kept (keep : Int64 → Bool)

/-- The outcome of an outside call under a fault, given the outcome of its success. -/
def Fault.on {α : Type} (f : Fault) (w : World) (done : Except Err α × World) :
    Except Err α × World :=
  match f with
  | .none => done
  | .late => (.error .io, done.2)
  | _ => (.error .io, w)

/-! ## Updates -/

namespace World

def setSession (w : World) (r : SessRef) (s : Session) : World :=
  { w with sessions := update w.sessions r (some s) }

/-- Change the fields of a session object through its pointer. -/
def modifySession (w : World) (r : SessRef) (f : Session → Session) : World :=
  { w with sessions := update w.sessions r ((w.sessions r).map f) }

def setOverlay (w : World) (r : SessRef) (d : Option OverlayDir) : World :=
  { w with overlays := update w.overlays r d }

def setCache (w : World) (n : Nat) (c : CacheState) : World :=
  { w with caches := update w.caches n c }

def setFiles (w : World) (n : Nat) (files : AList fun _ : Path => CacheFile) : World :=
  w.setCache n { w.caches n with files := files }

def setMemory (w : World) (n : Nat) (m : MemoryTier) : World :=
  w.setCache n { w.caches n with memory := m }

/-- The clock was read. -/
def tick (w : World) : World := { w with ticks := w.ticks + 1 }

end World

/-- The name of the `n`-th temporary file. -/
def tempName (n : Nat) : String := ".chunk-" ++ n.repr

/-- A file read from `offset` on, at most `length` bytes, as `file.ReadAt` gives it. It asks for 1 GiB at a
time, and the system refuses a request that ends past the largest offset (`EINVAL`). -/
def readAtBytes (data : Bytes) (offset length : Int64) : Except Err Bytes :=
  if offset < 0 then .error (.errorf "negative offset" [])
  else if 2 ^ 63 ≤ offset.toInt + min length.toInt (2 ^ 30) then .error .io
  else .ok (slice data (natOf offset) (natOf length))

theorem readAtBytes_ok (data : Bytes) {offset length : Int64} (hoffset : 0 ≤ offset.toInt)
    (hstop : offset.toInt + length.toInt < 2 ^ 63) :
    readAtBytes data offset length = .ok (slice data (natOf offset) (natOf length)) := by
  have hnonneg : ¬ offset < 0 := by
    rw [Int64.lt_iff_toInt_lt]
    exact Int.not_lt.mpr hoffset
  rw [readAtBytes, if_neg hnonneg, if_neg (by omega)]

theorem readAtBytes_inv {data part : Bytes} {offset length : Int64}
    (h : readAtBytes data offset length = .ok part) : slice data (natOf offset) (natOf length) = part := by
  unfold readAtBytes at h
  split at h
  · cases h
  · split at h
    · cases h
    · exact Except.ok.inj h

/-- The overlay file after `os.WriteFile`: the durable content is the old one. -/
def OverlayFile.write (old : Option OverlayFile) (b : Bytes) : OverlayFile :=
  match old with
  | some f => { f with data := b }
  | none => { data := b, synced := [], linked := false }

/-! ## The meaning of an operation -/

section Exec

variable (P : Platform) (who : Caller)

/-- The repository and the object store, `MemRepo` and `MemObjectStore`. -/
def execCreateVolume (w : World) (v : Volume) : Except Err Volume × World :=
  (.ok v.withDefaults,
   { w with volumes := update w.volumes v.volumeID (some v.withDefaults) })

def execUpdateVolume (w : World) (volumeID : String) (f : Volume → Volume) :
    Except Err Unit × World :=
  match w.volumes volumeID with
  | some v => (.ok (), { w with volumes := update w.volumes volumeID (some (f v)) })
  | none => (.error .notFound, w)

def execGet {α : Type} (w : World) (found : Option α) : Except Err α × World :=
  match found with
  | some a => (.ok a, w)
  | none => (.error .notFound, w)

/-- `os.WriteFile(s.dirtyPath(index), b, 0o644)`. -/
def execWriteFile (f : Fault) (w : World) (r : SessRef) (index : Int64) (b : Bytes) :
    Except Err Unit × World :=
  match w.overlays r with
  | none => (.error .notExist, w)
  | some d =>
    let put (b : Bytes) : World :=
      w.setOverlay r (some (update d index (some (OverlayFile.write (d index) b))))
    match f with
    | .wrote n => (.error .io, put (b.take n))
    | f => f.on w (.ok (), put b)

/-- `os.RemoveAll(s.DirtyDir)`. -/
def execRemoveAll (f : Fault) (w : World) (r : SessRef) : Except Err Unit × World :=
  match f with
  | .kept keep =>
    (.error .io, w.setOverlay r ((w.overlays r).map fun d i => if keep i then d i else none))
  | f => f.on w (.ok (), w.setOverlay r none)

def execReadOverlay {α : Type} (w : World) (r : SessRef) (index : Int64)
    (f : OverlayFile → Except Err α × World) : Except Err α × World :=
  match (w.overlays r).bind fun d => d index with
  | some file => f file
  | none => (.error .notExist, w)

def execCacheFile {α : Type} (w : World) (path : Path) (f : CacheFile → Except Err α × World) :
    Except Err α × World :=
  match (w.caches who.node).files.lookup path with
  | some file => f file
  | none => (.error .notExist, w)

/-- `os.CreateTemp(dir, ".chunk-*")`: an empty file under a new name. -/
def execCreateTemp (w : World) (dir : Path) : Except Err Path × World :=
  let path := dir ++ [tempName w.temps]
  let files := (w.caches who.node).files.insert path ⟨[], P.now w.ticks⟩
  (.ok path,
   { (w.setFiles who.node files).tick with
     temps := w.temps + 1, tempOwner := update w.tempOwner w.temps who })

/-- `tmp.Write(b)`. The descriptor outlives the name: on an unlinked file nothing is seen to change. -/
def execWriteTemp (f : Fault) (w : World) (path : Path) (b : Bytes) : Except Err Unit × World :=
  let put (b : Bytes) : World :=
    match (w.caches who.node).files.lookup path with
    | some _ => (w.setFiles who.node
        ((w.caches who.node).files.insert path ⟨b, P.now w.ticks⟩)).tick
    | none => w
  match f with
  | .wrote n => (.error .io, put (b.take n))
  | f => f.on w (.ok (), put b)

/-- `os.Rename(src, dst)`. Both are in one directory; a directory is never replaced by a file. -/
def execRename (w : World) (src dst : Path) : Except Err Unit × World :=
  execCacheFile who w src fun file =>
    if src.dropLast = dst.dropLast ∧ dst ≠ [] ∧ dst.getLast? ≠ some "dirty-sessions" then
      (.ok (), w.setFiles who.node (((w.caches who.node).files.erase src).insert dst file))
    else (.error .io, w)

/-- The regular files directly in `dir`. -/
def dirItems (files : AList fun _ : Path => CacheFile) (dir : Path) : List EvictItem :=
  (files.entries.filter fun e => e.1.dropLast = dir ∧ e.1 ≠ []).map fun e =>
    ⟨e.1, e.2.data.length, e.2.modTime⟩

/-- One operation of the thread `who`, under the fault `f`. -/
def exec (f : Fault) (w : World) : (o : Op) → Res o × World
  | .getVolume id => f.on w (execGet w (w.volumes id))
  | .createVolume v => f.on w (execCreateVolume w v)
  | .updateLatestSnapshot id snapshotID =>
    f.on w (execUpdateVolume w id fun v => { v with latestSnapshotID := snapshotID })
  | .updateLastNode id nodeID => f.on w (execUpdateVolume w id fun v => { v with lastNode := nodeID })
  | .createSnapshot s =>
    f.on w (.ok (), { w with snapshots := update w.snapshots s.snapshotID (some s) })
  | .getSnapshot id => f.on w (execGet w (w.snapshots id))
  | .createBaseImage i =>
    f.on w (.ok i, { w with images := update w.images i.baseImageID (some i) })
  | .getBaseImage id => f.on w (execGet w (w.images id))
  | .storePut key b => f.on w (.ok (), { w with objects := update w.objects key (some b) })
  | .storeGet key => f.on w (execGet w (w.objects key))
  | .storeExists key => f.on w (.ok (w.objects key).isSome, w)
  | .newString =>
    (P.uuid w.uuids,
     { w with uuids := w.uuids + 1, uuidOwner := update w.uuidOwner w.uuids who })
  | .hashChunk b => (P.hash b, { w with hashed := b :: w.hashed })
  | .onProgress p => ((), { w with progress := p :: w.progress })
  | .lookupSession id =>
    (if w.registered (who.node, id) then (w.sessions (who.node, id)).map Session.volume else none, w)
  | .addSession id s =>
    ((), { w.setSession (who.node, id) s with
           registered := update w.registered (who.node, id) true
           stats := update w.stats (who.node, id) ⟨0, 0, 0, 0⟩ })
  | .deleteSession id =>
    (w.registered (who.node, id),
     { w with registered := update w.registered (who.node, id) false })
  | .isDirty id index =>
    (((w.sessions (who.node, id)).bind fun s => s.dirty.lookup index).isSome, w)
  | .setDirty id index =>
    ((), w.modifySession (who.node, id) fun s => { s with dirty := s.dirty.insert index () })
  | .dirtyIndexes id =>
    (P.rangeOrder (((w.sessions (who.node, id)).map fun s => s.dirty.keys).getD []), w)
  | .baseChunk id index =>
    ((w.sessions (who.node, id)).bind fun s => s.baseManifest.lookup index, w)
  | .baseManifest id => (((w.sessions (who.node, id)).map Session.baseManifest).getD ∅, w)
  | .setBase id snapshotID m =>
    ((), w.modifySession (who.node, id) fun s =>
      { s with baseSnapshotID := snapshotID, baseManifest := m })
  | .resetDirty id => ((), w.modifySession (who.node, id) fun s => { s with dirty := ∅ })
  | .count id c =>
    ((), { w with stats := update w.stats (who.node, id) ((w.stats (who.node, id)).bump c) })
  | .mkdirAll id =>
    f.on w (.ok (), w.setOverlay (who.node, id)
      (some ((w.overlays (who.node, id)).getD fun _ => none)))
  | .removeAll id => execRemoveAll f w (who.node, id)
  | .readFile id index =>
    f.on w (execReadOverlay w (who.node, id) index fun file => (.ok file.data, w))
  | .readFileAt id index offset length =>
    f.on w (execReadOverlay w (who.node, id) index fun file =>
      (readAtBytes file.data offset length, w))
  | .writeFile id index b => execWriteFile f w (who.node, id) index b
  | .syncFile id index =>
    f.on w (execReadOverlay w (who.node, id) index fun file =>
      (.ok (), w.setOverlay (who.node, id) ((w.overlays (who.node, id)).map fun d =>
        update d index (some { file with synced := file.data }))))
  | .syncDir id =>
    f.on w (match w.overlays (who.node, id) with
      | some d => (.ok (), w.setOverlay (who.node, id)
          (some fun i => (d i).map fun file => { file with linked := true }))
      | none => (.error .notExist, w))
  | .getMemory chunkID =>
    let r := (w.caches who.node).memory.getMemory chunkID
    (r.1, w.setMemory who.node r.2)
  | .getMemoryRange chunkID offset length =>
    let r := (w.caches who.node).memory.getMemoryRange chunkID offset length
    (r.1, w.setMemory who.node r.2)
  | .putMemory memoryMax chunkID b =>
    ((), w.setMemory who.node
      (MemoryTier.putMemoryLocked memoryMax (w.caches who.node).memory chunkID b))
  | .countEvicted =>
    ((), w.setCache who.node
      { w.caches who.node with evicted := (w.caches who.node).evicted + 1 })
  | .cacheReadFile path => f.on w (execCacheFile who w path fun file => (.ok file.data, w))
  | .cacheReadFileAt path offset length =>
    f.on w (execCacheFile who w path fun file => (readAtBytes file.data offset length, w))
  | .createTemp dir => f.on w (execCreateTemp P who w dir)
  | .writeTemp path b => execWriteTemp P who f w path b
  | .closeTemp _ => f.on w (.ok (), w)
  | .chmod path => f.on w (execCacheFile who w path fun _ => (.ok (), w))
  | .rename src dst => f.on w (execRename who w src dst)
  | .chtimes path =>
    f.on w (execCacheFile who w path fun file =>
      (.ok (), (w.setFiles who.node
        ((w.caches who.node).files.insert path { file with modTime := P.now w.ticks })).tick))
  | .removePath path =>
    f.on w (execCacheFile who w path fun _ =>
      (.ok (), w.setFiles who.node ((w.caches who.node).files.erase path)))
  | .readDir dir => f.on w (.ok (dirItems (w.caches who.node).files dir), w)

end Exec

/-- The storage engine's machine for one thread, with the faults `allowed` admits. -/
def machine (P : Platform) (allowed : Fault → World → Op → Prop) (who : Caller) :
    Machine sig World Fault where
  exec := exec P who
  allowed := allowed

/-- No operation fails. -/
def faultFree : Fault → World → Op → Prop := fun f _ _ => f = .none

end OrcaBlocks.Storage
