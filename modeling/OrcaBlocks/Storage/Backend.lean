/-
# OrcaBlocks.Storage.Backend — the storage engine of `pkg/storage/backend.go`.

A volume is an array of bytes cut into chunks. A session reads a chunk from its overlay file when it
wrote it (`Dirty`), else from the chunk its base manifest names, through the node's cache and the
object store, else as zeroes. `commitWithOptions` uploads the dirty chunks in batches, saves a
manifest, records a snapshot, moves the volume's pointer and drops the overlay.

A session is passed around by its id: the `*Session` itself lives in `World.sessions`, and each
access to a field another goroutine can reach is an operation. `Volume` never changes in a session,
so it is read once, with the pointer.

`int` is 64 bits. A Go map built by one call and not yet shared (the manifest of a commit) is a
value.

⚠ BOUNDARY: `make` has no limit on lengths here, and a buffer no capacity beyond its length: a `Write`
whose buffer has room behind the data would store what lies there, where this one panics.
-/
import OrcaBlocks.Storage.LocalCache

namespace OrcaBlocks.Storage

open OrcaBlocks.Lib

structure Backend where
  nodeID : String
  cache : LocalCache
  deriving DecidableEq, Repr

/-- The options of a commit; `onProgress` says whether a callback is given. -/
structure CommitOptions where
  uploadBatchChunks : Int64
  onProgress : Bool
  deriving DecidableEq, Repr

/-- `commitBatchStats`. -/
structure CommitBatchStats where
  chunks : Nat
  uploaded : Nat
  skipped : Nat
  bytes : Nat
  deriving DecidableEq, Repr

def CommitBatchStats.add (a b : CommitBatchStats) : CommitBatchStats :=
  ⟨a.chunks + b.chunks, a.uploaded + b.uploaded, a.skipped + b.skipped, a.bytes + b.bytes⟩

namespace Backend

/-! ## Sessions and their overlay -/

/-- `b.session(sessionID)`. -/
def session (sessionID : String) : M Volume := do
  let found : Option Volume ← access (.lookupSession sessionID)
  match found with
  | some volume => pure volume
  | none => throw .notFound

/-- `readDirtyChunk`. -/
def readDirtyChunk (id : String) (index chunkSize : Int64) : M Bytes := do
  let chunk : Bytes ← outside (perform (.readFile id index))
  ofResult (normalizeChunk chunk chunkSize)

/-- `readDirtyRange`. -/
def readDirtyRange (id : String) (index offset length : Int64) : M Bytes := do
  let part : Bytes ← outside (perform (.readFileAt id index offset length))
  pure (padTo 0 part (natOf length))

/-- `clearDirtyOverlay`. -/
def clearDirtyOverlay (id : String) : M Unit := do
  let () ← outside (perform (.removeAll id))
  let () ← outside (perform (.mkdirAll id))
  access (.resetDirty id)

/-- The loop of `flushDirtyOverlay`. -/
def syncFiles (id : String) : List Int64 → M Unit
  | [] => pure ()
  | index :: rest => do
    let () ← outside (perform (.syncFile id index))
    syncFiles id rest

/-- `flushDirtyOverlay`. -/
def flushDirtyOverlay (id : String) : M Unit := do
  let indexes : List Int64 ← access (.dirtyIndexes id)
  syncFiles id indexes
  outside (perform (.syncDir id))

/-- `FlushDirty`. -/
def flushDirty (sessionID : String) : M Unit := do
  let _ ← session sessionID
  flushDirtyOverlay sessionID

variable (P : Platform) (b : Backend)

/-! ## Chunks -/

/-- The tail of `resolveChunk` and `resolveChunkRange`: fetch a chunk the cache does not hold. The
answer is `none` where the store has no such object. -/
def fetchChunk (id : String) (volume : Volume) (chunkID : String) : M (Option Bytes) := do
  let _ ← access (.count id .cacheMisses)
  let got : Except Err Bytes ← attempt (perform (.storeGet (chunkKey chunkID)))
  match got with
  | .error .notFound =>
    let _ ← access (.count id .zeroFills)
    pure none
  | .error err => throw err
  | .ok remote =>
    let _ ← access (.count id .remoteFetches)
    let remote ← ofResult (normalizeChunk remote volume.chunkSize)
    b.cache.put P chunkID remote
    pure (some remote)

/-- What `resolveChunk` and `resolveChunkRange` share: the overlay, else the base's chunk from the
cache or the store, else zeroes. They differ in how they read the overlay and the cache, in what they
do to what the cache returns (`hit`) and in the part of a fetched chunk they return. -/
def resolveWith (id : String) (volume : Volume) (index : Int64) (dirtyPart : M Bytes)
    (cachedPart : String → M (Option Bytes)) (hit : Bytes → M Bytes) (part : Bytes → Bytes)
    (zeroes : Bytes) : M Bytes := do
  let dirty : Bool ← access (.isDirty id index)
  if dirty then
    dirtyPart
  else
    let base : Option String ← access (.baseChunk id index)
    match base with
    | none =>
      let _ ← access (.count id .zeroFills)
      pure zeroes
    | some chunkID =>
      match ← cachedPart chunkID with
      | some cached =>
        let _ ← access (.count id .cacheHits)
        hit cached
      | none =>
        match ← fetchChunk P b id volume chunkID with
        | some remote => pure (part remote)
        | none => pure zeroes

/-- `resolveChunk`. -/
def resolveChunk (id : String) (volume : Volume) (index : Int64) : M Bytes :=
  resolveWith P b id volume index (readDirtyChunk id index volume.chunkSize)
    (fun chunkID => b.cache.get chunkID)
    (fun cached => ofResult (normalizeChunk cached volume.chunkSize)) (fun remote => remote)
    (zeroChunk volume.chunkSize)

/-- `resolveChunkRange`. A cached part is not normalized. -/
def resolveChunkRange (id : String) (volume : Volume) (index chunkOffset length : Int64) :
    M Bytes :=
  resolveWith P b id volume index (readDirtyRange id index chunkOffset length)
    (fun chunkID => b.cache.getRange chunkID chunkOffset length) (fun cached => pure cached)
    (fun remote => slice remote (natOf chunkOffset) (natOf length)) (zeroChunk length)

/-! ## Manifests -/

/-- `loadManifest`. -/
def loadManifest (key : String) : M Manifest := do
  let raw : Bytes ← outside (perform (.storeGet key))
  match P.unmarshal raw with
  | none => throw .io
  | some wire => ofResult (manifestFromWire wire)

/-- `saveManifest`. -/
def saveManifest (key : String) (manifest : Manifest) : M Unit :=
  outside (perform (.storePut key (P.marshalIndent (manifestToWire manifest))))

/-! ## Volumes and sessions -/

/-- `CreateVolume`. -/
def createVolume (id : String) (sizeBytes chunkSize : Int64) : M Volume := do
  let id : String ← if id = "" then access .newString else pure id
  outside (perform (.createVolume ⟨id, sizeBytes, chunkSize, "", ""⟩))

/-- The manifest a session of `volume` starts from. -/
def latestManifest (volume : Volume) : M Manifest := do
  if volume.latestSnapshotID ≠ "" then
    let snapshot : Snapshot ← outside (perform (.getSnapshot volume.latestSnapshotID))
    loadManifest P snapshot.manifestKey
  else
    pure ∅

/-- `StartSession`. The session is registered before the volume's last node is recorded. -/
def startSession (volumeID : String) : M String := do
  let volume : Volume ← outside (perform (.getVolume volumeID))
  let manifest ← latestManifest P volume
  let sessionID : String ← access .newString
  let () ← outside (perform (.mkdirAll sessionID))
  let _ ← access (.addSession sessionID ⟨volume, volume.latestSnapshotID, manifest, ∅⟩)
  let updated : Except Err Unit ← attempt (perform (.updateLastNode volumeID b.nodeID))
  match updated with
  | .ok () => pure sessionID
  | .error err =>
    let _ ← access (.deleteSession sessionID)
    let _ : Except Err Unit ← attempt (perform (.removeAll sessionID))
    throw err

/-- `Stop`. -/
def stop (sessionID : String) : M Unit := do
  let ok : Bool ← access (.deleteSession sessionID)
  if ok then outside (perform (.removeAll sessionID)) else throw .notFound

/-! ## Reading and writing -/

/-- Go's `s[lo:hi]`. -/
def sliceOf (s : Bytes) (lo hi : Int64) : Except Err Bytes :=
  if 0 ≤ lo.toInt ∧ lo.toInt ≤ hi.toInt ∧ hi.toInt ≤ s.length then
    .ok (slice s (natOf lo) (natOf hi - natOf lo))
  else .error .panic

/-- A slice of `k` bytes from the `n`-th on, inside the buffer. -/
theorem sliceOf_ok {s : Bytes} {pos len : Int64} {n k : Nat} (hpos : pos.toInt = n) (hlen : len.toInt = k)
    (hle : n + k ≤ s.length) (hmax : n + k < 2 ^ 63) : sliceOf s pos (pos + len) = .ok (slice s n k) := by
  have hstop : (pos + len).toInt = (n + k : Nat) := by
    rw [toInt_add_of_bounds (by omega)]
    omega
  rw [sliceOf, if_pos (by omega), natOf, natOf, hpos, hstop, Int.toNat_natCast, Int.toNat_natCast,
    Nat.add_sub_cancel_left]

/-- The loop of `Read`: each part is copied behind the ones before it. -/
def readRanges (id : String) (volume : Volume) : List ChunkRange → Bytes → Int64 → M Bytes
  | [], out, _ => pure out
  | r :: rest, out, outPos => do
    let partLen := r.reqEnd - r.reqStart
    let part ← resolveChunkRange P b id volume r.index r.chunkStart partLen
    let _ ← ofResult (sliceOf out outPos (outPos + partLen))
    readRanges id volume rest (overwrite out (natOf outPos) (part.take (natOf partLen)))
      (outPos + partLen)

/-- `Read`. -/
def read (sessionID : String) (offset length : Int64) : M Bytes := do
  let volume ← session sessionID
  if offset + length > volume.sizeBytes then throw (.errorf "read exceeds volume size" [])
  else
    let ranges ← ofResult (chunkIndexes offset length volume.chunkSize)
    readRanges P b sessionID volume ranges (zeroChunk length) 0

/-- The chunk `Write` is about to change. -/
def chunkToWrite (id : String) (volume : Volume) (index : Int64) : M Bytes := do
  let dirty : Bool ← access (.isDirty id index)
  if dirty then readDirtyChunk id index volume.chunkSize else resolveChunk P b id volume index

/-- The loop of `Write`: the file is written before the chunk is marked. -/
def writeRanges (id : String) (volume : Volume) (data : Bytes) :
    List ChunkRange → Int64 → M Unit
  | [], _ => pure ()
  | r :: rest, dataPos => do
    let chunk ← chunkToWrite P b id volume r.index
    let partLen := r.reqEnd - r.reqStart
    let part ← ofResult (sliceOf data dataPos (dataPos + partLen))
    let () ← outside (perform (.writeFile id r.index (overwrite chunk (natOf r.chunkStart) part)))
    let _ ← access (.setDirty id r.index)
    writeRanges id volume data rest (dataPos + partLen)

/-- `Write`. -/
def write (sessionID : String) (offset : Int64) (data : Bytes) : M Unit := do
  let volume ← session sessionID
  let length := Int64.ofNat data.length
  if offset < 0 ∨ offset + length > volume.sizeBytes then
    throw (.errorf "write exceeds volume size" [])
  else
    let ranges ← ofResult (chunkIndexes offset length volume.chunkSize)
    writeRanges P b sessionID volume data ranges 0

/-! ## Commit -/

/-- A dirty chunk of a batch, read and hashed. -/
structure DirtyChunk where
  index : Int64
  id : String
  bytes : Bytes
  deriving DecidableEq, Repr

/-- The first loop of `commitDirtyBatch`: every chunk of the batch is read before any is uploaded. -/
def readBatch (id : String) (volume : Volume) : List Int64 → M (List DirtyChunk)
  | [] => pure []
  | idx :: rest => do
    let chunk ← readDirtyChunk id idx volume.chunkSize
    let chunkID : String ← access (.hashChunk chunk)
    let batch ← readBatch id volume rest
    pure (⟨idx, chunkID, chunk⟩ :: batch)

/-- Upload one chunk unless the store has it; the answer says whether it was uploaded. -/
def uploadChunk (item : DirtyChunk) : M Bool := do
  let found : Bool ← outside (perform (.storeExists (chunkKey item.id)))
  if found then
    pure false
  else
    let () ← outside (perform (.storePut (chunkKey item.id) item.bytes))
    pure true

/-- The second loop of `commitDirtyBatch`. -/
def uploadBatch : List DirtyChunk → Manifest → CommitBatchStats → M (Manifest × CommitBatchStats)
  | [], manifest, stats => pure (manifest, stats)
  | item :: rest, manifest, stats => do
    let uploaded ← uploadChunk item
    b.cache.put P item.id item.bytes
    uploadBatch rest (manifest.insert item.index item.id)
      (stats.add ⟨1, if uploaded then 1 else 0, if uploaded then 0 else 1, item.bytes.length⟩)

/-- `commitDirtyBatch`. -/
def commitDirtyBatch (id : String) (volume : Volume) (indexes : List Int64) (manifest : Manifest) :
    M (Manifest × CommitBatchStats) := do
  let batch ← readBatch id volume indexes
  uploadBatch P b batch manifest ⟨0, 0, 0, 0⟩

/-- `progress(p)`. -/
def progress (opts : CommitOptions) (p : CommitProgress) : M Unit :=
  if opts.onProgress then access (.onProgress p) else pure ()

/-- What a commit reports before it has a snapshot id. -/
def chunkProgress (phase : String) (total : Nat) (stats : CommitBatchStats) (manifest : Manifest) :
    CommitProgress :=
  ⟨phase, stats.chunks, total, stats.uploaded, stats.skipped, stats.bytes, "", "",
    manifest.entries.length⟩

/-- What a commit reports once it has one. -/
def snapshotProgress (phase : String) (total : Nat) (stats : CommitBatchStats)
    (manifest : Manifest) (snapshotID : String) : CommitProgress :=
  { chunkProgress phase total stats manifest with
    snapshotID := snapshotID, manifestKey := manifestKey snapshotID }

/-- The loop over batches, with as many turns as `fuel`. -/
def commitBatches (opts : CommitOptions) (id : String) (volume : Volume) (total batchSize : Nat) :
    Nat → List Int64 → Manifest → CommitBatchStats → M (Manifest × CommitBatchStats)
  | 0, _, manifest, stats => pure (manifest, stats)
  | fuel + 1, indexes, manifest, stats =>
    if indexes = [] then pure (manifest, stats)
    else do
      let (manifest, batch) ←
        commitDirtyBatch P b id volume (indexes.take batchSize) manifest
      let stats := stats.add batch
      progress opts (chunkProgress "chunks" total stats manifest)
      commitBatches opts id volume total batchSize fuel (indexes.drop batchSize) manifest stats

/-- `opts.UploadBatchChunks`, or its default. -/
def uploadBatchChunks (opts : CommitOptions) : Nat :=
  if opts.uploadBatchChunks ≤ 0 then 16 else natOf opts.uploadBatchChunks

/-- Save the manifest under a new name and record the snapshot. -/
def recordSnapshot (opts : CommitOptions) (volume : Volume) (total : Nat) (manifest : Manifest)
    (stats : CommitBatchStats) : M Snapshot := do
  let snapshotID : String ← access .newString
  progress opts (snapshotProgress "save_manifest" total stats manifest snapshotID)
  saveManifest P (manifestKey snapshotID) manifest
  let snapshot : Snapshot := ⟨snapshotID, volume.volumeID, manifestKey snapshotID⟩
  progress opts (snapshotProgress "record_snapshot" total stats manifest snapshotID)
  let () ← outside (perform (.createSnapshot snapshot))
  pure snapshot

/-- Move the volume and the session to a recorded snapshot, and clear the overlay. -/
def moveTo (opts : CommitOptions) (id : String) (total : Nat) (manifest : Manifest)
    (stats : CommitBatchStats) (snapshot : Snapshot) : M Snapshot := do
  let report (phase : String) : M Unit :=
    progress opts (snapshotProgress phase total stats manifest snapshot.snapshotID)
  report "update_volume"
  let () ← outside (perform (.updateLatestSnapshot snapshot.volumeID snapshot.snapshotID))
  let _ ← access (.setBase id snapshot.snapshotID manifest)
  report "clear_dirty"
  clearDirtyOverlay id
  report "done"
  pure snapshot

/-- The part of `CommitWithOptions` before anything moves: upload the dirty chunks, then record a
snapshot of them over the base manifest. -/
def prepareSnapshot (sessionID : String) (opts : CommitOptions) (volume : Volume)
    (manifest : Manifest) (dirtyIndexes : List Int64) : M (Manifest × CommitBatchStats × Snapshot) := do
  let total := dirtyIndexes.length
  progress opts (chunkProgress "start" total ⟨0, 0, 0, 0⟩ manifest)
  let (manifest, stats) ← commitBatches P b opts sessionID volume total
    (uploadBatchChunks opts) total dirtyIndexes manifest ⟨0, 0, 0, 0⟩
  let snapshot ← recordSnapshot P opts volume total manifest stats
  pure (manifest, stats, snapshot)

/-- `CommitWithOptions`, from the base manifest and the keys of the dirty map on. -/
def commitCollected (sessionID : String) (opts : CommitOptions) (volume : Volume)
    (manifest : Manifest) (keys : List Int64) : M Snapshot := do
  let dirtyIndexes := keys.insertionSort (· ≤ ·)
  let (manifest, stats, snapshot) ←
    prepareSnapshot P b sessionID opts volume manifest dirtyIndexes
  moveTo opts sessionID dirtyIndexes.length manifest stats snapshot

/-- `CommitWithOptions`. The dirty indexes are taken ONCE, before the first batch is read. -/
def commitWithOptions (sessionID : String) (opts : CommitOptions) : M Snapshot := do
  let volume ← session sessionID
  let manifest : Manifest ← access (.baseManifest sessionID)
  let keys : List Int64 ← access (.dirtyIndexes sessionID)
  commitCollected P b sessionID opts volume manifest keys

/-- `Commit`. -/
def commit (sessionID : String) : M Snapshot := commitWithOptions P b sessionID ⟨0, false⟩

end Backend

end OrcaBlocks.Storage
