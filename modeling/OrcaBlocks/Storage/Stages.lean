/-
# OrcaBlocks.Storage.Stages — `Write` and `CommitWithOptions` cut into the steps at which they can be interleaved.

The session has no lock. `Write` looks a chunk up in the dirty map, loads it, writes its file and marks it, range after
range; `CommitWithOptions` collects the dirty indexes, reads and uploads the chunks, records a snapshot, moves the
pointers to it and drops the overlay. The stages here are these steps, and the calls in stages are the same functions:
flattened, they ARE `Backend.write` and `Backend.commitWithOptions` (`flatten_stagedWrite`, `flatten_stagedCommit`).
-/
import OrcaBlocks.Lib.Staged
import OrcaBlocks.Storage.FlatArray

namespace OrcaBlocks.Storage

open OrcaBlocks.Lib

/-- What a stage is. All that a commit does between the collection of the dirty indexes and the move of the pointers
is `prepare`. -/
inductive Point where
  | enter
  | look (index : Int64)
  | load (index : Int64)
  | store (index : Int64)
  | mark (index : Int64)
  | collect
  | prepare
  | move
  | clear
  deriving DecidableEq, Repr

abbrev StagedCall (α : Type) := Staged sig Point (Except Err α)

namespace Backend

variable (P : Platform) (b : Backend)

/-! ## `Write` -/

/-- What `Write` loads of a chunk once it has looked it up. -/
def loadChunk (id : String) (volume : Volume) (index : Int64) (dirty : Bool) : M Bytes :=
  if dirty then readDirtyChunk id index volume.chunkSize else resolveChunk P b id volume index

/-- The last stage of a turn of the loop: the chunk is marked. -/
def markThen (id : String) (index : Int64) (rest : StagedCall Unit) : StagedCall Unit :=
  (Staged.once (.mark index) (access (.setDirty id index))).andThen fun _ => rest

/-- The file is written before the chunk is marked. -/
def storeThen (id : String) (index : Int64) (chunk : Bytes) (rest : StagedCall Unit) : StagedCall Unit :=
  (Staged.once (.store index) (outside (perform (.writeFile id index chunk)))).andThen fun _ =>
  markThen id index rest

/-- What is written is a copy of the chunk as it was loaded, with the part patched in. -/
def loadThen (id : String) (volume : Volume) (r : ChunkRange) (part : Except Err Bytes) (dirty : Bool)
    (rest : StagedCall Unit) : StagedCall Unit :=
  (Staged.once (.load r.index) (loadChunk P b id volume r.index dirty)).andThen fun chunk =>
  match part with
  | .error e => .done (.error e)
  | .ok part => storeThen id r.index (overwrite chunk (natOf r.chunkStart) part) rest

def stagedWriteRanges (id : String) (volume : Volume) (data : Bytes) :
    List ChunkRange → Int64 → StagedCall Unit
  | [], _ => .done (.ok ())
  | r :: rest, dataPos =>
    let partLen := r.reqEnd - r.reqStart
    (Staged.once (.look r.index) (access (.isDirty id r.index))).andThen fun dirty =>
    loadThen P b id volume r (sliceOf data dataPos (dataPos + partLen)) dirty
      (stagedWriteRanges id volume data rest (dataPos + partLen))

def stagedWrite (sessionID : String) (offset : Int64) (data : Bytes) : StagedCall Unit :=
  (Staged.once .enter (session sessionID)).andThen fun volume =>
    let length := Int64.ofNat data.length
    if offset < 0 ∨ offset + length > volume.sizeBytes then
      .done (.error (.errorf "write exceeds volume size" []))
    else
      match chunkIndexes offset length volume.chunkSize with
      | .error e => .done (.error e)
      | .ok ranges => stagedWriteRanges P b sessionID volume data ranges 0

/-! ## `CommitWithOptions` -/

def stagedReadBatch (id : String) (volume : Volume) : List Int64 → StagedCall (List DirtyChunk)
  | [] => .done (.ok [])
  | idx :: rest =>
    (Staged.once .prepare (do
      let chunk ← readDirtyChunk id idx volume.chunkSize
      let chunkID : String ← access (.hashChunk chunk)
      pure (⟨idx, chunkID, chunk⟩ : DirtyChunk))).andThen fun item =>
    (stagedReadBatch id volume rest).andThen fun batch =>
    .done (.ok (item :: batch))

def stagedUploadBatch : List DirtyChunk → Manifest → CommitBatchStats →
    StagedCall (Manifest × CommitBatchStats)
  | [], manifest, stats => .done (.ok (manifest, stats))
  | item :: rest, manifest, stats =>
    (Staged.once .prepare (do
      let uploaded ← uploadChunk item
      b.cache.put P item.id item.bytes
      pure uploaded)).andThen fun uploaded =>
    stagedUploadBatch rest (manifest.insert item.index item.id)
      (stats.add ⟨1, if uploaded then 1 else 0, if uploaded then 0 else 1, item.bytes.length⟩)

def stagedCommitBatches (opts : CommitOptions) (id : String) (volume : Volume) (total batchSize : Nat) :
    Nat → List Int64 → Manifest → CommitBatchStats → StagedCall (Manifest × CommitBatchStats)
  | 0, _, manifest, stats => .done (.ok (manifest, stats))
  | fuel + 1, indexes, manifest, stats =>
    if indexes = [] then .done (.ok (manifest, stats))
    else
      (stagedReadBatch id volume (indexes.take batchSize)).andThen fun batch =>
      (stagedUploadBatch P b batch manifest ⟨0, 0, 0, 0⟩).andThen fun (manifest, batch) =>
      (Staged.once .prepare
        (progress opts (chunkProgress "chunks" total (stats.add batch) manifest))).andThen fun _ =>
      stagedCommitBatches opts id volume total batchSize fuel (indexes.drop batchSize) manifest
        (stats.add batch)

def stagedRecordSnapshot (opts : CommitOptions) (volume : Volume) (total : Nat) (manifest : Manifest)
    (stats : CommitBatchStats) : StagedCall Snapshot :=
  (Staged.once .prepare (do
    let snapshotID : String ← access .newString
    progress opts (snapshotProgress "save_manifest" total stats manifest snapshotID)
    saveManifest P (manifestKey snapshotID) manifest
    pure snapshotID)).andThen fun snapshotID =>
  (Staged.once .prepare (do
    let snapshot : Snapshot := ⟨snapshotID, volume.volumeID, manifestKey snapshotID⟩
    progress opts (snapshotProgress "record_snapshot" total stats manifest snapshotID)
    let () ← outside (perform (.createSnapshot snapshot))
    pure snapshot)).andThen fun snapshot =>
  .done (.ok snapshot)

def stagedPrepare (sessionID : String) (opts : CommitOptions) (volume : Volume) (manifest : Manifest)
    (dirtyIndexes : List Int64) : StagedCall (Manifest × CommitBatchStats × Snapshot) :=
  let total := dirtyIndexes.length
  (Staged.once .prepare (progress opts (chunkProgress "start" total ⟨0, 0, 0, 0⟩ manifest))).andThen fun _ =>
  (stagedCommitBatches P b opts sessionID volume total (uploadBatchChunks opts) total dirtyIndexes manifest
    ⟨0, 0, 0, 0⟩).andThen fun (manifest, stats) =>
  (stagedRecordSnapshot P opts volume total manifest stats).andThen fun snapshot =>
  .done (.ok (manifest, stats, snapshot))

/-- The pointers of the volume and of the session move to the snapshot. -/
def movePointer (opts : CommitOptions) (id : String) (total : Nat) (manifest : Manifest)
    (stats : CommitBatchStats) (snapshot : Snapshot) : M Unit := do
  progress opts (snapshotProgress "update_volume" total stats manifest snapshot.snapshotID)
  let () ← outside (perform (.updateLatestSnapshot snapshot.volumeID snapshot.snapshotID))
  access (.setBase id snapshot.snapshotID manifest)

/-- The overlay is dropped, and the call returns. -/
def dropOverlay (opts : CommitOptions) (id : String) (total : Nat) (manifest : Manifest)
    (stats : CommitBatchStats) (snapshot : Snapshot) : M Unit := do
  progress opts (snapshotProgress "clear_dirty" total stats manifest snapshot.snapshotID)
  clearDirtyOverlay id
  progress opts (snapshotProgress "done" total stats manifest snapshot.snapshotID)

/-- The last stage of a commit. -/
def clearThen (opts : CommitOptions) (id : String) (total : Nat) (manifest : Manifest)
    (stats : CommitBatchStats) (snapshot : Snapshot) : StagedCall Snapshot :=
  (Staged.once .clear (dropOverlay opts id total manifest stats snapshot)).andThen fun _ =>
  .done (.ok snapshot)

def stagedMoveTo (opts : CommitOptions) (id : String) (total : Nat) (manifest : Manifest)
    (stats : CommitBatchStats) (snapshot : Snapshot) : StagedCall Snapshot :=
  (Staged.once .move (movePointer opts id total manifest stats snapshot)).andThen fun _ =>
  clearThen opts id total manifest stats snapshot

/-- From the collection of the dirty indexes on. -/
def collectThen (sessionID : String) (opts : CommitOptions) (volume : Volume) : StagedCall Snapshot :=
  (Staged.once .collect (do
    let manifest : Manifest ← access (.baseManifest sessionID)
    let keys : List Int64 ← access (.dirtyIndexes sessionID)
    pure (manifest, keys))).andThen fun (manifest, keys) =>
  let dirtyIndexes := keys.insertionSort (· ≤ ·)
  (stagedPrepare P b sessionID opts volume manifest dirtyIndexes).andThen fun (manifest, stats, snapshot) =>
  stagedMoveTo opts sessionID dirtyIndexes.length manifest stats snapshot

def stagedCommit (sessionID : String) (opts : CommitOptions) : StagedCall Snapshot :=
  (Staged.once .enter (session sessionID)).andThen fun volume =>
  collectThen P b sessionID opts volume

/-! ## They are the same functions -/

section Flatten

variable {P b}

theorem flatten_stagedWriteRanges (id : String) (volume : Volume) (data : Bytes) (rs : List ChunkRange)
    (dataPos : Int64) :
    (stagedWriteRanges P b id volume data rs dataPos).flatten = (writeRanges P b id volume data rs dataPos).run := by
  induction rs generalizing dataPos with
  | nil => rfl
  | cons r rs ih =>
    simp only [stagedWriteRanges, loadThen, writeRanges, chunkToWrite]
    cases sliceOf data dataPos (dataPos + (r.reqEnd - r.reqStart)) with
    | error e =>
      simp only [Staged.flatten_andThen, Staged.flatten_once, bind_assoc]
      rfl
    | ok part =>
      simp only [storeThen, markThen, Staged.flatten_andThen, Staged.flatten_once, ih, bind_assoc]
      rfl

/-- **`Write` in stages is `Write`.** -/
theorem flatten_stagedWrite (sessionID : String) (offset : Int64) (data : Bytes) :
    (stagedWrite P b sessionID offset data).flatten = (write P b sessionID offset data).run := by
  unfold stagedWrite write
  rw [Staged.flatten_andThen, Staged.flatten_once]
  refine congrArg (fun rest => (session sessionID >>= rest : M Unit).run) (funext fun volume => ?_)
  dsimp only
  split
  · rfl
  · cases chunkIndexes offset (Int64.ofNat data.length) volume.chunkSize with
    | error e => rfl
    | ok ranges => exact flatten_stagedWriteRanges sessionID volume data ranges 0

theorem flatten_stagedReadBatch (id : String) (volume : Volume) (indexes : List Int64) :
    (stagedReadBatch id volume indexes).flatten = (readBatch id volume indexes).run := by
  induction indexes with
  | nil => rfl
  | cons idx rest ih =>
    simp only [stagedReadBatch, readBatch, Staged.flatten_andThen, Staged.flatten_once, ih, ExceptT.mk_run,
      bind_assoc, pure_bind]
    rfl

theorem flatten_stagedUploadBatch (batch : List DirtyChunk) (manifest : Manifest) (stats : CommitBatchStats) :
    (stagedUploadBatch P b batch manifest stats).flatten = (uploadBatch P b batch manifest stats).run := by
  induction batch generalizing manifest stats with
  | nil => rfl
  | cons item rest ih =>
    simp only [stagedUploadBatch, uploadBatch, Staged.flatten_andThen, Staged.flatten_once, ih, ExceptT.mk_run,
      bind_assoc, pure_bind]

theorem flatten_stagedCommitBatches (opts : CommitOptions) (id : String) (volume : Volume) (total batchSize fuel : Nat)
    (indexes : List Int64) (manifest : Manifest) (stats : CommitBatchStats) :
    (stagedCommitBatches P b opts id volume total batchSize fuel indexes manifest stats).flatten =
      (commitBatches P b opts id volume total batchSize fuel indexes manifest stats).run := by
  induction fuel generalizing indexes manifest stats with
  | zero => rfl
  | succ fuel ih =>
    unfold stagedCommitBatches commitBatches
    split
    · rfl
    · simp only [commitDirtyBatch, Staged.flatten_andThen, Staged.flatten_once, flatten_stagedReadBatch,
        flatten_stagedUploadBatch, ih, ExceptT.mk_run, bind_assoc]

theorem flatten_stagedRecordSnapshot (opts : CommitOptions) (volume : Volume) (total : Nat) (manifest : Manifest)
    (stats : CommitBatchStats) :
    (stagedRecordSnapshot P opts volume total manifest stats).flatten =
      (recordSnapshot P opts volume total manifest stats).run := by
  simp only [stagedRecordSnapshot, recordSnapshot, Staged.flatten_andThen, Staged.flatten_once, ExceptT.mk_run,
    bind_assoc, pure_bind]
  rfl

theorem flatten_stagedPrepare (sessionID : String) (opts : CommitOptions) (volume : Volume) (manifest : Manifest)
    (dirtyIndexes : List Int64) :
    (stagedPrepare P b sessionID opts volume manifest dirtyIndexes).flatten =
      (prepareSnapshot P b sessionID opts volume manifest dirtyIndexes).run := by
  simp only [stagedPrepare, prepareSnapshot, Staged.flatten_andThen, Staged.flatten_once,
    flatten_stagedCommitBatches, flatten_stagedRecordSnapshot, ExceptT.mk_run]
  rfl

theorem flatten_stagedMoveTo (opts : CommitOptions) (id : String) (total : Nat) (manifest : Manifest)
    (stats : CommitBatchStats) (snapshot : Snapshot) :
    (stagedMoveTo opts id total manifest stats snapshot).flatten =
      (moveTo opts id total manifest stats snapshot).run := by
  simp only [stagedMoveTo, clearThen, moveTo, movePointer, dropOverlay, Staged.flatten_andThen, Staged.flatten_once,
    ExceptT.mk_run, bind_assoc]
  rfl

/-- **`CommitWithOptions` in stages is `CommitWithOptions`.** -/
theorem flatten_stagedCommit (sessionID : String) (opts : CommitOptions) :
    (stagedCommit P b sessionID opts).flatten = (commitWithOptions P b sessionID opts).run := by
  simp only [stagedCommit, collectThen, commitWithOptions, commitCollected, Staged.flatten_andThen,
    Staged.flatten_once, flatten_stagedPrepare, flatten_stagedMoveTo, ExceptT.mk_run, bind_assoc, pure_bind]

end Flatten

/-! ## The stages before the pointers move -/

section Prepare

variable {P b}

theorem only_prepare {α : Type} (x : M α) : (Staged.once Point.prepare x).Only (· = .prepare) :=
  Staged.only_once rfl x

theorem only_stagedReadBatch (id : String) (volume : Volume) (indexes : List Int64) :
    (stagedReadBatch id volume indexes).Only (· = .prepare) := by
  induction indexes with
  | nil => exact trivial
  | cons idx rest ih =>
    unfold stagedReadBatch
    refine Staged.Only.andThen (only_prepare _) fun item => ?_
    refine Staged.Only.andThen ih fun batch => ?_
    exact trivial

theorem only_stagedUploadBatch (batch : List DirtyChunk) (manifest : Manifest) (stats : CommitBatchStats) :
    (stagedUploadBatch P b batch manifest stats).Only (· = .prepare) := by
  induction batch generalizing manifest stats with
  | nil => exact trivial
  | cons item rest ih =>
    unfold stagedUploadBatch
    refine Staged.Only.andThen (only_prepare _) fun uploaded => ?_
    exact ih _ _

theorem only_stagedCommitBatches (opts : CommitOptions) (id : String) (volume : Volume) (total batchSize fuel : Nat)
    (indexes : List Int64) (manifest : Manifest) (stats : CommitBatchStats) :
    (stagedCommitBatches P b opts id volume total batchSize fuel indexes manifest stats).Only (· = .prepare) := by
  induction fuel generalizing indexes manifest stats with
  | zero => exact trivial
  | succ fuel ih =>
    unfold stagedCommitBatches
    split
    · exact trivial
    · refine Staged.Only.andThen (only_stagedReadBatch id volume _) fun batch => ?_
      refine Staged.Only.andThen (only_stagedUploadBatch batch manifest _) fun uploaded => ?_
      refine Staged.Only.andThen (only_prepare _) fun _ => ?_
      exact ih _ _ _

theorem only_stagedPrepare (sessionID : String) (opts : CommitOptions) (volume : Volume) (manifest : Manifest)
    (dirtyIndexes : List Int64) :
    (stagedPrepare P b sessionID opts volume manifest dirtyIndexes).Only (· = .prepare) := by
  unfold stagedPrepare
  refine Staged.Only.andThen (only_prepare _) fun _ => ?_
  refine Staged.Only.andThen
    (only_stagedCommitBatches opts sessionID volume _ _ _ dirtyIndexes manifest _) fun built => ?_
  refine Staged.Only.andThen ?_ fun snapshot => ?_
  · unfold stagedRecordSnapshot
    refine Staged.Only.andThen (only_prepare _) fun snapshotID => ?_
    refine Staged.Only.andThen (only_prepare _) fun snapshot => ?_
    exact trivial
  · exact trivial

end Prepare

end Backend

end OrcaBlocks.Storage
