/-
# OrcaBlocks.Services.Images — base images and the volumes made from them.

`cmd/base-image-service` imports a root file system into a new volume, commits it and records the
snapshot as a base image. `cmd/control-service` starts an env on a NEW volume whose first snapshot
is the base image's: two volumes then share one manifest, and it is only the sizes copied by
`startEnv` that keep it meaningful for both.

What these services do besides calling `pkg/storage` (building the file with docker, logging,
launching the VM, the `envs` table) is not modelled.
-/
import OrcaBlocks.Storage.Backend

namespace OrcaBlocks.Services

open OrcaBlocks.Lib OrcaBlocks.Storage

variable (P : Platform) (b : Backend)

/-- The loop of `importFile`. `parts` are the buffers `io.ReadFull` filled, `readErr` the error that
ended the reading if it was not the end of the file. -/
def importParts (sessionID : String) (readErr : Option Err) : List Bytes → Int64 → M Unit
  | [], _ =>
    match readErr with
    | some err => throw err
    | none => pure ()
  | part :: rest, offset => do
    b.write P sessionID offset part
    importParts sessionID readErr rest (offset + Int64.ofNat part.length)

/-- `importFile`. The session is stopped whatever happens, and the error of that is dropped. -/
def importFile (volume : Volume) (parts : List Bytes) (readErr : Option Err) : M Snapshot := do
  let sessionID ← b.startSession P volume.volumeID
  let imported : Except Err Snapshot ← attempt (do
    importParts P b sessionID readErr parts 0
    b.commitWithOptions P sessionID ⟨0, true⟩ : M Snapshot).run
  let _ : Except Err Unit ← attempt (Backend.stop sessionID).run
  ofResult imported

/-- `runBuild`, from the finished root file system on. -/
def runBuild (size chunkSize : Int64) (parts : List Bytes) (readErr : Option Err) :
    M BaseImage := do
  let imageUUID : String ← access .newString
  let volumeUUID : String ← access .newString
  let volume ← Backend.createVolume ("base-vol-" ++ volumeUUID) size chunkSize
  let snapshot ← importFile P b volume parts readErr
  outside (perform (.createBaseImage
    ⟨"base-" ++ imageUUID, volume.volumeID, snapshot.snapshotID⟩))

/-- `startEnv`, up to the env's volume. `resolveBaseImage` by reference answers one of the recorded
images too, so the image is named by its id. -/
def startEnv (baseImageID : String) : M Volume := do
  let base : BaseImage ← outside (perform (.getBaseImage baseImageID))
  let baseVolume : Volume ← outside (perform (.getVolume base.volumeID))
  let _ : String ← access .newString
  let envVolumeUUID : String ← access .newString
  outside (perform (.createVolume ⟨"env-vol-" ++ envVolumeUUID, baseVolume.sizeBytes,
    baseVolume.chunkSize, base.snapshotID, ""⟩))

end OrcaBlocks.Services
