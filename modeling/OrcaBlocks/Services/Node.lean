/-
# OrcaBlocks.Services.Node — the request handlers of `cmd/node-service`.

A handler is a program over the node's own operations: the sections it runs under one of its locks, the
calls it makes to the storage engine, and the calls that leave the process (files, `nbd-client`, `mount`,
the VM monitor). A locked section is ONE operation; a call that leaves the process answers with an error or
without. The program says nothing about the answers, so one text has several readings: which devices it
holds while other requests run, what is left of a session when a commit fails, what it writes for the VM.

Go's `defer` becomes a combinator. `guarded cleanup x` runs the cleanup if `x` fails, `deferring` in any
case. The flag `detached` of `runFirecrackerSession` makes `detach` run once on every path; here each path
has its one `detach`.

Times and timings are left out. `localNBDClientTarget` is not modelled: the address `nbd-client` connects
to is given by the configured one.
-/
import OrcaBlocks.Lib.Pool
import OrcaBlocks.Services.Firecracker
import OrcaBlocks.Storage.Backend

namespace OrcaBlocks.Services

open OrcaBlocks.Lib
open OrcaBlocks.Storage (Err Volume Snapshot CommitOptions formatInt)

/-! ## Data -/

/-- The fields of `app` the handlers read. -/
structure App where
  nodeID : Text
  nbdAddr : Text
  nbdPublicAddr : Text
  nbdCommitBatch : Int64
  nbdDefaultCommit : Bool
  nbdReadAheadBytes : Int64
  nbdDeviceStart : Int64
  nbdDeviceCount : Int64
  nbdDevicePrefix : Text
  kvmDevice : Text
  firecrackerBin : Text
  firecrackerKernel : Text
  firecrackerRootFS : Text
  firecrackerInitrd : Text
  orcaInitPath : Text
  firecrackerBootMode : Text
  firecrackerWorkDir : Text
  firecrackerNetwork : Bool
  firecrackerGuestDNS : Text
  mountRoot : Text

/-- A node of `docker-compose.yml`; the two differ in their names and in their ranges of devices. -/
def composeNode (nodeID publicAddr : Text) (start : Int64) : App where
  nodeID := nodeID
  nbdAddr := ascii ":10809"
  nbdPublicAddr := publicAddr
  nbdCommitBatch := 16
  nbdDefaultCommit := false
  nbdReadAheadBytes := 0
  nbdDeviceStart := start
  nbdDeviceCount := 8
  nbdDevicePrefix := ascii "/dev/nbd"
  kvmDevice := ascii "/dev/kvm"
  firecrackerBin := ascii "/firecracker-assets/firecracker"
  firecrackerKernel := ascii "/firecracker-assets/vmlinux"
  firecrackerRootFS := ascii "/firecracker-assets/rootfs.ext4"
  firecrackerInitrd := ascii "/firecracker-assets/initramfs.cpio.gz"
  orcaInitPath := ascii "/orca-init"
  firecrackerBootMode := ascii "initramfs"
  firecrackerWorkDir := ascii "/sessions/firecracker"
  firecrackerNetwork := true
  firecrackerGuestDNS := ascii "1.1.1.1"
  mountRoot := ascii "/mnt/orca-sessions"

def nodeOne : App := composeNode (ascii "node-1") (ascii "localhost:11081") 0

/-- The errors of the node service. -/
inductive NodeErr where
  /-- An error of the storage engine. -/
  | storage (err : Err)
  /-- An error for which `os.IsNotExist` holds. -/
  | notExist
  /-- What a call that leaves the process failed with. -/
  | failed (text : Text)
  /-- `fmt.Errorf(format, args...)`; `%w` is the wrapped error. -/
  | errorf (format : String) (args : List Text)
  | wrapped (format : String) (err : NodeErr) (args : List Text)
  /-- `http.Error` with a status of its own. -/
  | status (code : Nat) (text : String)
  /-- A nil map entry was dereferenced. -/
  | nilEntry
  deriving DecidableEq

/-- What the handlers read of a `*storage.Session`. -/
structure NodeSession where
  id : String
  volume : Volume
  baseSnapshotID : String
  deriving DecidableEq

/-- `mountedSession`. -/
structure MountedSession where
  sessionID : String
  nbdDevice : Text
  mountPath : Text
  deriving DecidableEq

/-- The fields of an `nbd.StorageDevice` a node registers. -/
structure ExportedDevice where
  sessionID : String
  sizeBytes : Int64
  commitOnDisconnect : Bool
  uploadBatchChunks : Int64
  readAheadBytes : Int64
  unregisterOnDisconnect : Bool
  deriving DecidableEq

/-- `firecrackerTTYSession`, with what its stop function captured. -/
structure TTYSession where
  sessionID : String
  device : Text
  network : Option FirecrackerNetwork
  stopped : Bool
  deriving DecidableEq

/-- The body of `/sessions/start`. -/
structure StartRequest where
  runtime : Text := []
  volumeID : String
  frontend : Text := []
  commitOnDisconnect : Option Bool := none
  format : Bool := false
  fsType : Text := []
  firecrackerMode : Text := []
  firecrackerPayload : Text := []
  vcpuCount : Int64 := 0
  memoryMiB : Int64 := 0
  imageEnv : List Text := []
  imageWorkingDir : Text := []
  imageUser : Text := []
  commitAfterRun : Option Bool := none
  saveMemory : Bool := false
  restoreMemory : Text := []
  restoreVMState : Text := []
  restoreDevice : Text := []
  deriving DecidableEq

/-- A `map[string]string` that is answered. -/
abbrev Resp := List (Text × Text)

/-! ## Operations -/

/-- The calls that leave the process. -/
inductive Outside where
  -- files
  | statFiles (paths : List Text)
  | preflightNBDDevices (devices : List Text)
  | mkdirAll (path : Text)
  | copyFile (src dst : Text)
  | remove (path : Text)
  | removeAll (path : Text)
  | writeConfig (path : Text) (config : FirecrackerConfig)
  | writeRestoreConfig (path : Text) (config : RestoreConfig)
  -- `runCommand`
  | nbdConnect (addr device name : Text)
  | nbdDisconnect (device : Text)
  | mkfs (device : Text)
  | mount (device path : Text)
  | umount (path : Text)
  | sync
  | flushbufs (device : Text)
  | setupNetwork (network : FirecrackerNetwork)
  | cleanupNetwork (network : FirecrackerNetwork)
  -- the VM monitor's process and its API
  | startProcess (argv : List Text) (serialPath marker : Text)
  | waitForMarkerOrExit
  | wait
  | waitTimeout
  | writeInput (input : Text)
  | waitForPath (path : Text)
  | pause
  | createSnapshot (vmState mem : Text)
  | configureLogger (logPath : Text)
  | loadSnapshot (vmState mem : Text)

/-- The operations of the node service. -/
inductive NodeOp where
  -- under `mountMu`
  | allocateNBDDevicePrefer (preferred : Text)
  | releaseNBDDevice (device : Text)
  | getMount (sessionID : String)
  | putMount (sessionID : String) (mounted : MountedSession)
  | deleteMount (sessionID : String)
  -- under `ttyMu`, and the section of `ttyStop` under the session's own lock
  | getTTY (sessionID : String)
  | putTTY (sessionID : String) (tty : TTYSession)
  | claimStop (sessionID : String)
  | deleteTTY (sessionID : String)
  -- under `nbdMu`
  | registerNBDExport (sessionID : String) (device : ExportedDevice)
  | unregisterNBDExport (sessionID : String)
  -- the storage engine
  | backendStart (volumeID : String)
  | backendCommit (sessionID : String) (opts : CommitOptions)
  | backendStop (sessionID : String)
  | backendFlushDirty (sessionID : String)
  -- the outside
  | outside (call : Outside)
  | output
  | stopProcess

/-- The answers. -/
@[reducible] def NodeOp.Res : NodeOp → Type
  | .allocateNBDDevicePrefer _ => Except NodeErr Text
  | .getMount _ => Option MountedSession
  | .getTTY _ => Option TTYSession
  | .claimStop _ => Bool
  | .backendStart _ => Except Err NodeSession
  | .backendCommit _ _ => Except Err Snapshot
  | .backendStop _ => Except Err Unit
  | .backendFlushDirty _ => Except Err Unit
  | .outside _ => Except NodeErr Unit
  | .output => Text
  | _ => Unit

abbrev nodeSig : Sig := ⟨NodeOp, NodeOp.Res⟩

/-- Programs of the node service. -/
abbrev NodeM := ExceptT NodeErr (Prog nodeSig)

namespace Node

/-- Perform an operation. -/
def ask (o : NodeOp) : NodeM o.Res :=
  liftM (Prog.perform (S := nodeSig) o : Prog nodeSig o.Res)

/-- Perform an operation without an answer of interest. -/
def act (o : NodeOp) : NodeM Unit := do
  let _ ← ask o
  pure ()

/-- Run a program and look at how it ended. -/
def attempt {α : Type} (x : NodeM α) : NodeM (Except NodeErr α) :=
  liftM (x.run : Prog nodeSig (Except NodeErr α))

def ofResult {α : Type} : Except NodeErr α → NodeM α
  | .ok a => pure a
  | .error err => throw err

/-- `if c { return err }`. -/
def failIf (c : Prop) [Decidable c] (err : NodeErr) : NodeM Unit :=
  if c then throw err else pure ()

/-- `fmt.Errorf(format, err)` around an error. -/
def wrapping {α : Type} (format : String) (x : NodeM α) : NodeM α := do
  let result ← attempt x
  ofResult (result.mapError fun err => .wrapped format err [])

/-- Run a program and drop its error. -/
def ignore {α : Type} (x : NodeM α) : NodeM Unit := do
  let _ ← attempt x
  pure ()

/-- A deferred cleanup that runs only if the function fails. -/
def guarded {α : Type} (cleanup : NodeM Unit) (x : NodeM α) : NodeM α := do
  match ← attempt x with
  | .ok a => pure a
  | .error err => do
    ignore cleanup
    throw err

/-- A deferred cleanup that always runs. -/
def deferring {α : Type} (cleanup : NodeM Unit) (x : NodeM α) : NodeM α := do
  let result ← attempt x
  ignore cleanup
  ofResult result

/-- A call that leaves the process. -/
def outside (call : Outside) : NodeM Unit := do
  let answer : Except NodeErr Unit ← ask (.outside call)
  ofResult answer

/-- A call of the storage engine. -/
def ofStorage {α : Type} : Except Err α → NodeM α
  | .ok a => pure a
  | .error err => throw (.storage err)

def backendStart (volumeID : String) : NodeM NodeSession := do
  let answer : Except Err NodeSession ← ask (.backendStart volumeID)
  ofStorage answer

def backendCommit (sessionID : String) (opts : CommitOptions) : NodeM Snapshot := do
  let answer : Except Err Snapshot ← ask (.backendCommit sessionID opts)
  ofStorage answer

def backendStop (sessionID : String) : NodeM Unit := do
  let answer : Except Err Unit ← ask (.backendStop sessionID)
  ofStorage answer

def backendFlushDirty (sessionID : String) : NodeM Unit := do
  let answer : Except Err Unit ← ask (.backendFlushDirty sessionID)
  ofStorage answer

def getMount (sessionID : String) : NodeM (Option MountedSession) := ask (.getMount sessionID)

def getTTY (sessionID : String) : NodeM (Option TTYSession) := ask (.getTTY sessionID)

def claimStop (sessionID : String) : NodeM Bool := ask (.claimStop sessionID)

def output : NodeM Text := ask .output

/-- `allocateNBDDevicePrefer`; without a preference `allocateNBDDevice`. -/
def allocate (preferred : Text) : NodeM Text := do
  let answer : Except NodeErr Text ← ask (.allocateNBDDevicePrefer preferred)
  ofResult answer

/-! The operations of a program and its results, combinator by combinator. -/

section Always

variable {P : NodeOp → Prop} {α : Type} {Q : Except NodeErr α → Prop} {x : NodeM α}

theorem always_ask {o : NodeOp} {Q : Except NodeErr o.Res → Prop} :
    (ask o).run.Always P Q ↔ P o ∧ ∀ r, Q (.ok r) := Iff.rfl

@[simp] theorem always_act {o : NodeOp} {Q : Except NodeErr Unit → Prop} :
    (act o).run.Always P Q ↔ P o ∧ (o.Res → Q (.ok ())) := Iff.rfl

@[simp] theorem always_attempt {Q : Except NodeErr (Except NodeErr α) → Prop} :
    (attempt x).run.Always P Q ↔ x.run.Always P fun r => Q (.ok r) := always_run_lift

@[simp] theorem always_ofResult {r : Except NodeErr α} : (ofResult r).run.Always P Q ↔ Q r := by
  cases r with
  | ok a => rfl
  | error err => rfl

@[simp] theorem always_failIf {c : Prop} [Decidable c] {err : NodeErr}
    {Q : Except NodeErr Unit → Prop} :
    (failIf c err).run.Always P Q ↔ (c → Q (.error err)) ∧ (¬ c → Q (.ok ())) := by
  unfold failIf
  split
  · rename_i h
    simp [h]
  · rename_i h
    simp [h]

@[simp] theorem always_wrapping {format : String} :
    (wrapping format x).run.Always P Q ↔
      x.run.Always P fun r => Q (r.mapError fun err => .wrapped format err []) := by
  simp [wrapping]

@[simp] theorem always_ignore {Q : Except NodeErr Unit → Prop} :
    (ignore x).run.Always P Q ↔ x.run.Always P fun _ => Q (.ok ()) := by
  simp [-bind_pure_comp, ignore]

@[simp] theorem always_guarded {cleanup : NodeM Unit} :
    (guarded cleanup x).run.Always P Q ↔ x.run.Always P fun r =>
      (∀ a, r = .ok a → Q (.ok a)) ∧
        ∀ err, r = .error err → cleanup.run.Always P fun _ => Q (.error err) := by
  unfold guarded
  simp only [always_run_bind, always_attempt, Except.ok.injEq, forall_eq', reduceCtorEq,
    false_implies, implies_true, true_and]
  constructor
  all_goals
    intro h
    refine h.mono (fun _ ho => ho) ?_
    rintro (err | a) hr
    · simpa using hr
    · simpa using hr

@[simp] theorem always_deferring {cleanup : NodeM Unit} :
    (deferring cleanup x).run.Always P Q ↔
      x.run.Always P fun r => cleanup.run.Always P fun _ => Q r := by
  simp [deferring]

@[simp] theorem always_outside {call : Outside} {Q : Except NodeErr Unit → Prop} :
    (outside call).run.Always P Q ↔ P (.outside call) ∧ ∀ r, Q r := by
  refine always_run_bind.trans (always_ask.trans ?_)
  simp

@[simp] theorem always_ofStorage {r : Except Err α} :
    (ofStorage r).run.Always P Q ↔ Q (r.mapError .storage) := by
  cases r with
  | ok a => rfl
  | error err => rfl

@[simp] theorem always_backendCommit {sessionID : String} {opts : CommitOptions}
    {Q : Except NodeErr Snapshot → Prop} :
    (backendCommit sessionID opts).run.Always P Q ↔
      P (.backendCommit sessionID opts) ∧ ∀ r : Except Err Snapshot, Q (r.mapError .storage) := by
  refine always_run_bind.trans (always_ask.trans ?_)
  simp

@[simp] theorem always_backendStop {sessionID : String} {Q : Except NodeErr Unit → Prop} :
    (backendStop sessionID).run.Always P Q ↔
      P (.backendStop sessionID) ∧ ∀ r : Except Err Unit, Q (r.mapError .storage) := by
  refine always_run_bind.trans (always_ask.trans ?_)
  simp

@[simp] theorem always_output {Q : Except NodeErr Text → Prop} :
    output.run.Always P Q ↔ P .output ∧ ∀ serial, Q (.ok serial) := Iff.rfl

end Always

/-! The same combinators in a thread. -/

section Rules

variable {σ L α : Type} {M : Machine nodeSig σ L} {I : σ → Prop} {R G : σ → σ → Prop} {s : σ}
variable {x : NodeM α} {cleanup : NodeM Unit} {P Q : Except NodeErr α → σ → Prop}

theorem wpRG_attempt {Q : Except NodeErr (Except NodeErr α) → σ → Prop} :
    WpRG M I R G (attempt x).run Q s ↔ WpRG M I R G x.run (fun r s' => Q (.ok r) s') s :=
  run_lift_iff

theorem wpRG_ofResult {r : Except NodeErr α} : WpRG M I R G (ofResult r).run Q s ↔ Q r s := by
  cases r with
  | ok a => rfl
  | error err => rfl

theorem wpRG_ignore {Q : Except NodeErr Unit → σ → Prop} :
    WpRG M I R G (ignore x).run Q s ↔ WpRG M I R G x.run (fun _ s' => Q (.ok ()) s') s := by
  rw [ignore, run_bind_iff, wpRG_attempt]
  rfl

theorem wpRG_guarded (h : WpRG M I R G x.run P s) (hok : ∀ a s', P (.ok a) s' → Q (.ok a) s')
    (herr : ∀ err s', P (.error err) s' → WpRG M I R G cleanup.run (fun _ s'' => Q (.error err) s'') s') :
    WpRG M I R G (guarded cleanup x).run Q s := by
  rw [guarded, run_bind_iff, wpRG_attempt]
  refine h.mono ?_
  rintro (err | a) s' hP
  · refine run_bind_iff.mpr (wpRG_ignore.mpr ?_)
    exact herr err s' hP
  · exact hok a s' hP

theorem wpRG_deferring (h : WpRG M I R G x.run P s)
    (hP : ∀ r s', P r s' → WpRG M I R G cleanup.run (fun _ s'' => Q r s'') s') :
    WpRG M I R G (deferring cleanup x).run Q s := by
  rw [deferring, run_bind_iff, wpRG_attempt]
  refine h.mono fun r s' hr => ?_
  refine run_bind_iff.mpr (wpRG_ignore.mpr ((hP r s' hr).mono fun _ s'' hQ => ?_))
  exact wpRG_ofResult.mpr hQ

end Rules

/-- The allocation on a path. -/
theorem path_allocate {preferred : Text} {tr : List ((o : NodeOp) × o.Res)} {r : Except NodeErr Text}
    (h : (allocate preferred).run.Path tr r) : tr = [⟨.allocateNBDDevicePrefer preferred, r⟩] := by
  cases h with
  | call answer rest =>
    change Except NodeErr Text at answer
    cases answer with
    | ok device =>
      cases rest
      rfl
    | error err =>
      cases rest
      rfl

end Node

open Node

/-! ## NBD devices -/

/-- The devices of a node's range, in order: `i` runs from the start as long as `i < start + count`. -/
def App.devices (a : App) : List Text :=
  let stop := a.nbdDeviceStart + a.nbdDeviceCount
  (List.range (stop.toInt - a.nbdDeviceStart.toInt).toNat).map fun k =>
    a.nbdDevicePrefix ++ utf8 (formatInt (a.nbdDeviceStart + Int64.ofNat k))

/-- What `os.Stat` says of a path: nothing there (with the error), or whether it is a device. -/
abbrev Stat := Text → Except Text Bool

/-- The section of `allocateNBDDevicePrefer` under the lock: the answer, and the devices in use after it.
The range loop asks only whether the path exists, the preferred branch also whether it is a device. -/
def allocateNBDDevicePrefer (a : App) (stat : Stat) (used : Finset Text) (preferred : Text) :
    Except NodeErr Text × Finset Text :=
  if preferred ≠ [] then
    match stat preferred with
    | .error err =>
      (.error (.errorf "preferred NBD device %s is not visible: %w" [preferred, err]), used)
    | .ok false =>
      (.error (.errorf "preferred NBD device %s exists but is not a device" [preferred]), used)
    | .ok true =>
      if preferred ∈ used then
        (.error (.errorf "preferred NBD device %s is already allocated" [preferred]), used)
      else (.ok preferred, insert preferred used)
  else
    let visible := a.devices.filter fun device => (stat device).isOk
    match visible.find? fun device => device ∉ used with
    | some device => (.ok device, insert device used)
    | none =>
      if visible = [] then
        (.error (.errorf "no NBD devices visible at %s[%d..%d); load the host nbd module with remote-setup and run the node with privileged/device access"
          [a.nbdDevicePrefix, utf8 (formatInt a.nbdDeviceStart),
            utf8 (formatInt (a.nbdDeviceStart + a.nbdDeviceCount))]), used)
      else
        (.error (.errorf "all %d visible NBD devices are already allocated on this node"
          [decimal visible.length]), used)

/-! ## Mounted sessions -/

/-- The device a session is exported as by the runtimes that attach it themselves. -/
def exportedDevice (a : App) (session : NodeSession) : ExportedDevice where
  sessionID := session.id
  sizeBytes := session.volume.sizeBytes
  commitOnDisconnect := false
  uploadBatchChunks := a.nbdCommitBatch
  readAheadBytes := a.nbdReadAheadBytes
  unregisterOnDisconnect := false

/-- Where a session is mounted. -/
def App.mountPath (a : App) (sessionID : String) : Text := joinPath a.mountRoot (utf8 sessionID)

/-- `startMountedSession`, between the allocation of the device and the entry in `mounts`. Every failing
step removes the export, and the deferred cleanup removes it again. -/
def attachMounted (a : App) (session : NodeSession) (format : Bool) (device : Text) : NodeM Unit := do
  act (.registerNBDExport session.id (exportedDevice a session))
  guarded (act (.unregisterNBDExport session.id)) do
    outside (.nbdConnect a.nbdAddr device (utf8 session.id))
    if format then outside (.mkfs device)
    outside (.mkdirAll (a.mountPath session.id))
    outside (.mount device (a.mountPath session.id))

/-- `startMountedSession`. -/
def startMountedSession (a : App) (session : NodeSession) (format : Bool) (fsType : Text) :
    NodeM Unit := do
  failIf (a.nbdAddr = []) (.errorf "mounted-fs runtime is not enabled on this node" [])
  outside (.preflightNBDDevices a.devices)
  let fsType := if fsType = [] then ascii "ext4" else fsType
  failIf (fsType ≠ ascii "ext4") (.errorf "unsupported fs_type %q" [fsType])
  outside (.mkdirAll a.mountRoot)
  let device ← allocate []
  guarded (do
      act (.unregisterNBDExport session.id)
      ignore (outside (.nbdDisconnect device))
      act (.releaseNBDDevice device)
      ignore (outside (.removeAll (a.mountPath session.id))))
    (attachMounted a session format device)
  act (.putMount session.id ⟨session.id, device, a.mountPath session.id⟩)
  pure ()

/-- `detachMountedSession`. -/
def detachMountedSession (sessionID : String) : NodeM Unit := do
  let entry ← getMount sessionID
  match entry with
  | none => pure ()
  | some mounted => do
    outside .sync
    outside (.umount mounted.mountPath)
    outside (.nbdDisconnect mounted.nbdDevice)
    act (.releaseNBDDevice mounted.nbdDevice)
    act (.deleteMount sessionID)
    outside (.removeAll mounted.mountPath)

/-! ## Firecracker sessions -/

/-- `preflightKVM`. -/
def preflightKVM (a : App) : NodeM Unit :=
  if a.kvmDevice = [] then pure () else outside (.statFiles [a.kvmDevice])

/-- `preflightFirecracker`. -/
def preflightFirecracker (a : App) : NodeM Unit := do
  preflightKVM a
  match BootMode.parse a.firecrackerBootMode with
  | some .rootfs =>
    outside (.statFiles [a.firecrackerBin, a.firecrackerKernel, a.firecrackerRootFS])
  | some .initramfs =>
    outside (.statFiles [a.firecrackerBin, a.firecrackerKernel, a.firecrackerInitrd])
  | none => throw (.errorf "unsupported FIRECRACKER_BOOT_MODE %q" [a.firecrackerBootMode])

/-- The files of a session's VM. -/
structure WorkPaths where
  workDir : Text
  rootfsCopy : Text
  initrdCopy : Text
  socketPath : Text
  configPath : Text
  logPath : Text
  serialPath : Text
  vmStateSnapshotPath : Text
  memSnapshotPath : Text

def App.workPaths (a : App) (sessionID : String) : WorkPaths :=
  let workDir := joinPath a.firecrackerWorkDir (utf8 sessionID)
  { workDir
    rootfsCopy := joinPath workDir (ascii "rootfs.ext4")
    initrdCopy := joinPath workDir (ascii "initramfs.cpio.gz")
    socketPath := joinPath workDir (ascii "firecracker.sock")
    configPath := joinPath workDir (ascii "firecracker.json")
    logPath := joinPath workDir (ascii "firecracker.log")
    serialPath := joinPath workDir (ascii "serial.log")
    vmStateSnapshotPath := joinPath workDir (ascii "vmstate.snap")
    memSnapshotPath := joinPath workDir (ascii "memory.snap") }

/-- What the request leaves open is filled in: the values `runFirecrackerSession` goes on with. -/
structure RunParams where
  mode : FirecrackerMode
  payload : Text
  vcpuCount : Int64
  memoryMiB : Int64
  commitAfterRun : Bool

/-- The beginning of `runFirecrackerSession`. -/
def runParams (req : StartRequest) : Except NodeErr RunParams :=
  let modeText := if req.firecrackerMode = [] then ascii "smoke" else req.firecrackerMode
  match FirecrackerMode.parse modeText with
  | none => .error (.errorf "unsupported firecracker_mode %q" [modeText])
  | some mode =>
    if mode = .restore ∧
        (req.restoreMemory = [] ∨ req.restoreVMState = [] ∨ req.restoreDevice = []) then
      .error (.errorf "firecracker restore requires restore_memory_snapshot_path, restore_vmstate_snapshot_path, and restore_firecracker_device" [])
    else
      .ok
        { mode
          payload :=
            if req.firecrackerPayload = [] then ascii "hello-from-firecracker"
            else req.firecrackerPayload
          vcpuCount := if req.vcpuCount ≤ 0 then 1 else req.vcpuCount
          memoryMiB := if req.memoryMiB ≤ 0 then 128 else req.memoryMiB
          commitAfterRun := req.commitAfterRun.getD mode.writesVolume }

/-- The variables the choice of the boot mode sets. -/
structure BootFiles where
  bootMode : Text
  guestDataDevice : Text
  rootfsPath : Text
  initrdPath : Text
  rootfsCopied : Bool

/-- The choice of the boot mode. -/
def prepareBoot (a : App) (paths : WorkPaths) (mode : FirecrackerMode) : NodeM BootFiles := do
  if mode.usesSessionRootFS then
    pure ⟨ascii "image-rootfs", ascii "/dev/vda", [], [], false⟩
  else
    match BootMode.parse a.firecrackerBootMode with
    | some .rootfs =>
      if mode ≠ .restore then do
        wrapping "copy firecracker rootfs: %w"
          (outside (.copyFile a.firecrackerRootFS paths.rootfsCopy))
        pure ⟨a.firecrackerBootMode, ascii "/dev/vdb", paths.rootfsCopy, [], true⟩
      else pure ⟨a.firecrackerBootMode, ascii "/dev/vdb", [], [], false⟩
    | some .initramfs =>
      if mode ≠ .restore then do
        wrapping "copy firecracker initramfs: %w"
          (outside (.copyFile a.firecrackerInitrd paths.initrdCopy))
        pure ⟨a.firecrackerBootMode, ascii "/dev/vda", [], paths.initrdCopy, false⟩
      else pure ⟨a.firecrackerBootMode, ascii "/dev/vda", [], [], false⟩
    | none => throw (.errorf "unsupported FIRECRACKER_BOOT_MODE %q" [a.firecrackerBootMode])

/-- `os.Remove`, where a file that is not there is no error. -/
def removeIfThere (path : Text) : NodeM Unit := do
  let result ← attempt (outside (.remove path))
  ofResult (if result = .error .notExist then .ok () else result)

/-- Where `orca-init` is put into an image. -/
def WorkPaths.sideloadRoot (paths : WorkPaths) : Text := joinPath paths.workDir (ascii "sideload-root")

/-- `sideloadOrcaInit`. -/
def sideloadOrcaInit (a : App) (device mountPath : Text) : NodeM Unit := do
  failIf (a.orcaInitPath = []) (.errorf "ORCA_INIT_BIN is empty" [])
  outside (.mkdirAll mountPath)
  outside (.mount device mountPath)
  guarded (outside (.umount mountPath)) do
    removeIfThere (joinPath mountPath (ascii "init"))
    outside (.copyFile a.orcaInitPath (joinPath mountPath (ascii "init")))
    outside .sync
    outside (.umount mountPath)
  outside (.flushbufs device)
  outside (.removeAll mountPath)

/-- `runFirecrackerSession`, from the work directory to the attached (and sideloaded) device. -/
def attachFirecracker (a : App) (session : NodeSession) (mode : FirecrackerMode) (device : Text) :
    NodeM BootFiles := do
  let paths := a.workPaths session.id
  outside (.mkdirAll paths.workDir)
  let files ← prepareBoot a paths mode
  act (.registerNBDExport session.id (exportedDevice a session))
  outside (.nbdConnect a.nbdAddr device (utf8 session.id))
  if mode.usesSessionRootFS then sideloadOrcaInit a device paths.sideloadRoot
  pure files

/-- The function `detach` of a firecracker session. -/
def detachFirecracker (sessionID : String) (device : Text) (network : Option FirecrackerNetwork) :
    NodeM Unit := do
  ignore (outside (.nbdDisconnect device))
  act (.unregisterNBDExport sessionID)
  act (.releaseNBDDevice device)
  match network with
  | some network => ignore (outside (.cleanupNetwork network))
  | none => pure ()

/-- The network of an image's VM, if the node gives out networks. -/
def networkFor (a : App) (session : NodeSession) (mode : FirecrackerMode) :
    NodeM (Option FirecrackerNetwork) := do
  if mode.usesSessionRootFS && a.firecrackerNetwork then
    let network := firecrackerSessionNetwork (utf8 session.id) a.firecrackerGuestDNS
    outside (.setupNetwork network)
    pure (some network)
  else pure none

/-- Whether the run ends with a snapshot of the VM's memory. -/
def RunParams.createMemorySnapshot (run : RunParams) (req : StartRequest) : Bool :=
  run.mode.writesVolume && run.commitAfterRun && req.saveMemory

/-- The configuration a run writes, and the line of the guest's console that means success. In the
image modes the NBD device is the root disk; otherwise the drive behind the root disk is given by
`guestDataDevice`. -/
def launch (a : App) (session : NodeSession) (req : StartRequest) (run : RunParams) (files : BootFiles)
    (device : Text) (network : Option FirecrackerNetwork) : FirecrackerConfig × Text :=
  let paths := a.workPaths session.id
  if run.mode.usesSessionRootFS then
    let rootfsReadOnly := run.mode = .imageRootfsSmoke
    let bootArgs := imageRootFSBootArgs run.payload rootfsReadOnly (run.mode = .imageRootfsTTY)
      req.imageWorkingDir req.imageEnv req.imageUser network
    (firecrackerConfig a.firecrackerKernel device rootfsReadOnly [] [] false paths.logPath bootArgs
        run.vcpuCount run.memoryMiB network,
      if run.mode = .imageRootfsTTY then ascii "orca-init: tty ready"
      else ascii "orca-init: image-rootfs ok")
  else
    let bootArgs := firecrackerBootArgs files.bootMode run.mode.text run.payload files.guestDataDevice
      (run.createMemorySnapshot req)
    (firecrackerConfig a.firecrackerKernel files.rootfsPath false files.initrdPath files.guestDataDevice
        false paths.logPath bootArgs run.vcpuCount run.memoryMiB network,
      ascii "orca-init: " ++ run.mode.text ++ ascii " ok")

/-- `tail`: the last bytes of a text. -/
def tail (s : Text) (max : Nat) : Text := if s.length ≤ max then s else s.drop (s.length - max)

/-- Wait for the guest to come up; the monitor is stopped if it does not. -/
def awaitGuest : NodeM Unit := do
  let reached ← attempt (outside .waitForMarkerOrExit)
  match reached with
  | .ok () => pure ()
  | .error err => do
    let serial ← output
    act .stopProcess
    throw (.wrapped "%w: %s" err [tail serial 4096])

/-- Write the configuration, start the monitor and wait for the guest. -/
def boot (a : App) (session : NodeSession) (config : FirecrackerConfig) (marker : Text) :
    NodeM Unit := do
  let paths := a.workPaths session.id
  outside (.writeConfig paths.configPath config)
  outside (.startProcess
    [a.firecrackerBin, ascii "--api-sock", paths.socketPath, ascii "--config-file", paths.configPath]
    paths.serialPath marker)
  awaitGuest

/-- One line of `orcaInitLines`: the lines kept, and whether a command's output is being captured. -/
def orcaInitLine (kept : List Text × Bool) (line : Text) : List Text × Bool :=
  let line := trimSpace line
  let holds (part : String) : Prop := ascii part <:+: line
  if line = [] then kept
  else if holds "orca-init: started image-rootfs command=" then (kept.1 ++ [line], true)
  else if holds "orca-init: command ok" ∨ holds "orca-init: command failed" then
    (kept.1 ++ [line], false)
  else if holds "orca-init:" ∨ holds "orca-stdout:" ∨ holds "orca-stderr:" ∨ holds "orca-timing:" then
    (kept.1 ++ [line], kept.2)
  else if kept.2 then (kept.1 ++ [ascii "orca-stdout: " ++ line], true)
  else kept

/-- `orcaInitLines`. -/
def orcaInitLines (s : Text) : Text :=
  [10].intercalate ((s.splitOn 10).foldl orcaInitLine ([], false)).1

/-- The answer to a run that came up. -/
def runResp (a : App) (session : NodeSession) (run : RunParams) (files : BootFiles) (device : Text)
    (serial : Text) : Resp :=
  [(ascii "firecracker_mode", run.mode.text), (ascii "firecracker_boot_mode", files.bootMode),
    (ascii "firecracker_device", device), (ascii "firecracker_output", orcaInitLines serial),
    (ascii "firecracker_work_dir", (a.workPaths session.id).workDir),
    (ascii "cpu_count", utf8 (formatInt run.vcpuCount)),
    (ascii "memory_mib", utf8 (formatInt run.memoryMiB))]

/-- A step after which the monitor's process is stopped if it fails. -/
def orStop (x : NodeM Unit) : NodeM Unit :=
  guarded (act .stopProcess) x

/-- Wait for the monitor to end. -/
def awaitExit : NodeM Unit := do
  let ended ← attempt (outside .wait)
  match ended with
  | .ok () => pure ()
  | .error err => do
    let serial ← output
    throw (.wrapped "firecracker failed after guest success: %w: %s" err [tail serial 4096])

/-- The end of the VM: a snapshot of its memory, or its exit. -/
def endVM (paths : WorkPaths) (createMemorySnapshot : Bool) : NodeM Unit :=
  if createMemorySnapshot then do
    orStop (outside (.waitForPath paths.socketPath))
    orStop (outside .pause)
    orStop (outside (.createSnapshot paths.vmStateSnapshotPath paths.memSnapshotPath))
    act .stopProcess
  else awaitExit

/-- The copy of the root file system goes, unless a snapshot of the VM refers to it. -/
def dropRootfsCopy (files : BootFiles) (createMemorySnapshot : Bool) : NodeM Unit :=
  if files.rootfsCopied && files.rootfsPath ≠ [] && !createMemorySnapshot then
    removeIfThere files.rootfsPath
  else pure ()

/-- What the host still buffers of the volume. -/
def flushVolume (mode : FirecrackerMode) (device : Text) : NodeM Unit :=
  if mode.writesVolume then do
    outside .sync
    outside (.flushbufs device)
  else pure ()

/-- `runFirecrackerSession`, from the guest that came up to the answer. -/
def finishRun (a : App) (session : NodeSession) (req : StartRequest) (run : RunParams)
    (files : BootFiles) (device : Text) : NodeM Resp := do
  let paths := a.workPaths session.id
  let createMemorySnapshot := run.createMemorySnapshot req
  endVM paths createMemorySnapshot
  let serial ← output
  dropRootfsCopy files createMemorySnapshot
  flushVolume run.mode device
  let resp := runResp a session run files device serial
  pure (if createMemorySnapshot then
      resp ++ [(ascii "memory_snapshot_path", paths.memSnapshotPath),
        (ascii "vmstate_snapshot_path", paths.vmStateSnapshotPath)]
    else resp)

/-- `restoreFirecrackerSession`. Up to the started process the caller's cleanup detaches, from then on
its own. -/
def restoreFirecrackerSession (a : App) (session : NodeSession) (req : StartRequest) (device : Text) :
    NodeM Resp := do
  let paths := a.workPaths session.id
  let detach := detachFirecracker session.id device none
  guarded detach do
    outside (.writeRestoreConfig paths.configPath
      ⟨req.restoreVMState, req.restoreMemory, device, paths.logPath⟩)
    outside (.startProcess [a.firecrackerBin, ascii "--api-sock", paths.socketPath] paths.serialPath
      (ascii "orca-restore-never"))
  deferring (do act .stopProcess; detach) do
    outside (.waitForPath paths.socketPath)
    outside (.configureLogger paths.logPath)
    outside (.loadSnapshot req.restoreVMState req.restoreMemory)
    let serial ← output
    pure [(ascii "firecracker_mode", ascii "restore"),
      (ascii "firecracker_boot_mode", a.firecrackerBootMode), (ascii "firecracker_device", device),
      (ascii "firecracker_output", orcaInitLines serial), (ascii "firecracker_work_dir", paths.workDir),
      (ascii "memory_snapshot_path", req.restoreMemory),
      (ascii "vmstate_snapshot_path", req.restoreVMState),
      (ascii "restored_memory_snapshot", req.restoreMemory),
      (ascii "restored_vmstate_snapshot", req.restoreVMState)]

/-- The commit at the end of a run. -/
def commitRun (a : App) (session : NodeSession) (run : RunParams) (resp : Resp) : NodeM Resp := do
  if run.commitAfterRun then
    let snapshot ← backendCommit session.id ⟨a.nbdCommitBatch, false⟩
    pure (resp ++ [(ascii "snapshot_id", utf8 snapshot.snapshotID),
      (ascii "manifest_key", utf8 snapshot.manifestKey)])
  else pure resp

/-- `runFirecrackerSession`, from the allocated device on. -/
def runOnDevice (a : App) (session : NodeSession) (req : StartRequest) (run : RunParams)
    (device : Text) : NodeM Resp := do
  let detach network := detachFirecracker session.id device network
  let files ← guarded (detach none) (attachFirecracker a session run.mode device)
  if run.mode = .restore then
    restoreFirecrackerSession a session req device
  else do
    let network ← guarded (detach none) (networkFor a session run.mode)
    let launched := launch a session req run files device network
    guarded (detach network) (boot a session launched.1 launched.2)
    if run.mode = .imageRootfsTTY then do
      act (.putTTY session.id ⟨session.id, device, network, false⟩)
      let serial ← output
      pure (runResp a session run files device serial ++ [(ascii "tty", ascii "true")])
    else do
      let resp ← guarded (detach network) (finishRun a session req run files device)
      detach network
      commitRun a session run resp

/-- What is checked before a device is allocated. -/
def preflight (a : App) : NodeM Unit := do
  preflightFirecracker a
  failIf (a.nbdAddr = [])
    (.errorf "firecracker runtime requires NBD_ADDR to attach the Orca volume" [])
  outside (.preflightNBDDevices a.devices)

/-- `runFirecrackerSession`. -/
def runFirecrackerSession (a : App) (session : NodeSession) (req : StartRequest) : NodeM Resp := do
  let run ← ofResult (runParams req)
  preflight a
  let device ← allocate req.restoreDevice
  runOnDevice a session req run device

/-! ## Requests -/

/-- `normalizeRuntime`. -/
def normalizeRuntime (runtime legacyFrontend : Text) : Text :=
  if runtime ≠ [] then runtime
  else if legacyFrontend = [] then ascii "http-block"
  else if legacyFrontend = ascii "mount" then ascii "mounted-fs"
  else if legacyFrontend = ascii "nbd" then ascii "nbd-export-test"
  else legacyFrontend

/-- The end of a session whose start failed. -/
def abandon (sessionID : String) : NodeM Unit := do
  act (.unregisterNBDExport sessionID)
  ignore (backendStop sessionID)

/-- `startSession`. -/
def startSession (a : App) (req : StartRequest) : NodeM Resp := do
  let session ← backendStart req.volumeID
  let runtime := normalizeRuntime req.runtime req.frontend
  let resp : Resp :=
    [(ascii "session_id", utf8 session.id), (ascii "volume_id", utf8 session.volume.volumeID),
      (ascii "node_id", a.nodeID), (ascii "base_snapshot_id", utf8 session.baseSnapshotID),
      (ascii "runtime", runtime)]
  if runtime = ascii "http-block" then pure resp
  else if runtime = ascii "nbd-export-test" then
    if a.nbdPublicAddr = [] then do
      ignore (backendStop session.id)
      throw (.errorf "NBD test export is not enabled on this node" [])
    else do
      let commitOnDisconnect := req.commitOnDisconnect.getD a.nbdDefaultCommit
      act (.registerNBDExport session.id
        { exportedDevice a session with
          commitOnDisconnect, unregisterOnDisconnect := true })
      pure (resp ++ [(ascii "nbd_addr", a.nbdPublicAddr),
        (ascii "nbd_export_name", utf8 session.id),
        (ascii "nbd_commit_on_disconnect",
          if commitOnDisconnect then ascii "true" else ascii "false")])
  else if runtime = ascii "mounted-fs" then do
    guarded (abandon session.id) (startMountedSession a session req.format req.fsType)
    let entry ← getMount session.id
    match entry with
    | some mounted =>
      pure (resp ++ [(ascii "mount_path", mounted.mountPath),
        (ascii "nbd_device", mounted.nbdDevice)])
    | none => throw .nilEntry
  else if runtime = ascii "firecracker" then do
    let result ← guarded (abandon session.id) (runFirecrackerSession a session req)
    pure (resp ++ result)
  else do
    ignore (backendStop session.id)
    throw (.errorf "unsupported runtime %q" [runtime])

/-- `commit`. -/
def commit (sessionID : String) : NodeM Snapshot := do
  detachMountedSession sessionID
  let snapshot ← backendCommit sessionID ⟨0, false⟩
  act (.unregisterNBDExport sessionID)
  pure snapshot

/-- `stop`. -/
def stop (sessionID : String) : NodeM Resp := do
  detachMountedSession sessionID
  act (.unregisterNBDExport sessionID)
  backendStop sessionID
  pure [(ascii "stopped", utf8 sessionID)]

/-- The stop function of a tty session. -/
def stopTTYSession (a : App) (tty : TTYSession) : NodeM Snapshot := do
  ignore (outside (.writeInput (ascii "sync\nexit\n")))
  ignore (guarded (act .stopProcess) (outside .waitTimeout))
  outside .sync
  outside (.flushbufs tty.device)
  detachFirecracker tty.sessionID tty.device tty.network
  let committed ← attempt (backendCommit tty.sessionID ⟨a.nbdCommitBatch, false⟩)
  ignore (backendStop tty.sessionID)
  ofResult committed

/-- `ttyStop`. -/
def ttyStop (a : App) (sessionID : String) : NodeM Resp := do
  let found ← getTTY sessionID
  match found with
  | none => throw (.storage .notFound)
  | some tty => do
    let claimed ← claimStop sessionID
    failIf (claimed = false) (.status 409 "tty session already stopped")
    let stopped ← attempt (stopTTYSession a tty)
    act (.deleteTTY sessionID)
    let snapshot ← ofResult stopped
    let serial ← output
    pure [(ascii "session_id", utf8 sessionID), (ascii "snapshot_id", utf8 snapshot.snapshotID),
      (ascii "latest_snapshot_id", utf8 snapshot.snapshotID),
      (ascii "manifest_key", utf8 snapshot.manifestKey),
      (ascii "firecracker_output", orcaInitLines serial)]

/-- `StorageDevice.Disconnect`, of a device registered for a session. -/
def disconnect (device : ExportedDevice) : NodeM Unit :=
  let body : NodeM Unit :=
    if device.commitOnDisconnect then do
      let _ ← backendCommit device.sessionID ⟨device.uploadBatchChunks, false⟩
      backendStop device.sessionID
    else backendFlushDirty device.sessionID
  if device.unregisterOnDisconnect then deferring (act (.unregisterNBDExport device.sessionID)) body
  else body

end OrcaBlocks.Services
