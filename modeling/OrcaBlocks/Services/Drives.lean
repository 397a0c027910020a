/-
# OrcaBlocks.Services.Drives — which block devices a session's VM is given.

`runFirecrackerSession` writes one configuration for the VM monitor. Its drives carry paths ON THE HOST;
the guest sees them as `/dev/vda`, `/dev/vdb` and so on in the order of the list, and is told by a boot
parameter which of these names is its volume. Host paths and guest names are computed in separate branches,
and `launch` hands the monitor `guestDataDevice`, the guest's name, as the host path of the data drive.

`runFirecrackerSession_path` says what every path through the function does around its one allocation:
nothing is configured before it, and every configuration behind it is `launch` of the allocated device. From
there the result is about `launch` alone.
-/
import OrcaBlocks.Services.Footprint
import OrcaBlocks.Storage.Wire

namespace OrcaBlocks.Services

open OrcaBlocks.Lib Node
open OrcaBlocks.Storage (formatInt parseInt_formatInt)

/-! ## The boot parameters the guest looks its volume up in -/

/-- The words of the line before the settings. -/
def dataWords (bootMode : Text) : Text × List Text :=
  let kernel := [ascii "quiet", ascii "loglevel=0", ascii "reboot=k", ascii "panic=1", ascii "pci=off",
    ascii "init=/init"]
  if bootMode = ascii "rootfs" then
    (ascii "root=/dev/vda", ascii "rw" :: ascii "console=ttyS0" :: kernel)
  else (ascii "console=ttyS0", kernel)

/-- The settings of the line. -/
def dataSettings (mode payload dataDevice : Text) (waitForHost : Bool) : List (Text × Text) :=
  [(ascii "orca.mode", mode), (ascii "orca.payload_b64", Base64.encode payload),
    (ascii "orca.data_dev", dataDevice),
    (ascii "orca.after_ok", if waitForHost then ascii "wait" else ascii "reboot")]

theorem firecrackerBootArgs_words (bootMode mode payload dataDevice : Text) (waitForHost : Bool) :
    firecrackerBootArgs bootMode mode payload dataDevice waitForHost =
      (dataWords bootMode).1 ++ spaced ((dataWords bootMode).2 ++
        settingWords (dataSettings mode payload dataDevice waitForHost)) := by
  have hsettings : spaced (settingWords (dataSettings mode payload dataDevice waitForHost)) =
      ascii " orca.mode=" ++ mode ++ ascii " orca.payload_b64=" ++ Base64.encode payload ++
        ascii " orca.data_dev=" ++ dataDevice ++ ascii " orca.after_ok=" ++
          (if waitForHost then ascii "wait" else ascii "reboot") := by
    unfold dataSettings
    simp only [spaced_settingWords_cons]
    rw [show ascii " orca.mode=" = 32 :: (ascii "orca.mode" ++ [61]) from rfl,
      show ascii " orca.payload_b64=" = 32 :: (ascii "orca.payload_b64" ++ [61]) from rfl,
      show ascii " orca.data_dev=" = 32 :: (ascii "orca.data_dev" ++ [61]) from rfl,
      show ascii " orca.after_ok=" = 32 :: (ascii "orca.after_ok" ++ [61]) from rfl]
    simp [settingWords, spaced]
  have hbase : ascii "console=ttyS0 quiet loglevel=0 reboot=k panic=1 pci=off init=/init orca.mode=" =
      ascii "console=ttyS0" ++ spaced (dataWords []).2 ++ ascii " orca.mode=" := rfl
  unfold firecrackerBootArgs
  dsimp only
  rw [spaced_append, hsettings, hbase]
  by_cases hroot : bootMode = ascii "rootfs"
  · have hwords : ascii "root=/dev/vda rw " ++ ascii "console=ttyS0" ++ spaced (dataWords []).2 =
        (dataWords (ascii "rootfs")).1 ++ spaced (dataWords (ascii "rootfs")).2 := rfl
    rw [if_pos hroot, hroot, ← List.append_assoc (dataWords (ascii "rootfs")).1, ← hwords]
    simp only [List.append_assoc]
  · have hwords : dataWords bootMode = (ascii "console=ttyS0", (dataWords []).2) := by
      unfold dataWords
      rw [if_neg hroot, if_neg (by decide)]
    rw [if_neg hroot, hwords]
    simp only [List.append_assoc]

theorem spaceless_mode (mode : FirecrackerMode) : Spaceless mode.text := by
  cases mode with
  | _ => decide

/-- **The guest reads the data device it was announced.** -/
theorem cmdlineValue_dataDev (bootMode payload : Text) (mode : FirecrackerMode) {dataDevice : Text}
    (hdevice : Spaceless dataDevice) (waitForHost : Bool) :
    cmdlineValue (firecrackerBootArgs bootMode mode.text payload dataDevice waitForHost)
      (ascii "orca.data_dev") = dataDevice := by
  have hclean : ∀ s ∈ dataSettings mode.text payload dataDevice waitForHost,
      IsKey s.1 ∧ Spaceless s.2 := by
    simp only [dataSettings, List.forall_mem_cons]
    refine ⟨⟨isKey_ofList (by simp), spaceless_mode mode⟩,
      ⟨isKey_ofList (by simp), spaceless_encode payload⟩, ⟨isKey_ofList (by simp), hdevice⟩,
      ⟨isKey_ofList (by simp), ?_⟩, by simp⟩
    cases waitForHost with
    | false => decide
    | true => decide
  have hfixed : ∀ w ∈ (dataWords bootMode).1 :: (dataWords bootMode).2,
      (w ≠ [] ∧ Spaceless w) ∧ (ascii "orca.data_dev" ++ [61]).isPrefixOf w = false := by
    unfold dataWords
    split
    · decide
    · decide
  rw [cmdlineValue, firecrackerBootArgs_words, fields_spaced, ← List.cons_append]
  · show settingValue (_ ++ settingWords _) _ = _
    rw [settingWords, settingValue_settings (fun w hw => (hfixed w hw).2) (by decide)
      fun s hs => (hclean s hs).1.2]
    rfl
  · rw [← List.cons_append, List.forall_mem_append]
    refine ⟨fun w hw => (hfixed w hw).1, fun w hw => ?_⟩
    obtain ⟨s, hs, rfl⟩ := List.mem_map.mp hw
    exact setting_word (hclean s hs).1 (hclean s hs).2

/-- The root device of an image is the first word of its line, whatever follows. -/
theorem cmdlineValue_root (command : Text) (readOnly tty : Bool) (workingDir : Text) (env : List Text)
    (user : Text) (network : Option FirecrackerNetwork) :
    cmdlineValue (imageRootFSBootArgs command readOnly tty workingDir env user network)
      (ascii "root") = ascii "/dev/vda" := by
  rw [cmdlineValue, imageRootFSBootArgs_words]
  show settingValue (fields (ascii "root=/dev/vda" ++ 32 :: _)) _ = _
  rw [fields_cons (by decide) (by decide), settingValue, List.find?_cons_of_pos (by decide)]
  decide

/-! ## What a configuration gives the guest -/

/-- The guest's name of the drive at a place of the list. -/
def guestName (k : Nat) : Text := ascii "/dev/vd" ++ [UInt8.ofNat (97 + k)]

/-- The name of the session's volume the guest is told. -/
def announcedDevice (mode : FirecrackerMode) (bootArgs : Text) : Text :=
  if mode.usesSessionRootFS then cmdlineValue bootArgs (ascii "root")
  else cmdlineValue bootArgs (ascii "orca.data_dev")

/-- **The VM is given the session's own volume and nothing else**: every drive is backed by the allocated
device or by the session's copy of the root file system, and the drive under the announced name by the
device. -/
structure OwnVolume (device rootfsCopy : Text) (mode : FirecrackerMode) (config : FirecrackerConfig) :
    Prop where
  paths : ∀ d ∈ config.drives, d.pathOnHost = device ∨ d.pathOnHost = rootfsCopy
  announced : ∃ k d, config.drives[k]? = some d ∧
    guestName k = announcedDevice mode config.bootArgs ∧ d.pathOnHost = device

/-- The root disk of the modes that do not boot an image: none where the guest runs from an initramfs. -/
def BootMode.rootDrives (copy : Text) : BootMode → List Drive
  | .rootfs => [⟨ascii "rootfs", copy, true, false⟩]
  | .initramfs => []

section Launch

variable {a : App} {session : NodeSession} (req : StartRequest) {run : RunParams} (files : BootFiles)
  (device : Text) (network : Option FirecrackerNetwork)

/-- An image's root disk is the device itself. -/
theorem ownVolume_image (hmode : run.mode.usesSessionRootFS = true) (hdevice : device ≠ []) :
    OwnVolume device (a.workPaths session.id).rootfsCopy run.mode
      (launch a session req run files device network).1 := by
  have hdrives : (launch a session req run files device network).1.drives =
      [⟨ascii "rootfs", device, true, run.mode = .imageRootfsSmoke⟩] := by
    simp [launch, firecrackerConfig, hmode, hdevice]
  constructor
  · rw [hdrives]
    simp
  · refine ⟨0, _, by rw [hdrives]; rfl, ?_, rfl⟩
    rw [announcedDevice, if_pos hmode]
    simp only [launch, hmode, firecrackerConfig, if_true, cmdlineValue_root]
    decide

section Data

variable (hmode : run.mode.usesSessionRootFS = false) {kind : BootMode}
  (hfiles : files.Of a (a.workPaths session.id) kind)

include hmode hfiles

/-- In the other modes the data drive's host path is the guest's name of it. -/
theorem launch_data_drives : (launch a session req run files device network).1.drives =
    kind.rootDrives (a.workPaths session.id).rootfsCopy ++
      [⟨ascii "orca", kind.guestDataDevice, false, false⟩] := by
  have hcopy : (a.workPaths session.id).rootfsCopy ≠ [] := joinPath_ne_nil _ (by decide)
  cases kind with
  | rootfs =>
    simp [launch, firecrackerConfig, hmode, hfiles.rootfsPath, hfiles.guestDataDevice, hcopy,
      BootMode.guestDataDevice, BootMode.rootDrives, ascii]
  | initramfs =>
    simp [launch, firecrackerConfig, hmode, hfiles.rootfsPath, hfiles.guestDataDevice,
      BootMode.guestDataDevice, BootMode.rootDrives, ascii]

theorem launch_data_announced : announcedDevice run.mode
    (launch a session req run files device network).1.bootArgs = kind.guestDataDevice := by
  have hspace : Spaceless kind.guestDataDevice := by
    cases kind with
    | _ => decide
  rw [announcedDevice, if_neg (by simp [hmode])]
  simp only [launch, hmode, firecrackerConfig, hfiles.guestDataDevice, Bool.false_eq_true, if_false,
    cmdlineValue_dataDev _ _ _ hspace]

/-- The volume is the guest's only if the device happens to have the guest's name. -/
theorem ownVolume_data_iff :
    OwnVolume device (a.workPaths session.id).rootfsCopy run.mode
        (launch a session req run files device network).1 ↔ device = kind.guestDataDevice := by
  have hdrives := launch_data_drives req files device network hmode hfiles
  constructor
  · rintro ⟨-, k, d, hk, hname, rfl⟩
    rw [launch_data_announced req files _ network hmode hfiles] at hname
    rw [hdrives] at hk
    -- The announced name is that of the last drive, and no other place of the list has it.
    cases kind with
    | rootfs =>
      rcases k with _ | _ | k
      · exact absurd hname (by decide)
      · obtain rfl := Option.some.inj hk
        rfl
      · simp [BootMode.rootDrives] at hk
    | initramfs =>
      rcases k with _ | k
      · obtain rfl := Option.some.inj hk
        rfl
      · simp [BootMode.rootDrives] at hk
  · rintro rfl
    constructor
    · rw [hdrives]
      cases kind with
      | rootfs => simp [BootMode.rootDrives]
      | initramfs => simp [BootMode.rootDrives]
    · rw [launch_data_announced req files _ network hmode hfiles, hdrives]
      cases kind with
      | rootfs => exact ⟨1, _, rfl, rfl, rfl⟩
      | initramfs => exact ⟨0, _, rfl, rfl, rfl⟩

end Data

end Launch

/-! ## What the paths through `runFirecrackerSession` write -/

/-- An operation that neither allocates a device nor writes a configuration. -/
def Quiet (o : NodeOp) : Prop :=
  (∀ preferred, o ≠ .allocateNBDDevicePrefer preferred) ∧
    ∀ path config, o ≠ .outside (.writeConfig path config)

/-- An operation behind the allocation: a configuration it writes is that of the allocated device. -/
def Launches (a : App) (session : NodeSession) (req : StartRequest) (run : RunParams) (device : Text)
    (o : NodeOp) : Prop :=
  (∀ preferred, o ≠ .allocateNBDDevicePrefer preferred) ∧
    ∀ path config, o = .outside (.writeConfig path config) → run.mode ≠ .restore ∧
      ∃ files network, config = (launch a session req run files device network).1 ∧
        (run.mode.usesSessionRootFS = false → ∃ kind, files.Of a (a.workPaths session.id) kind)

section Paths

variable {a : App} {session : NodeSession} {req : StartRequest} {run : RunParams} {device : Text}

theorem Quiet.launches {o : NodeOp} (h : Quiet o) : Launches a session req run device o :=
  ⟨h.1, fun path config heq => absurd heq (h.2 path config)⟩

theorem Routine.quiet {o : NodeOp} (h : Routine o) : Quiet o := by
  constructor
  · rintro preferred rfl
    exact h
  · rintro path config rfl
    exact h

theorem detachFirecracker_quiet {network : Option FirecrackerNetwork} :
    (detachFirecracker session.id device network).run.Always Quiet fun _ => True := by
  cases network with
  | none => simp [detachFirecracker, Quiet]
  | some network => simp [detachFirecracker, Quiet]

theorem restoreFirecrackerSession_quiet :
    (restoreFirecrackerSession a session req device).run.Always Quiet fun _ => True := by
  have hdetach : (detachFirecracker session.id device none).run.Always Quiet
      fun _ => True := detachFirecracker_quiet
  simp [-ExceptT.run_bind, -bind_pure_comp, restoreFirecrackerSession, hdetach, Quiet]

/-- The configuration that is written is the one given. -/
theorem boot_launches {config : FirecrackerConfig} {marker : Text}
    (hconfig : Launches a session req run device
      (.outside (.writeConfig (a.workPaths session.id).configPath config))) :
    (boot a session config marker).run.Always (Launches a session req run device)
      fun _ => True := by
  unfold boot
  simp only [always_run_bind, always_outside]
  refine ⟨hconfig, fun _ => ⟨by simp, fun _ _ => ⟨Quiet.launches (by simp [Quiet]), fun _ => ?_⟩⟩⟩
  exact ⟨by simp, fun _ _ => awaitGuest_routine.mono (fun _ ho => ho.quiet.launches) fun _ _ => trivial⟩

/-- **Behind the allocation** every configuration is that of the allocated device. -/
theorem runOnDevice_launches :
    (runOnDevice a session req run device).run.Always (Launches a session req run device)
      fun _ => True := by
  have hquiet : ∀ {α : Type} {x : NodeM α}, x.run.Always Quiet (fun _ => True) →
      x.run.Always (Launches a session req run device) fun _ => True :=
    fun h => h.mono (fun _ ho => ho.launches) fun _ _ => trivial
  have hdetach : ∀ network, (detachFirecracker session.id device network).run.Always
      (Launches a session req run device) fun _ => True := fun _ => hquiet detachFirecracker_quiet
  unfold runOnDevice
  simp only [always_run_bind, always_guarded]
  refine attachFirecracker_routine.mono (fun _ ho => ho.quiet.launches) fun r hfiles => ?_
  refine ⟨fun files hok => ⟨by simp, ?_⟩, fun err _ => by simpa using hdetach none⟩
  rintro _ ⟨⟩
  have hfiles := hfiles files hok
  split
  · exact hquiet restoreFirecrackerSession_quiet
  · rename_i hrestore
    simp only [always_run_bind, always_guarded]
    refine networkFor_routine.mono (fun _ ho => ho.quiet.launches) fun r _ => ?_
    refine ⟨fun network _ => ⟨by simp, ?_⟩, fun err _ => by simpa using hdetach none⟩
    rintro _ ⟨⟩
    refine (boot_launches ⟨by simp, ?_⟩).mono (fun _ ho => ho) fun r _ => ?_
    · rintro path config ⟨⟩
      exact ⟨hrestore, files, network, rfl, hfiles hrestore⟩
    · refine ⟨fun _ _ => ⟨by simp, fun _ _ => ?_⟩, fun err _ => by simpa using hdetach network⟩
      split
      · refine hquiet ?_
        simp [-ExceptT.run_bind, -bind_pure_comp, Quiet]
      · simp only [always_run_bind, always_guarded]
        refine finishRun_routine.mono (fun _ ho => ho.quiet.launches) fun r _ => ?_
        refine ⟨fun resp _ => ⟨by simp, fun resp _ => ?_⟩, fun err _ => by simpa using hdetach network⟩
        refine (hdetach network).mono (fun _ ho => ho) fun r _ => ⟨by simp, fun _ _ => ?_⟩
        refine hquiet ?_
        unfold commitRun
        split
        · simp [-ExceptT.run_bind, -bind_pure_comp, Quiet]
        · simp

/-- **What a path through `runFirecrackerSession` configures**: nothing before the device is allocated,
and behind it the allocated device. -/
theorem runFirecrackerSession_path {tr : List ((o : NodeOp) × o.Res)} {r : Except NodeErr Resp}
    (hpath : (runFirecrackerSession a session req).run.Path tr r) :
    (∀ e ∈ tr, ∀ path config, e.1 ≠ .outside (.writeConfig path config)) ∨
      ∃ run device tr₁ tr₂, runParams req = .ok run ∧ (∀ e ∈ tr₁, Quiet e.1) ∧
        tr = tr₁ ++ ⟨.allocateNBDDevicePrefer req.restoreDevice, .ok device⟩ :: tr₂ ∧
          ∀ e ∈ tr₂, Launches a session req run device e.1 := by
  unfold runFirecrackerSession at hpath
  cases hparams : runParams req with
  | error err =>
    rw [hparams] at hpath
    cases hpath
    exact Or.inl (by simp)
  | ok run =>
    rw [hparams] at hpath
    obtain ⟨err, hfirst, -⟩ | ⟨_, tr₁, tr₂, hfirst, hrest, rfl⟩ :=
      path_run_bind (x := preflight a) hpath
    · exact Or.inl fun e he => ((hfirst.always preflight_routine).1 e he).quiet.2
    · have hquiet : ∀ e ∈ tr₁, Quiet e.1 := fun e he => ((hfirst.always preflight_routine).1 e he).quiet
      obtain ⟨err, halloc, -⟩ | ⟨device, tr₃, tr₄, halloc, hrun, rfl⟩ := path_run_bind hrest
      · rw [path_allocate halloc]
        refine Or.inl fun e he => ?_
        rcases List.mem_append.mp he with he | he
        · exact (hquiet e he).2
        · rw [List.mem_singleton.mp he]
          simp
      · rw [path_allocate halloc]
        exact Or.inr ⟨run, device, tr₁, tr₄, rfl, hquiet, by simp,
          (hrun.always runOnDevice_launches).1⟩

end Paths

/-! ## The result -/

theorem utf8_formatInt_ne_nil (i : Int64) : utf8 (formatInt i) ≠ [] := by
  intro h
  have hempty : formatInt i = "" := utf8_injective h
  have hparsed := parseInt_formatInt i
  rw [hempty] at hparsed
  cases hparsed

/-- The allocator never answers the empty path. -/
theorem allocateNBDDevicePrefer_ne_nil {a : App} {stat : Stat} {used : Finset Text}
    {preferred device : Text} (h : (allocateNBDDevicePrefer a stat used preferred).1 = .ok device) :
    device ≠ [] := by
  unfold allocateNBDDevicePrefer at h
  split at h
  · rename_i hpreferred
    split at h
    · cases h
    · cases h
    · split at h
      · cases h
      · obtain rfl := Except.ok.inj h
        exact hpreferred
  · dsimp only at h
    split at h
    · rename_i found hfound
      obtain rfl := Except.ok.inj h
      have hmem := List.mem_of_mem_filter (List.mem_of_find?_eq_some hfound)
      obtain ⟨k, -, rfl⟩ := List.mem_map.mp hmem
      exact List.append_ne_nil_of_right_ne_nil _ (utf8_formatInt_ne_nil _)
    · split at h
      · cases h
      · cases h

/-- **When the VM is given the session's own volume.** Take any path through `runFirecrackerSession`, with
any answers from the outside, on which the allocator answered a device and a configuration was written. The
configuration is right EXACTLY in the modes that boot the session's image, and where the allocated device
happens to have the path the guest knows its data drive by. -/
theorem vm_given_own_volume_iff (a : App) (session : NodeSession) (req : StartRequest)
    {run : RunParams} (hparams : runParams req = .ok run) {tr : List ((o : NodeOp) × o.Res)}
    {r : Except NodeErr Resp} (hpath : (runFirecrackerSession a session req).run.Path tr r)
    {preferred device : Text} (hdevice : ⟨.allocateNBDDevicePrefer preferred, .ok device⟩ ∈ tr)
    {stat : Stat} {used : Finset Text}
    (hallocated : (allocateNBDDevicePrefer a stat used preferred).1 = .ok device) {path : Text}
    {config : FirecrackerConfig} {answer : Except NodeErr Unit}
    (hwritten : ⟨.outside (.writeConfig path config), answer⟩ ∈ tr) :
    OwnVolume device (a.workPaths session.id).rootfsCopy run.mode config ↔
      run.mode.usesSessionRootFS = true ∨
        ∃ kind, BootMode.parse a.firecrackerBootMode = some kind ∧ device = kind.guestDataDevice := by
  obtain hnone | ⟨run', device', tr₁, tr₂, hparams', hquiet, rfl, hlaunch⟩ :=
    runFirecrackerSession_path hpath
  · exact absurd rfl (hnone _ hwritten path config)
  · obtain rfl : run' = run := Except.ok.inj (hparams'.symm.trans hparams)
    -- The one allocation of the path is the one the device was answered by.
    obtain rfl : device = device' := by
      rcases List.mem_append.mp hdevice with hmem | hmem
      · exact absurd rfl ((hquiet _ hmem).1 preferred)
      · rcases List.mem_cons.mp hmem with heq | hmem
        · cases heq
          rfl
        · exact absurd rfl ((hlaunch _ hmem).1 preferred)
    have hmem : ⟨.outside (.writeConfig path config), answer⟩ ∈ tr₂ := by
      rcases List.mem_append.mp hwritten with hmem | hmem
      · exact absurd rfl ((hquiet _ hmem).2 path config)
      · exact (List.mem_cons.mp hmem).resolve_left (by simp)
    obtain ⟨-, files, network, rfl, hfiles⟩ := (hlaunch _ hmem).2 path config rfl
    by_cases hmode : run'.mode.usesSessionRootFS = true
    · have hne := allocateNBDDevicePrefer_ne_nil hallocated
      exact iff_of_true (ownVolume_image req files device network hmode hne) (Or.inl hmode)
    · obtain ⟨kind, hkind⟩ := hfiles (by simpa using hmode)
      rw [ownVolume_data_iff req files device network (by simpa using hmode) hkind]
      constructor
      · exact fun h => Or.inr ⟨kind, hkind.parsed, h⟩
      · rintro (h | ⟨kind', hparsed, h⟩)
        · exact absurd h hmode
        · rw [h, Option.some.inj (hparsed.symm.trans hkind.parsed)]

/-- A session of `node-1`. -/
def sampleSession : NodeSession :=
  ⟨"5f1c6f0e-6f0b-4c0e-9f6e-0d1b2c3d4e5f", ⟨"vol-1", 10737418240, 4194304, "", ""⟩, ""⟩

/-- An outside on which everything succeeds, with `/dev/nbd0` free. -/
def fairAnswers : (o : NodeOp) → o.Res
  | .allocateNBDDevicePrefer preferred =>
    (allocateNBDDevicePrefer nodeOne (fun _ => .ok true) ∅ preferred).1
  | .releaseNBDDevice _ => ()
  | .getMount _ => none
  | .putMount _ _ => ()
  | .deleteMount _ => ()
  | .getTTY _ => none
  | .putTTY _ _ => ()
  | .claimStop _ => true
  | .deleteTTY _ => ()
  | .registerNBDExport _ _ => ()
  | .unregisterNBDExport _ => ()
  | .backendStart _ => .ok sampleSession
  | .backendCommit _ _ => .ok ⟨"snap-1", "vol-1", "manifests/snap-1.json"⟩
  | .backendStop _ => .ok ()
  | .backendFlushDirty _ => .ok ()
  | .outside _ => .ok ()
  | .output => []
  | .stopProcess => ()

/-- A request for a run of the image. -/
def imageRun : StartRequest :=
  { runtime := ascii "firecracker", volumeID := "vol-1",
    firecrackerMode := ascii "image-rootfs-run", firecrackerPayload := ascii "true" }

/-- A request for a test run that boots no image. -/
def smokeRun : StartRequest :=
  { runtime := ascii "firecracker", volumeID := "vol-1", firecrackerMode := ascii "smoke" }

/-- The path of a request on `node-1`. -/
def fairPath (req : StartRequest) : List ((o : NodeOp) × o.Res) :=
  ((runFirecrackerSession nodeOne sampleSession req).run.follow fairAnswers).1

theorem path_fairPath (req : StartRequest) :
    (runFirecrackerSession nodeOne sampleSession req).run.Path (fairPath req)
      ((runFirecrackerSession nodeOne sampleSession req).run.follow fairAnswers).2 :=
  Prog.path_follow (S := nodeSig) fairAnswers _

theorem fairAnswers_device :
    (allocateNBDDevicePrefer nodeOne (fun _ => .ok true) ∅ []).1 = .ok (ascii "/dev/nbd0") := by
  decide +kernel

/-- Running an image gives the VM the session's own volume. -/
theorem vm_given_own_volume_iff_image : ∃ path config answer,
    ⟨.outside (.writeConfig path config), answer⟩ ∈ fairPath imageRun ∧
      OwnVolume (ascii "/dev/nbd0") (nodeOne.workPaths sampleSession.id).rootfsCopy .imageRootfsRun
        config := by
  refine ⟨_, _, _, List.mem_of_getElem? (i := 16) rfl, ?_⟩
  exact (vm_given_own_volume_iff nodeOne sampleSession imageRun rfl (path_fairPath imageRun)
    (List.mem_of_getElem? (i := 3) rfl) fairAnswers_device
    (List.mem_of_getElem? (i := 16) rfl)).mpr (Or.inl rfl)

/-- **A test run is given the host's own `/dev/vda`.** The session was allocated `/dev/nbd0`; the one
drive of its VM is the block device `/dev/vda` of the host. -/
theorem smoke_run_given_host_disk : ∃ path config answer,
    (runFirecrackerSession nodeOne sampleSession smokeRun).run.Path (fairPath smokeRun)
      ((runFirecrackerSession nodeOne sampleSession smokeRun).run.follow fairAnswers).2 ∧
    ⟨.allocateNBDDevicePrefer [], .ok (ascii "/dev/nbd0")⟩ ∈ fairPath smokeRun ∧
    ⟨.outside (.writeConfig path config), answer⟩ ∈ fairPath smokeRun ∧
    config.drives = [⟨ascii "orca", ascii "/dev/vda", false, false⟩] ∧
    ¬ OwnVolume (ascii "/dev/nbd0") (nodeOne.workPaths sampleSession.id).rootfsCopy .smoke config := by
  refine ⟨_, _, _, path_fairPath smokeRun, List.mem_of_getElem? (i := 3) ?_,
    List.mem_of_getElem? (i := 8) rfl, rfl, fun h => ?_⟩
  · rw [← fairAnswers_device]
    rfl
  · exact absurd (h.paths ⟨ascii "orca", ascii "/dev/vda", false, false⟩ (List.mem_singleton.mpr rfl))
      (by decide +kernel)

end OrcaBlocks.Services
