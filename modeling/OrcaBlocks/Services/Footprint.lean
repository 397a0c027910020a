/-
# OrcaBlocks.Services.Footprint — what the parts of a firecracker run do not touch.

Most of `runFirecrackerSession` is a sequence of calls to files, to `nbd-client` and to the VM monitor. These
parts allocate no device and release none, make no entry, and mount nothing at a session's mount point; only
`boot` writes a configuration for the monitor, and only `commitRun` commits. That is said here once, part by
part, for whatever is proved about the function afterwards.
-/
import OrcaBlocks.Services.Node

namespace OrcaBlocks.Services

open OrcaBlocks.Lib Node

/-- The device the guest is to use, by boot mode. -/
def BootMode.guestDataDevice : BootMode → Text
  | .rootfs => ascii "/dev/vdb"
  | .initramfs => ascii "/dev/vda"

/-- The variables as `prepareBoot` sets them for a mode that does not boot an image. -/
structure BootFiles.Of (a : App) (paths : WorkPaths) (kind : BootMode) (files : BootFiles) : Prop where
  parsed : BootMode.parse a.firecrackerBootMode = some kind
  guestDataDevice : files.guestDataDevice = kind.guestDataDevice
  rootfsPath : files.rootfsPath = match kind with
    | .rootfs => paths.rootfsCopy
    | .initramfs => []

/-- An operation that concerns no device of the node, no entry, no configuration and no snapshot. -/
def Routine : NodeOp → Prop
  | .outside (.writeConfig _ _) => False
  | .outside (.mount _ path) => ∃ paths : WorkPaths, path = paths.sideloadRoot
  | .outside (.umount path) => ∃ paths : WorkPaths, path = paths.sideloadRoot
  | .outside _ => True
  | .registerNBDExport _ _ => True
  | .output => True
  | .stopProcess => True
  | _ => False

attribute [local simp] Routine

section Parts

variable {a : App} {session : NodeSession} {req : StartRequest} {run : RunParams} {device : Text}

theorem prepareBoot_routine {paths : WorkPaths} {mode : FirecrackerMode} :
    (prepareBoot a paths mode).run.Always Routine fun r => ∀ files, r = .ok files →
      mode ≠ .restore → mode.usesSessionRootFS = false → ∃ kind, files.Of a paths kind := by
  have hcopy : ∀ {src dst : Text}, Routine (.outside (.copyFile src dst)) := trivial
  unfold prepareBoot
  split
  · rename_i himage
    simp [himage]
  · split
    · rename_i hparsed
      split
      · simp only [always_run_bind, always_wrapping, always_outside]
        refine ⟨hcopy, fun r => ⟨by simp, fun _ _ => ?_⟩⟩
        rintro files ⟨⟩ - -
        exact ⟨.rootfs, hparsed, rfl, rfl⟩
      · rename_i hrestore
        rintro files - hmode
        exact absurd hmode hrestore
    · rename_i hparsed
      split
      · simp only [always_run_bind, always_wrapping, always_outside]
        refine ⟨hcopy, fun r => ⟨by simp, fun _ _ => ?_⟩⟩
        rintro files ⟨⟩ - -
        exact ⟨.initramfs, hparsed, rfl, rfl⟩
      · rename_i hrestore
        rintro files - hmode
        exact absurd hmode hrestore
    · rintro files ⟨⟩

theorem sideloadOrcaInit_routine {paths : WorkPaths} :
    (sideloadOrcaInit a device paths.sideloadRoot).run.Always Routine fun _ => True := by
  have hplace : ∃ paths' : WorkPaths, paths.sideloadRoot = paths'.sideloadRoot := ⟨paths, rfl⟩
  simp [-ExceptT.run_bind, -bind_pure_comp, sideloadOrcaInit, removeIfThere, Routine, hplace]

theorem attachFirecracker_routine {mode : FirecrackerMode} :
    (attachFirecracker a session mode device).run.Always Routine fun r => ∀ files, r = .ok files →
      mode ≠ .restore → mode.usesSessionRootFS = false →
        ∃ kind, files.Of a (a.workPaths session.id) kind := by
  unfold attachFirecracker
  simp only [always_run_bind, always_outside, always_act]
  refine ⟨trivial, fun r => ⟨by simp, fun _ _ => ?_⟩⟩
  refine prepareBoot_routine.mono (fun _ ho => ho) fun r hfiles => ⟨by simp, ?_⟩
  rintro files rfl
  refine ⟨trivial, fun _ => ⟨by simp, fun _ _ => ⟨trivial, fun r => ⟨by simp, ?_⟩⟩⟩⟩
  intro _ _
  split
  · simp only [always_run_bind]
    refine sideloadOrcaInit_routine.mono (fun _ ho => ho) fun r _ => ⟨by simp, fun _ _ => ?_⟩
    exact hfiles
  · exact hfiles

theorem networkFor_routine {mode : FirecrackerMode} :
    (networkFor a session mode).run.Always Routine fun _ => True := by
  unfold networkFor
  split
  · simp [-ExceptT.run_bind, -bind_pure_comp, Routine]
  · simp

theorem awaitExit_routine : awaitExit.run.Always Routine fun _ => True := by
  unfold awaitExit
  simp only [always_run_bind, always_attempt, always_outside]
  refine ⟨trivial, ?_⟩
  rintro (err | _)
  · simp [Routine]
  · simp

theorem awaitGuest_routine : awaitGuest.run.Always Routine fun _ => True := by
  unfold awaitGuest
  simp only [always_run_bind, always_attempt, always_outside]
  refine ⟨trivial, ?_⟩
  rintro (err | _)
  · simp [Routine]
  · simp

theorem finishRun_routine {files : BootFiles} :
    (finishRun a session req run files device).run.Always Routine fun _ => True := by
  have hend : ∀ snapshot, (endVM (a.workPaths session.id) snapshot).run.Always Routine fun _ => True := by
    rintro (_ | _)
    · exact awaitExit_routine
    · simp [endVM, orStop, Routine]
  have hdrop : ∀ snapshot, (dropRootfsCopy files snapshot).run.Always Routine fun _ => True := by
    intro snapshot
    unfold dropRootfsCopy
    split
    · simp [removeIfThere, Routine]
    · simp
  have hflush : (flushVolume run.mode device).run.Always Routine fun _ => True := by
    unfold flushVolume
    split
    · simp [-ExceptT.run_bind, -bind_pure_comp, Routine]
    · simp
  unfold finishRun
  simp only [always_run_bind, always_output]
  refine (hend _).mono (fun _ ho => ho) fun _ _ => ⟨by simp, fun _ _ => ⟨trivial, ?_⟩⟩
  refine fun serial => ⟨by simp, fun _ _ => (hdrop _).mono (fun _ ho => ho) fun _ _ => ?_⟩
  refine ⟨by simp, fun _ _ => hflush.mono (fun _ ho => ho) fun _ _ => ?_⟩
  exact ⟨by simp, fun _ _ => trivial⟩

theorem preflightFirecracker_routine : (preflightFirecracker a).run.Always Routine fun _ => True := by
  have hkvm : (preflightKVM a).run.Always Routine fun _ => True := by
    unfold preflightKVM
    split
    · simp
    · simp [Routine]
  unfold preflightFirecracker
  simp only [always_run_bind]
  refine hkvm.mono (fun _ ho => ho) fun r _ => ⟨by simp, fun _ _ => ?_⟩
  split
  · simp [Routine]
  · simp [Routine]
  · simp

theorem preflight_routine : (preflight a).run.Always Routine fun _ => True := by
  simp only [preflight, always_run_bind, always_failIf, always_outside]
  refine preflightFirecracker_routine.mono (fun _ ho => ho) fun r _ => ⟨by simp, fun _ _ => ?_⟩
  exact ⟨by simp, fun _ => ⟨by simp, fun _ _ => ⟨trivial, by simp⟩⟩⟩

end Parts

end OrcaBlocks.Services
