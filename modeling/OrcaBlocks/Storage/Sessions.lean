/-
# OrcaBlocks.Storage.Sessions — volumes and sessions come and go, when nothing fails.

`CreateVolume`, `StartSession`, `Stop` and `Commit` as atomic calls of a machine without faults: what
each of them makes of the world, exactly. That they keep it closed is the interference result
(`Threads`, `Commit`) at the identity; only the values are new here.
-/
import OrcaBlocks.Storage.Commit
import OrcaBlocks.Storage.ReadWrite

namespace OrcaBlocks.Storage

open OrcaBlocks.Lib Backend Function

variable {allowed : Fault → World → Op → Prop} {α : Type} {id : String} {v : Volume}

/-- No operation fails, and no chunk is hashed to the hash of a different one. -/
def unfailing (P : Platform) : Fault → World → Op → Prop := fun f w o =>
  f = .none ∧ CollisionFree P w o

/-- The manifest of a volume's latest snapshot; a volume without one is all holes. -/
def latestOf (P : Platform) (w : World) (v : Volume) : Manifest :=
  if v.latestSnapshotID = "" then ∅
  else ((w.snapshots v.latestSnapshotID).bind fun s => manifestAt P w.objects s.manifestKey).getD ∅

/-- Everything the bytes of volumes and sessions depend on is the same. -/
structure SameData (w w' : World) : Prop where
  volumes : w'.volumes = w.volumes
  snapshots : w'.snapshots = w.snapshots
  objects : w'.objects = w.objects
  sessions : w'.sessions = w.sessions
  registered : w'.registered = w.registered
  overlays : w'.overlays = w.overlays

theorem SameData.refl (w : World) : SameData w w := ⟨rfl, rfl, rfl, rfl, rfl, rfl⟩

/-- A volume appears. -/
def World.created (w : World) (v : Volume) : World :=
  { w with volumes := update w.volumes v.volumeID (some v) }

/-- A session appears, and its volume remembers the node. -/
def World.started (w : World) (r : SessRef) (s : Session) (nodeID : String) : World :=
  { w with
    volumes := update w.volumes s.volume.volumeID
      (some { s.volume with lastNode := nodeID })
    sessions := update w.sessions r (some s)
    registered := update w.registered r true
    overlays := update w.overlays r (some ((w.overlays r).getD fun _ => none)) }

/-- A session goes, with its overlay. The object may still be referenced. -/
def World.stopped (w : World) (r : SessRef) : World :=
  { w with
    registered := update w.registered r false
    overlays := update w.overlays r none }

section Sessions

variable {P : Platform} {who : Caller} {w : World}

theorem quiet_unfailing : Quiet (unfailing P) := fun _ _ _ h => h.1

/-- What is safe under interference is safe alone. -/
theorem closed_of_safe {t : Prog sig α} {Q : α → World → Prop} (h : Safe P who allowed t Q w)
    (hclosed : Closed P w) : (machine P allowed who).wp t (fun _ w' => Closed P w') w :=
  wp_mono (WpRG.wp (fun w => .refl P _ w) h hclosed) fun _ _ h => h.1

/-- An operation that cannot fail does what it does. -/
theorem wp_unfailing {o : Op} {Q : Res o → World → Prop} {r : Res o} {w' : World}
    (hexec : exec P who .none w o = (r, w')) (h : Q r w') :
    (machine P (unfailing P) who).wp (perform o) Q w := by
  intro f hf
  obtain rfl := hf.1
  show Q (exec P who .none w o).1 (exec P who .none w o).2
  rw [hexec]
  exact h

theorem exec_get {found : Option α} {a : α} (h : found = some a) :
    Fault.on .none w (execGet w found) = (.ok a, w) := by
  rw [h]
  rfl

theorem exec_updateVolume {g : Volume → Volume} (h : w.volumes id = some v) :
    Fault.on .none w (execUpdateVolume w id g) =
      (.ok (), { w with volumes := update w.volumes id (some (g v)) }) := by
  rw [execUpdateVolume, h]
  rfl

/-! ## Creating a volume -/

/-- The volume `CreateVolume` makes: without a name it takes the next UUID. -/
def newVolume (P : Platform) (w : World) (id : String) (sizeBytes chunkSize : Int64) : Volume :=
  ⟨if id = "" then P.uuid w.uuids else id, sizeBytes, chunkSize, "", ""⟩

/-- **`CreateVolume`** makes an empty volume, with the defaults for sizes left out; under a name nobody used,
the world stays closed. -/
theorem createVolume_withDefaults {sizeBytes chunkSize : Int64} (hclosed : Closed P w)
    (hfits : SizesFit (newVolume P w id sizeBytes chunkSize).withDefaults) :
    (machine P (unfailing P) who).wp (Backend.createVolume id sizeBytes chunkSize).run
      (fun r w' => r = .ok (newVolume P w id sizeBytes chunkSize).withDefaults ∧
        SameData (w.created (newVolume P w id sizeBytes chunkSize).withDefaults) w' ∧
        (w.volumes (newVolume P w id sizeBytes chunkSize).volumeID = none → Closed P w')) w := by
  have hcreate : ∀ w₁, Closed P w₁ → SameData w w₁ → (machine P (unfailing P) who).wp
      (outside (perform (.createVolume (newVolume P w id sizeBytes chunkSize)))).run
      (fun r w' => r = .ok (newVolume P w id sizeBytes chunkSize).withDefaults ∧
        SameData (w.created (newVolume P w id sizeBytes chunkSize).withDefaults) w' ∧
        (w.volumes (newVolume P w id sizeBytes chunkSize).volumeID = none → Closed P w')) w₁ := by
    intro w₁ hclosed₁ hsame f hf
    obtain rfl := hf.1
    refine ⟨rfl, ⟨?_, hsame.snapshots, hsame.objects, hsame.sessions,
      hsame.registered, hsame.overlays⟩, fun hnone => ?_⟩
    · show update w₁.volumes _ (some (Volume.withDefaults _)) = _
      rw [hsame.volumes]
      rfl
    · have hkept : Kept P who w₁ _ := kept_createVolume hclosed₁ .none
        ⟨hsame.volumes.symm ▸ hnone, hfits⟩ fun h => absurd rfl h
      exact hkept.closed
  unfold Backend.createVolume
  by_cases hid : id = ""
  · rw [if_pos hid, wp_run_bind]
    refine wp_access fun f _ => ?_
    rw [orElse_ok]
    have hnew : newVolume P w id sizeBytes chunkSize = ⟨P.uuid w.uuids, sizeBytes, chunkSize, "", ""⟩ := by
      rw [newVolume, if_pos hid]
    rw [hnew] at hcreate ⊢
    exact hcreate _ (harmless_newString f w hclosed).closed ⟨rfl, rfl, rfl, rfl, rfl, rfl⟩
  · rw [if_neg hid]
    have hnew : newVolume P w id sizeBytes chunkSize = ⟨id, sizeBytes, chunkSize, "", ""⟩ := by
      rw [newVolume, if_neg hid]
    rw [hnew] at hcreate ⊢
    exact hcreate w hclosed (.refl w)

/-! ## Starting and stopping a session -/

/-- The manifest a session starts from is that of the volume's latest snapshot. -/
theorem latestManifest_spec (hclosed : Closed P w) (hv : w.volumes id = some v) :
    (machine P (unfailing P) who).wp (latestManifest P v).run
      (fun r w' => r = .ok (latestOf P w v) ∧ w' = w) w := by
  unfold latestManifest latestOf
  by_cases hempty : v.latestSnapshotID = ""
  · rw [if_neg (not_not.mpr hempty), if_pos hempty]
    exact ⟨rfl, rfl⟩
  · rw [if_pos hempty, if_neg hempty]
    obtain ⟨s, hs, -⟩ := hclosed.latest id v hv hempty
    obtain ⟨-, v₀, -, m, hm, -⟩ := hclosed.snapshots _ s hs
    rw [hs, Option.bind_some, hm, Option.getD_some, wp_run_bind]
    refine wp_unfailing (exec_get hs) ?_
    rw [orElse_ok]
    -- the object is there and decodes
    obtain ⟨raw, hraw, hdecode⟩ := Option.bind_eq_some_iff.mp hm
    obtain ⟨wire, hwire, hmanifest⟩ := Option.bind_eq_some_iff.mp hdecode
    unfold loadManifest
    rw [wp_run_bind]
    refine wp_unfailing (exec_get hraw) ?_
    rw [orElse_ok]
    simp only [hwire]
    rw [wp_ofResult]
    cases hresult : manifestFromWire wire with
    | error e =>
      rw [hresult] at hmanifest
      cases hmanifest
    | ok m' =>
      rw [hresult] at hmanifest
      exact ⟨congrArg Except.ok (Option.some.inj hmanifest), rfl⟩

/-- **`StartSession`** of a volume that exists. -/
theorem startSession_spec (b : Backend) {volumeID : String} (hclosed : Closed P w)
    (hv : w.volumes volumeID = some v) :
    (machine P (unfailing P) who).wp (Backend.startSession P b volumeID).run
      (fun r w' => (r = .ok (P.uuid w.uuids) ∧
        SameData (w.started (who.node, P.uuid w.uuids)
          ⟨v, v.latestSnapshotID, latestOf P w v, ∅⟩ b.nodeID) w') ∧ Closed P w') w := by
  refine wp_and ?_ (closed_of_safe (startSession_safe b volumeID w) hclosed)
  obtain rfl := (hclosed.volumes _ v hv).1
  unfold Backend.startSession
  rw [wp_run_bind]
  refine wp_unfailing (exec_get hv) ?_
  rw [orElse_ok]
  refine wp_run_seq (latestManifest_spec hclosed hv) ?_
  intro r w₁ h₁
  obtain ⟨rfl, rfl⟩ := h₁
  rw [orElse_ok, wp_run_bind]
  refine wp_access fun f _ => ?_
  rw [orElse_ok, wp_run_bind]
  refine wp_unfailing rfl ?_
  rw [orElse_ok, wp_run_bind]
  refine wp_access fun f _ => ?_
  rw [orElse_ok, wp_run_bind]
  refine wp_attempt (wp_unfailing (exec_updateVolume hv) ?_)
  exact ⟨rfl, ⟨rfl, rfl, rfl, rfl, rfl, rfl⟩⟩

theorem startSession_unknown (b : Backend) {volumeID : String} (hv : w.volumes volumeID = none) :
    (machine P (unfailing P) who).wp (Backend.startSession P b volumeID).run
      (fun r w' => r = .error .notFound ∧ w' = w) w := by
  unfold Backend.startSession
  rw [wp_run_bind]
  refine wp_unfailing (r := .error .notFound) ?_ ⟨rfl, rfl⟩
  simp only [exec, Fault.on, execGet, hv]

/-- **`Stop`** of a session that is registered. -/
theorem stop_spec (hclosed : Closed P w) (hreg : w.registered (who.node, id) = true) :
    (machine P (unfailing P) who).wp (Backend.stop id).run
      (fun r w' => (r = .ok () ∧ SameData (w.stopped (who.node, id)) w') ∧ Closed P w') w := by
  refine wp_and ?_ (closed_of_safe (stop_safe id w) hclosed)
  unfold Backend.stop
  rw [wp_run_bind]
  refine wp_access fun f _ => ?_
  rw [orElse_ok]
  simp only [exec, hreg, if_true]
  exact wp_unfailing rfl ⟨rfl, ⟨rfl, rfl, rfl, rfl, rfl, rfl⟩⟩

theorem stop_unknown (hreg : w.registered (who.node, id) = false) :
    (machine P (unfailing P) who).wp (Backend.stop id).run
      (fun r w' => r = .error .notFound ∧ w' = w) w := by
  unfold Backend.stop
  rw [wp_run_bind]
  refine wp_access fun f _ => ?_
  rw [orElse_ok]
  have hsame : update w.registered (who.node, id) false = w.registered := by
    rw [← hreg, update_eq_self]
  simp only [exec, hreg, hsame]
  exact ⟨rfl, rfl⟩

/-- A call on a session the node does not know ends there. -/
theorem unknown_fails (hreg : w.registered (who.node, id) = false) (g : Volume → M α) :
    (machine P allowed who).wp (Backend.session id >>= g).run
      (fun r w' => r = .error .notFound ∧ w' = w) w := by
  rw [wp_run_bind]
  exact session_unknown hreg ⟨rfl, rfl⟩

/-! ## Committing -/

/-- An atomic call: nobody interferes. -/
theorem commitContext_atomic (hfree : ∀ f w o, allowed f w o → CollisionFree P w o) :
    CommitContext P who allowed (fun w w' => w' = w) True (Quiet allowed) where
  free := hfree
  rely := by
    rintro w w' rfl
    exact .refl P _ w'
  frame := by
    rintro - w w' rfl
    exact .refl w'
  noFault := fun h => h
  still := fun _ _ _ h => h
  quietAlone := fun _ => trivial

/-- **`CommitWithOptions`**, atomically, of a session the node knows. -/
theorem commit_spec (hfree : ∀ f w o, allowed f w o → CollisionFree P w o) (b : Backend) {s : Session}
    (opts : CommitOptions) (hclosed : Closed P w) (hreg : w.registered (who.node, id) = true)
    (hs : w.sessions (who.node, id) = some s) :
    (machine P allowed who).wp (commitWithOptions P b id opts).run
      (fun r w' => Closed P w' ∧ Grows w w' ∧
        CommitOutcome P True (Quiet allowed) who allowed id s s.baseManifest w r w') w := by
  have ctx : CommitContext P who allowed (fun w w' => w' = w) True (Quiet allowed) :=
    commitContext_atomic hfree
  have hguarded := guarded_grows ctx (commitWithOptions_guarded ctx b id opts w)
  refine wp_mono (WpRG.wp (R := fun w w' => w' = w) (fun _ => rfl) hguarded hclosed) ?_
  intro r w' hr
  obtain ⟨hclosed', hgrows, hout⟩ := hr
  refine ⟨hclosed', hgrows, ?_⟩
  rcases hout with ⟨-, hunknown⟩ | ⟨s', base, hsession, hout⟩
  · rcases (hunknown trivial).2 with hfalse | hnone
    · rw [hreg] at hfalse
      cases hfalse
    · rw [hs] at hnone
      cases hnone
  · obtain ⟨-, hs', rfl⟩ := hsession trivial
    obtain rfl := Option.some.inj (hs.symm.trans hs')
    exact hout

end Sessions

end OrcaBlocks.Storage
