/-
# OrcaBlocks.Services.Teardown — what is left of a session when its last commit fails.

A node ends a session with a commit in four ways: the HTTP request, the disconnect of an exported NBD
device, the end of a firecracker run, and the stop of a terminal. The commit needs the object store and the
database, so it fails exactly when they do, and by then the guest is gone: the dirty chunks of the session
are the ONLY copy of what it wrote.

The handlers are those of `Services.Node`. Here their storage calls are real: `backendCommit` is any run of
`CommitWithOptions`, with any faults, and so on. Everything else a handler does may answer anything, and
what leaves the process may change the storage in any way (a guest writes while it runs, `umount` and
`nbd-client -d` make the kernel write). The machine remembers the last commit that failed (`Attempt`).

A failed commit that did not move the volume's pointer is KEPT by a handler if the session is still
registered, with its record, its overlay, and everything a later read or commit can see (`Kept`). The HTTP
request and the disconnect keep every one of them; a firecracker run and a terminal stop the session on the
way out, which removes it (`failed_commit_kept_iff`).
-/
import OrcaBlocks.Services.Drives
import OrcaBlocks.Storage.CommitFaults

namespace OrcaBlocks.Services

open OrcaBlocks.Lib Node
open OrcaBlocks.Storage hiding outside attempt

variable {opts : CommitOptions} {x : NodeM Unit}

/-! ## Storage under the handlers -/

/-- A commit that failed: the session, and the storage before and after. -/
structure Attempt where
  sessionID : String
  before : World
  after : World

/-- The storage, and the last commit that failed. -/
structure Scene where
  world : World
  failed : Option Attempt

/-- How an operation answers, and what becomes of the storage meanwhile. -/
structure Happening where
  answer : (o : NodeOp) → o.Res
  move : World → World

section Machine

-- the platform, the node's storage engine, and the request as its caller
variable (P : Platform) (b : Backend) (who : Caller)

/-- What an operation may answer and do: a storage call is a run of it, with any faults. -/
def Effect (w w' : World) : (o : NodeOp) → o.Res → Prop
  | .backendStart volumeID, r =>
    ∃ tr, (machine P (anyFault P) who).Runs (b.startSession P volumeID).run w tr (r.map NodeSession.id) w'
  | .backendCommit sessionID opts, r =>
    ∃ tr, (machine P (anyFault P) who).Runs (b.commitWithOptions P sessionID opts).run w tr r w'
  | .backendStop sessionID, r =>
    ∃ tr, (machine P (anyFault P) who).Runs (Backend.stop sessionID).run w tr r w'
  | .backendFlushDirty sessionID, r =>
    ∃ tr, (machine P (anyFault P) who).Runs (Backend.flushDirty sessionID).run w tr r w'
  | .outside _, _ => True
  | _, _ => w' = w

/-- A commit that failed is remembered. -/
def Scene.next (s : Scene) (w' : World) : (o : NodeOp) → o.Res → Scene
  | .backendCommit sessionID _, .error _ => ⟨w', some ⟨sessionID, s.world, w'⟩⟩
  | _, _ => ⟨w', s.failed⟩

def teardownMachine : Machine nodeSig Scene Happening where
  exec l s o := (l.answer o, s.next (l.move s.world) o (l.answer o))
  allowed l s o := Effect P b who s.world (l.move s.world) o (l.answer o)

/-! ## What a handler has to keep -/

/-- The session is still there, and what is there of it. -/
structure Kept (sessionID : String) (s : Session) (w w' : World) : Prop where
  registered : w'.registered (who.node, sessionID) = true
  session : w'.sessions (who.node, sessionID) = some s
  overlay : w'.overlays (who.node, sessionID) = w.overlays (who.node, sessionID)
  /-- Reads give the bytes they gave, and a commit makes a snapshot of them. -/
  usable : ∀ err, AllOrNothing P b who sessionID s w (.error err) w'

/-- The commit did not move the pointer of the session's volume. -/
def Attempt.Unmoved (t : Attempt) (s : Session) : Prop :=
  (t.after.volumes s.volume.volumeID).map Volume.latestSnapshotID =
    (t.before.volumes s.volume.volumeID).map Volume.latestSnapshotID

/-- Where the handler ends, a session whose commit failed before the pointer was moved is kept. -/
def KeepsFailedCommits (x : NodeM Unit) : Prop :=
  ∀ w labels r w' t, (teardownMachine P b who).Runs x.run ⟨w, none⟩ labels r ⟨w', some t⟩ →
    ∀ s, Closed P t.before → t.before.registered (who.node, t.sessionID) = true →
      t.before.sessions (who.node, t.sessionID) = some s → t.Unmoved s → Kept P b who t.sessionID s t.before w'

end Machine

/-- The ways to end a session with a commit. -/
inductive SessionEndKind where
  | httpCommit
  | nbdDisconnect
  | firecrackerRun
  | ttyStop
  deriving DecidableEq, Repr

/-- A request that ends a session. -/
inductive SessionEnd where
  | httpCommit (sessionID : String)
  | nbdDisconnect (device : ExportedDevice)
  | firecrackerRun (a : App) (req : StartRequest)
  | ttyStop (a : App) (sessionID : String)

def SessionEnd.kind : SessionEnd → SessionEndKind
  | .httpCommit _ => .httpCommit
  | .nbdDisconnect _ => .nbdDisconnect
  | .firecrackerRun _ _ => .firecrackerRun
  | .ttyStop _ _ => .ttyStop

/-- Its handler, without what it answers. -/
def SessionEnd.handler : SessionEnd → NodeM Unit
  | .httpCommit sessionID => do let _ ← commit sessionID
  | .nbdDisconnect device => disconnect device
  | .firecrackerRun a req => do let _ ← startSession a req
  | .ttyStop a sessionID => do let _ ← Services.ttyStop a sessionID

/-! ## A commit that fails early -/

section Commit

variable {P : Platform} {b : Backend} {who : Caller} {id : String} {s : Session} {w w' : World}

/-- A commit that fails and leaves the pointer leaves the session and its chunks. -/
theorem commit_failed_frame {tr : List (Op × Fault)} {err : Err}
    (hrun : (machine P (anyFault P) who).Runs (b.commitWithOptions P id opts).run w tr (.error err) w')
    (hclosed : Closed P w) (hreg : w.registered (who.node, id) = true)
    (hs : w.sessions (who.node, id) = some s)
    (hunmoved : (w'.volumes s.volume.volumeID).map Volume.latestSnapshotID =
      (w.volumes s.volume.volumeID).map Volume.latestSnapshotID) : Grows w w' ∧ UploadFrame w w' := by
  have hspared : ∀ e ∈ tr, Spared e = true := by
    refine (commit_trace (fun _ _ _ h => h) hclosed hreg hs hrun).resolve_right ?_
    rintro ⟨-, v, hv, hnamed, hfresh⟩
    -- the pointer would name a snapshot that was recorded before
    rw [hv, Option.map_some] at hunmoved
    obtain ⟨v₀, hv₀, hlatest⟩ := Option.map_eq_some_iff.mp hunmoved.symm
    obtain ⟨snap, hsnap, -⟩ := hclosed.latest _ v₀ hv₀ (hlatest ▸ hnamed)
    rw [hlatest, hfresh] at hsnap
    cases hsnap
  have hexec : (machine P (fun f w o => CollisionFree P w o ∧ Spared (o, f) = true) who).exec =
      (machine P (anyFault P) who).exec := rfl
  have hsparing := hrun.mono hexec fun e he w hfree => ⟨hfree, hspared e he⟩
  obtain ⟨-, hgrows, hout⟩ := hsparing.wp (commit_spec (fun _ _ _ h => h.1) b opts hclosed hreg hs)
  refine ⟨hgrows, ?_⟩
  rcases hout.error err rfl with hframe | ⟨snap, m, -, ⟨hlate, -⟩ | ⟨hclear, -⟩⟩
  · exact hframe trivial
  · obtain ⟨w₁, volumeID, snapshotID, -, hspare⟩ := hlate
    cases hspare
  · obtain ⟨f, w₁, o, ho, ⟨-, hspare⟩, hne⟩ := hclear
    rcases ho with rfl | rfl
    all_goals
      cases f with
      | none => exact absurd rfl hne
      | _ => cases hspare

theorem commit_failed_kept {tr : List (Op × Fault)} {err : Err}
    (hrun : (machine P (anyFault P) who).Runs (b.commitWithOptions P id opts).run w tr (.error err) w')
    (hclosed : Closed P w) (hreg : w.registered (who.node, id) = true)
    (hs : w.sessions (who.node, id) = some s) (hunmoved : Attempt.Unmoved ⟨id, w, w'⟩ s) :
    Kept P b who id s w w' := by
  obtain ⟨hgrows, hframe⟩ := commit_failed_frame hrun hclosed hreg hs hunmoved
  refine ⟨?_, ?_, ?_, fun e => .of_frame hclosed hreg hs hgrows hframe⟩
  · rw [hframe.registered, hreg]
  · rw [hframe.sessions, hs]
  · rw [hframe.overlays]

end Commit

/-! ## The handlers that keep it -/

section Keeping

variable {P : Platform} {b : Backend} {who : Caller} {α : Type}

/-- Every failed commit so far is kept in the storage as it is. -/
def Scene.AllKept (P : Platform) (b : Backend) (who : Caller) (c : Scene) : Prop :=
  ∀ t, c.failed = some t → ∀ s, Closed P t.before → t.before.registered (who.node, t.sessionID) = true →
    t.before.sessions (who.node, t.sessionID) = some s → t.Unmoved s → Kept P b who t.sessionID s t.before c.world

theorem keepsFailedCommits_of_wp
    (h : ∀ w, (teardownMachine P b who).wp x.run (fun _ c => c.AllKept P b who) ⟨w, none⟩) :
    KeepsFailedCommits P b who x := fun w _ _ _ t hrun => (hrun.wp (h w)) t rfl

theorem Scene.allKept_of_none {c : Scene} (hc : c.failed = none) : c.AllKept P b who := fun t ht => by
  cases hc.symm.trans ht

/-- An operation that commits nothing. -/
def NoCommit : NodeOp → Prop
  | .backendCommit _ _ => False
  | _ => True

/-- Where nothing was committed yet, nothing has failed. -/
theorem wp_noCommit {x : NodeM α} {Q : Except NodeErr α → Prop} (hx : x.run.Always NoCommit Q) {c : Scene}
    (hc : c.failed = none) : (teardownMachine P b who).wp x.run (fun r c' => Q r ∧ c'.failed = none) c := by
  refine wp_of_always hx hc ?_
  intro o l c ho hc hl
  cases o with
  | backendCommit => exact absurd ho id
  | _ => exact hc

/-- The commit of a handler. -/
theorem wp_backendCommit {sessionID : String} {c : Scene} (hc : c.failed = none) :
    (teardownMachine P b who).wp (backendCommit sessionID opts).run
      (fun r c' => c'.AllKept P b who ∧ ∀ snap, r = .ok snap → c'.failed = none) c := by
  intro l hl
  obtain ⟨tr, hrun⟩ := hl
  change (teardownMachine P b who).wp (ofStorage (l.answer (.backendCommit sessionID opts))).run _
    (c.next (l.move c.world) (.backendCommit sessionID opts) (l.answer (.backendCommit sessionID opts)))
  cases hanswer : l.answer (.backendCommit sessionID opts) with
  | ok snap => exact ⟨Scene.allKept_of_none hc, fun _ _ => hc⟩
  | error err =>
    rw [hanswer] at hrun
    refine ⟨?_, fun _ h => nomatch h⟩
    intro t ht s hclosed hreg hs hunmoved
    cases ht
    exact commit_failed_kept hrun hclosed hreg hs hunmoved

/-- Operations that touch no session keep what is kept. -/
theorem wp_unregister {sessionID : String} {c : Scene} (hc : c.AllKept P b who) :
    (teardownMachine P b who).wp (act (.unregisterNBDExport sessionID)).run (fun _ c' => c'.AllKept P b who) c := by
  intro l hl
  have hworld : l.move c.world = c.world := hl
  change Scene.AllKept P b who ⟨l.move c.world, c.failed⟩
  rw [hworld]
  exact hc

theorem detachMountedSession_noCommit (sessionID : String) :
    (detachMountedSession sessionID).run.Always NoCommit fun _ => True := by
  unfold detachMountedSession
  refine always_run_bind.mpr (always_ask.mpr ⟨trivial, fun entry => ?_⟩)
  cases entry with
  | none => simp
  | some mounted => simp [-ExceptT.run_bind, -bind_pure_comp, NoCommit]

theorem httpCommit_keeps (sessionID : String) :
    KeepsFailedCommits P b who (SessionEnd.httpCommit sessionID).handler := by
  refine keepsFailedCommits_of_wp fun w => ?_
  unfold SessionEnd.handler Services.commit
  simp only [wp_run_bind]
  refine wp_mono (wp_noCommit (detachMountedSession_noCommit sessionID) rfl) ?_
  rintro (e | _) c ⟨-, hc⟩
  · exact Scene.allKept_of_none hc
  · refine wp_mono (wp_backendCommit hc) ?_
    rintro (e | snap) c ⟨hc, -⟩
    · exact hc
    · refine wp_mono (wp_unregister hc) ?_
      rintro (e | _) c hc
      · exact hc
      · exact hc

/-- The body of `Disconnect`. -/
theorem wp_disconnect_body (device : ExportedDevice) (w : World) :
    (teardownMachine P b who).wp
      (if device.commitOnDisconnect then do
        let _ ← backendCommit device.sessionID ⟨device.uploadBatchChunks, false⟩
        backendStop device.sessionID
      else backendFlushDirty device.sessionID : NodeM Unit).run (fun _ c => c.AllKept P b who) ⟨w, none⟩ := by
  split
  · refine wp_run_seq (wp_backendCommit rfl) ?_
    rintro (e | snap) c ⟨hc, hok⟩
    · exact hc
    · have hstop : (backendStop device.sessionID).run.Always NoCommit fun _ => True := by simp [NoCommit]
      exact wp_mono (wp_noCommit hstop (hok snap rfl)) fun _ _ h => Scene.allKept_of_none h.2
  · have hflush : (backendFlushDirty device.sessionID).run.Always NoCommit fun _ => True := by
      refine always_run_bind.mpr (always_ask.mpr ⟨trivial, fun answer => ?_⟩)
      simp
    exact wp_mono (wp_noCommit hflush rfl) fun _ _ h => Scene.allKept_of_none h.2

theorem nbdDisconnect_keeps (device : ExportedDevice) :
    KeepsFailedCommits P b who (SessionEnd.nbdDisconnect device).handler := by
  refine keepsFailedCommits_of_wp fun w => ?_
  unfold SessionEnd.handler disconnect
  dsimp only
  split
  · unfold deferring ignore attempt
    simp only [wp_run_bind, wp_run_lift, orElse_ok, wp_run_pure]
    refine wp_mono (wp_disconnect_body device w) fun r c hc => ?_
    refine wp_mono (wp_unregister hc) fun _ c hc => ?_
    cases r with
    | ok _ => exact hc
    | error e => exact hc
  · exact wp_disconnect_body device w

end Keeping

/-! ## The handlers that lose it -/

/-- An operation during which the storage can stay as it is. -/
def NodeOp.isQuiet : NodeOp → Bool
  | .backendStart _ | .backendCommit _ _ | .backendStop _ | .backendFlushDirty _ => false
  | _ => true

/-- Quiet operations, whatever they answer. -/
theorem takes_quiet {P : Platform} {b : Backend} {who : Caller} {answers : (o : NodeOp) → o.Res}
    {tr : List ((o : NodeOp) × o.Res)} (hanswer : ∀ e ∈ tr, e.2 = answers e.1)
    (hquiet : ∀ e ∈ tr, e.1.isQuiet = true) (c : Scene) : (teardownMachine P b who).Takes c tr c := by
  induction tr with
  | nil => exact .nil c
  | cons e tr ih =>
    obtain ⟨o, r⟩ := e
    obtain ⟨hr, hanswers⟩ := List.forall_mem_cons.mp hanswer
    change r = answers o at hr
    subst hr
    obtain ⟨ho, hrest⟩ := List.forall_mem_cons.mp hquiet
    have hstep : (teardownMachine P b who).allowed ⟨answers, id⟩ c o ∧
        (teardownMachine P b who).exec ⟨answers, id⟩ c o = (answers o, c) := by
      cases o with
      | backendStart => cases ho
      | backendCommit => cases ho
      | backendStop => cases ho
      | backendFlushDirty => cases ho
      | outside => exact ⟨trivial, rfl⟩
      | _ => exact ⟨rfl, rfl⟩
    have hrest' : (teardownMachine P b who).Takes ((teardownMachine P b who).exec ⟨answers, id⟩ c o).2 tr c := by
      rw [hstep.2]
      exact ih hanswers hrest
    have htake := Machine.Takes.cons (M := teardownMachine P b who) ⟨answers, id⟩ hstep.1 hrest'
    rwa [hstep.2] at htake

/-- The session of `oneByteWritten`. -/
def writtenSession : String := goRuntime.uuid 0

/-- Its commit, in the batches of the node, while the object store is down. -/
def failedCommit : Except Err Snapshot × World :=
  (machine goRuntime (anyFault goRuntime) ⟨0, 0⟩).run storeDown
    (plainNode.commitWithOptions goRuntime writtenSession ⟨nodeOne.nbdCommitBatch, false⟩).run oneByteWritten

/-- The storage after the session was stopped. -/
def discarded : World :=
  ((machine goRuntime (anyFault goRuntime) ⟨0, 0⟩).run (fun _ => .none) (Backend.stop writtenSession).run
    failedCommit.2).2

/-- A planned run without a collision at its end is a run under any faults. -/
theorem runs_anyFault {α : Type} (plan : Op → Fault) (x : Prog sig α) (w : World)
    (h : NoCollision goRuntime ((machine goRuntime (anyFault goRuntime) ⟨0, 0⟩).run plan x w).2.hashed) :
    ∃ tr, (machine goRuntime (anyFault goRuntime) ⟨0, 0⟩).Runs x w tr
      ((machine goRuntime (anyFault goRuntime) ⟨0, 0⟩).run plan x w).1
      ((machine goRuntime (anyFault goRuntime) ⟨0, 0⟩).run plan x w).2 :=
  ⟨_, (runs_run_of_final (M := machine goRuntime (anyFault goRuntime) ⟨0, 0⟩) rfl
    (K := fun w => NoCollision goRuntime w.hashed)
    (fun w o h => collisionFree_of_noCollision (plan o) w o h) x w h).2⟩

/-- Where the two runs end: the commit failed and moved nothing, the session is unknown. -/
theorem discarded_ends :
    (failedCommit.1 = .error .io ∧ failedCommit.2.hashed = [[1, 0, 0, 0]]) ∧
    (((machine goRuntime (anyFault goRuntime) ⟨0, 0⟩).run (fun _ => .none) (Backend.stop writtenSession).run
      failedCommit.2).1 = .ok () ∧ discarded.hashed = [[1, 0, 0, 0]]) ∧
    (failedCommit.2.volumes "v").map Volume.latestSnapshotID =
      (oneByteWritten.volumes "v").map Volume.latestSnapshotID ∧
    discarded.registered (0, writtenSession) = false := by
  decide +kernel

theorem failedCommit_unmoved : (failedCommit.2.volumes "v").map Volume.latestSnapshotID =
    (oneByteWritten.volumes "v").map Volume.latestSnapshotID :=
  discarded_ends.2.2.1

theorem discarded_gone : discarded.registered (0, writtenSession) = false :=
  discarded_ends.2.2.2

theorem failedCommit_runs : ∃ tr, (machine goRuntime (anyFault goRuntime) ⟨0, 0⟩).Runs
    (plainNode.commitWithOptions goRuntime writtenSession ⟨nodeOne.nbdCommitBatch, false⟩).run oneByteWritten tr
    (.error .io) failedCommit.2 := by
  obtain ⟨hfailed, hhashed⟩ := discarded_ends.1
  rw [← hfailed]
  refine runs_anyFault storeDown _ _ ?_
  change NoCollision goRuntime failedCommit.2.hashed
  rw [hhashed]
  simp [NoCollision]

theorem discarded_runs : ∃ tr, (machine goRuntime (anyFault goRuntime) ⟨0, 0⟩).Runs
    (Backend.stop writtenSession).run failedCommit.2 tr (.ok ()) discarded := by
  obtain ⟨hok, hhashed⟩ := discarded_ends.2.1
  rw [← hok]
  refine runs_anyFault (fun _ => .none) _ _ ?_
  change NoCollision goRuntime discarded.hashed
  rw [hhashed]
  simp [NoCollision]

/-- Everything succeeds but the commit. -/
def commitFails : (o : NodeOp) → o.Res
  | .backendStart _ => .ok ⟨writtenSession, ⟨"v", 8, 4, "", ""⟩, ""⟩
  | .backendCommit _ _ => .error .io
  | .getTTY sessionID => some ⟨sessionID, ascii "/dev/nbd0", none, false⟩
  | o => fairAnswers o

/-- The answers of a followed path. -/
theorem follow_answers {α : Type} (answers : (o : NodeOp) → o.Res) (t : Prog nodeSig α) :
    ∀ e ∈ (t.follow answers).1, e.2 = answers e.1 := by
  induction t with
  | ret a => exact fun e he => nomatch he
  | call o k ih =>
    intro e he
    rcases List.mem_cons.mp he with rfl | he
    · rfl
    · exact ih _ e he

/-- A handler that commits the session, and stops it although the commit failed. -/
theorem runs_of_follow {w : World} (n : Nat) {mid behind : List ((o : NodeOp) × o.Res)}
    (hend : (x.run.follow commitFails).1.drop n =
      ⟨.backendCommit writtenSession ⟨nodeOne.nbdCommitBatch, false⟩, .error .io⟩ :: mid ++
        ⟨.backendStop writtenSession, .ok ()⟩ :: behind)
    (hfront : (teardownMachine goRuntime plainNode ⟨0, 0⟩).Takes ⟨w, none⟩ ((x.run.follow commitFails).1.take n)
      ⟨oneByteWritten, none⟩) (hmid : ∀ e ∈ mid, e.2 = commitFails e.1 ∧ e.1.isQuiet = true)
    (hbehind : ∀ e ∈ behind, e.2 = commitFails e.1 ∧ e.1.isQuiet = true) :
    ∃ labels, (teardownMachine goRuntime plainNode ⟨0, 0⟩).Runs x.run ⟨w, none⟩ labels (x.run.follow commitFails).2
      ⟨discarded, some ⟨writtenSession, oneByteWritten, failedCommit.2⟩⟩ := by
  obtain ⟨commitTrace, hcommit⟩ := failedCommit_runs
  obtain ⟨stopTrace, hstop⟩ := discarded_runs
  have hattempt : (teardownMachine goRuntime plainNode ⟨0, 0⟩).Takes ⟨oneByteWritten, none⟩
      (⟨.backendCommit writtenSession ⟨nodeOne.nbdCommitBatch, false⟩, .error .io⟩ :: mid ++
        ⟨.backendStop writtenSession, .ok ()⟩ :: behind)
      ⟨discarded, some ⟨writtenSession, oneByteWritten, failedCommit.2⟩⟩ := by
    refine Machine.Takes.cons (M := teardownMachine goRuntime plainNode ⟨0, 0⟩)
      ⟨commitFails, fun _ => failedCommit.2⟩ ⟨commitTrace, hcommit⟩ ?_
    refine (takes_quiet (fun e he => (hmid e he).1) (fun e he => (hmid e he).2) _).append ?_
    refine Machine.Takes.cons (M := teardownMachine goRuntime plainNode ⟨0, 0⟩)
      ⟨commitFails, fun _ => discarded⟩ ⟨stopTrace, hstop⟩ ?_
    exact takes_quiet (fun e he => (hbehind e he).1) (fun e he => (hbehind e he).2) _
  have hpath := Prog.path_follow commitFails x.run
  rw [← List.take_append_drop n (x.run.follow commitFails).1, hend] at hpath
  exact (hfront.append hattempt).runs hpath

/-- Such a handler does not keep the session. -/
theorem not_keeps_of_runs {w : World} {labels : List (NodeOp × Happening)} {r : Except NodeErr Unit}
    (hrun : (teardownMachine goRuntime plainNode ⟨0, 0⟩).Runs x.run ⟨w, none⟩ labels r
      ⟨discarded, some ⟨writtenSession, oneByteWritten, failedCommit.2⟩⟩) :
    ¬ KeepsFailedCommits goRuntime plainNode ⟨0, 0⟩ x := by
  intro hkeeps
  have hsome : (oneByteWritten.sessions (0, writtenSession)).isSome := by decide +kernel
  obtain ⟨s, hs⟩ := Option.isSome_iff_exists.mp hsome
  have hvolume : (oneByteWritten.sessions (0, writtenSession)).map (fun s => s.volume.volumeID) = some "v" := by
    decide +kernel
  rw [hs, Option.map_some, Option.some_inj] at hvolume
  have hunmoved : Attempt.Unmoved ⟨writtenSession, oneByteWritten, failedCommit.2⟩ s := by
    rw [Attempt.Unmoved, hvolume]
    exact failedCommit_unmoved
  have hkept := hkeeps w labels r discarded _ hrun s closed_oneByteWritten (by decide +kernel) hs hunmoved
  cases discarded_gone.symm.trans hkept.registered

/-- The front of a followed path, as far as it is quiet. -/
theorem takes_follow {n m : Nat}
    (hquiet : (((x.run.follow commitFails).1.drop m).take n).all (fun e => e.1.isQuiet) = true)
    (c : Scene) :
    (teardownMachine goRuntime plainNode ⟨0, 0⟩).Takes c (((x.run.follow commitFails).1.drop m).take n) c :=
  takes_quiet (fun e he => follow_answers commitFails _ e (List.mem_of_mem_drop (List.mem_of_mem_take he)))
    (fun e he => List.all_eq_true.mp hquiet e he) c

theorem ttyStop_runs : ∃ labels r, (teardownMachine goRuntime plainNode ⟨0, 0⟩).Runs
    (SessionEnd.ttyStop nodeOne writtenSession).handler.run ⟨oneByteWritten, none⟩ labels r
    ⟨discarded, some ⟨writtenSession, oneByteWritten, failedCommit.2⟩⟩ := by
  have hend : ((SessionEnd.ttyStop nodeOne writtenSession).handler.run.follow commitFails).1.drop 9 =
      ⟨.backendCommit writtenSession ⟨nodeOne.nbdCommitBatch, false⟩, .error .io⟩ ::
        [] ++ ⟨.backendStop writtenSession, .ok ()⟩ :: [⟨.deleteTTY writtenSession, ()⟩] := rfl
  have hfront := takes_follow (x := (SessionEnd.ttyStop nodeOne writtenSession).handler) (n := 9) (m := 0)
    (by rfl) ⟨oneByteWritten, none⟩
  obtain ⟨labels, hrun⟩ := runs_of_follow 9 hend hfront (fun e he => nomatch he) (by
    intro e he
    rw [List.mem_singleton.mp he]
    exact ⟨rfl, rfl⟩)
  exact ⟨labels, _, hrun⟩

/-- A volume, and a session of it that wrote nothing yet. -/
def volumeCreated : World :=
  (serveAll goRuntime (fun _ => plainNode) World.initial [(⟨0, 0⟩, .createVolume "v" 8 4)]).2

def sessionStarted : World :=
  ((machine goRuntime (anyFault goRuntime) ⟨0, 0⟩).run (fun _ => .none) (plainNode.startSession goRuntime "v").run
    volumeCreated).2

theorem sessionStarted_runs : ∃ tr, (machine goRuntime (anyFault goRuntime) ⟨0, 0⟩).Runs
    (plainNode.startSession goRuntime "v").run volumeCreated tr (.ok writtenSession) sessionStarted := by
  have hhashed : sessionStarted.hashed = [] := by decide +kernel
  have hok : ((machine goRuntime (anyFault goRuntime) ⟨0, 0⟩).run (fun _ => .none)
      (plainNode.startSession goRuntime "v").run volumeCreated).1 = .ok writtenSession := by decide +kernel
  rw [← hok]
  refine runs_anyFault (fun _ => .none) _ _ ?_
  change NoCollision goRuntime sessionStarted.hashed
  rw [hhashed]
  simp [NoCollision]

/-- A run of a command in an image; the volume is committed when it ends. -/
def runRequest : StartRequest :=
  { runtime := ascii "firecracker", volumeID := "v", firecrackerMode := ascii "image-rootfs-run" }

theorem firecrackerRun_runs : ∃ labels r, (teardownMachine goRuntime plainNode ⟨0, 0⟩).Runs
    (SessionEnd.firecrackerRun nodeOne runRequest).handler.run ⟨volumeCreated, none⟩ labels r
    ⟨discarded, some ⟨writtenSession, oneByteWritten, failedCommit.2⟩⟩ := by
  set tr := ((SessionEnd.firecrackerRun nodeOne runRequest).handler.run.follow commitFails).1 with htr
  have hend : tr.drop 28 =
      ⟨.backendCommit writtenSession ⟨nodeOne.nbdCommitBatch, false⟩, .error .io⟩ ::
        [⟨.unregisterNBDExport writtenSession, ()⟩] ++ ⟨.backendStop writtenSession, .ok ()⟩ :: [] := rfl
  have hstart : tr.take 1 = [⟨.backendStart "v", commitFails (.backendStart "v")⟩] := rfl
  have hguest : (tr.drop 19).take 1 = [⟨.outside .waitForMarkerOrExit, .ok ()⟩] := rfl
  obtain ⟨startTrace, hstarted⟩ := sessionStarted_runs
  -- the session is started, the guest writes while the node waits for it
  have hfront : (teardownMachine goRuntime plainNode ⟨0, 0⟩).Takes ⟨volumeCreated, none⟩ (tr.take 28)
      ⟨oneByteWritten, none⟩ := by
    have hcut : tr.take 28 = tr.take 1 ++ ((tr.drop 1).take 18 ++ ((tr.drop 19).take 1 ++ (tr.drop 20).take 8)) := by
      rw [show 28 = 1 + (18 + (1 + 8)) from rfl, List.take_add, List.take_add, List.take_add, List.drop_drop,
        List.drop_drop]
    rw [hcut, hstart, hguest]
    refine Machine.Takes.cons (M := teardownMachine goRuntime plainNode ⟨0, 0⟩)
      ⟨commitFails, fun _ => sessionStarted⟩ ⟨startTrace, hstarted⟩ ?_
    refine (takes_follow (by rfl) _).append ?_
    refine Machine.Takes.cons (M := teardownMachine goRuntime plainNode ⟨0, 0⟩)
      ⟨commitFails, fun _ => oneByteWritten⟩ trivial ?_
    exact takes_follow (by rfl) _
  obtain ⟨labels, hrun⟩ := runs_of_follow 28 hend hfront (by
    intro e he
    rw [List.mem_singleton.mp he]
    exact ⟨rfl, rfl⟩) (fun e he => nomatch he)
  exact ⟨labels, _, hrun⟩

/-! ## The verdict -/

/-- **Which ways to end a session keep it when its commit fails**: the HTTP request and the disconnect of an
exported device, whatever the session, the storage and the faults; a firecracker run and the stop of a
terminal do not. -/
theorem failed_commit_kept_iff (kind : SessionEndKind) :
    (∀ (P : Platform) (b : Backend) (who : Caller) (e : SessionEnd), e.kind = kind →
      KeepsFailedCommits P b who e.handler) ↔ kind = .httpCommit ∨ kind = .nbdDisconnect := by
  constructor
  · intro h
    cases kind with
    | httpCommit => exact .inl rfl
    | nbdDisconnect => exact .inr rfl
    | firecrackerRun =>
      obtain ⟨labels, r, hrun⟩ := firecrackerRun_runs
      exact absurd (h _ _ _ _ rfl) (not_keeps_of_runs hrun)
    | ttyStop =>
      obtain ⟨labels, r, hrun⟩ := ttyStop_runs
      exact absurd (h _ _ _ _ rfl) (not_keeps_of_runs hrun)
  · rintro hkind P b who e rfl
    cases e with
    | httpCommit sessionID => exact httpCommit_keeps sessionID
    | nbdDisconnect device => exact nbdDisconnect_keeps device
    | firecrackerRun a req => rcases hkind with h | h <;> cases h
    | ttyStop a sessionID => rcases hkind with h | h <;> cases h

/-- **A byte that is gone.** A terminal is stopped while the object store is down. The commit fails and moves
nothing; the session, whose first byte read 1 before, is stopped and unknown. -/
theorem tty_stop_discards_written_byte :
    readOf goRuntime plainNode ⟨0, 0⟩ writtenSession oneByteWritten 0 1 = .ok [1] ∧
    (∃ labels r, (teardownMachine goRuntime plainNode ⟨0, 0⟩).Runs
      (SessionEnd.ttyStop nodeOne writtenSession).handler.run ⟨oneByteWritten, none⟩ labels r
      ⟨discarded, some ⟨writtenSession, oneByteWritten, failedCommit.2⟩⟩) ∧
    ((failedCommit.2.volumes "v").map Volume.latestSnapshotID =
      (oneByteWritten.volumes "v").map Volume.latestSnapshotID) ∧
    discarded.registered (0, writtenSession) = false ∧
    readOf goRuntime plainNode ⟨0, 0⟩ writtenSession discarded 0 1 = .error .notFound :=
  ⟨by decide +kernel, ttyStop_runs, failedCommit_unmoved, discarded_gone, by decide +kernel⟩

end OrcaBlocks.Services
