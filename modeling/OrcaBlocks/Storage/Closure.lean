/-
# OrcaBlocks.Storage.Closure — content-address closure holds in every reachable state.

The system is a pool of threads: any number of nodes, each with its own cache limits, run any calls
of the storage API and of the services on it, interleaved at single operations. Any operation may
fail, before or after it took effect, and any set of threads may go down for good at any time.

`pool_safe` is the invariant: the world is `Closed` in every reachable pool, and every step grows
it. `Consistent` reads the parts of it that matter to a user of the store off `Closed`.
-/
import OrcaBlocks.Services.Images
import OrcaBlocks.Storage.Commit
import OrcaBlocks.Storage.GoRuntime

namespace OrcaBlocks.Storage

open OrcaBlocks.Lib OrcaBlocks.Services

section Services

variable {P : Platform} {who : Caller} {allowed : Fault → World → Op → Prop}
variable (hallowed : ∀ f w o, allowed f w o → Admissible P w o)

/-! ## The services -/

theorem importParts_safe (b : Backend) (id : String) (readErr : Option Err) (parts : List Bytes)
    (offset : Int64) (w : World) :
    Safe P who allowed (importParts P b id readErr parts offset).run (fun _ _ => True) w := by
  induction parts generalizing offset w with
  | nil =>
    unfold importParts
    cases readErr with
    | none => trivial
    | some e => trivial
  | cons part rest ih =>
    unfold importParts
    exact safe_bind (write_safe b id offset part w) (fun _ _ _ => trivial)
      fun _ w₁ _ _ => ih _ w₁

include hallowed

/-- The snapshot of an import is one of the imported volume. -/
theorem importFile_safe (b : Backend) (volume : Volume) (parts : List Bytes)
    (readErr : Option Err) (w : World) :
    Safe P who allowed (importFile P b volume parts readErr).run
      (fun r w' => ∀ s, r = .ok s →
        w'.snapshots s.snapshotID = some s ∧ s.volumeID = volume.volumeID) w := by
  have hfree : ∀ f w o, allowed f w o → CollisionFree P w o := fun f w o h => (hallowed f w o h).1
  unfold importFile
  refine safe_bind (startSession_safe b volume.volumeID w) (fun _ _ _ _ h => by cases h)
    fun id w₁ _ hstart => ?_
  obtain ⟨v, hopen, hid⟩ := hstart id rfl
  rw [safe_run_bind]
  have hbody : Safe P who allowed (do
      importParts P b id readErr parts 0
      b.commitWithOptions P id ⟨0, true⟩ : M Snapshot).run
      (fun r w' => ∀ s, r = .ok s →
        w'.snapshots s.snapshotID = some s ∧ s.volumeID = volume.volumeID) w₁ := by
    refine safe_bind (importParts_safe b id readErr parts 0 w₁) (fun _ _ _ _ h => by cases h)
      fun _ w₂ hg₂ _ => ?_
    refine (commitWithOptions_safe hfree b id _ w₂).grows.mono ?_
    intro r w₃ hr s hs
    obtain ⟨hg₃, hcommit⟩ := hr
    obtain ⟨hrecorded, v', ⟨s', hs', hv'⟩, hvid⟩ := hcommit s hs
    -- a session stays one of its volume
    obtain ⟨s'', hs'', hv''⟩ := (hopen.grow hg₂).grow hg₃
    obtain rfl : s' = s'' := Option.some.inj (hs'.symm.trans hs'')
    exact ⟨hrecorded, hvid.trans ((congrArg Volume.volumeID (hv'.symm.trans hv'')).trans hid)⟩
  refine safe_attempt (hbody.mono ?_)
  intro imported w₂ himported
  rw [orElse_ok, safe_run_bind]
  refine safe_attempt ((stop_safe id w₂).grows.mono ?_)
  intro _ w₃ hr
  rw [orElse_ok, safe_ofResult]
  intro s hs
  obtain ⟨hrecorded, hvid⟩ := himported s hs
  exact ⟨hr.1.snapshots _ s hrecorded, hvid⟩

theorem runBuild_safe (b : Backend) (size chunkSize : Int64) (parts : List Bytes)
    (readErr : Option Err) (w : World) :
    Safe P who allowed (runBuild P b size chunkSize parts readErr).run (fun _ _ => True) w := by
  unfold runBuild
  rw [safe_run_bind]
  refine newString_safe fun _ w₁ _ _ => ?_
  rw [orElse_ok, safe_run_bind]
  refine newString_safe fun _ w₂ _ _ => ?_
  rw [orElse_ok]
  refine safe_bind (createVolume_safe (fun f w o h => (hallowed f w o h).2) _ size chunkSize w₂)
    (fun _ _ _ => trivial) fun volume w₃ _ _ => ?_
  refine safe_bind (importFile_safe hallowed b volume parts readErr w₃) (fun _ _ _ => trivial)
    fun s w₄ _ himported => ?_
  obtain ⟨hrecorded, hvid⟩ := himported s rfl
  exact safe_op fun w₅ f hrely hclosed _ =>
    ⟨kept_createBaseImage hclosed f (hrely.grows.snapshots _ s hrecorded) hvid, fun _ => trivial⟩

/-- The env's volume has the sizes of the volume its first snapshot belongs to. -/
theorem startEnv_safe (baseImageID : String) (w : World) :
    Safe P who allowed (startEnv baseImageID).run (fun _ _ => True) w := by
  unfold startEnv
  rw [safe_run_bind]
  refine safe_harmless (harmless_of_isLocal rfl) fun w₁ f hrely hclosed hg₁ => ?_
  have hlocal : Respects P (fun _ => True) w₁ (exec P who f w₁ (.getBaseImage baseImageID)).2 :=
    (exec_local f w₁ rfl).respects _
  cases himage : (exec P who f w₁ (.getBaseImage baseImageID)).1 with
  | error e => trivial
  | ok base =>
    obtain ⟨s, hs, hvid⟩ := hclosed.images baseImageID base (get_ok himage)
    rw [orElse_ok, safe_run_bind]
    refine safe_harmless (harmless_of_isLocal rfl) fun w₂ f₂ hrely₂ hclosed₂ hg₂ => ?_
    have hlocal₂ : Respects P (fun _ => True) w₂ (exec P who f₂ w₂ (.getVolume base.volumeID)).2 :=
      (exec_local f₂ w₂ rfl).respects _
    cases hvolume : (exec P who f₂ w₂ (.getVolume base.volumeID)).1 with
    | error e => trivial
    | ok baseVolume =>
      have hv : w₂.volumes base.volumeID = some baseVolume := get_ok hvolume
      obtain ⟨-, hfits⟩ := hclosed₂.volumes _ baseVolume hv
      rw [orElse_ok, safe_run_bind]
      refine newString_safe fun _ w₃ hg₃ _ => ?_
      rw [orElse_ok, safe_run_bind]
      refine newString_safe fun _ w₄ hg₄ _ => ?_
      rw [orElse_ok]
      refine safe_op fun w₅ f₅ hrely₅ hclosed₅ hf₅ =>
        ⟨kept_createVolume hclosed₅ f₅ (hallowed _ _ _ hf₅).2 fun _ => ?_, fun _ => trivial⟩
      have hgrows : Grows w₂ w₅ :=
        hlocal₂.grows.trans (hg₃.trans (hg₄.trans hrely₅.grows))
      refine ⟨s, hgrows.snapshots _ s
        (hrely₂.grows.snapshots _ s (hlocal.grows.snapshots _ s hs)), ?_⟩
      intro v' hv'
      obtain ⟨v'', hv'', hshape⟩ := hgrows.volumes _ baseVolume hv
      rw [hvid, hv'', Option.some.injEq] at hv'
      refine hv' ▸ ⟨?_, ?_⟩
      · exact (if_neg hfits.size_ne).trans hshape.1
      · exact (if_neg hfits.chunk_ne).trans hshape.2

end Services

/-! ## The system -/

/-- The calls a thread may make, on any arguments. -/
inductive Call where
  | createVolume (id : String) (sizeBytes chunkSize : Int64)
  | startSession (volumeID : String)
  | read (sessionID : String) (offset length : Int64)
  | write (sessionID : String) (offset : Int64) (data : Bytes)
  | flushDirty (sessionID : String)
  | commit (sessionID : String) (opts : CommitOptions)
  | stop (sessionID : String)
  | runBuild (size chunkSize : Int64) (parts : List Bytes) (readErr : Option Err)
  | startEnv (baseImageID : String)

/-- Run a function for its effects. -/
def effects {α : Type} (x : M α) : Prog sig Unit := x.run >>= fun _ => .ret ()

def Call.prog (P : Platform) (b : Backend) : Call → Prog sig Unit
  | .createVolume id sizeBytes chunkSize => effects (Backend.createVolume id sizeBytes chunkSize)
  | .startSession volumeID => effects (b.startSession P volumeID)
  | .read sessionID offset length => effects (b.read P sessionID offset length)
  | .write sessionID offset data => effects (b.write P sessionID offset data)
  | .flushDirty sessionID => effects (Backend.flushDirty sessionID)
  | .commit sessionID opts => effects (b.commitWithOptions P sessionID opts)
  | .stop sessionID => effects (Backend.stop sessionID)
  | .runBuild size chunkSize parts readErr =>
    effects (Services.runBuild P b size chunkSize parts readErr)
  | .startEnv baseImageID => effects (Services.startEnv baseImageID)

/-- One thread's machine: every fault is possible, and the step is admissible. -/
def threadMachine (P : Platform) (who : Caller) : Machine sig World Fault :=
  machine P (fun _ w o => Admissible P w o) who

/-- A thread of a node may start any call on the node's backend. -/
def Starts (P : Platform) (backends : Nat → Backend) (who : Caller) (t : Prog sig Unit) : Prop :=
  ∃ call : Call, t = call.prog P (backends who.node)

/-- The pools of threads. -/
abbrev StoragePool := Pool Caller sig World Unit

/-- The pools that can be reached from an empty store. -/
def ReachablePool (P : Platform) (backends : Nat → Backend) : StoragePool → Prop :=
  Pool.Reachable (threadMachine P) (Starts P backends) (· = World.initial)

/-- One step of one thread, the start of a call, or threads going down. -/
def PoolStep (P : Platform) (backends : Nat → Backend) : StoragePool → StoragePool → Prop :=
  Pool.Step (threadMachine P) (Starts P backends)

section Pool

variable {P : Platform} {who : Caller} {backends : Nat → Backend}

theorem syncFiles_safe {allowed : Fault → World → Op → Prop} (id : String) (indexes : List Int64)
    (w : World) : Safe P who allowed (Backend.syncFiles id indexes).run (fun _ _ => True) w := by
  induction indexes generalizing w with
  | nil => trivial
  | cons i rest ih =>
    unfold Backend.syncFiles
    exact safe_bind (R := fun _ _ => True) (safe_ignore rfl fun _ _ _ => trivial)
      (fun _ _ _ => trivial) fun _ w₁ _ _ => ih w₁

theorem flushDirty_safe {allowed : Fault → World → Op → Prop} (id : String) (w : World) :
    Safe P who allowed (Backend.flushDirty id).run (fun _ _ => True) w := by
  unfold Backend.flushDirty
  refine safe_bind (session_safe id w) (fun _ _ _ => trivial) fun _ w₁ _ _ => ?_
  unfold Backend.flushDirtyOverlay
  rw [safe_run_bind]
  refine safe_access (safe_ignore rfl fun indexes w₂ _ => ?_)
  rw [orElse_ok]
  exact safe_bind (syncFiles_safe id indexes w₂) (fun _ _ _ => trivial) fun _ w₃ _ _ =>
    safe_ignore rfl fun _ _ _ => trivial

/-- Every call keeps the world closed, from any closed world and whatever the others do. -/
theorem call_safe (b : Backend) (call : Call) (w : World) :
    WpRG (threadMachine P who) (Closed P) (Rely P who) (Guar P who) (call.prog P b)
      (fun _ _ => True) w := by
  have hallowed : ∀ (_ : Fault) w o, Admissible P w o → Admissible P w o := fun _ _ _ h => h
  have heffects : ∀ {α : Type} {x : M α} {Q : Except Err α → World → Prop},
      Safe P who (fun _ w o => Admissible P w o) x.run Q w →
        WpRG (threadMachine P who) (Closed P) (Rely P who) (Guar P who) (effects x)
          (fun _ _ => True) w := by
    intro α x Q h
    unfold effects
    rw [WpRG.bind_iff]
    exact WpRG.mono h fun _ _ _ => trivial
  cases call with
  | createVolume id sizeBytes chunkSize =>
    exact heffects (createVolume_safe (fun f w o h => (hallowed f w o h).2) id sizeBytes
      chunkSize w)
  | startSession volumeID => exact heffects (startSession_safe b volumeID w)
  | read id offset length => exact heffects (read_safe b id offset length w)
  | write id offset data => exact heffects (write_safe b id offset data w)
  | flushDirty id => exact heffects (flushDirty_safe id w)
  | commit id opts =>
    exact heffects (commitWithOptions_safe (fun f w o h => (hallowed f w o h).1) b id opts w)
  | stop id => exact heffects (stop_safe id w)
  | runBuild size chunkSize parts readErr =>
    exact heffects (runBuild_safe hallowed b size chunkSize parts readErr w)
  | startEnv baseImageID => exact heffects (startEnv_safe hallowed baseImageID w)

private theorem starts_safe (who : Caller) (t : Prog sig Unit) (h : Starts P backends who t)
    (w : World) : WpRG (threadMachine P who) (Closed P) (Rely P who) (Guar P who) t
      (fun _ _ => True) w := by
  obtain ⟨call, rfl⟩ := h
  exact call_safe _ call w

theorem pool_safe {p : StoragePool} (h : ReachablePool P backends p) :
    Pool.Safe (threadMachine P) (Closed P) (Rely P) (Guar P) p :=
  Pool.Reachable.safe (fun _ _ _ _ h h' => h.trans h') (fun _ w => .refl P _ w)
    (fun _ _ hne _ _ h => h.rely hne) (fun i t ht w _ => starts_safe i t ht w)
    (by rintro _ rfl; exact closed_initial) h

/-- Every step of a reachable pool grows the shared state. -/
theorem pool_grows {p q : StoragePool} (h : ReachablePool P backends p)
    (hstep : PoolStep P backends p q) : Grows p.state q.state := by
  obtain ⟨-, hsame | ⟨i, hguar⟩⟩ := hstep.safe (fun _ _ _ _ h h' => h.trans h')
    (fun _ w => .refl P _ w) (fun _ _ hne _ _ h => h.rely hne)
    (fun i t ht w _ => starts_safe i t ht w) (pool_safe h)
  · exact hsame ▸ .refl _
  · exact hguar.grows

end Pool

/-! ## Consistency -/

/-- **What a user of the store may count on.** -/
structure Consistent (P : Platform) (w : World) : Prop where
  /-- Every recorded snapshot has its manifest in the store, and it decodes. Its chunks are in the
  store and hash to their names. They have the chunk size, and their indexes the range, of the
  snapshot's own volume and of every volume whose latest snapshot it is. -/
  snapshots : ∀ id s, w.snapshots id = some s → ∃ m, manifestAt P w.objects s.manifestKey = some m ∧
    ∀ i chunkID, m.lookup i = some chunkID →
      ∃ b, w.objects (chunkKey chunkID) = some b ∧ P.hash b = chunkID ∧
        ∀ v, w.volumes v.volumeID = some v →
          v.volumeID = s.volumeID ∨ v.latestSnapshotID ≠ "" ∧ v.latestSnapshotID = id →
            (b.length : Int) = v.chunkSize.toInt ∧ InVolume v i
  /-- A pointer names a recorded snapshot. -/
  latest : ∀ id v, w.volumes id = some v → v.latestSnapshotID ≠ "" →
    ∃ s, w.snapshots v.latestSnapshotID = some s
  /-- What the memory tier of a node answers, and the file it has, under a chunk id hash to it. -/
  memory : ∀ n chunkID b, ((w.caches n).memory.getMemory chunkID).1 = some b → P.hash b = chunkID
  files : ∀ n dir chunkID file, IsChunkID P chunkID →
    (w.caches n).files.lookup (dir ++ [chunkID]) = some file → P.hash file.data = chunkID

theorem Closed.consistent {P : Platform} {w : World} (h : Closed P w) : Consistent P w where
  snapshots := by
    intro id s hs
    obtain ⟨hid, v₀, hv₀, m, hm, hgood⟩ := h.snapshots id s hs
    refine ⟨m, hm, fun i chunkID hi => ?_⟩
    obtain ⟨b, hb, hlen⟩ := hgood.chunk i chunkID hi
    refine ⟨b, hb, (h.objects chunkID b hb).1, fun v hv hvolume => ?_⟩
    -- both kinds of volume have the geometry of the snapshot's own
    have hshape : SameShape v v₀ := by
      rcases hvolume with hvid | ⟨hne, hlatest⟩
      · rw [hvid, hv₀, Option.some.injEq] at hv
        exact hv ▸ .refl v₀
      · obtain ⟨s', hs', hsame⟩ := h.latest _ v hv hne
        rw [hlatest, hs, Option.some.injEq] at hs'
        exact hsame v₀ (hs' ▸ hv₀)
    have hin := hgood.inVolume i chunkID hi
    rw [InVolume, ← hshape.1, ← hshape.2] at hin
    exact ⟨hlen.trans (congrArg Int64.toInt hshape.2.symm), hin⟩
  latest := by
    intro id v hv hne
    obtain ⟨s, hs, -⟩ := h.latest id v hv hne
    exact ⟨s, hs⟩
  memory := fun n chunkID b hb =>
    ((MemoryTier.getMemory_holds (h.caches n).memory chunkID).2 b hb).1
  files := fun n dir chunkID file hid hfile => ((h.caches n).files dir chunkID file hid hfile).1

/-- **Every reachable pool is consistent**, whatever was interleaved, failed or went down on the way;
and no step from it changes an object that is in the store. -/
theorem pool_consistent (P : Platform) (backends : Nat → Backend) {p : StoragePool}
    (h : ReachablePool P backends p) :
    Consistent P p.state ∧ ∀ q, PoolStep P backends p q → ∀ key b,
      p.state.objects key = some b → q.state.objects key = some b :=
  ⟨(pool_safe h).1.consistent, fun _ hstep => (pool_grows h hstep).objects⟩

/-! ### A commit, and a second node that reads it -/

instance (P : Platform) (w : World) (o : Op) : Decidable (Admissible P w o) := by
  cases o with
  | hashChunk b =>
    exact decidable_of_iff (∀ b' ∈ w.hashed, P.hash b' = P.hash b → b' = b) ⟨fun h => ⟨h, trivial⟩, And.left⟩
  | createVolume v =>
    exact decidable_of_iff (w.volumes v.volumeID = none ∧ v.withDefaults.sizeBytes.toInt +
        v.withDefaults.chunkSize.toInt ≤ 2 ^ 63 ∧ v.withDefaults.sizeBytes ≠ 0 ∧ v.withDefaults.chunkSize ≠ 0)
      ⟨fun h => ⟨trivial, h.1, h.2.1, h.2.2.1, h.2.2.2⟩, fun h => ⟨h.2.1, h.2.2.bound, h.2.2.size_ne, h.2.2.chunk_ne⟩⟩
  | _ => exact .isTrue ⟨trivial, trivial⟩

instance (P : Platform) (who : Caller) (f : Fault) (w : World) (o : Op) :
    Decidable ((threadMachine P who).allowed f w o) := inferInstanceAs (Decidable (Admissible P w o))

/-- Calls made one after the other, without a fault. -/
def serveCalls (P : Platform) (backends : Nat → Backend) : List (Caller × Call) → World → Option World
  | [], w => some w
  | (who, call) :: rest, w =>
    let t := call.prog P (backends who.node)
    if (threadMachine P who).follows (fun _ => .none) t w then
      serveCalls P backends rest ((threadMachine P who).run (fun _ => .none) t w).2
    else none

theorem ReachablePool.serveCalls {P : Platform} {backends : Nat → Backend} {calls : List (Caller × Call)}
    {p : StoragePool} (hp : ReachablePool P backends p) (hfree : ∀ who, p.Free who) (hup : ∀ who, ¬ p.down who)
    {w : World} (h : Storage.serveCalls P backends calls p.state = some w) :
    ∃ q : StoragePool, ReachablePool P backends q ∧ q.state = w := by
  induction calls generalizing p with
  | nil => exact ⟨p, hp, Option.some.inj h⟩
  | cons call rest ih =>
    obtain ⟨who, call⟩ := call
    unfold Storage.serveCalls at h
    dsimp only at h
    split at h
    · rename_i hfollows
      have hserved := Pool.Reachable.serve hp (hfree who) (hup who) ⟨call, rfl⟩ (runs_run hfollows)
      exact ih hserved (Pool.Free.served hfree _ _ _) hup h
    · cases h

/-- A node that keeps chunks in memory and on disk. -/
def cachingNode : Backend := ⟨"node-a", ⟨["cache"], 1024, 1024⟩⟩

/-- A byte is written and committed on one node and read on another. -/
def committedAndRead : List (Caller × Call) :=
  [(⟨0, 0⟩, .createVolume "v" 8 4), (⟨0, 0⟩, .startSession "v"), (⟨0, 0⟩, .write (goRuntime.uuid 0) 0 [1]),
    (⟨0, 0⟩, .commit (goRuntime.uuid 0) ⟨0, false⟩), (⟨1, 0⟩, .startSession "v"),
    (⟨1, 0⟩, .read (goRuntime.uuid 2) 0 1)]

/-- The latest snapshot of the volume, whether it is recorded, and its chunk 0; then the copies of that chunk in
the store, and in the memory and on the disk of node 1. -/
structure CommittedReport where
  latest : Option String
  recorded : Bool
  chunk : Option String
  copies : List (Option Bytes)
  deriving DecidableEq

def committedReport (w : World) : CommittedReport :=
  let chunkID := goRuntime.hash [1, 0, 0, 0]
  ⟨(w.volumes "v").map Volume.latestSnapshotID, (w.snapshots (goRuntime.uuid 1)).isSome,
    (manifestAt goRuntime w.objects (manifestKey (goRuntime.uuid 1))).bind fun m => m.lookup 0,
    [w.objects (chunkKey chunkID), ((w.caches 1).memory.getMemory chunkID).1,
      ((w.caches 1).files.lookup ["cache", chunkID]).map CacheFile.data]⟩

/-- The chunk is in the store and in both tiers of the second node's cache when the first node goes down. -/
theorem pool_consistent_committed : ∃ p : StoragePool, ReachablePool goRuntime (fun _ => cachingNode) p ∧
    (∀ slot, p.down ⟨0, slot⟩) ∧ committedReport p.state = ⟨some (goRuntime.uuid 1), true,
      some (goRuntime.hash [1, 0, 0, 0]), [some [1, 0, 0, 0], some [1, 0, 0, 0], some [1, 0, 0, 0]]⟩ ∧
    Consistent goRuntime p.state := by
  have hrun : (serveCalls goRuntime (fun _ => cachingNode) committedAndRead World.initial).map committedReport =
      some ⟨some (goRuntime.uuid 1), true, some (goRuntime.hash [1, 0, 0, 0]),
        [some [1, 0, 0, 0], some [1, 0, 0, 0], some [1, 0, 0, 0]]⟩ := by
    decide +kernel
  obtain ⟨w, hw, hreport⟩ := Option.map_eq_some_iff.mp hrun
  have hinit : ReachablePool goRuntime (fun _ => cachingNode)
      ⟨World.initial, fun _ => none, fun _ => False⟩ := .init rfl
  obtain ⟨q, hq, rfl⟩ := hinit.serveCalls (fun _ => .inl rfl) (fun _ h => h) hw
  have hdown := hq.step (.halt (fun who => who.node = 0))
  exact ⟨_, hdown, fun _ => Or.inr rfl, hreport, (pool_consistent goRuntime _ hdown).1⟩

end OrcaBlocks.Storage
