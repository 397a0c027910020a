/-
# OrcaBlocks.Storage.TwoSessions — two sessions of one volume, and the last commit wins.

Each session builds its manifest from the snapshot IT started from, and `UpdateLatestSnapshot`
overwrites the pointer without looking at it. So of two sessions that both started before either
committed, the second to commit takes the first one's chunks away again.

`second_commit_wins` says exactly what the volume has after the second commit: the base of the second
session, overridden at the indexes it dirtied. The first session's update survives if the second one
was started after it was committed.
-/
import OrcaBlocks.Storage.FlatArray

namespace OrcaBlocks.Storage

open OrcaBlocks.Lib Function

/-- A commit of a session, by a thread of its node. -/
structure CommitCall where
  who : Caller
  sessionID : String
  opts : CommitOptions

def CommitCall.ref (c : CommitCall) : SessRef := (c.who.node, c.sessionID)

/-- The calls sessions make between commits. -/
def Request.Works : Request → Prop
  | .startSession _ | .read _ _ _ | .write _ _ _ => True
  | _ => False

/-- Two commits, with any calls before the first and any work between them. -/
structure TwoCommits where
  before : List (Caller × Request)
  first : CommitCall
  between : List (Caller × Request)
  second : CommitCall

section Outcome

variable {P : Platform} {backends : Nat → Backend} {w : World}

/-! ## One commit -/

/-- What a commit that answers success did. -/
structure CommitDone (P : Platform) (c : CommitCall) (s : Session) (w w' : World) : Prop where
  sound : Sound P w'
  done : ∃ snap m, Committed P True c.who c.sessionID s s.baseManifest m snap w w' ∧
    Moved w w' c.ref snap (s.rebase snap m).clean

theorem serve_commit {c : CommitCall} (hsound : Sound P w)
    (hcollision : NoCollision P (serve P backends w c.who (.commit c.sessionID c.opts)).2.hashed)
    {s : Session} (hs : w.sessions c.ref = some s) {snapshotID : String}
    (hok : (serve P backends w c.who (.commit c.sessionID c.opts)).1 = .committed snapshotID) :
    CommitDone P c s w (serve P backends w c.who (.commit c.sessionID c.opts)).2 := by
  obtain ⟨tr, hrun⟩ := (serve_runs hcollision).2
  have hsound' := (hrun.wp (commit_refines (backends c.who.node) hsound c.sessionID c.opts)).1
  refine ⟨hsound', ?_⟩
  have hreg : w.registered (c.who.node, c.sessionID) = true := by
    cases hreg : w.registered (c.who.node, c.sessionID) with
    | true => rfl
    | false =>
      have hfailed := hrun.wp (wp_answer (Q := fun reply _ => reply = .failed) (wp_mono
        (unknown_fails hreg _) fun r w' hr => by rw [hr.1]))
      rw [hok] at hfailed
      cases hfailed
  refine hrun.wp (wp_answer (Q := fun reply w' => reply = .committed snapshotID → ∃ snap m,
    Committed P True c.who c.sessionID s s.baseManifest m snap w w' ∧
      Moved w w' c.ref snap (s.rebase snap m).clean) (wp_mono (commit_spec
        (fun _ _ _ h => h.2) (backends c.who.node) c.opts
        hsound.closed hreg hs) ?_)) hok
  intro r w' hr hreply
  obtain ⟨-, -, hout⟩ := hr
  cases r with
  | error e => cases hreply
  | ok snap =>
    obtain ⟨m, hcommitted, hmoved⟩ := hout.ok snap rfl
    exact ⟨snap, m, hcommitted, (hmoved trivial).1⟩

/-- The volume has a manifest with the lookups of `m`. -/
def LatestIs (P : Platform) (w : World) (volumeID : String) (m : Int64 → Option String) : Prop :=
  ∃ v, w.volumes volumeID = some v ∧ ∀ i, (latestOf P w v).lookup i = m i

/-- What a session commits: its chunk under each index it dirtied, its base elsewhere. -/
def commitLookup (P : Platform) (w : World) (r : SessRef) (s : Session) (i : Int64) : Option String :=
  if (s.dirty.lookup i).isSome then some (P.hash (sessionChunk w r s i)) else s.baseManifest.lookup i

theorem CommitDone.latestIs {c : CommitCall} {s : Session} {w' : World}
    (h : CommitDone P c s w w') (hclosed : Closed P w) (hs : w.sessions c.ref = some s) :
    LatestIs P w' s.volume.volumeID (commitLookup P w c.ref s) := by
  obtain ⟨snap, m, hcommitted, hmoved⟩ := h.done
  obtain ⟨v, hv, -⟩ := (hclosed.sessions _ s hs).1
  refine ⟨{ v with latestSnapshotID := snap.snapshotID }, ?_, fun i => ?_⟩
  · rw [hmoved.volumes, World.setLatest, hcommitted.recorded.volumeID]
    simp only [update_self, hv, Option.map_some]
  · rw [hcommitted.recorded.lookup_latestOf rfl, commitLookup]
    by_cases hi : i ∈ s.dirty.keys
    · obtain ⟨chunk, hlookup, -, hchunk⟩ := hcommitted.built.new i hi
      rw [if_pos (AList.lookup_isSome.mpr hi), hlookup, hchunk trivial]
      rfl
    · rw [if_neg fun hsome => hi (AList.lookup_isSome.mp hsome), hcommitted.built.old i hi]

/-! ## Work between commits -/

/-- The volume has the lookups `m`, and so has the base of the session `r`, if it is there yet. -/
structure Based (P : Platform) (w : World) (volumeID : String) (r : SessRef)
    (m : Int64 → Option String) : Prop where
  latest : LatestIs P w volumeID m
  session : ∀ s, w.sessions r = some s → s.volume.volumeID = volumeID →
    ∀ i, s.baseManifest.lookup i = m i

section Based

variable {w' : World} {volumeID : String} {r : SessRef} {m : Int64 → Option String}

/-- Neither the volumes nor the base of any session changed. -/
theorem Based.congr (h : Based P w volumeID r m) (hclosed : Closed P w) (hgrow : StoreGrows w w')
    (hvolumes : w'.volumes = w.volumes)
    (hsessions : ∀ r' s', w'.sessions r' = some s' → ∃ s, w.sessions r' = some s ∧
      s'.volume = s.volume ∧ s'.baseManifest = s.baseManifest) : Based P w' volumeID r m := by
  obtain ⟨v, hv, hlookup⟩ := h.latest
  refine ⟨⟨v, (congrFun hvolumes _).trans hv, fun i => ?_⟩, fun s' hs' hvid => ?_⟩
  · rw [latestOf_grow hclosed hgrow hv, hlookup]
  · obtain ⟨s, hs, hvolume, hbase⟩ := hsessions r s' hs'
    rw [hbase]
    exact h.session s hs (hvolume ▸ hvid)

theorem SameData.based (h : SameData w w') (hclosed : Closed P w)
    (hbased : Based P w volumeID r m) : Based P w' volumeID r m :=
  hbased.congr hclosed (.of_eq h.objects h.snapshots) h.volumes fun r' s' hs' =>
    ⟨s', (congrFun h.sessions r').symm.trans hs', rfl, rfl⟩

/-- A session that starts takes the volume's manifest as its base. -/
theorem Based.started (h : Based P w volumeID r m) (hclosed : Closed P w) {v : Volume}
    (hv : w.volumes v.volumeID = some v) (r₀ : SessRef) (nodeID : String)
    (hsame : SameData (w.started r₀ ⟨v, v.latestSnapshotID, latestOf P w v, ∅⟩ nodeID) w') :
    Based P w' volumeID r m := by
  have hgrow : StoreGrows w w' := .of_eq hsame.objects hsame.snapshots
  have hvolumes : w'.volumes =
      update w.volumes v.volumeID (some { v with lastNode := nodeID }) := hsame.volumes
  have hsessions : w'.sessions = update w.sessions r₀
      (some ⟨v, v.latestSnapshotID, latestOf P w v, ∅⟩) := hsame.sessions
  obtain ⟨v₀, hv₀, hlookup⟩ := h.latest
  refine ⟨?_, fun s hs hvid => ?_⟩
  · by_cases hid : volumeID = v.volumeID
    · subst hid
      obtain rfl := Option.some.inj (hv.symm.trans hv₀)
      refine ⟨_, (congrFun hvolumes _).trans (update_self _ _ _), fun i => ?_⟩
      exact (congrArg (AList.lookup i) (latestOf_grow hclosed hgrow hv)).trans (hlookup i)
    · refine ⟨v₀, (congrFun hvolumes _).trans ((update_of_ne hid _ _).trans hv₀), ?_⟩
      intro i
      rw [latestOf_grow hclosed hgrow hv₀, hlookup]
  · by_cases hr : r = r₀
    · subst hr
      rw [hsessions, update_self, Option.some.injEq] at hs
      subst hs
      rw [show v.volumeID = volumeID from hvid] at hv
      obtain rfl := Option.some.inj (hv.symm.trans hv₀)
      exact hlookup
    · rw [hsessions, update_of_ne hr] at hs
      exact h.session s hs hvid

end Based

/-- Work moves no pointer and no base. -/
theorem works_based {who : Caller} {request : Request} (hworks : request.Works) (b : Backend)
    (hsound : Sound P w) {volumeID : String} {r : SessRef} {m : Int64 → Option String}
    (hbased : Based P w volumeID r m) :
    (machine P (unfailing P) who).wp (request.prog P b)
      (fun _ w' => Based P w' volumeID r m) w := by
  cases request with
  | createVolume id sizeBytes chunkSize => cases hworks
  | commit id opts => cases hworks
  | stop id => cases hworks
  | startSession id =>
    refine wp_answer ?_
    cases hv : w.volumes id with
    | none =>
      refine wp_mono (startSession_unknown b hv) ?_
      rintro res w' ⟨-, rfl⟩
      exact hbased
    | some v =>
      obtain rfl := (hsound.closed.volumes _ v hv).1
      refine wp_mono (startSession_spec b hsound.closed hv) ?_
      rintro res w' ⟨⟨-, hsame⟩, -⟩
      exact hbased.started hsound.closed hv _ _ hsame
  | read id offset length =>
    refine wp_answer ?_
    cases hreg : w.registered (who.node, id) with
    | false =>
      refine wp_mono (unknown_fails hreg _) ?_
      rintro res w' ⟨-, rfl⟩
      exact hbased
    | true =>
      obtain ⟨s, hs, -, hchunk, -⟩ := hsound.session hreg
      by_cases hrange : InRange s.volume offset length
      · refine wp_mono (read_spec b hsound.closed hreg hs hchunk hrange) ?_
        rintro res w' ⟨hframe, -⟩
        exact hframe.sameData.based hsound.closed hbased
      · refine wp_mono (read_refused b hreg hs (Or.inr hrange)) ?_
        rintro res w' ⟨rfl, -⟩
        exact hbased
  | write id offset data =>
    refine wp_answer ?_
    cases hreg : w.registered (who.node, id) with
    | false =>
      refine wp_mono (unknown_fails hreg _) ?_
      rintro res w' ⟨-, rfl⟩
      exact hbased
    | true =>
      obtain ⟨s, hs, -, hchunk, -⟩ := hsound.session hreg
      by_cases hrange : InRange s.volume offset (Int64.ofNat data.1.length)
      · refine wp_mono (write_spec b hsound.closed hreg hs hchunk data.2 hrange) ?_
        intro res w' hw
        obtain ⟨s₁, hs₁, hvolume, hbase, -, -⟩ := hw.session
        refine hbased.congr hsound.closed (.of_eq (by rw [hw.frame]) (by rw [hw.frame]))
          (by rw [hw.frame]) fun r' s' hs' => ?_
        by_cases hr : r' = (who.node, id)
        · subst hr
          obtain rfl := Option.some.inj (hs'.symm.trans hs₁)
          exact ⟨s, hs, hvolume, hbase⟩
        · exact ⟨s', (hw.frame.othersKept.sessions r' hr).symm.trans hs', rfl, rfl⟩
      · refine wp_mono (write_refused b hreg hs hrange) ?_
        rintro res w' ⟨rfl, -⟩
        exact hbased

theorem works_sound {who : Caller} {request : Request} (hworks : request.Works) (b : Backend)
    (hsound : Sound P w) :
    (machine P (unfailing P) who).wp (request.prog P b) (fun _ w' => Sound P w') w := by
  cases request with
  | createVolume id sizeBytes chunkSize => cases hworks
  | commit id opts => cases hworks
  | stop id => cases hworks
  | startSession id => exact wp_mono (startSession_refines b hsound id) fun _ _ hr => hr.1
  | read id offset length =>
    exact wp_mono (read_refines quiet_unfailing b hsound id offset length) fun _ _ hr => hr.1
  | write id offset data =>
    exact wp_mono (write_refines quiet_unfailing b hsound id offset data) fun _ _ hr => hr.1

/-- Any amount of work leaves the volume and the bases of its sessions alone. -/
theorem between_based {calls : List (Caller × Request)} (hworks : ∀ call ∈ calls, call.2.Works)
    (hsound : Sound P w) (hcollision : NoCollision P (serveAll P backends w calls).2.hashed) :
    Sound P (serveAll P backends w calls).2 ∧ ∀ volumeID r m, Based P w volumeID r m →
      Based P (serveAll P backends w calls).2 volumeID r m := by
  induction calls generalizing w with
  | nil => exact ⟨hsound, fun _ _ _ h => h⟩
  | cons call calls ih =>
    obtain ⟨who, request⟩ := call
    have hcall : request.Works := hworks _ List.mem_cons_self
    obtain ⟨tr, hrun⟩ := (serve_runs (serveAll_noCollision calls hcollision)).2
    obtain ⟨hlast, hrest⟩ := ih (fun call hmem => hworks call (List.mem_cons_of_mem _ hmem))
      (hrun.wp (works_sound hcall _ hsound)) hcollision
    exact ⟨hlast, fun volumeID r m h =>
      hrest volumeID r m (hrun.wp (works_based hcall _ hsound h))⟩

end Outcome

/-! ## Two commits -/

namespace TwoCommits

variable (P : Platform) (backends : Nat → Backend) (t : TwoCommits)

/-- The world the first commit finds. -/
def atFirst : World := (serveAll P backends World.initial t.before).2

def firstServed : Reply × World :=
  serve P backends (t.atFirst P backends) t.first.who (.commit t.first.sessionID t.first.opts)

/-- The world the second commit finds. -/
def atSecond : World := (serveAll P backends (t.firstServed P backends).2 t.between).2

def secondServed : Reply × World :=
  serve P backends (t.atSecond P backends) t.second.who (.commit t.second.sessionID t.second.opts)

/-- **Both commits succeed**, and they are of sessions `s₁` and `s₂` of one volume. -/
structure Proper (s₁ s₂ : Session) : Prop where
  sized : ∀ call ∈ t.before, call.2.Sized
  fresh : (createdIDs (serveAll P backends World.initial t.before).1).Nodup
  works : ∀ call ∈ t.between, call.2.Works
  noCollision : NoCollision P (t.secondServed P backends).2.hashed
  first : (t.atFirst P backends).sessions t.first.ref = some s₁
  second : (t.atSecond P backends).sessions t.second.ref = some s₂
  volume : s₂.volume.volumeID = s₁.volume.volumeID
  firstOk : ∃ id, (t.firstServed P backends).1 = .committed id
  secondOk : ∃ id, (t.secondServed P backends).1 = .committed id

/-- The chunks the first session committed. -/
def firstChunk (s₁ : Session) (i : Int64) : String :=
  P.hash (sessionChunk (t.atFirst P backends) t.first.ref s₁ i)

def secondChunk (s₂ : Session) (i : Int64) : String :=
  P.hash (sessionChunk (t.atSecond P backends) t.second.ref s₂ i)

/-- What the volume's manifest maps an index to, in the end. -/
def FinalIs (s₂ : Session) (i : Int64) (chunk : Option String) : Prop :=
  ∃ v, (t.secondServed P backends).2.volumes s₂.volume.volumeID = some v ∧
    (latestOf P (t.secondServed P backends).2 v).lookup i = chunk

/-- Every chunk that only one of the two dirtied is in the volume's manifest in the end. -/
def NoneLost (s₁ s₂ : Session) : Prop :=
  (∀ i, i ∈ s₁.dirty → i ∉ s₂.dirty →
    t.FinalIs P backends s₂ i (some (t.firstChunk P backends s₁ i))) ∧
  ∀ i, i ∈ s₂.dirty → i ∉ s₁.dirty →
    t.FinalIs P backends s₂ i (some (t.secondChunk P backends s₂ i))

/-- What can be seen of the two commits: the volumes created, what each session had dirtied, the
replies, and the bytes that were hashed. -/
structure Report where
  created : List String
  dirty₁ : Option (String × List Int64)
  dirty₂ : Option (String × List Int64)
  replies : Reply × Reply
  hashed : List Bytes
  deriving DecidableEq

def report : Report :=
  let dirtied := fun s : Session => (s.volume.volumeID, s.dirty.keys)
  ⟨createdIDs (serveAll P backends World.initial t.before).1,
    ((t.atFirst P backends).sessions t.first.ref).map dirtied,
    ((t.atSecond P backends).sessions t.second.ref).map dirtied,
    ((t.firstServed P backends).1, (t.secondServed P backends).1),
    (t.secondServed P backends).2.hashed⟩

section Outcome

variable {P : Platform} {backends : Nat → Backend} {t : TwoCommits} {s₁ s₂ : Session}

/-- Every world on the way is sound, and what the volume has after the first commit is what a session
started after it has. -/
theorem Proper.worlds (h : t.Proper P backends s₁ s₂) :
    Sound P (t.atFirst P backends) ∧ Sound P (t.atSecond P backends) ∧
      CommitDone P t.first s₁ (t.atFirst P backends) (t.firstServed P backends).2 ∧
      ∀ volumeID r m, Based P (t.firstServed P backends).2 volumeID r m →
        Based P (t.atSecond P backends) volumeID r m := by
  have hsecond := (serve_runs h.noCollision).1
  have hfirst : NoCollision P (t.firstServed P backends).2.hashed :=
    serveAll_noCollision t.between hsecond
  have hsound : Sound P (t.atFirst P backends) :=
    (serveAll_run sound_initial h.sized h.fresh (fun _ _ => rfl) (serve_runs hfirst).1).1
  obtain ⟨id, hok⟩ := h.firstOk
  have hdone := serve_commit hsound hfirst h.first hok
  obtain ⟨hatSecond, hbased⟩ := between_based h.works hdone.sound hsecond
  exact ⟨hsound, hatSecond, hdone, hbased⟩

/-- The volume ends up with what the second session had. -/
theorem Proper.latestIs (h : t.Proper P backends s₁ s₂) :
    LatestIs P (t.secondServed P backends).2 s₂.volume.volumeID
      (commitLookup P (t.atSecond P backends) t.second.ref s₂) := by
  obtain ⟨-, hsound, -, -⟩ := h.worlds
  obtain ⟨id, hok⟩ := h.secondOk
  exact (serve_commit hsound h.noCollision h.second hok).latestIs hsound.closed h.second

theorem Proper.finalIs_iff (h : t.Proper P backends s₁ s₂) {i : Int64} {chunk : Option String} :
    t.FinalIs P backends s₂ i chunk ↔
      commitLookup P (t.atSecond P backends) t.second.ref s₂ i = chunk := by
  obtain ⟨v, hv, hlookup⟩ := h.latestIs
  constructor
  · rintro ⟨v', hv', hchunk⟩
    obtain rfl := Option.some.inj (hv.symm.trans hv')
    rw [← hlookup, hchunk]
  · intro hchunk
    exact ⟨v, hv, (hlookup i).trans hchunk⟩

/-- A session that started after the first commit has its chunks. -/
theorem Proper.lookup_base (h : t.Proper P backends s₁ s₂)
    (hafter : (t.atFirst P backends).sessions t.second.ref = none) (i : Int64) :
    s₂.baseManifest.lookup i = commitLookup P (t.atFirst P backends) t.first.ref s₁ i := by
  obtain ⟨hsound, -, hdone, hbased⟩ := h.worlds
  refine (hbased s₁.volume.volumeID t.second.ref _
    ⟨hdone.latestIs hsound.closed h.first, fun s hs _ => ?_⟩).session s₂ h.second h.volume i
  -- The first commit started no session.
  obtain ⟨snap, m, -, hmoved⟩ := hdone.done
  have hne : t.second.ref ≠ t.first.ref := by
    intro heq
    rw [heq, h.first] at hafter
    cases hafter
  rw [hmoved.sessions, update_of_ne hne, hafter] at hs
  cases hs

theorem commitLookup_dirty {w : World} {r : SessRef} {s : Session} {i : Int64} (hi : i ∈ s.dirty) :
    commitLookup P w r s i = some (P.hash (sessionChunk w r s i)) :=
  if_pos (AList.lookup_isSome.mpr hi)

theorem commitLookup_clean {w : World} {r : SessRef} {s : Session} {i : Int64} (hi : i ∉ s.dirty) :
    commitLookup P w r s i = s.baseManifest.lookup i :=
  if_neg fun hsome => hi (AList.lookup_isSome.mp hsome)

theorem proper_of_report {volumeID id₁ id₂ : String} {dirty₁ dirty₂ : List Int64}
    {hashed : List Bytes} (hreport : t.report P backends = ⟨[volumeID], some (volumeID, dirty₁),
      some (volumeID, dirty₂), (.committed id₁, .committed id₂), hashed⟩)
    (hsized : ∀ call ∈ t.before, call.2.Sized) (hworks : ∀ call ∈ t.between, call.2.Works)
    (hcollision : NoCollision P hashed) :
    ∃ s₁ s₂, t.Proper P backends s₁ s₂ ∧ s₂.volume.volumeID = volumeID ∧
      s₁.dirty.keys = dirty₁ ∧ s₂.dirty.keys = dirty₂ := by
  simp only [report, Report.mk.injEq, Prod.mk.injEq, Option.map_eq_some_iff] at hreport
  obtain ⟨hcreated, ⟨s₁, hs₁, hvolume₁, hdirty₁⟩, ⟨s₂, hs₂, hvolume₂, hdirty₂⟩,
    ⟨hfirst, hsecond⟩, hhashed⟩ := hreport
  refine ⟨s₁, s₂, ⟨hsized, ?_, hworks, hhashed ▸ hcollision, hs₁, hs₂, hvolume₂.trans hvolume₁.symm,
    ⟨_, hfirst⟩, ⟨_, hsecond⟩⟩, hvolume₂, hdirty₁, hdirty₂⟩
  rw [hcreated]
  exact List.nodup_singleton _

end Outcome

end TwoCommits

/-- **The last commit wins.** After both commits the volume has the second session's manifest: its chunk
under every index it dirtied, its base's elsewhere. So the first session's chunks survive exactly where
the base of the second already had them, and they all do if the second session was started after the
first one's commit. -/
theorem second_commit_wins (P : Platform) (backends : Nat → Backend) (t : TwoCommits)
    (s₁ s₂ : Session) (h : t.Proper P backends s₁ s₂) :
    (∀ i ∈ s₂.dirty, t.FinalIs P backends s₂ i (some (t.secondChunk P backends s₂ i))) ∧
    (∀ i ∉ s₂.dirty, t.FinalIs P backends s₂ i (s₂.baseManifest.lookup i)) ∧
    (t.NoneLost P backends s₁ s₂ ↔ ∀ i, i ∈ s₁.dirty → i ∉ s₂.dirty →
      s₂.baseManifest.lookup i = some (t.firstChunk P backends s₁ i)) ∧
    ((t.atFirst P backends).sessions t.second.ref = none → t.NoneLost P backends s₁ s₂) := by
  have hnew : ∀ i ∈ s₂.dirty,
      t.FinalIs P backends s₂ i (some (t.secondChunk P backends s₂ i)) :=
    fun i hi => h.finalIs_iff.mpr (TwoCommits.commitLookup_dirty hi)
  have hnone : t.NoneLost P backends s₁ s₂ ↔ ∀ i, i ∈ s₁.dirty → i ∉ s₂.dirty →
      s₂.baseManifest.lookup i = some (t.firstChunk P backends s₁ i) := by
    refine ⟨fun hlost i hi hi₂ => ?_, fun hbase => ⟨fun i hi hi₂ => ?_, fun i hi _ => hnew i hi⟩⟩
    · exact (TwoCommits.commitLookup_clean hi₂).symm.trans (h.finalIs_iff.mp (hlost.1 i hi hi₂))
    · exact h.finalIs_iff.mpr ((TwoCommits.commitLookup_clean hi₂).trans (hbase i hi hi₂))
  refine ⟨hnew, fun i hi => h.finalIs_iff.mpr (TwoCommits.commitLookup_clean hi), hnone, ?_⟩
  intro hafter
  refine hnone.mpr fun i hi _ => (h.lookup_base hafter i).trans ?_
  exact TwoCommits.commitLookup_dirty hi

/-- The second session starts once the first one's chunk is committed. -/
def oneAfterTheOther : TwoCommits where
  before := [(⟨0, 0⟩, .createVolume "v" 8 4), (⟨0, 0⟩, .startSession "v"),
    (⟨0, 0⟩, .write (goRuntime.uuid 0) 0 (oneByte 1))]
  first := ⟨⟨0, 0⟩, goRuntime.uuid 0, ⟨0, false⟩⟩
  between := [(⟨1, 0⟩, .startSession "v"), (⟨1, 0⟩, .write (goRuntime.uuid 2) 4 (oneByte 2))]
  second := ⟨⟨1, 0⟩, goRuntime.uuid 2, ⟨0, false⟩⟩

theorem second_commit_wins_oneAfterTheOther :
    ∃ s₁ s₂, oneAfterTheOther.Proper goRuntime (fun _ => plainNode) s₁ s₂ ∧ 0 ∈ s₁.dirty ∧
      0 ∉ s₂.dirty ∧ oneAfterTheOther.NoneLost goRuntime (fun _ => plainNode) s₁ s₂ := by
  have hreport : oneAfterTheOther.report goRuntime (fun _ => plainNode) =
      ⟨["v"], some ("v", [0]), some ("v", [1]),
        (.committed (goRuntime.uuid 1), .committed (goRuntime.uuid 3)),
        [[2, 0, 0, 0], [1, 0, 0, 0]]⟩ := by
    decide +kernel
  have hstarts : ((oneAfterTheOther.atFirst goRuntime fun _ => plainNode).sessions
      oneAfterTheOther.second.ref).isNone := by
    decide +kernel
  obtain ⟨s₁, s₂, hproper, -, hdirty₁, hdirty₂⟩ := TwoCommits.proper_of_report hreport
    (by simp [oneAfterTheOther, Request.Sized]) (by simp [oneAfterTheOther, Request.Works])
    (by unfold NoCollision; decide +kernel)
  refine ⟨s₁, s₂, hproper, ?_, ?_, ?_⟩
  · rw [AList.mem_keys, hdirty₁]
    exact List.mem_singleton.mpr rfl
  · rw [AList.mem_keys, hdirty₂]
    decide
  · exact (second_commit_wins goRuntime _ _ s₁ s₂ hproper).2.2.2 (Option.isNone_iff_eq_none.mp hstarts)

/-- Both sessions start before either commits. -/
def bothAtOnce : TwoCommits where
  before := [(⟨0, 0⟩, .createVolume "v" 8 4), (⟨0, 0⟩, .startSession "v"), (⟨1, 0⟩, .startSession "v"),
    (⟨0, 0⟩, .write (goRuntime.uuid 0) 0 (oneByte 1)),
    (⟨1, 0⟩, .write (goRuntime.uuid 1) 4 (oneByte 2))]
  first := ⟨⟨0, 0⟩, goRuntime.uuid 0, ⟨0, false⟩⟩
  between := []
  second := ⟨⟨1, 0⟩, goRuntime.uuid 1, ⟨0, false⟩⟩

/-- **A committed chunk is lost.** Two sessions dirty different chunks, both commit, and the volume's
manifest has nothing under the first one's index. -/
theorem first_commit_lost :
    ∃ s₁ s₂, bothAtOnce.Proper goRuntime (fun _ => plainNode) s₁ s₂ ∧ 0 ∈ s₁.dirty ∧
      0 ∉ s₂.dirty ∧ bothAtOnce.FinalIs goRuntime (fun _ => plainNode) s₂ 0 none ∧
      ¬ bothAtOnce.NoneLost goRuntime (fun _ => plainNode) s₁ s₂ := by
  have hreport : bothAtOnce.report goRuntime (fun _ => plainNode) =
      ⟨["v"], some ("v", [0]), some ("v", [1]),
        (.committed (goRuntime.uuid 2), .committed (goRuntime.uuid 3)),
        [[2, 0, 0, 0], [1, 0, 0, 0]]⟩ := by
    decide +kernel
  have hfinal : (((bothAtOnce.secondServed goRuntime fun _ => plainNode).2.volumes "v").map fun v =>
      (latestOf goRuntime (bothAtOnce.secondServed goRuntime fun _ => plainNode).2 v).lookup 0) =
        some none := by
    decide +kernel
  obtain ⟨s₁, s₂, hproper, hvolume, hdirty₁, hdirty₂⟩ := TwoCommits.proper_of_report hreport
    (by simp [bothAtOnce, Request.Sized]) (by simp [bothAtOnce])
    (by unfold NoCollision; decide +kernel)
  have hfirst : 0 ∈ s₁.dirty := by
    rw [AList.mem_keys, hdirty₁]
    exact List.mem_singleton.mpr rfl
  have hsecond : 0 ∉ s₂.dirty := by
    rw [AList.mem_keys, hdirty₂]
    decide
  obtain ⟨v, hv, hlookup⟩ := Option.map_eq_some_iff.mp hfinal
  have hnothing : bothAtOnce.FinalIs goRuntime (fun _ => plainNode) s₂ 0 none :=
    ⟨v, hvolume ▸ hv, hlookup⟩
  refine ⟨s₁, s₂, hproper, hfirst, hsecond, hnothing, fun hlost => ?_⟩
  have hkept := hproper.finalIs_iff.mp (hlost.1 0 hfirst hsecond)
  rw [hproper.finalIs_iff.mp hnothing] at hkept
  cases hkept

end OrcaBlocks.Storage
