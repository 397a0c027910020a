/-
# OrcaBlocks.Storage.CommitFaults — when a commit is all or nothing.

A commit prepares a snapshot, moves the volume's pointer, rebases the session and THEN clears the
overlay. Up to the move a failure leaves the session as it was. After it there is no way back, and the
two calls that clear the overlay can still fail: the commit returns an error although the volume already
names the new snapshot, and a `RemoveAll` that removed some of the files has taken the bytes of chunks
the session still believes to be dirty.

`commit_allOrNothing_iff` says that this is the only way to lose: a commit is all or nothing EXACTLY if
none of these calls failed (and the move itself was not reported failed after it took effect), whichever
of the others did.
-/
import OrcaBlocks.Storage.Alone
import OrcaBlocks.Storage.Calm

namespace OrcaBlocks.Storage

open OrcaBlocks.Lib Backend

variable {w w' : World} {tr : List (Op × Fault)} {r : Except Err Snapshot} {id : String}
  {opts : CommitOptions} {snap : Snapshot}

def Fault.isNone : Fault → Bool
  | .none => true
  | _ => false

def Fault.isLate : Fault → Bool
  | .late => true
  | _ => false

/-- The calls that clear the overlay do not fail, and the move of the pointer is not reported failed
after it took effect. -/
def Spared : Op × Fault → Bool
  | (.removeAll _, f) | (.mkdirAll _, f) => f.isNone
  | (.updateLatestSnapshot _ _, f) => !f.isLate
  | _ => true

/-! ## The calls from the move on -/

section Trace

variable {P : Platform} {who : Caller} {allowed : Fault → World → Op → Prop}

theorem Calm.spared {α : Type} {x : M α} (hx : Calm x) {r : Except Err α}
    (hrun : (machine P allowed who).Runs x.run w tr r w') : ∀ e ∈ tr, Spared e = true := by
  rintro ⟨o, f⟩ he
  have hcalm : o.Moves = false := hrun.only hx _ he
  cases o with
  | updateLatestSnapshot volumeID snapshotID => cases hcalm
  | removeAll id => cases hcalm
  | mkdirAll id => cases hcalm
  | _ => rfl

theorem progress_volumes (opts : CommitOptions) (p : CommitProgress) (w : World) :
    (machine P allowed who).wp (progress opts p).run
      (fun _ w' => w'.volumes = w.volumes) w := by
  unfold progress
  split
  · exact fun _ _ => rfl
  · rfl

theorem removeAll_trace {r : Except Err Unit}
    (hrun : (machine P allowed who).Runs (perform (.removeAll id)) w tr r w') :
    w'.volumes = w.volumes ∧ ((∀ e ∈ tr, Spared e = true) ∨ ∃ err, r = .error err) := by
  obtain ⟨f, -, rfl, rfl, rfl⟩ := runs_perform hrun
  show (exec P who f w (.removeAll id)).2.volumes = _ ∧
    (_ ∨ ∃ err, (exec P who f w (.removeAll id)).1 = _)
  rcases @exec_removeAll P who f w id with ⟨rfl, hexec⟩ | ⟨-, err, d, hexec⟩
  · rw [hexec]
    exact ⟨rfl, Or.inl (List.forall_mem_singleton.mpr rfl)⟩
  · rw [hexec]
    exact ⟨rfl, Or.inr ⟨err, rfl⟩⟩

theorem mkdirAll_trace {r : Except Err Unit}
    (hrun : (machine P allowed who).Runs (perform (.mkdirAll id)) w tr r w') :
    w'.volumes = w.volumes ∧ ((∀ e ∈ tr, Spared e = true) ∨ ∃ err, r = .error err) := by
  obtain ⟨f, -, rfl, rfl, rfl⟩ := runs_perform hrun
  show (exec P who f w (.mkdirAll id)).2.volumes = _ ∧
    (_ ∨ ∃ err, (exec P who f w (.mkdirAll id)).1 = _)
  rcases @exec_mkdirAll P who f w id with ⟨rfl, hexec⟩ | ⟨-, err, d, hexec⟩
  · rw [hexec]
    exact ⟨rfl, Or.inl (List.forall_mem_singleton.mpr rfl)⟩
  · rw [hexec]
    exact ⟨rfl, Or.inr ⟨err, rfl⟩⟩

/-- Clearing the overlay touches no volume, and succeeds only if both calls did. -/
theorem clearDirtyOverlay_trace {r : Except Err Unit}
    (hrun : (machine P allowed who).Runs (clearDirtyOverlay id).run w tr r w') :
    w'.volumes = w.volumes ∧ ((∀ e ∈ tr, Spared e = true) ∨ ∃ err, r = .error err) := by
  unfold clearDirtyOverlay at hrun
  rcases runs_run_bind hrun with ⟨e, h₁, rfl⟩ | ⟨u, w₁, tr₁, tr₂, h₁, h₂, rfl⟩
  · exact ⟨(removeAll_trace h₁).1, Or.inr ⟨e, rfl⟩⟩
  obtain ⟨hvolumes₁, hspared₁ | ⟨err, ⟨⟩⟩⟩ := removeAll_trace h₁
  rcases runs_run_bind h₂ with ⟨e, h₃, rfl⟩ | ⟨u, w₂, tr₃, tr₄, h₃, h₄, rfl⟩
  · exact ⟨(mkdirAll_trace h₃).1.trans hvolumes₁, Or.inr ⟨e, rfl⟩⟩
  obtain ⟨hvolumes₃, hspared₃ | ⟨err, ⟨⟩⟩⟩ := mkdirAll_trace h₃
  have hspared₄ := (calm_access (o := .resetDirty id) rfl).spared h₄
  have hkeeps : (machine P allowed who).wp (access (.resetDirty id)).run
      (fun _ w' => w'.volumes = w₂.volumes) w₂ := wp_access fun _ _ => rfl
  have hvolumes₄ : w'.volumes = w₂.volumes := h₄.wp hkeeps
  refine ⟨hvolumes₄.trans (hvolumes₃.trans hvolumes₁), Or.inl ?_⟩
  simp only [List.forall_mem_append]
  exact ⟨hspared₁, hspared₃, hspared₄⟩

/-- The rest of a commit whose pointer has moved. -/
theorem afterMove_trace {manifest : Manifest} {p p' : CommitProgress}
    (hrun : (machine P allowed who).Runs
      (do let _ ← access (.setBase id snap.snapshotID manifest)
          progress opts p
          clearDirtyOverlay id
          progress opts p'
          pure snap : M Snapshot).run w tr r w') :
    w'.volumes = w.volumes ∧ ((∀ e ∈ tr, Spared e = true) ∨ ∃ err, r = .error err) := by
  have hkeeps : (machine P allowed who).wp (access (.setBase id snap.snapshotID manifest)).run
      (fun _ w' => w'.volumes = w.volumes) w := wp_access fun _ _ => rfl
  rcases runs_run_bind hrun with ⟨e, h₁, rfl⟩ | ⟨u, w₁, tr₁, tr₂, h₁, h₂, rfl⟩
  · exact ⟨h₁.wp hkeeps, Or.inr ⟨e, rfl⟩⟩
  have hvolumes₁ : w₁.volumes = w.volumes := h₁.wp hkeeps
  have hspared₁ := (calm_access (o := .setBase id snap.snapshotID manifest) rfl).spared h₁
  rcases runs_run_bind h₂ with ⟨e, h₃, rfl⟩ | ⟨u, w₂, tr₃, tr₄, h₃, h₄, rfl⟩
  · exact ⟨(h₃.wp (progress_volumes opts p w₁)).trans hvolumes₁, Or.inr ⟨e, rfl⟩⟩
  have hvolumes₂ := (h₃.wp (progress_volumes opts p w₁)).trans hvolumes₁
  have hspared₃ := (calm_progress opts p).spared h₃
  rcases runs_run_bind h₄ with ⟨e, h₅, rfl⟩ | ⟨u, w₃, tr₅, tr₆, h₅, h₆, rfl⟩
  · exact ⟨(clearDirtyOverlay_trace h₅).1.trans hvolumes₂, Or.inr ⟨e, rfl⟩⟩
  obtain ⟨hvolumes₅, hspared₅ | ⟨err, ⟨⟩⟩⟩ := clearDirtyOverlay_trace h₅
  have hdone : (machine P allowed who).wp (progress opts p' >>= fun _ => pure snap : M _).run
      (fun _ w' => w'.volumes = w₃.volumes) w₃ := by
    refine wp_run_seq (progress_volumes opts p' w₃) ?_
    rintro (e | u) w' h
    · exact h
    · exact h
  have hspared₆ := ((calm_progress opts p').bind fun _ => calm_pure snap).spared h₆
  refine ⟨(h₆.wp hdone).trans (hvolumes₅.trans hvolumes₂), Or.inl ?_⟩
  simp only [List.forall_mem_append]
  exact ⟨hspared₁, hspared₃, hspared₅, hspared₆⟩

/-- **What follows the preparation.** Either every call was spared, or the commit fails with the
pointer moved. -/
theorem moveTo_trace {total : Nat} {manifest : Manifest} {stats : CommitBatchStats} {v : Volume}
    (hv : w.volumes snap.volumeID = some v) (hrun : (machine P allowed who).Runs
      (moveTo opts id total manifest stats snap).run w tr r w') :
    (∀ e ∈ tr, Spared e = true) ∨
      ((∃ err, r = .error err) ∧ w'.volumes = (w.setLatest snap).volumes) := by
  unfold moveTo at hrun
  dsimp only at hrun
  rcases runs_run_bind hrun with ⟨e, h₁, rfl⟩ | ⟨u, w₁, tr₁, tr₂, h₁, h₂, rfl⟩
  · exact Or.inl ((calm_progress opts _).spared h₁)
  have hspared₁ := (calm_progress opts _).spared h₁
  have hvolumes₁ : w₁.volumes = w.volumes := h₁.wp (progress_volumes opts _ w)
  have hexec : execUpdateVolume w₁ snap.volumeID
      (fun v => { v with latestSnapshotID := snap.snapshotID }) = (.ok (), w₁.setLatest snap) := by
    simp only [execUpdateVolume, World.setLatest, hvolumes₁, hv, Option.map_some]
  have hset : (w₁.setLatest snap).volumes = (w.setLatest snap).volumes := by
    simp only [World.setLatest, hvolumes₁]
  simp only [List.forall_mem_append]
  rcases runs_run_bind h₂ with ⟨e, h₃, rfl⟩ | ⟨u, w₂, tr₃, tr₄, h₃, h₄, rfl⟩
  · obtain ⟨f, -, rfl, -, rfl⟩ := runs_perform h₃
    cases f with
    | late =>
      refine Or.inr ⟨⟨e, rfl⟩, ?_⟩
      show (Fault.late.on w₁ (execUpdateVolume w₁ _ _)).2.volumes = _
      rw [hexec]
      exact hset
    | _ => exact Or.inl ⟨hspared₁, List.forall_mem_singleton.mpr rfl⟩
  obtain ⟨f, -, rfl, hok, hw₂⟩ := runs_perform h₃
  cases f with
  | none =>
    -- the pointer has moved
    have hvolumes₂ : w₂.volumes = (w.setLatest snap).volumes := by
      rw [hw₂]
      show (execUpdateVolume w₁ _ _).2.volumes = _
      rw [hexec]
      exact hset
    obtain ⟨hvolumes, hend⟩ := afterMove_trace h₄
    refine hend.imp (fun hspared => ?_) fun herr => ⟨herr, hvolumes.trans hvolumes₂⟩
    exact ⟨hspared₁, List.forall_mem_append.mpr ⟨List.forall_mem_singleton.mpr rfl, hspared⟩⟩
  | _ => cases hok

/-- The part of a commit after the dirty indexes are taken. -/
theorem commitCollected_trace {b : Backend} {s : Session} {keys : List Int64}
    (hfree : ∀ f w o, allowed f w o → CollisionFree P w o) (hclosed : Closed P w)
    (hs : w.sessions (who.node, id) = some s) (hkeys : keys.Perm s.dirty.keys)
    (hrun : (machine P allowed who).Runs
      (commitCollected P b id opts s.volume s.baseManifest keys).run w tr r w') :
    (∀ e ∈ tr, Spared e = true) ∨ ((∃ err, r = .error err) ∧ ∃ v,
      w'.volumes s.volume.volumeID = some v ∧ v.latestSnapshotID ≠ "" ∧
        w.snapshots v.latestSnapshotID = none) := by
  have ctx : CommitContext P who allowed (fun w w' => w' = w) True (Quiet allowed) :=
    commitContext_atomic hfree
  have hsorted : (keys.insertionSort (· ≤ ·)).Perm s.dirty.keys :=
    (List.perm_insertionSort _ _).trans hkeys
  unfold commitCollected at hrun
  dsimp only at hrun
  rcases runs_run_bind hrun with ⟨e, h₁, rfl⟩ | ⟨prepared, w₁, tr₁, tr₂, h₁, h₂, rfl⟩
  · exact Or.inl ((calm_prepareSnapshot P b _ _ _ _ _).spared h₁)
  obtain ⟨manifest, stats, snap⟩ := prepared
  have hspared₁ := (calm_prepareSnapshot P b _ _ _ _ _).spared h₁
  obtain ⟨-, hlater, hprepared, -⟩ := h₁.wp (WpRG.wp (R := fun w w' => w' = w) (fun _ => rfl)
    (upload_later ctx (prepareSnapshot_upload ctx b opts hclosed hs hsorted
      (hclosed.sessions _ s hs).2.1)) hclosed)
  have hcommitted := hprepared manifest stats snap rfl
  obtain ⟨v, hv, -⟩ := (hclosed.sessions _ s hs).1
  have hv₁ : w₁.volumes snap.volumeID = some v := by
    rw [(hlater.frame trivial).volumes, hcommitted.recorded.volumeID]
    exact hv
  rcases moveTo_trace hv₁ h₂ with hspared₂ | ⟨herr, hvolumes⟩
  · exact Or.inl (List.forall_mem_append.mpr ⟨hspared₁, hspared₂⟩)
  · refine Or.inr ⟨herr, { v with latestSnapshotID := snap.snapshotID }, ?_,
      hcommitted.recorded.named, hcommitted.fresh⟩
    rw [hvolumes, ← hcommitted.recorded.volumeID, World.setLatest]
    simp only [Function.update_self, hv₁, Option.map_some]

/-- **A commit with a call that was not spared fails, and has moved the pointer** to a snapshot that was
not there before. -/
theorem commit_trace {b : Backend} {s : Session} (hfree : ∀ f w o, allowed f w o → CollisionFree P w o)
    (hclosed : Closed P w) (hreg : w.registered (who.node, id) = true)
    (hs : w.sessions (who.node, id) = some s)
    (hrun : (machine P allowed who).Runs (commitWithOptions P b id opts).run w tr r w') :
    (∀ e ∈ tr, Spared e = true) ∨ ((∃ err, r = .error err) ∧ ∃ v,
      w'.volumes s.volume.volumeID = some v ∧ v.latestSnapshotID ≠ "" ∧
        w.snapshots v.latestSnapshotID = none) := by
  unfold commitWithOptions at hrun
  rcases runs_run_bind hrun with ⟨e, h₁, rfl⟩ | ⟨volume, w₁, tr₁, tr₂, h₁, h₂, rfl⟩
  · exact Or.inl ((calm_session id).spared h₁)
  have hspared₁ := (calm_session id).spared h₁
  obtain ⟨hvolume, rfl⟩ := h₁.wp (Q := fun r w' => r = .ok s.volume ∧ w' = w)
    (session_spec hreg hs ⟨rfl, rfl⟩)
  obtain rfl := Except.ok.inj hvolume
  simp only [List.forall_mem_append]
  rcases runs_run_bind h₂ with ⟨e, h₃, rfl⟩ | ⟨base, w₂, tr₃, tr₄, h₃, h₄, rfl⟩
  · exact Or.inl ⟨hspared₁, (calm_access (o := .baseManifest id) rfl).spared h₃⟩
  have hspared₃ := (calm_access (o := .baseManifest id) rfl).spared h₃
  obtain ⟨hbase, rfl⟩ := h₃.wp (Q := fun r w' => r = .ok s.baseManifest ∧ w' = w₁)
    (wp_access fun f _ => ⟨by simp [exec, hs], rfl⟩)
  obtain rfl := Except.ok.inj hbase
  rcases runs_run_bind h₄ with ⟨e, h₅, rfl⟩ | ⟨keys, w₃, tr₅, tr₆, h₅, h₆, rfl⟩
  · refine Or.inl ⟨hspared₁, List.forall_mem_append.mpr ⟨hspared₃, ?_⟩⟩
    exact (calm_access (o := .dirtyIndexes id) rfl).spared h₅
  have hspared₅ := (calm_access (o := .dirtyIndexes id) rfl).spared h₅
  obtain ⟨hkeys, rfl⟩ := h₅.wp (Q := fun r w' => r = .ok (P.rangeOrder s.dirty.keys) ∧ w' = w₂)
    (wp_access fun f _ => ⟨by simp [exec, hs], rfl⟩)
  obtain rfl := Except.ok.inj hkeys
  rcases commitCollected_trace hfree hclosed hs (P.rangeOrder_perm _) h₆ with hspared₆ | hmoved
  · simp only [List.forall_mem_append]
    exact Or.inl ⟨hspared₁, hspared₃, hspared₅, hspared₆⟩
  · exact Or.inr hmoved

end Trace

/-! ## All or nothing -/

/-- **A commit of the session `s` that began in `w` and ended with `r` in `w'` was all or nothing.** After
an error the volume has its pointer, and in whatever later world has the data of `w'`, a `Read` gives
the bytes it gave in `w` and a commit makes a snapshot of them. After a success the volume names the
snapshot and nothing is dirty. -/
structure AllOrNothing (P : Platform) (b : Backend) (who : Caller) (id : String) (s : Session)
    (w : World) (r : Except Err Snapshot) (w' : World) : Prop where
  pointer : ∀ e, r = .error e → (w'.volumes s.volume.volumeID).map Volume.latestSnapshotID =
    (w.volumes s.volume.volumeID).map Volume.latestSnapshotID
  reads : ∀ e, r = .error e → ∀ w₂, Closed P w₂ → SameData w' w₂ → ∀ offset length bytes,
    readOf P b who id w offset length = .ok bytes → readOf P b who id w₂ offset length = .ok bytes
  commits : ∀ e, r = .error e → ∀ w₂, Closed P w₂ → SameData w' w₂ → ∀ opts,
    NoCollision P (commitOf P b who id opts w₂).2.hashed →
      (AllIntact w (who.node, id) s → ∃ snap, (commitOf P b who id opts w₂).1 = .ok snap) ∧
      ∀ snap, (commitOf P b who id opts w₂).1 = .ok snap →
        ∃ v, (commitOf P b who id opts w₂).2.volumes s.volume.volumeID = some v ∧
          v.latestSnapshotID = snap.snapshotID ∧ ∀ offset length bytes,
            readOf P b who id w offset length = .ok bytes →
              window (manifestByte (commitOf P b who id opts w₂).2 v
                (latestOf P (commitOf P b who id opts w₂).2 v)) (natOf offset) (natOf length) = bytes
  done : ∀ snap, r = .ok snap →
    (∃ v, w'.volumes s.volume.volumeID = some v ∧ v.latestSnapshotID = snap.snapshotID) ∧
      ∃ s', w'.sessions (who.node, id) = some s' ∧ s'.dirty = ∅

section AllOrNothing

variable {P : Platform} {b : Backend} {who : Caller} {s : Session}

/-- A commit that fails before anything moved leaves nothing to be noticed. -/
theorem AllOrNothing.of_frame {e : Err} (hclosed : Closed P w)
    (hreg : w.registered (who.node, id) = true) (hs : w.sessions (who.node, id) = some s)
    (hgrows : Grows w w') (hframe : UploadFrame w w') :
    AllOrNothing P b who id s w (.error e) w' := by
  have hsame : ∀ w₂, SameData w' w₂ → w₂.registered (who.node, id) = true ∧
      w₂.sessions (who.node, id) = some s ∧ w₂.overlays (who.node, id) = w.overlays (who.node, id) ∧
      sessionByte w₂ (who.node, id) s = sessionByte w (who.node, id) s := by
    intro w₂ hdata
    have hoverlay : w₂.overlays (who.node, id) = w.overlays (who.node, id) := by
      rw [hdata.overlays, hframe.overlays]
    have hgrow : StoreGrows w w₂ :=
      ⟨fun key c h => hdata.objects ▸ hgrows.objects key c h,
        fun i c h => hdata.snapshots ▸ hgrows.snapshots i c h⟩
    refine ⟨?_, ?_, hoverlay, sessionByte_grow hclosed hgrow hs hoverlay⟩
    · rw [hdata.registered, hframe.registered, hreg]
    · rw [hdata.sessions, hframe.sessions, hs]
  refine ⟨fun _ _ => ?_, fun _ _ w₂ hclosed₂ hdata offset length bytes hread => ?_,
    fun _ _ w₂ hclosed₂ hdata opts hcollision => ?_, fun _ h => by cases h⟩
  · rw [hframe.volumes]
  · obtain ⟨hreg₂, hs₂, hoverlay, hbytes⟩ := hsame w₂ hdata
    obtain ⟨hrange, hpresent, hvalue⟩ := (readOf_eq_ok_iff hclosed hreg hs).mp hread
    refine (readOf_eq_ok_iff hclosed₂ hreg₂ hs₂).mpr ⟨hrange, ?_, by rw [hbytes, hvalue]⟩
    intro rs hrs range hmem hdirty
    obtain ⟨file, hfile⟩ := hpresent rs hrs range hmem hdirty
    exact ⟨file, by rwa [overlayFile, hoverlay]⟩
  · obtain ⟨hreg₂, hs₂, hoverlay, hbytes⟩ := hsame w₂ hdata
    obtain ⟨hok, hcommit⟩ := commitOf_spec (b := b) opts hclosed₂ hreg₂ hs₂ hcollision
    refine ⟨fun hintact => hok fun i => ?_, fun snap hsnap => ?_⟩
    · rw [ChunkIntact, overlayFile, hoverlay]
      exact hintact i
    · obtain ⟨v, hv, hlatest, hcontent⟩ := hcommit snap hsnap
      refine ⟨v, hv, hlatest, fun offset length bytes hread => ?_⟩
      obtain ⟨hrange, -, hvalue⟩ := (readOf_eq_ok_iff hclosed hreg hs).mp hread
      rw [← hvalue, ← hbytes]
      exact window_congr fun p _ _ => hcontent hrange.1 p

/-- What a commit that succeeds leaves behind. -/
theorem AllOrNothing.of_moved {m : Manifest} (hclosed : Closed P w)
    (hs : w.sessions (who.node, id) = some s)
    (hcommitted : Committed P True who id s s.baseManifest m snap w w')
    (hmoved : Moved w w' (who.node, id) snap (s.rebase snap m).clean) :
    AllOrNothing P b who id s w (.ok snap) w' := by
  refine ⟨fun _ h => (by cases h), fun _ h => (by cases h), fun _ h => (by cases h), ?_⟩
  intro snap' hsnap
  cases hsnap
  obtain ⟨v, hv, -⟩ := (hclosed.sessions _ s hs).1
  refine ⟨⟨{ v with latestSnapshotID := snap.snapshotID }, ?_, rfl⟩,
    (s.rebase snap m).clean, ?_, rfl⟩
  · rw [hmoved.volumes, World.setLatest, hcommitted.recorded.volumeID]
    simp only [Function.update_self, hv, Option.map_some]
  · rw [hmoved.sessions, Function.update_self]

end AllOrNothing

/-- Any call may fail; only the chunks hashed do not collide. -/
def anyFault (P : Platform) : Fault → World → Op → Prop := fun _ w o => CollisionFree P w o

/-- **When a commit is all or nothing.** For every run of a commit, whichever of its calls failed: it was
all or nothing exactly if the calls that clear the overlay did not fail and the move of the pointer was
not reported failed after it took effect. -/
theorem commit_allOrNothing_iff (P : Platform) (b : Backend) (who : Caller) (id : String)
    (opts : CommitOptions) (s : Session) (w w' : World) (tr : List (Op × Fault))
    (r : Except Err Snapshot) (hclosed : Closed P w) (hreg : w.registered (who.node, id) = true)
    (hs : w.sessions (who.node, id) = some s)
    (hrun : (machine P (anyFault P) who).Runs (b.commitWithOptions P id opts).run w tr r w') :
    AllOrNothing P b who id s w r w' ↔ ∀ e ∈ tr, Spared e = true := by
  constructor
  · intro h
    refine (commit_trace (fun _ _ _ h => h) hclosed hreg hs hrun).resolve_right ?_
    rintro ⟨⟨err, herr⟩, v, hv, hnamed, hfresh⟩
    -- the pointer would name a snapshot that was recorded before
    have hpointer := h.pointer err herr
    rw [hv, Option.map_some] at hpointer
    obtain ⟨v₀, hv₀, hlatest⟩ := Option.map_eq_some_iff.mp hpointer.symm
    obtain ⟨snap, hsnap, -⟩ := hclosed.latest _ v₀ hv₀ (hlatest ▸ hnamed)
    rw [hlatest, hfresh] at hsnap
    cases hsnap
  · intro hspared
    have hexec : (machine P (fun f w o => CollisionFree P w o ∧ Spared (o, f) = true) who).exec =
        (machine P (anyFault P) who).exec := rfl
    have hsparing := hrun.mono hexec fun e he w hfree => ⟨hfree, hspared e he⟩
    obtain ⟨-, hgrows, hout⟩ := hsparing.wp (commit_spec (fun _ _ _ h => h.1) b opts hclosed hreg hs)
    cases r with
    | ok snap =>
      obtain ⟨m, hcommitted, hmoved⟩ := hout.ok snap rfl
      exact .of_moved hclosed hs hcommitted (hmoved trivial).1
    | error e =>
      rcases hout.error e rfl with hframe | ⟨snap, m, -, ⟨hlate, -⟩ | ⟨hclear, -⟩⟩
      · exact .of_frame hclosed hreg hs hgrows (hframe trivial)
      · obtain ⟨w₁, volumeID, snapshotID, -, hspare⟩ := hlate
        cases hspare
      · obtain ⟨f, w₁, o, ho, ⟨-, hspare⟩, hne⟩ := hclear
        rcases ho with rfl | rfl
        · cases f with
          | none => exact absurd rfl hne
          | _ => cases hspare
        · cases f with
          | none => exact absurd rfl hne
          | _ => cases hspare

/-- A volume of two chunks and a session that wrote one byte of the first. -/
def oneByteWritten : World :=
  (serveAll goRuntime (fun _ => plainNode) World.initial
    [(⟨0, 0⟩, .createVolume "v" 8 4), (⟨0, 0⟩, .startSession "v"),
      (⟨0, 0⟩, .write (goRuntime.uuid 0) 0 ⟨[1], by decide⟩)]).2

/-- A commit of it, with the faults of `plan`. -/
def commitUnder (plan : Op → Fault) : Except Err Snapshot × World :=
  (machine goRuntime (anyFault goRuntime) ⟨0, 0⟩).run plan
    (plainNode.commitWithOptions goRuntime (goRuntime.uuid 0) ⟨0, false⟩).run oneByteWritten

theorem closed_oneByteWritten : Closed goRuntime oneByteWritten := by
  have hhashed : oneByteWritten.hashed = [] := by decide +kernel
  have hcreated : createdIDs (serveAll goRuntime (fun _ => plainNode) World.initial
      [(⟨0, 0⟩, .createVolume "v" 8 4), (⟨0, 0⟩, .startSession "v"),
        (⟨0, 0⟩, .write (goRuntime.uuid 0) 0 ⟨[1], by decide⟩)]).1 = ["v"] := by
    decide +kernel
  refine (serveAll_run sound_initial ?_ ?_ (fun _ _ => rfl) ?_).1.closed
  · simp [Request.Sized]
  · rw [hcreated]
    exact List.nodup_singleton _
  · show NoCollision goRuntime oneByteWritten.hashed
    rw [hhashed]
    simp [NoCollision]

/-- The object store refuses every `Put`. -/
def storeDown : Op → Fault
  | .storePut _ _ => .fail
  | _ => .none

/-- With the object store down a commit fails, and nothing is lost. -/
theorem commit_allOrNothing_iff_storeDown :
    ∃ s, oneByteWritten.sessions (0, goRuntime.uuid 0) = some s ∧
      (∃ e, (commitUnder storeDown).1 = .error e) ∧
      AllOrNothing goRuntime plainNode ⟨0, 0⟩ (goRuntime.uuid 0) s oneByteWritten
        (commitUnder storeDown).1 (commitUnder storeDown).2 := by
  have hhashed : (commitUnder storeDown).2.hashed = [[1, 0, 0, 0]] := by decide +kernel
  have hspared : ∀ e ∈ (machine goRuntime (anyFault goRuntime) ⟨0, 0⟩).trace storeDown
      (plainNode.commitWithOptions goRuntime (goRuntime.uuid 0) ⟨0, false⟩).run oneByteWritten,
        Spared e = true := by
    rw [← List.all_eq_true]
    decide +kernel
  have hfailed : (commitUnder storeDown).1 = .error .io := by decide +kernel
  have hsome : (oneByteWritten.sessions (0, goRuntime.uuid 0)).isSome := by decide +kernel
  obtain ⟨s, hs⟩ := Option.isSome_iff_exists.mp hsome
  refine ⟨s, hs, ⟨_, hfailed⟩, ?_⟩
  have hrun := (runs_run_of_final (M := machine goRuntime (anyFault goRuntime) ⟨0, 0⟩) rfl
    (K := fun w => NoCollision goRuntime w.hashed)
    (fun w o h => collisionFree_of_noCollision (storeDown o) w o h) _ oneByteWritten
    (show NoCollision goRuntime (commitUnder storeDown).2.hashed by
      rw [hhashed]
      simp [NoCollision])).2
  exact (commit_allOrNothing_iff goRuntime plainNode ⟨0, 0⟩ (goRuntime.uuid 0) ⟨0, false⟩ s
    oneByteWritten _ _ _ closed_oneByteWritten (by decide +kernel) hs hrun).mpr hspared

/-- `RemoveAll` removes every file and then fails. -/
def removeFails : Op → Fault
  | .removeAll _ => .kept fun _ => false
  | _ => .none

/-- **A commit that returns an error after it moved the pointer.** The volume names the new snapshot, and
the byte the session wrote can no longer be read. -/
theorem commit_error_after_move :
    ∃ s, oneByteWritten.sessions (0, goRuntime.uuid 0) = some s ∧
      (commitUnder removeFails).1 = .error .io ∧
      ((oneByteWritten.volumes "v").map Volume.latestSnapshotID = some "" ∧
        ((commitUnder removeFails).2.volumes "v").map Volume.latestSnapshotID =
          some (goRuntime.uuid 1)) ∧
      (readOf goRuntime plainNode ⟨0, 0⟩ (goRuntime.uuid 0) oneByteWritten 0 1 = .ok [1] ∧
        readOf goRuntime plainNode ⟨0, 0⟩ (goRuntime.uuid 0) (commitUnder removeFails).2 0 1 =
          .error .notExist) ∧
      ¬ AllOrNothing goRuntime plainNode ⟨0, 0⟩ (goRuntime.uuid 0) s oneByteWritten
        (commitUnder removeFails).1 (commitUnder removeFails).2 := by
  have hfailed : (commitUnder removeFails).1 = .error .io := by decide +kernel
  have hbefore : (oneByteWritten.volumes "v").map Volume.latestSnapshotID = some "" := by
    decide +kernel
  have hafter : ((commitUnder removeFails).2.volumes "v").map Volume.latestSnapshotID =
      some (goRuntime.uuid 1) := by
    decide +kernel
  have hvolume : (oneByteWritten.sessions (0, goRuntime.uuid 0)).map (fun s => s.volume.volumeID) =
      some "v" := by
    decide +kernel
  obtain ⟨s, hs, hid⟩ := Option.map_eq_some_iff.mp hvolume
  refine ⟨s, hs, hfailed, ⟨hbefore, hafter⟩, ⟨by decide +kernel, by decide +kernel⟩, fun h => ?_⟩
  have hpointer := h.pointer _ hfailed
  rw [hid, hbefore, hafter, Option.some.injEq] at hpointer
  exact goRuntime.uuid_ne_empty 1 hpointer

end OrcaBlocks.Storage
