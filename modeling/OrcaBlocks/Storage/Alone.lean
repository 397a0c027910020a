/-
# OrcaBlocks.Storage.Alone — what a call answers when it runs alone and nothing fails.

The results about faults compare a session before and after a call that went wrong, and what they
compare is what LATER calls answer: `readOf` is the answer of a `Read`, `commitOf` the outcome of a
commit. A `Read` gives bytes exactly if the request is inside the volume and the overlay has the files
of the chunks it touches, and then they are the session's; a commit that succeeds leaves the volume with
a snapshot of the session's bytes.
-/
import OrcaBlocks.Storage.FlatArray

namespace OrcaBlocks.Storage

open OrcaBlocks.Lib

section Alone

variable (P : Platform) (b : Backend) (who : Caller) (id : String)

/-- What `Read` answers. -/
def readOf (w : World) (offset length : Int64) : Except Err Bytes :=
  ((machine P faultFree who).run (fun _ => .none) (b.read P id offset length).run w).1

/-- What `CommitWithOptions` answers, and the world after it. -/
def commitOf (opts : CommitOptions) (w : World) : Except Err Snapshot × World :=
  (machine P faultFree who).run (fun _ => .none) (b.commitWithOptions P id opts).run w

variable {P b who id} {w : World} {s : Session}

/-- A run without faults ends as every run on that machine does. -/
theorem wp_faultFree_run {α : Type} {t : Prog sig α} {Q : α → World → Prop}
    (h : (machine P faultFree who).wp t Q w) :
    Q ((machine P faultFree who).run (fun _ => .none) t w).1
      ((machine P faultFree who).run (fun _ => .none) t w).2 :=
  (runs_run_of_final (M := machine P faultFree who) rfl (K := fun _ => True)
    (fun _ _ _ => ⟨trivial, rfl⟩) t w trivial).2.wp h

/-- **When a `Read` gives bytes, and which.** -/
theorem readOf_eq_ok_iff (hclosed : Closed P w) (hreg : w.registered (who.node, id) = true)
    (hs : w.sessions (who.node, id) = some s) {offset length : Int64} {bytes : Bytes} :
    readOf P b who id w offset length = .ok bytes ↔
      (0 < s.volume.chunkSize.toInt ∧ InRange s.volume offset length) ∧
        RequestPresent w (who.node, id) s offset length ∧
        window (sessionByte w (who.node, id) s) (natOf offset) (natOf length) = bytes := by
  by_cases hrange : 0 < s.volume.chunkSize.toInt ∧ InRange s.volume offset length
  · obtain ⟨-, -, hquiet, hvalue⟩ := wp_faultFree_run
      (read_spec b hclosed hreg hs hrange.1 hrange.2)
    have hnone : Quiet faultFree := fun _ _ _ h => h
    constructor
    · intro hok
      obtain ⟨rfl, hpresent⟩ := hvalue bytes hok
      exact ⟨hrange, hpresent, rfl⟩
    · rintro ⟨-, hpresent, rfl⟩
      exact hquiet hnone hpresent
  · have hbad : s.volume.chunkSize.toInt ≤ 0 ∨ ¬ InRange s.volume offset length := by
      by_cases hcs : 0 < s.volume.chunkSize.toInt
      · exact Or.inr fun h => hrange ⟨hcs, h⟩
      · exact Or.inl (by omega)
    obtain ⟨-, e, he⟩ := wp_faultFree_run
      (read_refused (P := P) b hreg hs hbad)
    constructor
    · intro hok
      cases he.symm.trans hok
    · rintro ⟨h, -⟩
      exact absurd h hrange

/-- The overlay has every chunk the session wrote, and none is too long. -/
def AllIntact (w : World) (r : SessRef) (s : Session) : Prop := ∀ i, ChunkIntact w r s i

/-- **What a commit leaves behind.** -/
theorem commitOf_spec (opts : CommitOptions) (hclosed : Closed P w)
    (hreg : w.registered (who.node, id) = true) (hs : w.sessions (who.node, id) = some s)
    (hcollision : NoCollision P (commitOf P b who id opts w).2.hashed) :
    (AllIntact w (who.node, id) s → ∃ snap, (commitOf P b who id opts w).1 = .ok snap) ∧
      ∀ snap, (commitOf P b who id opts w).1 = .ok snap →
        ∃ v, (commitOf P b who id opts w).2.volumes s.volume.volumeID = some v ∧
          v.latestSnapshotID = snap.snapshotID ∧ (0 < s.volume.chunkSize.toInt → ∀ p,
            manifestByte (commitOf P b who id opts w).2 v
              (latestOf P (commitOf P b who id opts w).2 v) p = sessionByte w (who.node, id) s p) := by
  have hexec : (machine P (unfailing P) who).exec = (machine P faultFree who).exec := rfl
  have hrun : (machine P (unfailing P) who).Runs (b.commitWithOptions P id opts).run w _
      (commitOf P b who id opts w).1 (commitOf P b who id opts w).2 :=
    (runs_run_of_final (K := fun w => NoCollision P w.hashed) hexec (fun w o h =>
      (collisionFree_of_noCollision .none w o h).imp_right fun hfree => ⟨rfl, hfree⟩)
      (b.commitWithOptions P id opts).run w hcollision).2
  obtain ⟨hclosed', hgrows, hout⟩ :=
    hrun.wp (commit_spec (fun _ _ _ h => h.2) b opts hclosed hreg hs)
  refine ⟨fun hintact => hout.quiet quiet_unfailing hintact, fun snap hok => ?_⟩
  obtain ⟨m, hcommitted, hmoved⟩ := hout.ok snap hok
  obtain ⟨v, hv, hshape⟩ := (hclosed.sessions _ s hs).1
  refine ⟨{ v with latestSnapshotID := snap.snapshotID }, ?_, rfl, fun hcs p => ?_⟩
  · rw [(hmoved trivial).1.volumes, World.setLatest, hcommitted.recorded.volumeID]
    simp only [Function.update_self, hv, Option.map_some]
  · rw [manifestByte_congr (hcommitted.recorded.lookup_latestOf rfl)]
    refine Eq.trans ?_ (hcommitted.manifestByte_eq trivial hclosed hclosed' hgrows hs hcs p)
    rw [manifestByte, manifestByte, show natOf v.chunkSize = natOf s.volume.chunkSize by
      rw [hshape.2]]

end Alone

end OrcaBlocks.Storage
