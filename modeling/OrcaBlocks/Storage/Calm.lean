/-
# OrcaBlocks.Storage.Calm — the functions that leave volumes and overlays as they are.

Where it matters WHICH call of a function failed, the results speak about its trace, and most functions
of the engine cannot be the ones to blame: they read, hash, upload and cache. `Calm` says of a function
that along no branch does it make one of the few calls that move a volume or change an overlay. It is a
property of the program text, so it holds whatever the environment answers.
-/
import OrcaBlocks.Storage.Backend
import OrcaBlocks.Storage.CacheOps

namespace OrcaBlocks.Storage

open OrcaBlocks.Lib Backend

/-- The calls that move a volume's pointer or change an overlay. -/
def Op.Moves : Op → Bool
  | .updateLatestSnapshot _ _ | .removeAll _ | .mkdirAll _ | .writeFile _ _ _ => true
  | _ => false

/-- The program makes none of the calls that move something. -/
abbrev CalmProg {α : Type} (t : Prog sig α) : Prop := Prog.Only (fun o : Op => o.Moves = false) t

abbrev Calm {α : Type} (x : M α) : Prop := Uses (fun o : Op => o.Moves = false) x

theorem calm_perform {o : Op} (h : o.Moves = false) : CalmProg (perform o) := only_perform h

theorem calm_access {o : Op} (h : o.Moves = false) : Calm (access o) := uses_access h

theorem calm_outside {α : Type} {call : Prog sig (Except Err α)}
    (h : CalmProg call) : Calm (outside call) := uses_outside h

theorem calm_attempt {α : Type} {call : Prog sig (Except Err α)}
    (h : CalmProg call) : Calm (attempt call) := uses_attempt h

theorem calm_pure {α : Type} (a : α) : Calm (pure a : M α) := uses_pure a

theorem calm_throw {α : Type} (e : Err) : Calm (throw e : M α) := uses_throw e

theorem calm_ofResult {α : Type} (r : Except Err α) : Calm (ofResult r) := uses_ofResult r

theorem Calm.bind {α β : Type} {x : M α} {f : α → M β} (hx : Calm x) (hf : ∀ a, Calm (f a)) :
    Calm (x >>= f) := Uses.bind hx hf

section Cache

variable (P : Platform) (c : LocalCache)

private theorem calm_of_onFiles (o : Op) (h : o.OnFiles = true) : o.Moves = false := by
  cases o with
  | _ => first | rfl | cases h

theorem calm_get (chunkID : String) : Calm (c.get chunkID) :=
  uses_get c calm_of_onFiles rfl fun _ => rfl

theorem calm_put (chunkID : String) (b : Bytes) : Calm (c.put P chunkID b) :=
  uses_put P c calm_of_onFiles rfl

end Cache

section Backend

variable (P : Platform) (b : Backend)

theorem calm_session (id : String) : Calm (Backend.session id) := by
  refine (calm_access rfl).bind ?_
  rintro (_ | volume)
  · exact calm_throw _
  · exact calm_pure volume

theorem calm_readDirtyChunk (id : String) (index chunkSize : Int64) :
    Calm (readDirtyChunk id index chunkSize) :=
  (calm_outside (calm_perform rfl)).bind fun _ => calm_ofResult _

theorem calm_readBatch (id : String) (volume : Volume) (indexes : List Int64) :
    Calm (readBatch id volume indexes) := by
  induction indexes with
  | nil => exact calm_pure []
  | cons idx rest ih =>
    exact (calm_readDirtyChunk id idx _).bind fun _ => (calm_access rfl).bind fun _ => ih.bind fun _ => calm_pure _

theorem calm_uploadBatch (batch : List DirtyChunk) (manifest : Manifest)
    (stats : CommitBatchStats) : Calm (uploadBatch P b batch manifest stats) := by
  induction batch generalizing manifest stats with
  | nil => exact calm_pure _
  | cons item rest ih =>
    have hupload : Calm (uploadChunk item) := by
      refine (calm_outside (calm_perform rfl)).bind fun found => ?_
      split
      · exact calm_pure _
      · exact (calm_outside (calm_perform rfl)).bind fun _ => calm_pure _
    exact hupload.bind fun _ => (calm_put P b.cache _ _).bind fun _ => ih _ _

theorem calm_progress (opts : CommitOptions) (p : CommitProgress) :
    Calm (progress opts p) := by
  unfold progress
  split
  · exact calm_access rfl
  · exact calm_pure ()

theorem calm_commitBatches (opts : CommitOptions) (id : String) (volume : Volume)
    (total batchSize fuel : Nat) (indexes : List Int64) (manifest : Manifest)
    (stats : CommitBatchStats) :
    Calm (commitBatches P b opts id volume total batchSize fuel indexes manifest stats) := by
  induction fuel generalizing indexes manifest stats with
  | zero => exact calm_pure _
  | succ fuel ih =>
    unfold commitBatches
    split
    · exact calm_pure _
    · have hbatch : Calm (commitDirtyBatch P b id volume (indexes.take batchSize) manifest) :=
        (calm_readBatch id volume _).bind fun _ => calm_uploadBatch P b _ _ _
      exact hbatch.bind fun _ => (calm_progress opts _).bind fun _ => ih _ _ _

theorem calm_fetchChunk (id : String) (volume : Volume) (chunkID : String) :
    Calm (fetchChunk P b id volume chunkID) := by
  refine (calm_access rfl).bind fun _ => (calm_attempt (calm_perform rfl)).bind fun got => ?_
  split
  · exact (calm_access rfl).bind fun _ => calm_pure _
  · exact calm_throw _
  · refine (calm_access rfl).bind fun _ => (calm_ofResult _).bind fun _ => ?_
    exact (calm_put P b.cache _ _).bind fun _ => calm_pure _

theorem calm_resolveChunk (id : String) (volume : Volume) (index : Int64) :
    Calm (resolveChunk P b id volume index) := by
  refine (calm_access rfl).bind fun dirty => ?_
  split
  · exact calm_readDirtyChunk id index _
  · refine (calm_access rfl).bind fun base => ?_
    split
    · exact (calm_access rfl).bind fun _ => calm_pure _
    · refine (calm_get b.cache _).bind fun cached => ?_
      split
      · exact (calm_access rfl).bind fun _ => calm_ofResult _
      · refine (calm_fetchChunk P b id volume _).bind fun fetched => ?_
        split
        · exact calm_pure _
        · exact calm_pure _

/-- Finding the chunk to write changes nothing. -/
theorem calm_chunkToWrite (id : String) (volume : Volume) (index : Int64) :
    Calm (chunkToWrite P b id volume index) := by
  refine (calm_access rfl).bind fun dirty => ?_
  split
  · exact calm_readDirtyChunk id index _
  · exact calm_resolveChunk P b id volume index

/-- Nothing moves while a snapshot is prepared. -/
theorem calm_prepareSnapshot (id : String) (opts : CommitOptions) (volume : Volume)
    (manifest : Manifest) (indexes : List Int64) :
    Calm (prepareSnapshot P b id opts volume manifest indexes) := by
  refine (calm_progress opts _).bind fun _ => (calm_commitBatches P b _ _ _ _ _ _ _ _ _).bind ?_
  rintro ⟨manifest, stats⟩
  have hrecord : Calm (recordSnapshot P opts volume indexes.length manifest stats) := by
    refine (calm_access rfl).bind fun snapshotID => (calm_progress opts _).bind fun _ => ?_
    refine (show Calm (saveManifest P _ manifest) from calm_outside (calm_perform rfl)).bind
      fun _ => (calm_progress opts _).bind fun _ => ?_
    exact (calm_outside (calm_perform rfl)).bind fun _ => calm_pure _
  exact hrecord.bind fun _ => calm_pure _

end Backend

end OrcaBlocks.Storage
