/-
# OrcaBlocks.Storage.CacheOps — which operations the functions of the cache perform.

`Uses K x` says that along every branch, whatever the environment answers, `x` performs only
operations in `K`. Each function of the cache works on files (`Op.OnFiles`) and on the memory tier
through the sections named in its lemma, and on nothing else. The lemmas take any `K` that holds of
these, so that each later footprint of a cache function is one application.
-/
import OrcaBlocks.Storage.LocalCache

namespace OrcaBlocks.Storage

open OrcaBlocks.Lib

/-! ## Footprints -/

/-- The function performs only operations in `K`. -/
abbrev Uses (K : Op → Prop) {α : Type} (x : M α) : Prop := Prog.Only (S := sig) K x.run

section Uses

variable {K : Op → Prop} {α β : Type}

theorem only_perform {o : Op} (h : K o) : Prog.Only (S := sig) K (perform o) := ⟨h, fun _ => trivial⟩

theorem uses_access {o : Op} (h : K o) : Uses K (access o) := ⟨h, fun _ => trivial⟩

theorem uses_outside {call : Prog sig (Except Err α)} (h : Prog.Only (S := sig) K call) :
    Uses K (outside call) := h

theorem uses_attempt {call : Prog sig (Except Err α)} (h : Prog.Only (S := sig) K call) :
    Uses K (attempt call) := Prog.Only.bind h fun _ => trivial

theorem uses_pure (a : α) : Uses K (pure a : M α) := trivial

theorem uses_throw (e : Err) : Uses K (throw e : M α) := trivial

theorem uses_ofResult (r : Except Err α) : Uses K (ofResult r) := trivial

theorem Uses.bind {x : M α} {f : α → M β} (hx : Uses K x) (hf : ∀ a, Uses K (f a)) :
    Uses K (x >>= f) := only_run_bind hx hf

end Uses

/-! ## The functions of the cache -/

/-- A call to the cache. -/
inductive CacheCall where
  | put (chunkID : String) (b : Bytes)
  | get (chunkID : String)
  | getRange (chunkID : String) (offset length : Int64)
  deriving DecidableEq, Repr

/-- The call runs the function; `Put` has no answer. -/
def LocalCache.serve (P : Platform) (c : LocalCache) : CacheCall → M (Option Bytes)
  | .put chunkID b => do
    c.put P chunkID b
    pure none
  | .get chunkID => c.get chunkID
  | .getRange chunkID offset length => c.getRange chunkID offset length

/-- The operations on the cache's files, and the count of evictions. -/
def Op.OnFiles : Op → Bool
  | .countEvicted | .cacheReadFile _ | .cacheReadFileAt _ _ _ | .createTemp _ | .writeTemp _ _
  | .closeTemp _ | .chmod _ | .rename _ _ | .chtimes _ | .removePath _ | .readDir _ => true
  | _ => false

section Cache

variable (P : Platform) (c : LocalCache) {K : Op → Prop}

theorem uses_touch {path : Path} (h : K (.chtimes path)) : Uses K (LocalCache.touch path) :=
  (uses_attempt (only_perform h)).bind fun _ => uses_pure ()

theorem uses_evictItems (hremove : ∀ path, K (.removePath path)) (hcount : K .countEvicted)
    (items : List EvictItem) (total : Int64) : Uses K (c.evictItems items total) := by
  induction items generalizing total with
  | nil => exact uses_pure ()
  | cons it rest ih =>
    unfold LocalCache.evictItems
    split
    · exact uses_pure ()
    · refine (uses_attempt (only_perform (hremove it.path))).bind fun removed => ?_
      split
      · exact (uses_access hcount).bind fun _ => ih _
      · exact (uses_access hcount).bind fun _ => ih _
      · exact uses_throw _

theorem uses_evictLocked (hread : K (.readDir c.dir)) (hremove : ∀ path, K (.removePath path))
    (hcount : K .countEvicted) : Uses K (c.evictLocked P) :=
  (uses_outside (only_perform hread)).bind fun _ => uses_evictItems c hremove hcount _ _

variable (hfiles : ∀ o, o.OnFiles = true → K o)

include hfiles

theorem uses_discard (path : Path) : Uses K (LocalCache.discard path) :=
  (uses_attempt (only_perform (hfiles _ rfl))).bind fun _ => uses_pure ()

theorem uses_orDiscard (path : Path) {call : Prog sig (Except Err Unit)}
    (h : Prog.Only (S := sig) K call) : Uses K (LocalCache.orDiscard path call) := by
  refine (uses_attempt h).bind ?_
  rintro (e | u)
  · exact (uses_discard hfiles path).bind fun _ => uses_throw e
  · exact uses_pure ()

theorem uses_get {chunkID : String} (hget : K (.getMemory chunkID))
    (hput : ∀ b, K (.putMemory c.memoryMax chunkID b)) : Uses K (c.get chunkID) := by
  refine (uses_access hget).bind fun found => ?_
  split
  · exact uses_pure _
  · refine (uses_attempt (only_perform (hfiles _ rfl))).bind fun file => ?_
    split
    · exact uses_pure _
    · exact uses_throw _
    · exact (uses_touch (hfiles _ rfl)).bind fun _ => (uses_access (hput _)).bind fun _ => uses_pure _

theorem uses_getRange {chunkID : String} {offset length : Int64}
    (hget : K (.getMemoryRange chunkID offset length)) :
    Uses K (c.getRange chunkID offset length) := by
  refine (uses_access hget).bind fun found => ?_
  split
  · exact uses_pure _
  · refine (uses_attempt (only_perform (hfiles _ rfl))).bind fun file => ?_
    split
    · exact uses_pure _
    · exact uses_throw _
    · exact (uses_touch (hfiles _ rfl)).bind fun _ => uses_pure _

theorem uses_put {chunkID : String} {b : Bytes} (hput : K (.putMemory c.memoryMax chunkID b)) :
    Uses K (c.put P chunkID b) := by
  refine (uses_outside (only_perform (hfiles _ rfl))).bind fun tmpPath => ?_
  refine (uses_attempt (only_perform (hfiles _ rfl))).bind ?_
  rintro (e | u)
  · exact (uses_attempt (only_perform (hfiles _ rfl))).bind fun _ =>
      (uses_discard hfiles _).bind fun _ => uses_throw e
  · refine (uses_orDiscard hfiles _ (only_perform (hfiles _ rfl))).bind fun _ => ?_
    refine (uses_orDiscard hfiles _ (only_perform (hfiles _ rfl))).bind fun _ => ?_
    refine (uses_orDiscard hfiles _ (only_perform (hfiles _ rfl))).bind fun _ => ?_
    refine (uses_touch (hfiles _ rfl)).bind fun _ => (uses_access hput).bind fun _ => ?_
    exact uses_evictLocked P c (hfiles _ rfl) (fun _ => hfiles _ rfl) (hfiles _ rfl)

end Cache

end OrcaBlocks.Storage
