/-
# OrcaBlocks.Storage.MemoryTier — the in-memory tier of `LocalCache`.

`memoryList` is Go's `container/list`, front first; each element carries its ADDRESS, the number
that `memoryItems` stores for its id in place of the `*list.Element` pointer. The functions are the
sections of `cache.go` that run under `c.mu`, on these two structures and the byte counter.

`MemoryTier.WF` ties map and list together; `MemoryTier.Holds good` adds that every resident entry
satisfies `good id data`. Each section keeps both, and a hit returns a good entry
(`getMemory_holds`, `getMemoryRange_holds`, `putMemoryLocked_holds`).
-/
import OrcaBlocks.Lib.Bytes
import OrcaBlocks.Lib.MachineInt
import OrcaBlocks.Storage.Types

namespace OrcaBlocks.Storage

open OrcaBlocks.Lib

variable {elem : Nat} {b : Bytes} {id : String}

structure MemoryChunk where
  id : String
  data : Bytes
  deriving DecidableEq, Repr

/-- The `memory*` fields of `LocalCache`. -/
structure MemoryTier where
  memoryBytes : Int
  memoryEvict : Nat
  memoryList : List (Nat × MemoryChunk)
  memoryItems : AList fun _ : String => Nat
  /-- The address the next `PushFront` allocates. -/
  nextElem : Nat

namespace MemoryTier

def empty : MemoryTier := ⟨0, 0, [], ∅, 0⟩

/-- `memoryList.MoveToFront(elem)`. -/
def moveToFront (m : MemoryTier) (elem : Nat) : MemoryTier :=
  match m.memoryList.lookup elem with
  | some chunk =>
    { m with memoryList := (elem, chunk) :: m.memoryList.filter fun e => e.1 ≠ elem }
  | none => m

/-- `getMemory`. -/
def getMemory (m : MemoryTier) (chunkID : String) : Option Bytes × MemoryTier :=
  match m.memoryItems.lookup chunkID with
  | none => (none, m)
  | some elem => ((m.memoryList.lookup elem).map MemoryChunk.data, m.moveToFront elem)

/-- `getMemoryRange`: the part of the chunk inside the range, zero-filled. -/
def getMemoryRange (m : MemoryTier) (chunkID : String) (offset length : Int64) :
    Option Bytes × MemoryTier :=
  match m.memoryItems.lookup chunkID with
  | none => (none, m)
  | some elem =>
    ((m.memoryList.lookup elem).map fun chunk =>
      padTo 0 (slice chunk.data (natOf offset) (natOf length)) (natOf length),
     m.moveToFront elem)

/-- One turn of the loop of `evictMemoryLocked`: drop `memoryList.Back()`. -/
def evictBack (m : MemoryTier) (chunk : MemoryChunk) : MemoryTier :=
  { m with
    memoryItems := m.memoryItems.erase chunk.id
    memoryList := m.memoryList.dropLast
    memoryBytes := m.memoryBytes - chunk.data.length
    memoryEvict := m.memoryEvict + 1 }

/-- The loop of `evictMemoryLocked`, with as many turns as `fuel`. -/
def evictLoop (memoryMax : Int64) : Nat → MemoryTier → MemoryTier
  | 0, m => m
  | fuel + 1, m =>
    if m.memoryBytes > memoryMax.toInt then
      match m.memoryList.getLast? with
      | none => m
      | some (_, chunk) => evictLoop memoryMax fuel (m.evictBack chunk)
    else m

/-- `evictMemoryLocked`. Each turn removes an element, so the list's length bounds the turns. -/
def evictMemoryLocked (memoryMax : Int64) (m : MemoryTier) : MemoryTier :=
  evictLoop memoryMax m.memoryList.length m

/-- Replace the data of a resident element, as `chunk.data = append(chunk.data[:0], b...)` does. -/
def setData (m : MemoryTier) (elem : Nat) (chunk : MemoryChunk) (b : Bytes) : MemoryTier :=
  { m with
    memoryBytes := m.memoryBytes - chunk.data.length + b.length
    memoryList := m.memoryList.map fun e => if e.1 = elem then (elem, ⟨e.2.id, b⟩) else e }

/-- `memoryList.PushFront` of a new element and its entry in `memoryItems`. -/
def pushFront (m : MemoryTier) (chunkID : String) (b : Bytes) : MemoryTier :=
  { m with
    memoryList := (m.nextElem, ⟨chunkID, b⟩) :: m.memoryList
    memoryItems := m.memoryItems.insert chunkID m.nextElem
    memoryBytes := m.memoryBytes + b.length
    nextElem := m.nextElem + 1 }

/-- `putMemoryLocked`. -/
def putMemoryLocked (memoryMax : Int64) (m : MemoryTier) (chunkID : String) (b : Bytes) :
    MemoryTier :=
  if memoryMax.toInt ≤ 0 ∨ (b.length : Int) > memoryMax.toInt then m
  else
    match m.memoryItems.lookup chunkID with
    | some elem =>
      match m.memoryList.lookup elem with
      | some chunk => evictMemoryLocked memoryMax ((m.setData elem chunk b).moveToFront elem)
      | none => m
    | none => evictMemoryLocked memoryMax (m.pushFront chunkID b)

/-! ## The map and the list agree -/

/-- `memoryItems` maps an id to an address exactly when the list has an element with both; addresses
are distinct and below the next one. -/
structure WF (m : MemoryTier) : Prop where
  nodup : (m.memoryList.map Prod.fst).Nodup
  items : ∀ id elem, m.memoryItems.lookup id = some elem ↔
    ∃ data, (elem, ⟨id, data⟩) ∈ m.memoryList
  fresh : ∀ e ∈ m.memoryList, e.1 < m.nextElem

/-- A well-formed tier all of whose entries are good. -/
structure Holds (good : String → Bytes → Prop) (m : MemoryTier) : Prop where
  wf : m.WF
  good : ∀ e ∈ m.memoryList, good e.2.id e.2.data

variable {good : String → Bytes → Prop} {m : MemoryTier}

theorem holds_empty : Holds good empty := by
  refine ⟨⟨?_, ?_, ?_⟩, ?_⟩
  · simp [empty]
  · intro id elem; simp [empty]
  · simp [empty]
  · simp [empty]

/-- Goodness may be weakened. -/
theorem Holds.mono {good' : String → Bytes → Prop} (h : Holds good m)
    (himp : ∀ id data, good id data → good' id data) : Holds good' m :=
  ⟨h.wf, fun e he => himp _ _ (h.good e he)⟩

/-- In a list with distinct addresses, `lookup` finds exactly the members. -/
theorem lookup_eq_some_iff {β : Type} {l : List (Nat × β)} (hnd : (l.map Prod.fst).Nodup) {b : β} :
    l.lookup elem = some b ↔ (elem, b) ∈ l := by
  induction l with
  | nil => simp
  | cons e l ih =>
    obtain ⟨a, b'⟩ := e
    rw [List.map_cons, List.nodup_cons] at hnd
    by_cases h : elem = a
    · subst h
      simp only [List.lookup_cons, beq_self_eq_true, Option.some.injEq, List.mem_cons,
        Prod.mk.injEq, true_and]
      constructor
      · intro h; exact Or.inl h.symm
      · rintro (h | h)
        · exact h.symm
        · exact absurd (List.mem_map.mpr ⟨_, h, rfl⟩) hnd.1
    · have hbeq : (elem == a) = false := by simpa using h
      simp [List.lookup_cons, hbeq, ih hnd.2, h]

/-- Moving an element only reorders the list. -/
private theorem mem_moveToFront (hnd : (m.memoryList.map Prod.fst).Nodup) (elem : Nat)
    (e : Nat × MemoryChunk) : e ∈ (m.moveToFront elem).memoryList ↔ e ∈ m.memoryList := by
  unfold moveToFront
  split
  · rename_i chunk hlook
    have hmem := (lookup_eq_some_iff hnd).mp hlook
    simp only [List.mem_cons, List.mem_filter, decide_eq_true_eq]
    constructor
    · rintro (rfl | h)
      · exact hmem
      · exact h.1
    · intro h
      by_cases he : e.1 = elem
      · left
        have : m.memoryList.lookup elem = some e.2 := (lookup_eq_some_iff hnd).mpr (he ▸ h)
        rw [hlook] at this
        exact Prod.ext he (Option.some.inj this).symm
      · exact Or.inr ⟨h, he⟩
  · rfl

private theorem nodup_moveToFront (hnd : (m.memoryList.map Prod.fst).Nodup) (elem : Nat) :
    ((m.moveToFront elem).memoryList.map Prod.fst).Nodup := by
  unfold moveToFront
  split
  · rw [List.map_cons, List.nodup_cons]
    constructor
    · intro h
      obtain ⟨e, he, hfst⟩ := List.mem_map.mp h
      exact absurd hfst (by simpa using (List.mem_filter.mp he).2)
    · exact hnd.sublist (List.filter_sublist.map _)
  · exact hnd

theorem Holds.moveToFront (h : Holds good m) (elem : Nat) : Holds good (m.moveToFront elem) := by
  have hmem := mem_moveToFront h.wf.nodup elem
  have hitems : (m.moveToFront elem).memoryItems = m.memoryItems := by
    unfold MemoryTier.moveToFront; split <;> rfl
  have hnext : (m.moveToFront elem).nextElem = m.nextElem := by
    unfold MemoryTier.moveToFront; split <;> rfl
  refine ⟨⟨nodup_moveToFront h.wf.nodup elem, ?_, ?_⟩, ?_⟩
  · intro id a
    rw [hitems, h.wf.items]
    exact exists_congr fun data => (hmem _).symm
  · intro e he
    rw [hnext]
    exact h.wf.fresh e ((hmem e).mp he)
  · intro e he
    exact h.good e ((hmem e).mp he)

/-- The element a map entry points to. -/
private theorem Holds.lookup_elem (h : Holds good m) {chunk : MemoryChunk}
    (hitem : m.memoryItems.lookup id = some elem) (hlook : m.memoryList.lookup elem = some chunk) :
    good id chunk.data := by
  obtain ⟨data, hdata⟩ := (h.wf.items id elem).mp hitem
  have hfound := (lookup_eq_some_iff h.wf.nodup).mpr hdata
  rw [hlook] at hfound
  have hchunk : chunk = ⟨id, data⟩ := Option.some.inj hfound
  have hgood := h.good _ hdata
  rw [hchunk]
  exact hgood

theorem getMemory_holds (h : Holds good m) (id : String) :
    Holds good (m.getMemory id).2 ∧ ∀ b, (m.getMemory id).1 = some b → good id b := by
  unfold getMemory
  split
  · exact ⟨h, by simp⟩
  · rename_i elem hitem
    refine ⟨h.moveToFront elem, ?_⟩
    intro b hb
    obtain ⟨chunk, hlook, rfl⟩ := Option.map_eq_some_iff.mp hb
    exact h.lookup_elem hitem hlook

theorem getMemoryRange_holds (h : Holds good m) (id : String) (offset length : Int64) :
    Holds good (m.getMemoryRange id offset length).2 ∧
      ∀ out, (m.getMemoryRange id offset length).1 = some out →
        ∃ b, good id b ∧ out = window (fun p => b.getD p 0) (natOf offset) (natOf length) := by
  unfold getMemoryRange
  split
  · exact ⟨h, by simp⟩
  · rename_i elem hitem
    refine ⟨h.moveToFront elem, ?_⟩
    intro out hout
    obtain ⟨chunk, hlook, rfl⟩ := Option.map_eq_some_iff.mp hout
    exact ⟨chunk.data, h.lookup_elem hitem hlook, padTo_slice_eq_window 0 _ _ _⟩

/-- Dropping the back element and its map entry. -/
theorem Holds.evictBack (h : Holds good m) {chunk : MemoryChunk}
    (hlast : m.memoryList.getLast? = some (elem, chunk)) : Holds good (m.evictBack chunk) := by
  have hsplit : m.memoryList = m.memoryList.dropLast ++ [(elem, chunk)] :=
    (List.dropLast_append_getLast? _ hlast).symm
  have hnd := h.wf.nodup
  rw [hsplit, List.map_append, List.nodup_append] at hnd
  have hsub : ∀ e ∈ m.memoryList.dropLast, e ∈ m.memoryList := fun e he =>
    List.dropLast_subset _ he
  have hback : m.memoryItems.lookup chunk.id = some elem :=
    (h.wf.items chunk.id elem).mpr ⟨chunk.data, by rw [hsplit]; simp⟩
  refine ⟨⟨hnd.1, ?_, fun e he => h.wf.fresh e (hsub e he)⟩, fun e he => h.good e (hsub e he)⟩
  intro id a
  show (m.memoryItems.erase chunk.id).lookup id = some a ↔ _
  by_cases hid : id = chunk.id
  · -- the evicted id: no other element can have it, its map entry was the back's address
    subst hid
    rw [AList.lookup_erase]
    refine ⟨fun hnone => absurd hnone (by simp), ?_⟩
    rintro ⟨data, hdata⟩
    have ha : m.memoryItems.lookup chunk.id = some a :=
      (h.wf.items chunk.id a).mpr ⟨data, hsub _ hdata⟩
    rw [hback] at ha
    have : elem = a := Option.some.inj ha
    subst this
    exact absurd rfl (hnd.2.2 elem (List.mem_map.mpr ⟨_, hdata, rfl⟩) elem (by simp))
  · rw [AList.lookup_erase_ne hid, h.wf.items]
    constructor
    · rintro ⟨data, hdata⟩
      rw [hsplit] at hdata
      rcases List.mem_append.mp hdata with hdata | hdata
      · exact ⟨data, hdata⟩
      · simp only [List.mem_singleton, Prod.mk.injEq] at hdata
        exact absurd (by rw [← hdata.2]) hid
    · rintro ⟨data, hdata⟩
      exact ⟨data, hsub _ hdata⟩

private theorem evictLoop_holds (memoryMax : Int64) :
    ∀ (fuel : Nat) (m : MemoryTier), Holds good m → Holds good (evictLoop memoryMax fuel m) := by
  intro fuel
  induction fuel with
  | zero => intro m h; exact h
  | succ fuel ih =>
    intro m h
    unfold evictLoop
    split
    · split
      · exact h
      · rename_i elem chunk hlast
        exact ih _ (h.evictBack hlast)
    · exact h

theorem Holds.setData (h : Holds good m) {chunk : MemoryChunk}
    (hitem : m.memoryItems.lookup id = some elem) (hb : good id b) :
    Holds good (m.setData elem chunk b) := by
  have hfst : (m.setData elem chunk b).memoryList.map Prod.fst = m.memoryList.map Prod.fst := by
    simp only [MemoryTier.setData, List.map_map]
    apply List.map_congr_left
    intro e _
    by_cases he : e.1 = elem
    · simp [he]
    · simp [he]
  obtain ⟨data, hdata⟩ := (h.wf.items id elem).mp hitem
  -- every element at the address `elem` carries the id of the map entry
  have hid : ∀ e ∈ m.memoryList, e.1 = elem → e.2.id = id := by
    rintro ⟨a, c⟩ he rfl
    have h₁ := (lookup_eq_some_iff h.wf.nodup).mpr he
    have h₂ := (lookup_eq_some_iff h.wf.nodup).mpr hdata
    rw [h₁] at h₂
    rw [Option.some.inj h₂]
  refine ⟨⟨by rw [hfst]; exact h.wf.nodup, ?_, ?_⟩, ?_⟩
  · intro id' a
    show m.memoryItems.lookup id' = some a ↔ _
    rw [h.wf.items]
    simp only [MemoryTier.setData, List.mem_map]
    constructor
    · rintro ⟨d, hd⟩
      by_cases ha : a = elem
      · exact ⟨b, _, hd, by simp [ha]⟩
      · exact ⟨d, _, hd, by simp [ha]⟩
    · rintro ⟨d, ⟨a', c⟩, hc, heq⟩
      by_cases ha : a' = elem
      · simp only [ha, if_true, Prod.mk.injEq, MemoryChunk.mk.injEq] at heq
        refine ⟨c.data, ?_⟩
        rw [← heq.1, ← heq.2.1, ← ha]
        exact hc
      · simp only [ha, if_false, Prod.mk.injEq] at heq
        exact ⟨d, by rw [← heq.1, ← heq.2]; exact hc⟩
  · intro e he
    obtain ⟨e', he', rfl⟩ := List.mem_map.mp he
    have := h.wf.fresh e' he'
    by_cases ha : e'.1 = elem
    · simpa [MemoryTier.setData, ha] using ha ▸ this
    · simpa [MemoryTier.setData, ha] using this
  · intro e he
    obtain ⟨e', he', rfl⟩ := List.mem_map.mp he
    by_cases ha : e'.1 = elem
    · simpa [ha, hid e' he' ha] using hb
    · simpa [ha] using h.good e' he'

theorem Holds.pushFront (h : Holds good m) (hitem : m.memoryItems.lookup id = none) (hb : good id b) :
    Holds good (m.pushFront id b) := by
  refine ⟨⟨?_, ?_, ?_⟩, ?_⟩
  · simp only [MemoryTier.pushFront, List.map_cons, List.nodup_cons]
    refine ⟨?_, h.wf.nodup⟩
    intro hmem
    obtain ⟨e, he, hfst⟩ := List.mem_map.mp hmem
    have := h.wf.fresh e he
    omega
  · intro id' a
    simp only [MemoryTier.pushFront, List.mem_cons, Prod.mk.injEq, MemoryChunk.mk.injEq]
    by_cases hid : id' = id
    · subst hid
      rw [AList.lookup_insert]
      constructor
      · intro ha
        exact ⟨b, Or.inl ⟨(Option.some.inj ha).symm, rfl, rfl⟩⟩
      · rintro ⟨data, ⟨rfl, -, -⟩ | hdata⟩
        · rfl
        · have := (h.wf.items id' a).mpr ⟨data, hdata⟩
          rw [hitem] at this
          cases this
    · rw [AList.lookup_insert_ne hid, h.wf.items]
      simp [hid]
  · intro e he
    simp only [MemoryTier.pushFront, List.mem_cons] at he
    rcases he with rfl | he
    · exact Nat.lt_succ_self _
    · exact Nat.lt_succ_of_lt (h.wf.fresh e he)
  · intro e he
    simp only [MemoryTier.pushFront, List.mem_cons] at he
    rcases he with rfl | he
    · exact hb
    · exact h.good e he

theorem putMemoryLocked_holds (h : Holds good m) (memoryMax : Int64) (hb : good id b) :
    Holds good (putMemoryLocked memoryMax m id b) := by
  unfold putMemoryLocked
  split
  · exact h
  · split
    · rename_i elem hitem
      split
      · exact evictLoop_holds memoryMax _ _ ((h.setData hitem hb).moveToFront elem)
      · exact h
    · rename_i hitem
      exact evictLoop_holds memoryMax _ _ (h.pushFront hitem hb)

end MemoryTier

end OrcaBlocks.Storage
