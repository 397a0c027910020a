/-
# OrcaBlocks.Storage.MemoryLru — the memory tier is a byte-bounded LRU cache.

The specification is ONE list, the ids ever admitted in the order of their last access
(`OrcaBlocks.Lib.Recency`). `Ordered` says that map, list and byte counter describe the same entries
and that the resident ids are a PREFIX of that list; `Lru` adds the bound. An access moves its id to
the front of both lists, an eviction shortens the prefix.

`evictMemoryLocked` has as many turns as the list is long: `evictLoop_add` says that more would
change nothing, so the loop of the source ends.

The byte counter is an unbounded integer: each entry is a copy in memory of its own, so the counter
stays below the size of the address space.
-/
import OrcaBlocks.Lib.Recency
import OrcaBlocks.Storage.CacheOps
import OrcaBlocks.Storage.GoRuntime

namespace OrcaBlocks.Storage

open OrcaBlocks.Lib

namespace MemoryTier

variable {m : MemoryTier} {recency : List String} {id : String} {elem : Nat} {b : Bytes}
  {memoryMax : Int64}

/-- The resident ids, front first. -/
def ids (m : MemoryTier) : List String := m.memoryList.map fun e => e.2.id

/-- What the entries of a list hold together. -/
def totalBytes (l : List (Nat × MemoryChunk)) : Int := (l.map fun e => (e.2.data.length : Int)).sum

/-- Map, list and counter agree, and the resident ids are the most recently used ones. -/
structure Ordered (recency : List String) (m : MemoryTier) : Prop where
  wf : m.WF
  bytes : m.memoryBytes = totalBytes m.memoryList
  recent : m.ids <+: recency
  nodup : recency.Nodup

/-- The tier is an LRU cache of at most `memoryMax` bytes. -/
structure Lru (memoryMax : Int64) (recency : List String) (m : MemoryTier) : Prop
    extends Ordered recency m where
  distinct : m.ids.Nodup
  nonneg : 0 ≤ m.memoryBytes
  bounded : m.memoryBytes ≤ max memoryMax.toInt 0

theorem totalBytes_nonneg (l : List (Nat × MemoryChunk)) : 0 ≤ totalBytes l := by
  apply List.sum_nonneg
  intro x hx
  obtain ⟨e, -, rfl⟩ := List.mem_map.mp hx
  exact Int.natCast_nonneg _

theorem Ordered.lru (h : Ordered recency m) (hle : m.memoryBytes ≤ max memoryMax.toInt 0) :
    Lru memoryMax recency m where
  toOrdered := h
  distinct := h.nodup.sublist h.recent.sublist
  nonneg := h.bytes ▸ totalBytes_nonneg _
  bounded := hle

theorem lru_empty : Lru memoryMax [] empty := by
  have hholds : Holds (fun _ _ => True) empty := holds_empty
  exact Ordered.lru ⟨hholds.wf, rfl, List.nil_prefix, List.nodup_nil⟩ (Int.le_max_right ..)

/-! ## An access -/

/-- The entry of a resident id. -/
theorem WF.entry (h : m.WF) (hitem : m.memoryItems.lookup id = some elem) :
    ∃ data, m.memoryList.lookup elem = some ⟨id, data⟩ ∧ (elem, ⟨id, data⟩) ∈ m.memoryList := by
  obtain ⟨data, hmem⟩ := (h.items id elem).mp hitem
  exact ⟨data, (lookup_eq_some_iff h.nodup).mpr hmem, hmem⟩

/-- The other entries are those with another id. -/
theorem WF.ids_filter (h : m.WF) (hitem : m.memoryItems.lookup id = some elem) :
    (m.memoryList.filter fun e => e.1 ≠ elem).map (fun e => e.2.id) = m.ids.filter (· ≠ id) := by
  rw [ids, List.filter_map]
  congr 1
  apply List.filter_congr
  rintro ⟨a, chunk⟩ he
  have ha : m.memoryItems.lookup chunk.id = some a := (h.items chunk.id a).mpr ⟨chunk.data, he⟩
  obtain ⟨data, -, hmem⟩ := h.entry hitem
  have hiff : a = elem ↔ chunk.id = id := by
    constructor
    · rintro rfl
      have h₁ := (lookup_eq_some_iff h.nodup).mpr he
      have h₂ := (lookup_eq_some_iff h.nodup).mpr hmem
      rw [h₁] at h₂
      rw [Option.some.inj h₂]
    · rintro rfl
      rw [hitem] at ha
      exact (Option.some.inj ha).symm
  simp [hiff]

/-- An entry and the others are the whole list. -/
theorem cons_filter_perm {l : List (Nat × MemoryChunk)} (hnd : (l.map Prod.fst).Nodup)
    {chunk : MemoryChunk} (hmem : (elem, chunk) ∈ l) :
    ((elem, chunk) :: l.filter fun e => e.1 ≠ elem).Perm l := by
  induction l with
  | nil => cases hmem
  | cons e l ih =>
    rw [List.map_cons, List.nodup_cons] at hnd
    rcases List.mem_cons.mp hmem with rfl | hmem
    · have hself : l.filter (fun e => e.1 ≠ elem) = l := by
        rw [List.filter_eq_self]
        intro e he
        have : e.1 ≠ elem := fun heq => hnd.1 (heq ▸ List.mem_map.mpr ⟨e, he, rfl⟩)
        simpa using this
      rw [List.filter_cons_of_neg (by simp), hself]
    · have hne : e.1 ≠ elem := fun heq => hnd.1 (heq ▸ List.mem_map.mpr ⟨_, hmem, rfl⟩)
      rw [List.filter_cons_of_pos (by simpa using hne)]
      exact (List.Perm.swap ..).trans ((ih hnd.2 hmem).cons e)

theorem totalBytes_perm {l l' : List (Nat × MemoryChunk)} (h : l.Perm l') :
    totalBytes l = totalBytes l' := (h.map _).sum_eq

/-- A hit: the entry moves to the front. -/
theorem Ordered.moveToFront (h : Ordered recency m)
    (hitem : m.memoryItems.lookup id = some elem) :
    Ordered (touch id recency) (m.moveToFront elem) := by
  obtain ⟨data, hlook, hmem⟩ := h.wf.entry hitem
  have hlist : (m.moveToFront elem).memoryList =
      (elem, ⟨id, data⟩) :: m.memoryList.filter fun e => e.1 ≠ elem := by
    unfold MemoryTier.moveToFront
    rw [hlook]
  have hbytes : (m.moveToFront elem).memoryBytes = m.memoryBytes := by
    unfold MemoryTier.moveToFront
    rw [hlook]
  have hholds : Holds (fun _ _ => True) m := ⟨h.wf, fun _ _ => trivial⟩
  refine ⟨(hholds.moveToFront elem).wf, ?_, ?_, nodup_touch h.nodup⟩
  · rw [hbytes, hlist, totalBytes_perm (cons_filter_perm h.wf.nodup hmem), h.bytes]
  · rw [ids, hlist, List.map_cons, h.wf.ids_filter hitem]
    exact touch_isPrefix h.recent

/-- A replacement: the entry gets new data and moves to the front. -/
theorem Ordered.replace (h : Ordered recency m) (hitem : m.memoryItems.lookup id = some elem)
    {chunk : MemoryChunk} (hchunk : m.memoryList.lookup elem = some chunk) :
    Ordered (touch id recency) ((m.setData elem chunk b).moveToFront elem) ∧
      ((m.setData elem chunk b).moveToFront elem).memoryList.head? = some (elem, ⟨id, b⟩) := by
  obtain ⟨data, hlook, hmem⟩ := h.wf.entry hitem
  obtain rfl : chunk = ⟨id, data⟩ := Option.some.inj (hchunk.symm.trans hlook)
  have hholds : Holds (fun _ _ => True) m := ⟨h.wf, fun _ _ => trivial⟩
  have hset : Holds (fun _ _ => True) (m.setData elem ⟨id, data⟩ b) := hholds.setData hitem trivial
  -- only the entry itself changes: the others and the order of ids stay
  have hothers : ((m.setData elem ⟨id, data⟩ b).memoryList.filter fun e => e.1 ≠ elem) =
      m.memoryList.filter fun e => e.1 ≠ elem := by
    simp only [MemoryTier.setData, List.filter_map]
    rw [List.filter_congr (q := fun e => e.1 ≠ elem)]
    · conv_rhs => rw [← List.map_id (m.memoryList.filter fun e => e.1 ≠ elem)]
      apply List.map_congr_left
      intro e he
      have hne : e.1 ≠ elem := by simpa using (List.mem_filter.mp he).2
      simp [hne]
    · intro e _
      by_cases he : e.1 = elem
      · simp [he]
      · simp [he]
  have hids : (m.setData elem ⟨id, data⟩ b).ids = m.ids := by
    simp only [ids, MemoryTier.setData, List.map_map]
    apply List.map_congr_left
    intro e _
    by_cases he : e.1 = elem
    · simp [he]
    · simp [he]
  have hmem' : (elem, ⟨id, b⟩) ∈ (m.setData elem ⟨id, data⟩ b).memoryList :=
    List.mem_map.mpr ⟨_, hmem, by simp⟩
  have hbytes : (m.setData elem ⟨id, data⟩ b).memoryBytes =
      totalBytes (m.setData elem ⟨id, data⟩ b).memoryList := by
    rw [← totalBytes_perm (cons_filter_perm hset.wf.nodup hmem'), hothers]
    show m.memoryBytes - _ + _ = _
    rw [h.bytes, ← totalBytes_perm (cons_filter_perm h.wf.nodup hmem)]
    simp only [totalBytes, List.map_cons, List.sum_cons]
    omega
  refine ⟨Ordered.moveToFront ⟨hset.wf, hbytes, hids ▸ h.recent, h.nodup⟩ hitem, ?_⟩
  unfold MemoryTier.moveToFront
  rw [(lookup_eq_some_iff hset.wf.nodup).mpr hmem']
  rfl

/-- An admission: a new entry at the front. -/
theorem Ordered.pushFront (h : Ordered recency m) (hitem : m.memoryItems.lookup id = none) :
    Ordered (touch id recency) (m.pushFront id b) := by
  have hholds : Holds (fun _ _ => True) m := ⟨h.wf, fun _ _ => trivial⟩
  have hnot : id ∉ m.ids := by
    intro hmem
    obtain ⟨⟨a, chunk⟩, he, rfl⟩ := List.mem_map.mp hmem
    have := (h.wf.items chunk.id a).mpr ⟨chunk.data, he⟩
    rw [hitem] at this
    cases this
  refine ⟨(hholds.pushFront hitem (b := b) trivial).wf, ?_, ?_, nodup_touch h.nodup⟩
  · show m.memoryBytes + _ = totalBytes ((m.nextElem, ⟨id, b⟩) :: m.memoryList)
    rw [h.bytes]
    simp only [totalBytes, List.map_cons, List.sum_cons]
    omega
  · show id :: m.ids <+: _
    rw [← touch_of_notMem hnot]
    exact touch_isPrefix h.recent

/-! ## Eviction -/

theorem Ordered.evictBack (h : Ordered recency m) {chunk : MemoryChunk}
    (hlast : m.memoryList.getLast? = some (elem, chunk)) : Ordered recency (m.evictBack chunk) := by
  have hholds : Holds (fun _ _ => True) m := ⟨h.wf, fun _ _ => trivial⟩
  have hsplit : m.memoryList = m.memoryList.dropLast ++ [(elem, chunk)] :=
    (List.dropLast_append_getLast? _ hlast).symm
  refine ⟨(hholds.evictBack hlast).wf, ?_, ?_, h.nodup⟩
  · show m.memoryBytes - _ = totalBytes m.memoryList.dropLast
    rw [h.bytes]
    conv_lhs => rw [hsplit]
    simp [totalBytes]
  · refine List.IsPrefix.trans ?_ h.recent
    show m.memoryList.dropLast.map _ <+: m.memoryList.map _
    exact (List.dropLast_prefix _).map _

private theorem evictLoop_ordered : ∀ (fuel : Nat) (m : MemoryTier), Ordered recency m →
    Ordered recency (evictLoop memoryMax fuel m) := by
  intro fuel
  induction fuel with
  | zero => exact fun m h => h
  | succ fuel ih =>
    intro m h
    unfold evictLoop
    split
    · split
      · exact h
      · rename_i elem chunk hlast
        exact ih _ (h.evictBack hlast)
    · exact h

/-- With a turn for each element the loop runs until the entries fit or none is left. -/
private theorem evictLoop_fits : ∀ (fuel : Nat) (m : MemoryTier), m.memoryList.length ≤ fuel →
    (evictLoop memoryMax fuel m).memoryBytes ≤ memoryMax.toInt ∨
      (evictLoop memoryMax fuel m).memoryList = [] := by
  intro fuel
  induction fuel with
  | zero => exact fun m h => Or.inr (List.length_eq_zero_iff.mp (Nat.le_zero.mp h))
  | succ fuel ih =>
    intro m h
    unfold evictLoop
    split
    · split
      · rename_i hnone
        exact Or.inr (List.getLast?_eq_none_iff.mp hnone)
      · exact ih _ (by simp only [MemoryTier.evictBack, List.length_dropLast]; omega)
    · rename_i hle
      exact Or.inl (by omega)

/-- **The loop ends**: turns beyond the number of elements change nothing. -/
theorem evictLoop_add : ∀ (fuel : Nat) (m : MemoryTier) (more : Nat), m.memoryList.length ≤ fuel →
    evictLoop memoryMax (fuel + more) m = evictLoop memoryMax fuel m := by
  intro fuel
  induction fuel with
  | zero =>
    intro m more h
    have hnil : m.memoryList = [] := List.length_eq_zero_iff.mp (Nat.le_zero.mp h)
    cases more with
    | zero => rfl
    | succ more => simp [evictLoop, hnil]
  | succ fuel ih =>
    intro m more h
    rw [Nat.add_right_comm, evictLoop, evictLoop]
    split
    · split
      · rfl
      · exact ih _ more (by simp only [MemoryTier.evictBack, List.length_dropLast]; omega)
    · rfl

/-- An entry at the front that fits alone is never evicted: when it is the last one left, the loop
stops. -/
private theorem evictLoop_front {e : Nat × MemoryChunk}
    (hfits : (e.2.data.length : Int) ≤ memoryMax.toInt) : ∀ (fuel : Nat) (m : MemoryTier),
      m.memoryBytes = totalBytes m.memoryList → m.memoryList.head? = some e →
      (evictLoop memoryMax fuel m).memoryList.head? = some e := by
  intro fuel
  induction fuel with
  | zero => exact fun m _ h => h
  | succ fuel ih =>
    intro m hbytes hhead
    unfold evictLoop
    split
    · rename_i hover
      split
      · exact hhead
      · rename_i elem chunk hlast
        obtain ⟨rest, hlist⟩ : ∃ rest, m.memoryList = e :: rest := List.head?_eq_some_iff.mp hhead
        cases rest with
        | nil =>
          rw [hbytes, hlist] at hover
          simp [totalBytes] at hover
          omega
        | cons e' rest =>
          have hsplit : m.memoryList = m.memoryList.dropLast ++ [(elem, chunk)] :=
            (List.dropLast_append_getLast? _ hlast).symm
          refine ih _ ?_ ?_
          · show m.memoryBytes - _ = totalBytes m.memoryList.dropLast
            rw [hbytes]
            conv_lhs => rw [hsplit]
            simp [totalBytes]
          · show m.memoryList.dropLast.head? = some e
            rw [hlist]
            rfl
    · exact hhead

theorem Ordered.evict (h : Ordered recency m) : Lru memoryMax recency (evictMemoryLocked memoryMax m) := by
  have hend : Ordered recency (evictMemoryLocked memoryMax m) := evictLoop_ordered _ m h
  have hfits : (evictMemoryLocked memoryMax m).memoryBytes ≤ memoryMax.toInt ∨
      (evictMemoryLocked memoryMax m).memoryList = [] := evictLoop_fits _ m (Nat.le_refl _)
  refine hend.lru ?_
  rcases hfits with hle | hnil
  · exact Int.le_trans hle (Int.le_max_left ..)
  · rw [hend.bytes, hnil]
    exact Int.le_max_right ..

/-! ## The sections under the lock -/

/-- The id a section accesses, if it does. -/
def accessed (m : MemoryTier) : Op → Option String
  | .getMemory id => if (m.getMemory id).1.isSome then some id else none
  | .getMemoryRange id offset length =>
    if (m.getMemoryRange id offset length).1.isSome then some id else none
  | .putMemory memoryMax id b =>
    if 0 < memoryMax.toInt ∧ (b.length : Int) ≤ memoryMax.toInt then some id else none
  | _ => none

/-- The order of last access after an operation. -/
def recencyAfter (m : MemoryTier) (recency : List String) (o : Op) : List String :=
  match m.accessed o with
  | some id => touch id recency
  | none => recency

theorem Lru.hit (h : Lru memoryMax recency m) (hitem : m.memoryItems.lookup id = some elem) :
    Lru memoryMax (touch id recency) (m.moveToFront elem) := by
  refine (h.toOrdered.moveToFront hitem).lru ?_
  have hbytes : (m.moveToFront elem).memoryBytes = m.memoryBytes := by
    unfold MemoryTier.moveToFront
    split
    · rfl
    · rfl
  rw [hbytes]
  exact h.bounded

theorem Lru.getMemory (h : Lru memoryMax recency m) (id : String) :
    Lru memoryMax (m.recencyAfter recency (.getMemory id)) (m.getMemory id).2 := by
  cases hitem : m.memoryItems.lookup id with
  | none => simpa [recencyAfter, accessed, MemoryTier.getMemory, hitem] using h
  | some elem =>
    obtain ⟨data, hlook, -⟩ := h.wf.entry hitem
    simpa [recencyAfter, accessed, MemoryTier.getMemory, hitem, hlook] using h.hit hitem

theorem Lru.getMemoryRange (h : Lru memoryMax recency m) (id : String) (offset length : Int64) :
    Lru memoryMax (m.recencyAfter recency (.getMemoryRange id offset length))
      (m.getMemoryRange id offset length).2 := by
  cases hitem : m.memoryItems.lookup id with
  | none => simpa [recencyAfter, accessed, MemoryTier.getMemoryRange, hitem] using h
  | some elem =>
    obtain ⟨data, hlook, -⟩ := h.wf.entry hitem
    simpa [recencyAfter, accessed, MemoryTier.getMemoryRange, hitem, hlook] using h.hit hitem

/-- The data a resident id has. -/
def resident (m : MemoryTier) (id : String) : Option Bytes :=
  ((m.memoryItems.lookup id).bind fun elem => m.memoryList.lookup elem).map MemoryChunk.data

theorem Lru.resident_of_head (h : Lru memoryMax recency m)
    (hhead : m.memoryList.head? = some (elem, ⟨id, b⟩)) : m.resident id = some b := by
  have hmem : (elem, ⟨id, b⟩) ∈ m.memoryList := List.mem_of_head? hhead
  have hitem := (h.wf.items id elem).mpr ⟨b, hmem⟩
  simp [resident, hitem, (lookup_eq_some_iff h.wf.nodup).mpr hmem]

/-- `putMemoryLocked` keeps the order, and what fits is resident after it. -/
theorem Lru.putMemoryLocked (h : Lru memoryMax recency m) (id : String) (b : Bytes) :
    Lru memoryMax (m.recencyAfter recency (.putMemory memoryMax id b))
        (putMemoryLocked memoryMax m id b) ∧
      (0 < memoryMax.toInt → (b.length : Int) ≤ memoryMax.toInt →
        (putMemoryLocked memoryMax m id b).resident id = some b) := by
  unfold MemoryTier.putMemoryLocked
  by_cases hfits : 0 < memoryMax.toInt ∧ (b.length : Int) ≤ memoryMax.toInt
  · rw [if_neg (by omega)]
    have hrec : m.recencyAfter recency (.putMemory memoryMax id b) = touch id recency := by
      simp [recencyAfter, accessed, hfits]
    rw [hrec]
    cases hitem : m.memoryItems.lookup id with
    | none =>
      have hpush := h.toOrdered.pushFront hitem (b := b)
      have hlru : Lru memoryMax _ (evictMemoryLocked memoryMax (m.pushFront id b)) := hpush.evict
      exact ⟨hlru, fun _ _ => hlru.resident_of_head
        (evictLoop_front (e := (m.nextElem, ⟨id, b⟩)) hfits.2 _ _ hpush.bytes rfl)⟩
    | some elem =>
      obtain ⟨data, hlook, -⟩ := h.wf.entry hitem
      dsimp only
      rw [hlook]
      obtain ⟨hreplaced, hhead⟩ := h.toOrdered.replace hitem hlook (b := b)
      have hlru : Lru memoryMax _ (evictMemoryLocked memoryMax
          ((m.setData elem ⟨id, data⟩ b).moveToFront elem)) := hreplaced.evict
      exact ⟨hlru, fun _ _ => hlru.resident_of_head
        (evictLoop_front (e := (elem, ⟨id, b⟩)) hfits.2 _ _ hreplaced.bytes hhead)⟩
  · rw [if_pos (by omega)]
    have hrec : m.recencyAfter recency (.putMemory memoryMax id b) = recency := by
      simp [recencyAfter, accessed, hfits]
    rw [hrec]
    exact ⟨h, fun h₁ h₂ => absurd ⟨h₁, h₂⟩ hfits⟩

end MemoryTier

/-! ## Every sequence of calls, under any faults -/

/-- The world, and beside it the ids ever admitted to the memory tier of one node, the one accessed
last first. -/
structure Watched where
  world : World
  recency : List String

section Run

variable (P : Platform) (allowed : Fault → World → Op → Prop) (who : Caller) (c : LocalCache)

/-- The storage engine's machine with the order of last access written down. No operation reads
it. -/
def watchMachine : Machine sig Watched Fault where
  exec f s o :=
    let done := exec P who f s.world o
    (done.1, ⟨done.2, (s.world.caches who.node).memory.recencyAfter s.recency o⟩)
  allowed f s o := allowed f s.world o

/-- The memory tier the caller's node has. -/
def Watched.tier (s : Watched) : MemoryTier := (s.world.caches who.node).memory

/-- A new cache in any world: nothing is in memory yet. -/
def watchNew (w : World) : Watched := ⟨w.setMemory who.node .empty, []⟩

variable {P allowed who c} {s : Watched}

private theorem tier_on {α : Type} (f : Fault) {w : World} {d : Except Err α × World}
    (h : (d.2.caches who.node).memory = (w.caches who.node).memory) :
    ((f.on w d).2.caches who.node).memory = (w.caches who.node).memory := by
  cases f with
  | none => exact h
  | late => exact h
  | _ => rfl

private theorem tier_execCacheFile {α : Type} {w : World} {path : Path}
    {act : CacheFile → Except Err α × World}
    (h : ∀ file, ((act file).2.caches who.node).memory = (w.caches who.node).memory) :
    ((execCacheFile who w path act).2.caches who.node).memory = (w.caches who.node).memory := by
  unfold execCacheFile
  split
  · exact h _
  · rfl

@[simp] private theorem tier_setFiles (w : World) (files : AList fun _ : Path => CacheFile) :
    ((w.setFiles who.node files).caches who.node).memory = (w.caches who.node).memory := by
  simp [World.setFiles, World.setCache]

private theorem tier_putTemp (P : Platform) (who : Caller) (w : World) (path : Path) (b : Bytes) :
    (World.caches (match (w.caches who.node).files.lookup path with
      | some _ => (w.setFiles who.node ((w.caches who.node).files.insert path ⟨b, P.now w.ticks⟩)).tick
      | none => w) who.node).memory = (w.caches who.node).memory := by
  split
  · exact tier_setFiles w _
  · rfl

/-- An operation on files leaves the memory tier alone. -/
theorem tier_exec_onFiles (P : Platform) (who : Caller) (f : Fault) (w : World) {o : Op} (ho : o.OnFiles = true) :
    ((exec P who f w o).2.caches who.node).memory = (w.caches who.node).memory := by
  cases o with
  | countEvicted => simp [exec, World.setCache]
  | cacheReadFile path => exact tier_on f (tier_execCacheFile fun _ => rfl)
  | cacheReadFileAt path offset length => exact tier_on f (tier_execCacheFile fun _ => rfl)
  | createTemp dir => exact tier_on f (tier_setFiles w _)
  | writeTemp path b =>
    cases f with
    | wrote n => exact tier_putTemp P who w path _
    | none => exact tier_putTemp P who w path _
    | late => exact tier_putTemp P who w path _
    | _ => rfl
  | closeTemp path => exact tier_on f rfl
  | chmod path => exact tier_on f (tier_execCacheFile fun _ => rfl)
  | rename src dst =>
    refine tier_on f (tier_execCacheFile fun file => ?_)
    split
    · exact tier_setFiles w _
    · rfl
  | chtimes path => exact tier_on f (tier_execCacheFile fun _ => tier_setFiles w _)
  | removePath path => exact tier_on f (tier_execCacheFile fun _ => tier_setFiles w _)
  | readDir dir => exact tier_on f rfl
  | _ => cases ho

/-- What a cache performs: operations on files, and sections on the memory tier with its own
bound. -/
def LocalCache.Performs (c : LocalCache) (o : Op) : Prop :=
  o.OnFiles = true ∨ (∃ id, o = .getMemory id) ∨ (∃ id offset length, o = .getMemoryRange id offset length) ∨
    ∃ id b, o = .putMemory c.memoryMax id b

theorem performs_serve (call : CacheCall) : Uses c.Performs (c.serve P call) := by
  have hfiles : ∀ o : Op, o.OnFiles = true → c.Performs o := fun o ho => Or.inl ho
  cases call with
  | put id b =>
    exact (uses_put P c hfiles (Or.inr (Or.inr (Or.inr ⟨id, b, rfl⟩)))).bind fun _ => uses_pure _
  | get id =>
    exact uses_get c hfiles (Or.inr (Or.inl ⟨id, rfl⟩))
      fun b => Or.inr (Or.inr (Or.inr ⟨id, b, rfl⟩))
  | getRange id offset length =>
    exact uses_getRange c hfiles (Or.inr (Or.inr (Or.inl ⟨id, offset, length, rfl⟩)))

/-- One step: every operation of a cache keeps its memory tier an LRU cache. -/
theorem lru_step {o : Op} (ho : c.Performs o) (f : Fault)
    (hs : MemoryTier.Lru c.memoryMax s.recency (s.tier who)) :
    MemoryTier.Lru c.memoryMax ((watchMachine P allowed who).exec f s o).2.recency
      (((watchMachine P allowed who).exec f s o).2.tier who) := by
  rcases ho with ho | ⟨id, rfl⟩ | ⟨id, offset, length, rfl⟩ | ⟨id, b, rfl⟩
  · have hnone : (s.tier who).accessed o = none := by
      cases o with
      | getMemory id => cases ho
      | getMemoryRange id offset length => cases ho
      | putMemory memoryMax id b => cases ho
      | _ => rfl
    have htier := tier_exec_onFiles P who f s.world ho
    simpa [watchMachine, Watched.tier, htier, MemoryTier.recencyAfter,
      show ((s.world.caches who.node).memory).accessed o = none from hnone] using hs
  · simpa [watchMachine, Watched.tier, exec, World.setMemory, World.setCache] using hs.getMemory id
  · simpa [watchMachine, Watched.tier, exec, World.setMemory, World.setCache] using
      hs.getMemoryRange id offset length
  · simpa [watchMachine, Watched.tier, exec, World.setMemory, World.setCache] using
      (hs.putMemoryLocked id b).1

/-- A part of a cache function, from a tier that is an LRU cache. -/
private theorem lru_wp {α : Type} {x : M α} (hx : Uses c.Performs x)
    (hs : MemoryTier.Lru c.memoryMax s.recency (s.tier who)) :
    (watchMachine P allowed who).wp x.run
      (fun _ s' => MemoryTier.Lru c.memoryMax s'.recency (s'.tier who)) s :=
  wp_of_only (I := fun s : Watched => MemoryTier.Lru c.memoryMax s.recency (s.tier who)) hx hs
    fun _ f _ ho hs _ => lru_step ho f hs

/-- A `Put` that returns success has made what fits resident. -/
theorem put_resident {id : String} {b : Bytes} (hmax : 0 < c.memoryMax.toInt)
    (hfits : (b.length : Int) ≤ c.memoryMax.toInt)
    (hs : MemoryTier.Lru c.memoryMax s.recency (s.tier who)) :
    (watchMachine P allowed who).wp (c.put P id b).run
      (fun r s' => r = .ok () → (s'.tier who).resident id = some b) s := by
  have hfiles : ∀ o : Op, o.OnFiles = true → c.Performs o := fun o ho => Or.inl ho
  -- before the section the tier is some LRU cache
  have hseq : ∀ {α : Type} {x : M α} {f : α → M Unit} {s : Watched}, Uses c.Performs x →
      MemoryTier.Lru c.memoryMax s.recency (s.tier who) →
      (∀ a s', MemoryTier.Lru c.memoryMax s'.recency (s'.tier who) →
        (watchMachine P allowed who).wp (f a).run
          (fun r s' => r = .ok () → (s'.tier who).resident id = some b) s') →
      (watchMachine P allowed who).wp (x >>= f).run
        (fun r s' => r = .ok () → (s'.tier who).resident id = some b) s := by
    intro α x f s hx hs hf
    refine wp_run_seq (lru_wp hx hs) ?_
    rintro (e | a) s' hs'
    · exact fun h => by cases h
    · exact hf a s' hs'
  refine hseq (uses_outside (only_perform (hfiles _ rfl))) hs fun tmpPath s hs => ?_
  refine hseq (uses_attempt (only_perform (hfiles _ rfl))) hs fun written s hs => ?_
  cases written with
  | error err =>
    refine hseq (uses_attempt (only_perform (hfiles _ rfl))) hs fun _ s hs => ?_
    refine hseq (uses_discard hfiles _) hs fun _ s hs => ?_
    exact fun h => by cases h
  | ok u =>
    refine hseq (uses_orDiscard hfiles _ (only_perform (hfiles _ rfl))) hs fun _ s hs => ?_
    refine hseq (uses_orDiscard hfiles _ (only_perform (hfiles _ rfl))) hs fun _ s hs => ?_
    refine hseq (uses_orDiscard hfiles _ (only_perform (hfiles _ rfl))) hs fun _ s hs => ?_
    refine hseq (uses_touch (hfiles _ rfl)) hs fun _ s hs => ?_
    rw [wp_run_bind]
    unfold access
    rw [wp_run_lift]
    intro f _
    -- after it only files are worked on
    have hput : ((((watchMachine P allowed who).exec f s (.putMemory c.memoryMax id b)).2).tier
        who).resident id = some b := by
      simpa [watchMachine, Watched.tier, exec, World.setMemory, World.setCache] using
        (hs.putMemoryLocked id b).2 hmax hfits
    show (watchMachine P allowed who).wp (c.evictLocked P).run _
      ((watchMachine P allowed who).exec f s (.putMemory c.memoryMax id b)).2
    have hevict : Uses (fun o : Op => o.OnFiles = true) (c.evictLocked P) :=
      uses_evictLocked P c rfl (fun _ => rfl) rfl
    refine wp_mono (wp_of_only
      (I := fun s : Watched => (s.tier who).resident id = some b) hevict hput ?_) ?_
    · intro o f s ho hs _
      have htier := tier_exec_onFiles P who f s.world ho
      simpa [watchMachine, Watched.tier, htier] using hs
    · exact fun _ _ h _ => h

/-- **The memory tier is a byte-bounded LRU cache.** -/
theorem memory_tier_is_lru (w : World) {calls : List CacheCall} {answers : List (Except Err (Option Bytes))}
    {s : Watched}
    (hrun : (watchMachine P allowed who).RunsAll (calls.map fun call => (c.serve P call).run)
      (watchNew who w) answers s) :
    MemoryTier.Lru c.memoryMax s.recency (s.tier who) ∧
      (∀ id b tr s', (watchMachine P allowed who).Runs (c.put P id b).run s tr (.ok ()) s' →
        0 < c.memoryMax.toInt → (b.length : Int) ≤ c.memoryMax.toInt →
          (s'.tier who).resident id = some b) ∧
      ∀ (m : MemoryTier) (more : Nat),
        MemoryTier.evictLoop c.memoryMax (m.memoryList.length + more) m =
          MemoryTier.evictMemoryLocked c.memoryMax m := by
  have hlru : MemoryTier.Lru c.memoryMax s.recency (s.tier who) := by
    refine hrun.invariant (I := fun s : Watched => MemoryTier.Lru c.memoryMax s.recency (s.tier who)) ?_ ?_
    · intro t ht s hs
      obtain ⟨call, -, rfl⟩ := List.mem_map.mp ht
      exact lru_wp (performs_serve call) hs
    · simpa [watchNew, Watched.tier, World.setMemory, World.setCache] using MemoryTier.lru_empty
  refine ⟨hlru, ?_, fun m more => MemoryTier.evictLoop_add _ m more (Nat.le_refl _)⟩
  intro id b tr s' hput hmax hfits
  exact hput.wp (put_resident hmax hfits hlru) rfl

end Run

/-- Three entries of two bytes in a cache of four: the one read before the third was put stays, the
other goes. -/
theorem memory_tier_is_lru_threeEntries :
    let c := newLocalCacheWithMemory ["cache"] 0 4
    let calls : List CacheCall := [.put "a" [1, 2], .put "b" [3, 4], .get "a", .put "c" [5, 6]]
    let s := ((watchMachine goRuntime faultFree ⟨0, 0⟩).runAll (fun _ => .none)
      (calls.map fun call => (c.serve goRuntime call).run) (watchNew ⟨0, 0⟩ World.initial)).2
    (s.tier ⟨0, 0⟩).ids = ["c", "a"] ∧ s.recency = ["c", "a", "b"] ∧
      MemoryTier.Lru 4 s.recency (s.tier ⟨0, 0⟩) := by
  intro c calls s
  have hrun := runsAll_runAll (M := watchMachine goRuntime faultFree ⟨0, 0⟩)
    (fun _ => .none) (fun _ _ => rfl) (calls.map fun call => (c.serve goRuntime call).run)
    (watchNew ⟨0, 0⟩ World.initial)
  exact ⟨by decide +kernel, by decide +kernel, (memory_tier_is_lru World.initial hrun).1⟩

end OrcaBlocks.Storage
