/-
# OrcaBlocks.Storage.DiskEviction — what `Put` removes from the cache directory.

`EvictsRight` is what eviction is for: afterwards the directory fits, what went are the OLDEST files,
none went that could have stayed, and the chunk just put is there if it fits at all. It speaks about
some order of the files and about unbounded sizes.

The code adds the sizes up in an `int64`. Files need not occupy what they measure (a sparse file of
`2^62` bytes is one command), so the sum can pass the integer limit, and then the loop stops early or
at once: it is right EXACTLY when the sizes add up to less than `2^63` (`evicts_right_iff`).

The order of the file times over whole runs (`Newest`) and the files below the directory
(`kept_serveAll`) do not depend on what is evicted.
-/
import OrcaBlocks.Storage.FileTree
import OrcaBlocks.Lib.Recency
import OrcaBlocks.Storage.GoRuntime

namespace OrcaBlocks.Storage

open OrcaBlocks.Lib

/-! ## The loop -/

/-- What a list of files measures. -/
def sizeSum (items : List EvictItem) : Nat := (items.map EvictItem.size).sum

@[simp] theorem sizeSum_nil : sizeSum [] = 0 := rfl

@[simp] theorem sizeSum_cons (it : EvictItem) (items : List EvictItem) :
    sizeSum (it :: items) = it.size + sizeSum items := by
  simp [sizeSum]

theorem sizeSum_perm {items items' : List EvictItem} (h : items.Perm items') :
    sizeSum items = sizeSum items' := (h.map _).sum_eq

theorem itemsTotal_eq (items : List EvictItem) : itemsTotal items = Int64.ofNat (sizeSum items) := by
  have hacc : ∀ (items : List EvictItem) (n : Nat),
      items.foldl (fun total it => total + Int64.ofNat it.size) (Int64.ofNat n) =
        Int64.ofNat (n + sizeSum items) := by
    intro items
    induction items with
    | nil => exact fun n => rfl
    | cons it items ih =>
      intro n
      rw [List.foldl_cons, ← Int64.ofNat_add, ih, sizeSum_cons, Nat.add_assoc]
  have := hacc items 0
  rwa [Nat.zero_add] at this

/-- What the total becomes when a file is removed. -/
private theorem ofNat_sub_size (a b : Nat) : Int64.ofNat (a + b) - Int64.ofNat a = Int64.ofNat b := by
  rw [Int64.ofNat_add, Int64.add_comm, Int64.add_sub_cancel]

/-- Below the integer limit the loop stops at the first moment the rest fits. -/
theorem evictedItems_of_fits {maxSize : Int64} (hmax : 0 ≤ maxSize.toInt) :
    ∀ items : List EvictItem, sizeSum items < 2 ^ 63 →
      ∃ k, k ≤ items.length ∧
        evictedItems maxSize items (Int64.ofNat (sizeSum items)) = items.take k ∧
        (∀ j < k, maxSize.toInt < sizeSum (items.drop j)) ∧
        (sizeSum (items.drop k) : Int) ≤ maxSize.toInt := by
  intro items
  induction items with
  | nil => exact fun _ => ⟨0, Nat.le_refl 0, rfl, by omega, hmax⟩
  | cons it items ih =>
    intro hfits
    rw [sizeSum_cons] at hfits
    obtain ⟨k, hk, hevicted, hneeded, hrest⟩ := ih (by omega)
    have htotal : (Int64.ofNat (sizeSum (it :: items))).toInt = sizeSum (it :: items) :=
      toInt_ofNat (by rw [sizeSum_cons]; omega)
    unfold evictedItems
    split
    · rename_i hle
      have := Int64.le_iff_toInt_le.mp hle
      exact ⟨0, Nat.zero_le _, rfl, by omega, by rw [List.drop_zero]; omega⟩
    · rename_i hgt
      have hover := mt Int64.le_iff_toInt_le.mpr hgt
      refine ⟨k + 1, Nat.succ_le_succ hk, ?_, ?_, hrest⟩
      · rw [sizeSum_cons, ofNat_sub_size, hevicted, List.take_succ_cons]
      · intro j hj
        cases j with
        | zero => rw [List.drop_zero]; omega
        | succ j => exact hneeded j (by omega)

/-- From the integer limit on the loop stops too early. A file is smaller than the stretch of sums
that wrap to a negative total, so removing files one by one cannot pass over it. -/
theorem evictedItems_of_wraps {maxSize : Int64} (hmax : 0 ≤ maxSize.toInt) :
    ∀ items : List EvictItem, (∀ it ∈ items, it.size < 2 ^ 63) → 2 ^ 63 ≤ sizeSum items →
      ∃ k, evictedItems maxSize items (Int64.ofNat (sizeSum items)) = items.take k ∧
        2 ^ 63 ≤ sizeSum (items.drop k) := by
  intro items
  induction items with
  | nil => exact fun _ h => absurd h (by simp)
  | cons it items ih =>
    intro hsizes hwraps
    unfold evictedItems
    split
    · exact ⟨0, rfl, hwraps⟩
    · rename_i hgt
      have hsize := hsizes it (List.mem_cons_self ..)
      rw [sizeSum_cons] at hwraps hgt ⊢
      by_cases hrest : 2 ^ 63 ≤ sizeSum items
      · obtain ⟨k, hevicted, hleft⟩ := ih (fun i hi => hsizes i (List.mem_cons_of_mem _ hi)) hrest
        exact ⟨k + 1, by rw [ofNat_sub_size, hevicted, List.take_succ_cons], hleft⟩
      · -- the sum itself wraps to a negative total, which is small enough for the loop
        exfalso
        have hneg : (Int64.ofNat (it.size + sizeSum items)).toInt < 0 := by
          rw [Int64.ofNat_add]
          refine toInt_add_neg_of_overflow ?_ ?_ ?_
          · rw [toInt_ofNat hsize]; omega
          · rw [toInt_ofNat (by omega)]; omega
          · rw [toInt_ofNat hsize, toInt_ofNat (by omega)]; omega
        exact hgt (Int64.le_iff_toInt_le.mpr (by omega))

/-! ## The directory -/

section Directory

variable {files : AList fun _ : Path => CacheFile} {dir path : Path} {it : EvictItem}

/-- The path is an entry of the directory. -/
def InDir (dir path : Path) : Prop := path.dropLast = dir ∧ path ≠ []

/-- The total size of the files in a directory. -/
def dirSize (files : AList fun _ : Path => CacheFile) (dir : Path) : Nat :=
  sizeSum (dirItems files dir)

theorem mem_dirItems : it ∈ dirItems files dir ↔
    ∃ file, files.lookup it.path = some file ∧ InDir dir it.path ∧
      it.size = file.data.length ∧ it.modTime = file.modTime := by
  unfold dirItems
  rw [List.mem_map]
  constructor
  · rintro ⟨⟨p, file⟩, he, rfl⟩
    obtain ⟨hmem, hplace⟩ := List.mem_filter.mp he
    have hplace' : InDir dir p := by simpa [InDir] using hplace
    exact ⟨file, AList.mem_lookup_iff.mpr hmem, hplace', rfl, rfl⟩
  · rintro ⟨file, hfile, ⟨hdir, hne⟩, hsize, htime⟩
    refine ⟨⟨it.path, file⟩, List.mem_filter.mpr ⟨AList.mem_lookup_iff.mp hfile, by simp [hdir, hne]⟩, ?_⟩
    cases it
    simp_all

/-- A directory has one file under each path. -/
theorem nodup_dirItems : ((dirItems files dir).map EvictItem.path).Nodup := by
  unfold dirItems
  rw [List.map_map]
  have hsub : ((files.entries.filter fun e => e.1.dropLast = dir ∧ e.1 ≠ []).map Sigma.fst).Sublist
      files.keys := List.filter_sublist.map _
  exact hsub.nodup files.nodupKeys

/-- Removing the first `k` files of an ordered directory leaves the others. -/
theorem dirSize_removeItems {order : List EvictItem} (horder : order.Perm (dirItems files dir))
    (k : Nat) : dirSize (Disk.removeItems (order.take k) files) dir = sizeSum (order.drop k) := by
  have hnodup : (order.map EvictItem.path).Nodup := (horder.map _).nodup_iff.mpr nodup_dirItems
  have hsplit : ((order.take k).map EvictItem.path ++ (order.drop k).map EvictItem.path).Nodup := by
    rw [← List.map_append, List.take_append_drop]
    exact hnodup
  apply sizeSum_perm
  rw [List.perm_ext_iff_of_nodup (List.Nodup.of_map _ nodup_dirItems)
    (List.Nodup.of_map _ (List.nodup_append.mp hsplit).2.1)]
  intro it
  have hmem : it ∈ order ↔ it ∈ dirItems files dir := horder.mem_iff
  rw [mem_dirItems] at hmem ⊢
  simp only [Disk.lookup_removeItems_eq_some]
  constructor
  · rintro ⟨file, ⟨hnot, hfile⟩, hrest⟩
    have hin : it ∈ order.take k ++ order.drop k := by
      rw [List.take_append_drop]
      exact hmem.mpr ⟨file, hfile, hrest⟩
    rcases List.mem_append.mp hin with hin | hin
    · exact absurd (List.mem_map.mpr ⟨it, hin, rfl⟩) hnot
    · exact hin
  · intro hin
    obtain ⟨file, hfile, hrest⟩ := hmem.mp (List.mem_of_mem_drop hin)
    refine ⟨file, ⟨fun hpath => ?_, hfile⟩, hrest⟩
    exact (List.nodup_append.mp hsplit).2.2 _ hpath _ (List.mem_map.mpr ⟨it, hin, rfl⟩) rfl

end Directory

/-! ## What eviction is for -/

/-- The files of the directory were stamped at different times, all of them past. -/
structure Stamped (P : Platform) (dir : Path) (d : Disk) : Prop where
  past : ∀ path file, d.files.lookup path = some file → InDir dir path →
    file.modTime < P.now d.ticks
  distinct : ∀ path path' file file', d.files.lookup path = some file →
    d.files.lookup path' = some file' → InDir dir path → InDir dir path' →
    file.modTime = file'.modTime → path = path'

/-- From the files `placed`, in which the chunk just put is at `path`, to `files`: the directory fits,
a prefix of its files in the order of their times is gone, no shorter prefix would have been enough,
and the chunk is there if it fits alone. -/
structure EvictsRight (c : LocalCache) (path : Path) (size : Nat)
    (placed files : AList fun _ : Path => CacheFile) : Prop where
  bounded : (dirSize files c.dir : Int) ≤ c.maxSize.toInt
  oldest : ∃ order : List EvictItem, ∃ k, order.Perm (dirItems placed c.dir) ∧
    order.Pairwise (fun a b => a.modTime < b.modTime) ∧ k ≤ order.length ∧
    (∀ p, files.lookup p =
      if p ∈ (order.take k).map EvictItem.path then none else placed.lookup p) ∧
    ∀ j < k, c.maxSize.toInt < sizeSum (order.drop j)
  survives : (size : Int) ≤ c.maxSize.toInt → files.lookup path = placed.lookup path

section Evict

variable {P : Platform} {c : LocalCache} {d : Disk} {id : String} {b : Bytes}

/-- The new chunk is the youngest file of the directory, and the others kept their times. -/
theorem Stamped.placed (hclock : ∀ m n, m < n → P.now m < P.now n) (h : Stamped P c.dir d)
    (id : String) (b : Bytes) :
    (∀ path file, (d.placed P c id b).lookup path = some file → InDir c.dir path →
      path ≠ c.path id → file.modTime < P.now (d.ticks + 2)) ∧
    ∀ path path' file file', (d.placed P c id b).lookup path = some file →
      (d.placed P c id b).lookup path' = some file' → InDir c.dir path →
      InDir c.dir path' → file.modTime = file'.modTime → path = path' := by
  have hother : ∀ path file, (d.placed P c id b).lookup path = some file → InDir c.dir path →
      path ≠ c.path id → d.files.lookup path = some file ∧ file.modTime < P.now (d.ticks + 2) := by
    intro path file hfile hdir hne
    rw [Disk.placed, AList.lookup_insert_ne hne] at hfile
    exact ⟨hfile, Int.lt_trans (h.past path file hfile hdir) (hclock _ _ (by omega))⟩
  have hnew : ∀ file, (d.placed P c id b).lookup (c.path id) = some file →
      file.modTime = P.now (d.ticks + 2) := by
    intro file hfile
    rw [Disk.placed, AList.lookup_insert] at hfile
    cases hfile
    rfl
  refine ⟨fun path file hfile hdir hne => (hother path file hfile hdir hne).2, ?_⟩
  intro path path' file file' hfile hfile' hdir hdir' htime
  by_cases hp : path = c.path id
  · by_cases hp' : path' = c.path id
    · rw [hp, hp']
    · have h₁ := hnew file (hp ▸ hfile)
      have h₂ := (hother path' file' hfile' hdir' hp').2
      omega
  · by_cases hp' : path' = c.path id
    · have h₁ := hnew file' (hp' ▸ hfile')
      have h₂ := (hother path file hfile hdir hp).2
      omega
    · exact h.distinct path path' file file' (hother path file hfile hdir hp).1
        (hother path' file' hfile' hdir' hp').1 hdir hdir' htime

/-- The files in the order the code removes them: strictly by their times. -/
private theorem sorted_strictly {files : AList fun _ : Path => CacheFile} {dir : Path}
    (hdistinct : ∀ path path' file file', files.lookup path = some file →
      files.lookup path' = some file' → InDir dir path → InDir dir path' →
      file.modTime = file'.modTime → path = path') :
    (P.sortItems (dirItems files dir)).Pairwise fun a b => a.modTime < b.modTime := by
  have hperm := P.sortItems_perm (dirItems files dir)
  have hnodup : ((P.sortItems (dirItems files dir)).map EvictItem.path).Nodup :=
    (hperm.map _).nodup_iff.mpr nodup_dirItems
  have hne : (P.sortItems (dirItems files dir)).Pairwise fun a b => a.path ≠ b.path :=
    List.pairwise_map.mp hnodup
  refine ((P.sortItems_sorted _).and hne).imp_of_mem ?_
  rintro a b ha hb ⟨hle, hpath⟩
  obtain ⟨file, hfile, hdir, -, htime⟩ := mem_dirItems.mp (hperm.mem_iff.mp ha)
  obtain ⟨file', hfile', hdir', -, htime'⟩ := mem_dirItems.mp (hperm.mem_iff.mp hb)
  refine lt_of_le_of_ne hle fun heq => hpath ?_
  exact hdistinct a.path b.path file file' hfile hfile' hdir hdir' (by rw [← htime, ← htime', heq])

/-- The chunk just put is the last one in line, and it alone fits. -/
private theorem placed_survives {order : List EvictItem} {k : Nat}
    (horder : order.Perm (dirItems (d.placed P c id b) c.dir))
    (hsorted : order.Pairwise fun a b => a.modTime < b.modTime)
    (hyoungest : ∀ path file, (d.placed P c id b).lookup path = some file → InDir c.dir path →
      path ≠ c.path id → file.modTime < P.now (d.ticks + 2))
    (hneeded : ∀ j < k, c.maxSize.toInt < sizeSum (order.drop j))
    (hfits : (b.length : Int) ≤ c.maxSize.toInt) :
    c.path id ∉ (order.take k).map EvictItem.path := by
  intro hgone
  obtain ⟨it, hit, hpath⟩ := List.mem_map.mp hgone
  obtain ⟨n, hn, hget⟩ := List.mem_take_iff_getElem.mp hit
  have hnlen : n < order.length := by omega
  obtain ⟨file, hfile, -, hsize, htime⟩ :=
    mem_dirItems.mp (horder.mem_iff.mp (List.mem_of_mem_take hit))
  rw [hpath, Disk.placed, AList.lookup_insert] at hfile
  obtain rfl := Option.some.inj hfile
  -- nothing comes after the youngest file
  have hlast : order.drop n = [it] := by
    rw [List.drop_eq_getElem_cons hnlen, hget]
    congr 1
    cases hrest : order.drop (n + 1) with
    | nil => rfl
    | cons it' rest =>
      exfalso
      have hmem' : it' ∈ order := List.mem_of_mem_drop (hrest ▸ List.mem_cons_self ..)
      have hlater : it.modTime < it'.modTime := by
        have hpair := hsorted.drop (i := n)
        rw [List.drop_eq_getElem_cons hnlen, hget, List.pairwise_cons] at hpair
        exact hpair.1 it' (hrest ▸ List.mem_cons_self ..)
      obtain ⟨file', hfile', hdir', -, htime'⟩ := mem_dirItems.mp (horder.mem_iff.mp hmem')
      by_cases hsame : it'.path = c.path id
      · rw [hsame, Disk.placed, AList.lookup_insert] at hfile'
        obtain rfl := Option.some.inj hfile'
        omega
      · have := hyoungest it'.path file' hfile' hdir' hsame
        simp only at htime
        omega
  have hmore := hneeded n (by omega)
  rw [hlast] at hmore
  simp only [sizeSum_cons, sizeSum_nil, hsize] at hmore
  omega

/-- **Eviction is right exactly if the sizes do not pass the integer limit.** -/
theorem evicts_right_iff (hclock : ∀ m n, m < n → P.now m < P.now n) (hmax : 0 ≤ c.maxSize.toInt)
    (hstamped : Stamped P c.dir d)
    (hsizes : ∀ path file, (d.placed P c id b).lookup path = some file → file.data.length < 2 ^ 63) :
    EvictsRight c (c.path id) b.length (d.placed P c id b)
        (Disk.removeItems (Disk.evicted P c (d.placed P c id b)) (d.placed P c id b)) ↔
      dirSize (d.placed P c id b) c.dir < 2 ^ 63 := by
  obtain ⟨hyoungest, hdistinct⟩ := hstamped.placed hclock id b
  have hperm := P.sortItems_perm (dirItems (d.placed P c id b) c.dir)
  have hsum : sizeSum (P.sortItems (dirItems (d.placed P c id b) c.dir)) =
      dirSize (d.placed P c id b) c.dir := sizeSum_perm hperm
  unfold Disk.evicted
  rw [itemsTotal_eq, ← sizeSum_perm hperm, ← hsum]
  generalize hordered : P.sortItems (dirItems (d.placed P c id b) c.dir) = order at hperm
  have hsorted : order.Pairwise fun a b => a.modTime < b.modTime := hordered ▸ sorted_strictly hdistinct
  constructor
  · intro hright
    by_contra hno
    obtain ⟨k, hevicted, hleft⟩ := evictedItems_of_wraps hmax order (fun it hit => by
      obtain ⟨file, hfile, -, hsize, -⟩ := mem_dirItems.mp (hperm.mem_iff.mp hit)
      rw [hsize]
      exact hsizes it.path file hfile) (by omega)
    have hbounded := hright.bounded
    rw [hevicted, dirSize_removeItems hperm] at hbounded
    have := c.maxSize.toInt_lt
    omega
  · intro hfits
    obtain ⟨k, hk, hevicted, hneeded, hrest⟩ := evictedItems_of_fits hmax order hfits
    rw [hevicted]
    refine ⟨?_, ⟨order, k, hperm, hsorted, hk, ?_, hneeded⟩, ?_⟩
    · rw [dirSize_removeItems hperm]
      exact hrest
    · exact fun p => Disk.lookup_removeItems _ _ p
    · intro hsize
      rw [Disk.lookup_removeItems, if_neg (placed_survives hperm hsorted hyoungest hneeded hsize)]

end Evict

/-! ## What a read does to the files -/

section Reads

variable (P : Platform) (t : FileTree) (c : LocalCache) (d : Disk) (id : String)

/-- `Get` is answered from memory, or not at all, or it stamps its file. -/
theorem get_cases :
    (∃ memory, (d.get P t c id).2 = { d with memory := memory } ∧
      ∀ b, (d.get P t c id).1 = .ok (some b) → (d.memory.getMemory id).1 = some b) ∨
    ((d.memory.getMemory id).1 = none ∧ ∃ b memory,
      d.get P t c id = (.ok (some b), { d.touch P (c.path id) with memory := memory })) := by
  unfold Disk.get
  generalize d.memory.getMemory id = looked
  obtain ⟨_ | b, memory⟩ := looked
  · dsimp only
    split
    · exact Or.inl ⟨memory, rfl, fun _ h => by cases h⟩
    · exact Or.inl ⟨memory, rfl, fun _ h => by cases h⟩
    · exact Or.inr ⟨rfl, _, _, rfl⟩
  · exact Or.inl ⟨memory, rfl, fun b' h => by cases h; rfl⟩

theorem getRange_cases (offset length : Int64) :
    (∃ memory, (d.getRange P t c id offset length).2 = { d with memory := memory } ∧
      ∀ b, (d.getRange P t c id offset length).1 = .ok (some b) →
        (d.memory.getMemoryRange id offset length).1 = some b) ∨
    ((d.memory.getMemoryRange id offset length).1 = none ∧ ∃ b memory,
      d.getRange P t c id offset length =
        (.ok (some b), { d.touch P (c.path id) with memory := memory })) := by
  unfold Disk.getRange
  generalize d.memory.getMemoryRange id offset length = looked
  obtain ⟨_ | b, memory⟩ := looked
  · dsimp only
    split
    · exact Or.inl ⟨memory, rfl, fun _ h => by cases h⟩
    · exact Or.inl ⟨memory, rfl, fun _ h => by cases h⟩
    · exact Or.inr ⟨rfl, _, _, rfl⟩
  · exact Or.inl ⟨memory, rfl, fun b' h => by cases h; rfl⟩

end Reads

/-! ## The order of last use -/

section Order

variable (P : Platform) (t : FileTree) (c : LocalCache)

/-- The files of a directory, newest first. -/
def byTime (dir : Path) (d : Disk) : List Path :=
  ((P.sortItems (dirItems d.files dir)).map EvictItem.path).reverse

/-- The order of last use after one call: a successful `Put` uses its file, and so does a `Get` or
`GetRange` that is answered, but not from memory. -/
def usesAfter (d : Disk) (recency : List Path) : CacheCall → List Path
  | .put id b =>
    match (d.put P t c id b).1 with
    | .ok () => touch (c.path id) recency
    | .error _ => recency
  | .get id =>
    match (d.memory.getMemory id).1, (d.get P t c id).1 with
    | none, .ok (some _) => touch (c.path id) recency
    | _, _ => recency
  | .getRange id offset length =>
    match (d.memory.getMemoryRange id offset length).1, (d.getRange P t c id offset length).1 with
    | none, .ok (some _) => touch (c.path id) recency
    | _, _ => recency

/-- The order of last use after a sequence of calls. -/
def usesAll : List CacheCall → Disk → List Path → List Path
  | [], _, recency => recency
  | call :: calls, d, recency =>
    usesAll calls (d.serve P t c call).2 (usesAfter P t c d recency call)

/-- The list names every file of the directory, and the file times fall along it. -/
structure Newest (dir : Path) (d : Disk) (recency : List Path) : Prop where
  covers : ∀ path file, d.files.lookup path = some file → InDir dir path → path ∈ recency
  ordered : recency.Pairwise fun p q => ∀ file file', d.files.lookup p = some file →
    d.files.lookup q = some file' → file'.modTime < file.modTime
  past : ∀ path ∈ recency, ∀ file, d.files.lookup path = some file → file.modTime < P.now d.ticks

variable {P t c} {dir : Path} {d d' : Disk} {recency : List Path}

theorem Stamped.newest (h : Stamped P dir d) : Newest P dir d (byTime P dir d) := by
  have hperm := P.sortItems_perm (dirItems d.files dir)
  have hitem : ∀ path ∈ byTime P dir d, InDir dir path := by
    intro path hpath
    obtain ⟨it, hit, rfl⟩ := List.mem_map.mp (List.mem_reverse.mp hpath)
    obtain ⟨-, -, hdir, -⟩ := mem_dirItems.mp (hperm.mem_iff.mp hit)
    exact hdir
  refine ⟨?_, ?_, fun path hpath file hfile => h.past path file hfile (hitem path hpath)⟩
  · intro path file hfile hdir
    have hit : (⟨path, file.data.length, file.modTime⟩ : EvictItem) ∈ dirItems d.files dir :=
      mem_dirItems.mpr ⟨file, hfile, hdir, rfl, rfl⟩
    exact List.mem_reverse.mpr (List.mem_map.mpr ⟨_, hperm.mem_iff.mpr hit, rfl⟩)
  · rw [byTime, List.pairwise_reverse, List.pairwise_map]
    refine (sorted_strictly h.distinct).imp_of_mem ?_
    intro a b ha hb hlt file file' hfile hfile'
    obtain ⟨fb, hfb, -, -, hb'⟩ := mem_dirItems.mp (hperm.mem_iff.mp hb)
    obtain ⟨fa, hfa, -, -, ha'⟩ := mem_dirItems.mp (hperm.mem_iff.mp ha)
    rw [hfb] at hfile
    rw [hfa] at hfile'
    cases hfile
    cases hfile'
    omega

theorem Newest.stamped (h : Newest P dir d recency) : Stamped P dir d := by
  refine ⟨fun path file hfile hdir => h.past path (h.covers path file hfile hdir) file hfile, ?_⟩
  intro path path' file file' hfile hfile' hdir hdir' htime
  by_contra hne
  -- two different members of the list have different times, whichever comes first
  have hboth : recency.Pairwise fun p q => ∀ fp fq, d.files.lookup p = some fp →
      d.files.lookup q = some fq → fp.modTime ≠ fq.modTime :=
    h.ordered.imp fun hpq fp fq hfp hfq => (hpq fp fq hfp hfq).ne'
  have : Std.Symm fun p q => ∀ fp fq, d.files.lookup p = some fp →
      d.files.lookup q = some fq → fp.modTime ≠ fq.modTime :=
    ⟨fun p q hpq fq fp hfq hfp heq => hpq fp fq hfp hfq heq.symm⟩
  exact hboth.forall (h.covers path file hfile hdir) (h.covers path' file' hfile' hdir') hne
    file file' hfile hfile' htime

/-- Files may go, and time may pass. -/
theorem Newest.fewer (hclock : ∀ m n, m < n → P.now m < P.now n) (h : Newest P dir d recency)
    (hfiles : ∀ path file, d'.files.lookup path = some file → d.files.lookup path = some file)
    (hticks : d.ticks ≤ d'.ticks) : Newest P dir d' recency := by
  refine ⟨fun path file hfile hdir => h.covers path file (hfiles path file hfile) hdir, ?_, ?_⟩
  · exact h.ordered.imp fun hpq file file' hfile hfile' =>
      hpq file file' (hfiles _ _ hfile) (hfiles _ _ hfile')
  · intro path hpath file hfile
    have hlt := h.past path hpath file (hfiles path file hfile)
    rcases Nat.lt_or_eq_of_le hticks with hlater | hsame
    · exact Int.lt_trans hlt (hclock _ _ hlater)
    · rwa [← hsame]

/-- A file stamped with a new time is the first in the list. -/
theorem Newest.stamp (hclock : ∀ m n, m < n → P.now m < P.now n) (h : Newest P dir d recency)
    (path : Path) (data : Bytes) (memory : MemoryTier) {n : Nat} (hn : d.ticks ≤ n) :
    Newest P dir ⟨d.files.insert path ⟨data, P.now n⟩, memory, n + 1⟩ (touch path recency) := by
  have hpast : ∀ p ∈ recency, ∀ file, d.files.lookup p = some file → file.modTime < P.now n := by
    intro p hp file hfile
    have hlt := h.past p hp file hfile
    rcases Nat.lt_or_eq_of_le hn with hlater | hsame
    · exact Int.lt_trans hlt (hclock _ _ hlater)
    · rwa [← hsame]
  have hother : ∀ p file, p ≠ path → (d.files.insert path ⟨data, P.now n⟩).lookup p = some file →
      d.files.lookup p = some file := by
    intro p file hne hfile
    rwa [AList.lookup_insert_ne hne] at hfile
  have hnew : ∀ file, (d.files.insert path ⟨data, P.now n⟩).lookup path = some file →
      file.modTime = P.now n := by
    intro file hfile
    rw [AList.lookup_insert] at hfile
    cases hfile
    rfl
  refine ⟨?_, ?_, ?_⟩
  · intro p file hfile hdir
    rw [mem_touch]
    by_cases hp : p = path
    · exact Or.inl hp
    · exact Or.inr (h.covers p file (hother p file hp hfile) hdir)
  · rw [touch, List.pairwise_cons]
    refine ⟨?_, ?_⟩
    · intro q hq file file' hfile hfile'
      obtain ⟨hmem, hne⟩ := List.mem_filter.mp hq
      rw [hnew file hfile]
      exact hpast q hmem file' (hother q file' (by simpa using hne) hfile')
    · refine (h.ordered.filter _).imp_of_mem ?_
      intro p q hp hq hpq file file' hfile hfile'
      have hp' : p ≠ path := by simpa using (List.mem_filter.mp hp).2
      have hq' : q ≠ path := by simpa using (List.mem_filter.mp hq).2
      exact hpq file file' (hother p file hp' hfile) (hother q file' hq' hfile')
  · intro p hp file hfile
    have hnow := hclock n (n + 1) (Nat.lt_succ_self n)
    by_cases hsame : p = path
    · rw [hnew file (hsame ▸ hfile)]
      exact hnow
    · have hmem := (mem_touch.mp hp).resolve_left hsame
      exact Int.lt_trans (hpast p hmem file (hother p file hsame hfile)) hnow

theorem Newest.touched (hclock : ∀ m n, m < n → P.now m < P.now n) (h : Newest P dir d recency)
    (path : Path) (memory : MemoryTier) :
    Newest P dir { d.touch P path with memory := memory } (touch path recency) := by
  unfold Disk.touch
  split
  · exact h.stamp hclock path _ memory (Nat.le_refl _)
  · -- there is no such file, so nothing is stamped
    rename_i hnone
    have hplace : ∀ p file, d.files.lookup p = some file → p ≠ path := by
      rintro p file hfile rfl
      rw [hnone] at hfile
      cases hfile
    refine ⟨fun p file hfile hdir => mem_touch.mpr (Or.inr (h.covers p file hfile hdir)), ?_, ?_⟩
    · rw [touch, List.pairwise_cons]
      exact ⟨fun q _ file file' hfile => absurd rfl (hplace path file hfile), h.ordered.filter _⟩
    · intro p hp file hfile
      exact h.past p ((mem_touch.mp hp).resolve_left (hplace p file hfile)) file hfile

/-- One call keeps the file times in the order of last use. -/
theorem Newest.serve (hclock : ∀ m n, m < n → P.now m < P.now n) (h : Newest P c.dir d recency)
    (call : CacheCall) :
    Newest P c.dir (d.serve P t c call).2 (usesAfter P t c d recency call) := by
  cases call with
  | put id b =>
    dsimp only [Disk.serve, usesAfter]
    unfold Disk.put
    by_cases hdir : t.isDir c.dir = true
    · by_cases htakes : t.takes (c.path id) = true
      · rw [if_pos hdir, if_pos htakes]
        have hplaced := h.stamp hclock (c.path id) b d.memory (Nat.le_add_right d.ticks 2)
        refine hplaced.fewer hclock ?_ (Nat.le_refl _)
        intro path file hfile
        exact (Disk.lookup_removeItems_eq_some.mp hfile).2
      · rw [if_pos hdir, if_neg htakes]
        exact h.fewer hclock (fun _ _ hfile => hfile) (Nat.le_add_right ..)
    · rw [if_neg hdir]
      exact h
  | get id =>
    dsimp only [Disk.serve, usesAfter]
    rcases get_cases P t c d id with ⟨memory, hget, hmemory⟩ | ⟨hmiss, b, memory, hget⟩
    · rw [hget]
      split
      · rename_i b hmiss hanswer
        exact absurd (hmemory b hanswer) (by simp [hmiss])
      · exact h.fewer hclock (fun _ _ hfile => hfile) (Nat.le_refl _)
    · rw [hget, hmiss]
      exact h.touched hclock (c.path id) memory
  | getRange id offset length =>
    dsimp only [Disk.serve, usesAfter]
    rcases getRange_cases P t c d id offset length with
      ⟨memory, hget, hmemory⟩ | ⟨hmiss, b, memory, hget⟩
    · rw [hget]
      split
      · rename_i b hmiss hanswer
        exact absurd (hmemory b hanswer) (by simp [hmiss])
      · exact h.fewer hclock (fun _ _ hfile => hfile) (Nat.le_refl _)
    · rw [hget, hmiss]
      exact h.touched hclock (c.path id) memory

theorem Newest.serveAll (hclock : ∀ m n, m < n → P.now m < P.now n) (calls : List CacheCall)
    (h : Newest P c.dir d recency) :
    Newest P c.dir (Disk.serveAll P t c calls d).2 (usesAll P t c calls d recency) := by
  induction calls generalizing d recency with
  | nil => exact h
  | cons call calls ih => exact ih (h.serve hclock call)

/-! ## Files below the directory -/

theorem mem_of_mem_evictedItems {maxSize total : Int64} {items : List EvictItem} {it : EvictItem}
    (h : it ∈ evictedItems maxSize items total) : it ∈ items := by
  induction items generalizing total with
  | nil => cases h
  | cons first rest ih =>
    unfold evictedItems at h
    split at h
    · cases h
    · rcases List.mem_cons.mp h with rfl | h
      · exact List.mem_cons_self ..
      · exact List.mem_cons_of_mem _ (ih h)

/-- `Put` evicts only entries of the directory itself. -/
theorem inDir_of_evicted {files : AList fun _ : Path => CacheFile} {it : EvictItem}
    (h : it ∈ Disk.evicted P c files) : InDir c.dir it.path := by
  obtain ⟨-, -, hdir, -⟩ :=
    mem_dirItems.mp ((P.sortItems_perm _).mem_iff.mp (mem_of_mem_evictedItems h))
  exact hdir

private theorem kept_touch (path path' : Path) (h : (d.files.lookup path').isSome) :
    ((d.touch P path).files.lookup path').isSome := by
  unfold Disk.touch
  split
  · by_cases hp : path' = path
    · rw [hp, AList.lookup_insert]
      rfl
    · rw [AList.lookup_insert_ne hp]
      exact h
  · exact h

/-- A file that is not an entry of the cache directory stays. -/
theorem kept_serve {path : Path} (hdir : ¬ InDir c.dir path) (call : CacheCall)
    (h : (d.files.lookup path).isSome) : ((d.serve P t c call).2.files.lookup path).isSome := by
  cases call with
  | put id b =>
    dsimp only [Disk.serve]
    unfold Disk.put
    by_cases hroot : t.isDir c.dir = true
    · by_cases htakes : t.takes (c.path id) = true
      · rw [if_pos hroot, if_pos htakes]
        dsimp only
        rw [Disk.lookup_removeItems, if_neg]
        · by_cases hp : path = c.path id
          · rw [Disk.placed, hp, AList.lookup_insert]
            rfl
          · rw [Disk.placed, AList.lookup_insert_ne hp]
            exact h
        · intro hgone
          obtain ⟨it, hit, rfl⟩ := List.mem_map.mp hgone
          exact hdir (inDir_of_evicted hit)
      · rw [if_pos hroot, if_neg htakes]
        exact h
    · rw [if_neg hroot]
      exact h
  | get id =>
    dsimp only [Disk.serve]
    rcases get_cases P t c d id with ⟨memory, hget, -⟩ | ⟨-, b, memory, hget⟩
    · rw [hget]
      exact h
    · rw [hget]
      exact kept_touch (c.path id) path h
  | getRange id offset length =>
    dsimp only [Disk.serve]
    rcases getRange_cases P t c d id offset length with ⟨memory, hget, -⟩ | ⟨-, b, memory, hget⟩
    · rw [hget]
      exact h
    · rw [hget]
      exact kept_touch (c.path id) path h

theorem kept_serveAll {path : Path} (hdir : ¬ InDir c.dir path) (calls : List CacheCall)
    (h : (d.files.lookup path).isSome) :
    ((Disk.serveAll P t c calls d).2.files.lookup path).isSome := by
  induction calls generalizing d with
  | nil => exact h
  | cons call calls ih => exact ih (kept_serve hdir call h)

/-- The overlay directories are below the cache directory, not in it. -/
theorem not_inDir_dirtySessions (dir : Path) {rest : Path} (hrest : rest ≠ []) :
    ¬ InDir dir (dir ++ "dirty-sessions" :: rest) := by
  rintro ⟨hdir, -⟩
  have hlen := congrArg List.length hdir
  have := List.length_pos_of_ne_nil hrest
  simp only [List.length_dropLast, List.length_append, List.length_cons] at hlen
  omega

end Order

/-! ## Every run -/

theorem maxSize_nonneg (dir : Path) (maxSize memoryMax : Int64) :
    0 ≤ (newLocalCacheWithMemory dir maxSize memoryMax).maxSize.toInt := by
  unfold newLocalCacheWithMemory
  dsimp only
  split
  · decide
  · rename_i h
    have := mt Int64.le_iff_toInt_le.mpr h
    rw [Int64.toInt_zero] at this
    omega

/-- A successful `Put` leaves what is left of the placed files. -/
theorem Disk.put_ok {P : Platform} {t : FileTree} {c : LocalCache} {d : Disk} {id : String} {b : Bytes}
    (h : (d.put P t c id b).1 = .ok ()) :
    (d.put P t c id b).2.files =
      Disk.removeItems (Disk.evicted P c (d.placed P c id b)) (d.placed P c id b) := by
  unfold Disk.put at h ⊢
  split at h
  · split at h
    · rename_i hdir htakes
      rw [if_pos hdir, if_pos htakes]
    · cases h
  · cases h

/-- **Disk eviction.** After every run of the cache: the file times are in the order of last use, what
is below the directory is still there, and the next successful `Put` leaves a directory that fits, with
the oldest files and no more of them gone, EXACTLY if the sizes do not pass the integer limit. -/
theorem disk_eviction {P : Platform} {t : FileTree} {who : Caller} {dir : Path}
    {maxSize memoryMax : Int64} {w w' : World} {calls : List CacheCall}
    {answers : List (Except Err (Option Bytes))} (hclock : ∀ m n, m < n → P.now m < P.now n)
    (hstamped : Stamped P dir (w.disk who.node))
    (hrun : (treeMachine P t who).RunsAll
      (calls.map fun call => ((newLocalCacheWithMemory dir maxSize memoryMax).serve P call).run)
      w answers w') :
    let c := newLocalCacheWithMemory dir maxSize memoryMax
    Newest P dir (w'.disk who.node)
        (usesAll P t c calls (w.disk who.node) (byTime P dir (w.disk who.node))) ∧
      (∀ rest ≠ [], ((w.disk who.node).files.lookup (dir ++ "dirty-sessions" :: rest)).isSome →
        ((w'.disk who.node).files.lookup (dir ++ "dirty-sessions" :: rest)).isSome) ∧
      ∀ (id : String) (b : Bytes) (tr : List (Op × Nat)) (w'' : World),
        (treeMachine P t who).Runs (c.put P id b).run w' tr (.ok ()) w'' →
        (∀ path file, (w'.disk who.node).files.lookup path = some file → file.data.length < 2 ^ 63) →
        b.length < 2 ^ 63 →
        (EvictsRight c (c.path id) b.length ((w'.disk who.node).placed P c id b)
            (w''.disk who.node).files ↔
          dirSize ((w'.disk who.node).placed P c id b) dir < 2 ^ 63) := by
  intro c
  have hend : w'.disk who.node = (Disk.serveAll P t c calls (w.disk who.node)).2 :=
    congrArg Prod.snd (cacheServeAll_refines hrun)
  have hnewest : Newest P c.dir (w'.disk who.node)
      (usesAll P t c calls (w.disk who.node) (byTime P dir (w.disk who.node))) := by
    rw [hend]
    exact Newest.serveAll hclock calls hstamped.newest
  refine ⟨hnewest, ?_, ?_⟩
  · intro rest hrest hfile
    rw [hend]
    exact kept_serveAll (not_inDir_dirtySessions dir hrest) calls hfile
  · intro id b tr w'' hput hsizes hb
    obtain ⟨hok, hdisk, -⟩ := hput.wp (put_refines id b)
    rw [hdisk, Disk.put_ok hok.symm]
    refine evicts_right_iff hclock (maxSize_nonneg dir maxSize memoryMax) hnewest.stamped ?_
    intro path file hfile
    by_cases hp : path = c.path id
    · rw [hp, Disk.placed, AList.lookup_insert] at hfile
      cases hfile
      exact hb
    · rw [Disk.placed, AList.lookup_insert_ne hp] at hfile
      exact hsizes path file hfile

/-! ## Two directories -/

/-- Three chunks in a directory for three bytes: the one used last is not the one removed. -/
theorem disk_eviction_threeChunks :
    let c := newLocalCacheWithMemory ["cache"] 3 0
    ∃ w' w'' : World,
      Newest goRuntime ["cache"] (w'.disk 0) [["cache", "a"], ["cache", "b"]] ∧
      EvictsRight c ["cache", "c"] 2 ((w'.disk 0).placed goRuntime c "c" [3, 3]) (w''.disk 0).files ∧
      (w''.disk 0).files.keys = [["cache", "c"], ["cache", "a"]] := by
  intro c
  let calls : List CacheCall := [.put "a" [1], .put "b" [2], .get "a"]
  let M := treeMachine goRuntime cacheOnly ⟨0, 0⟩
  let ts := calls.map fun call => (c.serve goRuntime call).run
  let w' := (M.runAll (fun _ => 0) ts World.initial).2
  let put := (c.put goRuntime "c" [3, 3]).run
  have hrun : M.RunsAll ts World.initial (M.runAll (fun _ => 0) ts World.initial).1 w' :=
    runsAll_of_followsAll (by decide +kernel)
  have hput : M.Runs put w' (M.trace (fun _ => 0) put w') (M.run (fun _ => 0) put w').1
      (M.run (fun _ => 0) put w').2 := runs_run (by decide +kernel)
  have hok : (M.run (fun _ => 0) put w').1 = .ok () := by decide +kernel
  have hstamped : Stamped goRuntime ["cache"] (World.initial.disk 0) :=
    ⟨fun _ _ h => (by cases h), fun _ _ _ _ h => (by cases h)⟩
  have hall := disk_eviction (fun m n h => Int.ofNat_lt.mpr h) hstamped hrun
  have huses : usesAll goRuntime cacheOnly c calls (World.initial.disk 0)
      (byTime goRuntime ["cache"] (World.initial.disk 0)) = [["cache", "a"], ["cache", "b"]] := by
    decide +kernel
  have hsizes : ∀ path file, (w'.disk 0).files.lookup path = some file → file.data.length < 2 ^ 63 := by
    intro path file hfile
    have hmem : (⟨path, file⟩ : Sigma fun _ : Path => CacheFile) ∈ (w'.disk 0).files.entries :=
      AList.mem_lookup_iff.mp hfile
    have hentries : ∀ e ∈ (w'.disk 0).files.entries, e.2.data.length < 2 ^ 63 := by decide +kernel
    exact hentries _ hmem
  rw [hok] at hput
  refine ⟨w', (M.run (fun _ => 0) put w').2, huses ▸ hall.1, ?_, by decide +kernel⟩
  exact (hall.2.2 "c" [3, 3] _ _ hput hsizes (by decide)).mpr (by decide +kernel)

/-- Temporary files can always be made. -/
theorem cacheOnly_choice (P : Platform) (who : Caller) (w : World) (o : Op) :
    ∃ name, (treeMachine P cacheOnly who).allowed name w o := by
  by_cases htemp : ∃ dir, o = .createTemp dir
  · obtain ⟨dir, rfl⟩ := htemp
    have hinj : Function.Injective fun n => dir ++ [tempName n] := fun m n h =>
      tempName_injective (List.singleton_inj.mp (List.append_cancel_left h))
    let keys := (w.caches who.node).files.keys
    -- among one name more than there are files, one is new
    obtain ⟨name, hname⟩ : ∃ n, dir ++ [tempName n] ∉ keys := by
      by_contra hall
      have hsub : (List.range (keys.length + 1)).map (fun n => dir ++ [tempName n]) ⊆ keys := by
        intro path hpath
        obtain ⟨n, -, rfl⟩ := List.mem_map.mp hpath
        exact not_not.mp fun h => hall ⟨n, h⟩
      have hlen := (List.subperm_of_subset (List.nodup_range.map hinj) hsub).length_le
      rw [List.length_map, List.length_range] at hlen
      omega
    refine ⟨name, ?_⟩
    rintro _ ⟨⟩
    refine ⟨?_, AList.lookup_eq_none.mpr hname⟩
    have hdot : tempName name ≠ "cache" := by
      intro h
      have hhead := congrArg (fun s : String => s.toList.head?) h
      simp [tempName] at hhead
    have hroot : dir ++ [tempName name] ≠ ["cache"] := by
      intro h
      have hlast := congrArg List.getLast? h
      simp only [List.getLast?_concat, List.getLast?_singleton, Option.some.injEq] at hlast
      exact hdot hlast
    simp [cacheOnly, hroot]
  · exact ⟨0, fun dir heq => absurd ⟨dir, heq⟩ htemp⟩

/-- The content of a sparse file. -/
def zeros : Bytes := List.replicate (2 ^ 62) 0

theorem length_zeros : zeros.length = 2 ^ 62 := List.length_replicate

/-- Two sparse files in the cache directory. -/
def sparse : World :=
  World.initial.setFiles 0
    (((∅ : AList fun _ : Path => CacheFile).insert ["cache", "a"] ⟨zeros, -2⟩).insert
      ["cache", "b"] ⟨zeros, -1⟩)

private theorem files_sparse : (sparse.disk 0).files =
    ((∅ : AList fun _ : Path => CacheFile).insert ["cache", "a"] ⟨zeros, -2⟩).insert
      ["cache", "b"] ⟨zeros, -1⟩ := by
  simp [sparse]

private theorem dirSize_three (content new : Bytes) (time : Int) :
    dirSize ((((∅ : AList fun _ : Path => CacheFile).insert ["cache", "a"] ⟨content, -2⟩).insert
      ["cache", "b"] ⟨content, -1⟩).insert ["cache", "c"] ⟨new, time⟩) ["cache"] =
      new.length + (content.length + content.length) := rfl

private theorem lookup_sparse {path : Path} {file : CacheFile}
    (h : (sparse.disk 0).files.lookup path = some file) :
    (path = ["cache", "a"] ∧ file = ⟨zeros, -2⟩) ∨ (path = ["cache", "b"] ∧ file = ⟨zeros, -1⟩) := by
  rw [files_sparse] at h
  by_cases hb : path = ["cache", "b"]
  · rw [hb, AList.lookup_insert] at h
    exact Or.inr ⟨hb, (Option.some.inj h).symm⟩
  · rw [AList.lookup_insert_ne hb] at h
    by_cases ha : path = ["cache", "a"]
    · rw [ha, AList.lookup_insert] at h
      exact Or.inl ⟨ha, (Option.some.inj h).symm⟩
    · rw [AList.lookup_insert_ne ha] at h
      cases h

private theorem stamped_sparse : Stamped goRuntime ["cache"] (sparse.disk 0) := by
  refine ⟨?_, ?_⟩
  · intro path file hfile _
    rcases lookup_sparse hfile with ⟨-, rfl⟩ | ⟨-, rfl⟩
    · decide
    · decide
  · intro path path' file file' hfile hfile' _ _ htime
    rcases lookup_sparse hfile with ⟨rfl, rfl⟩ | ⟨rfl, rfl⟩
    · rcases lookup_sparse hfile' with ⟨rfl, rfl⟩ | ⟨rfl, rfl⟩
      · rfl
      · cases htime
    · rcases lookup_sparse hfile' with ⟨rfl, rfl⟩ | ⟨rfl, rfl⟩
      · cases htime
      · rfl

/-- The sizes of the sparse files and the new chunk add up to a negative number, so a cache for one
byte removes nothing. -/
theorem disk_eviction_sparse :
    let c := newLocalCacheWithMemory ["cache"] 1 0
    Stamped goRuntime ["cache"] (sparse.disk 0) ∧
      ∃ tr w', (treeMachine goRuntime cacheOnly ⟨0, 0⟩).Runs (c.put goRuntime "c" [7]).run sparse tr
          (.ok ()) w' ∧
        ¬ EvictsRight c ["cache", "c"] 1 ((sparse.disk 0).placed goRuntime c "c" [7])
          (w'.disk 0).files := by
  intro c
  refine ⟨stamped_sparse, ?_⟩
  obtain ⟨tr, a, w', hrun⟩ := exists_runs (cacheOnly_choice goRuntime ⟨0, 0⟩)
    (c.put goRuntime "c" [7]).run sparse
  obtain ⟨hanswer, hdisk, -⟩ := hrun.wp (put_refines "c" [7])
  have hok : ((sparse.disk 0).put goRuntime cacheOnly c "c" [7]).1 = .ok () := by
    unfold Disk.put
    rw [if_pos (by decide), if_pos (by decide)]
  have hpath : c.path "c" = ["cache", "c"] := by decide
  rw [hok] at hanswer
  subst hanswer
  refine ⟨tr, w', hrun, fun hright => ?_⟩
  rw [hdisk, Disk.put_ok hok, ← hpath] at hright
  have hsum : dirSize ((sparse.disk 0).placed goRuntime c "c" [7]) c.dir =
      ([7] : Bytes).length + (zeros.length + zeros.length) := by
    rw [Disk.placed, files_sparse, hpath]
    exact dirSize_three zeros _ _
  have hclock : ∀ m n, m < n → goRuntime.now m < goRuntime.now n := fun m n h => Int.ofNat_lt.mpr h
  have hsizes : ∀ path file, ((sparse.disk 0).placed goRuntime c "c" [7]).lookup path = some file →
      file.data.length < 2 ^ 63 := by
    intro path file hfile
    by_cases hp : path = c.path "c"
    · rw [hp, Disk.placed, AList.lookup_insert] at hfile
      cases hfile
      exact Nat.one_lt_two_pow (by decide)
    · rw [Disk.placed, AList.lookup_insert_ne hp] at hfile
      have hdata : file.data = zeros := by
        rcases lookup_sparse hfile with ⟨-, rfl⟩ | ⟨-, rfl⟩
        · rfl
        · rfl
      rw [hdata, length_zeros]
      decide
  have hiff := evicts_right_iff hclock (maxSize_nonneg ["cache"] 1 0) stamped_sparse hsizes
  have hsmall := hiff.mp hright
  rw [hsum, length_zeros] at hsmall
  exact absurd hsmall (by decide)

end OrcaBlocks.Storage
