/-
# OrcaBlocks.Storage.Wire — manifests survive the trip through `map[string]string`.

`parseInt_formatInt`: the decimal printer and parser of `strconv` are inverse on every `int64`, so
the printed keys are distinct and `ManifestFromWire` finds each index again
(`manifestFromWire_of_lookup_eq`). The statement asks only that the wire map has the same entries as
`ManifestToWire m`, in any order: that is what is left of a map after `encoding/json`.
-/
import OrcaBlocks.Storage.Types

namespace OrcaBlocks.Storage

/-! ## The decimal numerals of `strconv` -/

private theorem splitSign_toDigits (n : Nat) :
    splitSign (Nat.toDigits 10 n) = (false, Nat.toDigits 10 n) := by
  cases hd : Nat.toDigits 10 n with
  | nil => exact absurd hd Nat.toDigits_ne_nil
  | cons c cs =>
    have hdigit : c.isDigit = true :=
      Nat.isDigit_of_mem_toDigits (b := 10) (n := n) (by decide) (by decide) (by simp [hd])
    unfold splitSign
    split
    · rename_i h; cases h; simp at hdigit
    · rename_i h; cases h; simp at hdigit
    · rfl

private theorem digits_valid (n : Nat) :
    ¬ (Nat.toDigits 10 n = [] ∨ ¬ (Nat.toDigits 10 n).all Char.isDigit = true) := by
  rintro (h | h)
  · exact Nat.toDigits_ne_nil h
  · apply h
    rw [List.all_eq_true]
    intro c hc
    exact Nat.isDigit_of_mem_toDigits (by decide) (by decide) hc

/-- `strconv.ParseInt` inverts `strconv.FormatInt`. -/
theorem parseInt_formatInt (i : Int64) : parseInt (formatInt i) = .ok i := by
  have hlo := i.le_toInt
  have hhi := i.toInt_lt
  unfold formatInt
  split
  · rename_i hneg
    have hlist : ("-" ++ (-i.toInt).toNat.repr).toList =
        '-' :: Nat.toDigits 10 (-i.toInt).toNat := by
      simp [String.toList_append, Nat.toList_repr]
    unfold parseInt
    simp only [hlist, splitSign]
    rw [if_neg (digits_valid _), Nat.ofDigitChars_ten_toDigits, if_pos trivial, if_pos (by omega),
      show (-((-i.toInt).toNat : Int)) = i.toInt by omega, Int64.ofInt_toInt]
  · rename_i hneg
    have hlist : (i.toInt.toNat.repr).toList = Nat.toDigits 10 i.toInt.toNat := Nat.toList_repr
    unfold parseInt
    simp only [hlist, splitSign_toDigits]
    rw [if_neg (digits_valid _), Nat.ofDigitChars_ten_toDigits, if_neg (by simp),
      if_pos (by omega), show ((i.toInt.toNat : Nat) : Int) = i.toInt by omega, Int64.ofInt_toInt]

theorem formatInt_injective : Function.Injective formatInt := by
  intro i j h
  have hp : parseInt (formatInt i) = parseInt (formatInt j) := by rw [h]
  rw [parseInt_formatInt, parseInt_formatInt] at hp
  exact Except.ok.inj hp

/-! ## Encoding and decoding a manifest -/

/-- Inserting entries with distinct keys, renamed injectively: each key is found again. -/
theorem lookup_foldl_insert {α β γ : Type} [DecidableEq α] [DecidableEq β] {g : α → β}
    (hg : Function.Injective g) (a : α) :
    ∀ (l : List (Sigma fun _ : α => γ)) (acc : AList fun _ : β => γ), l.NodupKeys →
      (l.foldl (fun out e => out.insert (g e.1) e.2) acc).lookup (g a) =
        (l.dlookup a).or (acc.lookup (g a)) := by
  intro l
  induction l with
  | nil => intro acc _; simp
  | cons e l ih =>
    intro acc hnd
    obtain ⟨j, v⟩ := e
    obtain ⟨hj, hnd⟩ := List.nodupKeys_cons.mp hnd
    rw [List.foldl_cons, ih _ hnd]
    by_cases haj : a = j
    · subst haj
      have hnone : l.dlookup a = none := List.dlookup_eq_none.mpr hj
      simp [hnone]
    · rw [List.dlookup_cons_ne _ _ haj, AList.lookup_insert_ne (hg.ne haj)]

theorem lookup_manifestToWire (m : Manifest) (i : Int64) :
    (manifestToWire m).lookup (formatInt i) = m.lookup i := by
  unfold manifestToWire
  rw [lookup_foldl_insert formatInt_injective i m.entries ∅ m.nodupKeys]
  simp [AList.lookup]

/-- Every key of an encoded manifest is the printed form of one of its indexes. -/
theorem exists_index_of_mem_manifestToWire {m : Manifest} {k : String}
    (h : k ∈ manifestToWire m) : ∃ i, k = formatInt i := by
  unfold manifestToWire at h
  suffices ∀ (l : List (Sigma fun _ : Int64 => String)) (acc : Wire),
      (∀ k ∈ acc, ∃ i, k = formatInt i) →
      ∀ k ∈ l.foldl (fun out e => out.insert (formatInt e.1) e.2) acc, ∃ i, k = formatInt i from
    this m.entries ∅ (by simp) k h
  intro l
  induction l with
  | nil => intro acc hacc k hk; exact hacc k hk
  | cons e l ih =>
    intro acc hacc k hk
    refine ih _ ?_ k hk
    intro k' hk'
    rcases (AList.mem_insert _).mp hk' with rfl | hk'
    · exact ⟨e.1, rfl⟩
    · exact hacc k' hk'

/-- The decoder over entries whose keys are distinct printed indexes. -/
private theorem manifestFromWireLoop_ok :
    ∀ (l : List (Sigma fun _ : String => String)) (acc : Manifest), l.NodupKeys →
      (∀ e ∈ l, ∃ i, e.1 = formatInt i) →
      ∃ m', manifestFromWireLoop l acc = .ok m' ∧
        ∀ i, m'.lookup i = (l.dlookup (formatInt i)).or (acc.lookup i) := by
  intro l
  induction l with
  | nil => intro acc _ _; exact ⟨acc, rfl, by simp⟩
  | cons e l ih =>
    intro acc hnd hkeys
    obtain ⟨k, v⟩ := e
    obtain ⟨hk, hrest⟩ := List.nodupKeys_cons.mp hnd
    obtain ⟨j, hj⟩ := hkeys ⟨k, v⟩ (by simp)
    simp only at hj
    subst hj
    obtain ⟨m', hm', hlook⟩ := ih (acc.insert j v) hrest
      fun e he => hkeys e (List.mem_cons_of_mem _ he)
    refine ⟨m', by simp only [manifestFromWireLoop, parseInt_formatInt, hm'], ?_⟩
    intro i
    rw [hlook]
    by_cases hij : i = j
    · subst hij
      have hnone : l.dlookup (formatInt i) = none := List.dlookup_eq_none.mpr hk
      simp [hnone]
    · have hne : formatInt i ≠ formatInt j := fun h => hij (formatInt_injective h)
      rw [List.dlookup_cons_ne _ _ hne, AList.lookup_insert_ne hij]

/-- **Round trip.** A wire map with the entries of `ManifestToWire m` decodes, to a manifest with
the entries of `m`. -/
theorem manifestFromWire_of_lookup_eq {m : Manifest} {w : Wire}
    (hw : ∀ k, w.lookup k = (manifestToWire m).lookup k) :
    ∃ m', manifestFromWire w = .ok m' ∧ ∀ i, m'.lookup i = m.lookup i := by
  have hkeys : ∀ e ∈ w.entries, ∃ i, e.1 = formatInt i := by
    intro e he
    apply exists_index_of_mem_manifestToWire (m := m)
    rw [← AList.lookup_isSome, ← hw, AList.lookup_isSome, AList.mem_keys]
    exact List.mem_keys_of_mem he
  obtain ⟨m', hm', hlook⟩ := manifestFromWireLoop_ok w.entries ∅ w.nodupKeys hkeys
  refine ⟨m', hm', ?_⟩
  intro i
  have hi : w.entries.dlookup (formatInt i) = m.lookup i := by
    rw [← lookup_manifestToWire m i, ← hw]; rfl
  rw [hlook, hi]
  simp

end OrcaBlocks.Storage
