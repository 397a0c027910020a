/-
# OrcaBlocks.Lib.Table — database tables with a primary key, and maps that hold the same rows.

A table is the list of its rows in the order they were inserted; `key` reads the primary key of a row.
`selectRow`, `insertRow` and `updateRows` are the three statements a program makes on a primary key:
`SELECT … WHERE key = k`, `INSERT … ON CONFLICT (key) DO NOTHING RETURNING …` and
`UPDATE … SET … WHERE key = k`.

A map `Holds` a table through a reading `view` of its rows if looking up a key in the map is selecting it
in the table. The lemmas say how the statements act on what can be selected, so that a map and a table
can be compared key by key.
-/
import Mathlib

namespace OrcaBlocks.Lib

section Statements

variable {α κ : Type} [DecidableEq κ] (key : α → κ)

/-- `SELECT … WHERE key = k`. -/
def selectRow (t : List α) (k : κ) : Option α := t.find? fun row => key row = k

/-- `INSERT … ON CONFLICT (key) DO NOTHING RETURNING …`. No row comes back if the key is there. -/
def insertRow (t : List α) (row : α) : Option α × List α :=
  if (selectRow key t (key row)).isSome then (none, t) else (some row, t ++ [row])

/-- `UPDATE … SET … WHERE key = k`, with the number of rows affected. -/
def updateRows (t : List α) (k : κ) (f : α → α) : Nat × List α :=
  (t.countP fun row => key row = k, t.map fun row => if key row = k then f row else row)

variable {key} {t : List α} {k : κ} {row : α}

theorem key_of_selectRow (h : selectRow key t k = some row) : key row = k := by
  simpa using List.find?_some h

theorem mem_of_selectRow (h : selectRow key t k = some row) : row ∈ t := List.mem_of_find?_eq_some h

theorem selectRow_eq_none : selectRow key t k = none ↔ ∀ row ∈ t, key row ≠ k := by
  simp [selectRow]

theorem insertRow_of_some {old : α} (h : selectRow key t (key row) = some old) :
    insertRow key t row = (none, t) := by
  simp [insertRow, h]

theorem insertRow_of_none (h : selectRow key t (key row) = none) :
    insertRow key t row = (some row, t ++ [row]) := by
  simp [insertRow, h]

/-- Appending a row with a new key. -/
theorem selectRow_append (h : selectRow key t (key row) = none) (k : κ) :
    selectRow key (t ++ [row]) k = if k = key row then some row else selectRow key t k := by
  unfold selectRow at h ⊢
  rw [List.find?_append]
  by_cases hk : k = key row
  · subst hk
    rw [h, if_pos rfl]
    simp
  · rw [if_neg hk]
    have hne : key row ≠ k := fun h => hk h.symm
    simp [hne]

/-- An update is seen at its own key only. -/
theorem selectRow_update {f : α → α} (hf : ∀ row, key (f row) = key row) (k k' : κ) :
    selectRow key (updateRows key t k f).2 k' =
      if k' = k then (selectRow key t k).map f else selectRow key t k' := by
  have hkey : ∀ row, key (if key row = k then f row else row) = key row := by
    intro row
    split
    · exact hf row
    · rfl
  show (t.map _).find? _ = _
  rw [List.find?_map]
  simp only [Function.comp_def, hkey]
  by_cases hk : k' = k
  · subst hk
    rw [if_pos rfl]
    cases hfind : t.find? (fun row => decide (key row = k')) with
    | none => simp [selectRow, hfind]
    | some row =>
      have hrow : key row = k' := by simpa using List.find?_some hfind
      simp [selectRow, hfind, hrow]
  · rw [if_neg hk]
    cases hfind : t.find? (fun row => decide (key row = k')) with
    | none => simp [selectRow, hfind]
    | some row =>
      have hrow : key row = k' := by simpa using List.find?_some hfind
      simp [selectRow, hfind, hrow, hk]

theorem updateRows_affected {f : α → α} :
    (updateRows key t k f).1 = 0 ↔ selectRow key t k = none := by
  rw [selectRow_eq_none]
  simp [updateRows, List.countP_eq_zero]

/-- An update of a key that is not there changes nothing. -/
theorem updateRows_of_none {f : α → α} (h : selectRow key t k = none) :
    updateRows key t k f = (0, t) := by
  have hne := selectRow_eq_none.mp h
  have hmap : (t.map fun row => if key row = k then f row else row) = t := by
    conv_rhs => rw [← List.map_id t]
    apply List.map_congr_left
    intro row hrow
    rw [if_neg (hne row hrow), id_eq]
  rw [updateRows, hmap, Prod.mk.injEq]
  exact ⟨(updateRows_affected (f := f)).mpr h, rfl⟩

/-- With distinct keys, a row is there exactly if its key selects it. -/
theorem mem_iff_selectRow (hkeys : (t.map key).Nodup) :
    row ∈ t ↔ selectRow key t (key row) = some row := by
  refine ⟨fun hmem => ?_, mem_of_selectRow⟩
  cases hsel : selectRow key t (key row) with
  | none => exact absurd rfl (selectRow_eq_none.mp hsel row hmem)
  | some other =>
    have hkey := key_of_selectRow hsel
    exact congrArg some (List.inj_on_of_nodup_map hkeys (mem_of_selectRow hsel) hmem hkey)

theorem nodup_append (hkeys : (t.map key).Nodup) (h : selectRow key t (key row) = none) :
    ((t ++ [row]).map key).Nodup := by
  rw [List.map_append, List.map_singleton, List.nodup_append]
  refine ⟨hkeys, List.nodup_singleton _, ?_⟩
  intro k hk k' hk'
  obtain ⟨other, hmem, rfl⟩ := List.mem_map.mp hk
  rw [List.mem_singleton] at hk'
  subst hk'
  exact selectRow_eq_none.mp h other hmem

end Statements

/-! ## Maps that hold a table -/

section Holds

variable {α β κ : Type} [DecidableEq κ]

/-- The map gives at each key what the table has there, read through `view`. -/
def Holds (key : α → κ) (view : α → β) (m : AList fun _ : κ => β) (t : List α) : Prop :=
  ∀ k, m.lookup k = (selectRow key t k).map view

variable {key : α → κ} {view : α → β} {m : AList fun _ : κ => β} {t : List α}

theorem holds_empty : Holds key view ∅ [] := fun _ => rfl

/-- Inserting a row with a new key into both. -/
theorem Holds.insert {row : α} (h : Holds key view m t) (hnew : selectRow key t (key row) = none) :
    Holds key view (m.insert (key row) (view row)) (t ++ [row]) := by
  intro k
  rw [selectRow_append hnew]
  by_cases hk : k = key row
  · subst hk
    rw [AList.lookup_insert, if_pos rfl, Option.map_some]
  · rw [AList.lookup_insert_ne hk, if_neg hk, h k]

/-- Inserting into the map what the table has already. -/
theorem Holds.insert_same {k : κ} {row : α} (h : Holds key view m t)
    (hold : selectRow key t k = some row) : Holds key view (m.insert k (view row)) t := by
  intro k'
  by_cases hk : k' = k
  · subst hk
    rw [AList.lookup_insert, hold, Option.map_some]
  · rw [AList.lookup_insert_ne hk, h k']

/-- Updating both at a key. -/
theorem Holds.update {k : κ} {row : α} {f : α → α} {b : β} (h : Holds key view m t)
    (hf : ∀ row, key (f row) = key row) (hold : selectRow key t k = some row)
    (hb : view (f row) = b) : Holds key view (m.insert k b) (updateRows key t k f).2 := by
  intro k'
  rw [selectRow_update hf]
  by_cases hk : k' = k
  · subst hk
    rw [AList.lookup_insert, if_pos rfl, hold, Option.map_some, Option.map_some, hb]
  · rw [AList.lookup_insert_ne hk, if_neg hk, h k']

/-- The values of the map are the rows of the table. -/
theorem Holds.mem_values (h : Holds key view m t) (hkeys : (t.map key).Nodup) {b : β} :
    b ∈ m.entries.map Sigma.snd ↔ ∃ row ∈ t, view row = b := by
  constructor
  · intro hmem
    obtain ⟨⟨k, b'⟩, he, rfl⟩ := List.mem_map.mp hmem
    have hlookup := (h k).symm.trans (AList.mem_lookup_iff.mpr he)
    obtain ⟨row, hrow, hview⟩ := Option.map_eq_some_iff.mp hlookup
    exact ⟨row, mem_of_selectRow hrow, hview⟩
  · rintro ⟨row, hrow, rfl⟩
    have hlookup := h (key row)
    rw [(mem_iff_selectRow hkeys).mp hrow, Option.map_some] at hlookup
    exact List.mem_map.mpr ⟨⟨key row, view row⟩, AList.mem_lookup_iff.mp hlookup, rfl⟩

end Holds

end OrcaBlocks.Lib
