/-
# OrcaBlocks.Lib.Recency — the order of last use.

A list without repetitions, the most recently used element first. `touch a l` is the list after `a`
was used: `a` moves to the front, the others keep their order. A structure that holds the most
recently used elements holds a PREFIX of such a list (`touch_isPrefix`).
-/
import Mathlib

namespace OrcaBlocks.Lib

variable {α : Type} [DecidableEq α] {a b : α} {l l₁ l₂ : List α}

def touch (a : α) (l : List α) : List α := a :: l.filter (· ≠ a)

@[simp] theorem mem_touch : b ∈ touch a l ↔ b = a ∨ b ∈ l := by
  by_cases h : b = a
  · simp [touch, h]
  · simp [touch, h]

theorem nodup_touch (h : l.Nodup) : (touch a l).Nodup := by
  rw [touch, List.nodup_cons]
  exact ⟨by simp, h.filter _⟩

theorem touch_of_notMem (h : a ∉ l) : touch a l = a :: l := by
  rw [touch, List.filter_eq_self.mpr]
  intro b hb
  simpa using fun heq : b = a => h (heq ▸ hb)

theorem touch_isPrefix (h : l₁ <+: l₂) : touch a l₁ <+: touch a l₂ :=
  List.cons_prefix_cons.mpr ⟨rfl, h.filter _⟩

end OrcaBlocks.Lib
