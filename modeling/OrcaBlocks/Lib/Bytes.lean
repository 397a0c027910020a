/-
# OrcaBlocks.Lib.Bytes — arrays read as functions of the position.

Two views of the same content. A LIST is what a program holds: a buffer, a file, an object. A
FUNCTION of the position is what an address space is: it has no length, it is updated by `patch`,
and reading a range of it is `window`. The lemmas say how the list operations of an array program
(take a slice, copy into a slice, pad with zeroes) look through that view, so that an argument about
buffers becomes an argument about one position.

Elements are arbitrary; `z` is the element an address space holds where nothing was stored.
-/
import Mathlib

namespace OrcaBlocks.Lib

variable {α : Type}

/-- Pieces that are not empty are no more than their elements. -/
theorem length_le_length_flatMap {β : Type} {f : β → List α} (hf : ∀ b, 0 < (f b).length) (bs : List β) :
    bs.length ≤ (bs.flatMap f).length := by
  have hsum : (bs.map fun b => (f b).length).length ≤ (bs.map fun b => (f b).length).sum :=
    List.length_le_sum_of_one_le _ fun n hn => by
      obtain ⟨b, -, rfl⟩ := List.mem_map.mp hn
      exact hf b
  rwa [List.length_map, ← List.length_flatMap] at hsum

/-! ## Windows of an address space -/

/-- The `n` elements of the address space `f` from position `lo` on. -/
def window (f : Nat → α) (lo n : Nat) : List α := (List.range n).map fun i => f (lo + i)

@[simp] theorem length_window (f : Nat → α) (lo n : Nat) : (window f lo n).length = n := by
  simp [window]

@[simp] theorem window_zero (f : Nat → α) (lo : Nat) : window f lo 0 = [] := rfl

theorem getElem?_window (f : Nat → α) (lo n i : Nat) :
    (window f lo n)[i]? = if i < n then some (f (lo + i)) else none := by
  by_cases h : i < n
  · simp [window, h]
  · simp [window, h]

theorem getD_window (z : α) (f : Nat → α) {lo n i : Nat} (h : i < n) :
    (window f lo n).getD i z = f (lo + i) := by
  rw [List.getD_eq_getElem?_getD, getElem?_window, if_pos h, Option.getD_some]

theorem window_congr {f g : Nat → α} {lo n : Nat} (h : ∀ p, lo ≤ p → p < lo + n → f p = g p) :
    window f lo n = window g lo n := by
  apply List.map_congr_left
  intro i hi
  exact h (lo + i) (by omega) (by have := List.mem_range.mp hi; omega)

/-- A window splits at any position. -/
theorem window_append (f : Nat → α) (lo a b : Nat) :
    window f lo a ++ window f (lo + a) b = window f lo (a + b) := by
  simp only [window, List.range_add, List.map_append, List.map_map]
  congr 1
  apply List.map_congr_left
  intro i _
  simp [Nat.add_assoc]

theorem window_const (z : α) (lo n : Nat) : window (fun _ => z) lo n = List.replicate n z := by
  simp [window, List.map_const']

/-! ## Slices, and copying into a slice -/

/-- Go's `b[off : off+n]`. -/
def slice (b : List α) (off n : Nat) : List α := (b.drop off).take n

/-- Go's `copy(b[off:], data)` for data that fits. -/
def overwrite (b : List α) (off : Nat) (data : List α) : List α :=
  b.take off ++ data ++ b.drop (off + data.length)

/-- The address space `f` after `data` was stored at `off`. -/
def patch (z : α) (f : Nat → α) (off : Nat) (data : List α) : Nat → α := fun p =>
  if off ≤ p ∧ p < off + data.length then data.getD (p - off) z else f p

@[simp] theorem length_overwrite {b data : List α} {off : Nat} (h : off + data.length ≤ b.length) :
    (overwrite b off data).length = b.length := by
  simp only [overwrite, List.length_append, List.length_take, List.length_drop]
  omega

theorem getD_overwrite (z : α) {b data : List α} {off : Nat} (h : off + data.length ≤ b.length)
    (p : Nat) :
    (overwrite b off data).getD p z = patch z (fun q => b.getD q z) off data p := by
  have htake : (b.take off).length = off := by simp; omega
  unfold overwrite patch
  by_cases h₁ : p < off
  · rw [List.append_assoc, List.getD_append _ _ _ _ (by omega), if_neg (by omega)]
    simp [List.getD_eq_getElem?_getD, h₁]
  · by_cases h₂ : p < off + data.length
    · rw [if_pos ⟨by omega, h₂⟩, List.append_assoc, List.getD_append_right _ _ _ _ (by omega),
        List.getD_append _ _ _ _ (by omega), htake]
    · rw [if_neg (by omega), List.getD_append_right _ _ _ _ (by simp; omega)]
      simp only [List.length_append, htake, List.getD_eq_getElem?_getD, List.getElem?_drop]
      congr 2
      omega

theorem slice_window (f : Nat → α) {lo n off len : Nat} (h : off + len ≤ n) :
    slice (window f lo n) off len = window f (lo + off) len := by
  apply List.ext_getElem?
  intro i
  simp only [slice, List.getElem?_take, List.getElem?_drop, getElem?_window]
  by_cases hi : i < len
  · simp [hi, show off + i < n by omega, Nat.add_assoc]
  · simp [hi]

theorem overwrite_window (z : α) (f : Nat → α) {n off : Nat} {data : List α}
    (h : off + data.length ≤ n) :
    overwrite (window f 0 n) off data = window (patch z f off data) 0 n := by
  apply List.ext_getElem?
  intro i
  have hlen : (overwrite (window f 0 n) off data).length = n := by
    rw [length_overwrite (by simpa using h), length_window]
  by_cases hi : i < n
  · have hget := getD_overwrite z (b := window f 0 n) (by simpa using h) i
    rw [List.getD_eq_getElem?_getD, List.getElem?_eq_getElem (by omega), Option.getD_some] at hget
    rw [List.getElem?_eq_getElem (by omega), hget, getElem?_window, if_pos hi, Nat.zero_add]
    simp only [patch, getD_window z f hi, Nat.zero_add]
  · rw [List.getElem?_eq_none (by omega), getElem?_window, if_neg hi]

/-- A list is the window of its own positions. -/
theorem window_getD (z : α) (b : List α) : window (fun p => b.getD p z) 0 b.length = b := by
  apply List.ext_getElem?
  intro i
  rw [getElem?_window]
  by_cases hi : i < b.length
  · simp [hi, List.getD_eq_getElem?_getD]
  · simp [hi]

theorem slice_eq_window (z : α) {b : List α} {off len : Nat} (h : off + len ≤ b.length) :
    slice b off len = window (fun p => b.getD p z) off len := by
  conv_lhs => rw [← window_getD z b]
  rw [slice_window _ h, Nat.zero_add]

/-! ## Padding -/

/-- `b` followed by as many `z` as it takes to reach length `n`. -/
def padTo (z : α) (b : List α) (n : Nat) : List α := b ++ List.replicate (n - b.length) z

@[simp] theorem length_padTo {z : α} {b : List α} {n : Nat} (h : b.length ≤ n) :
    (padTo z b n).length = n := by
  simp only [padTo, List.length_append, List.length_replicate]
  omega

/-- Padding is invisible to a reader that sees `z` past the end. -/
theorem getD_padTo (z : α) (b : List α) (n p : Nat) : (padTo z b n).getD p z = b.getD p z := by
  unfold padTo
  by_cases h : p < b.length
  · rw [List.getD_append _ _ _ _ h]
  · rw [List.getD_append_right _ _ _ _ (by omega), List.getD_eq_default _ _ (Nat.le_of_not_lt h)]
    simp only [List.getD_eq_getElem?_getD, List.getElem?_replicate]
    split <;> rfl

theorem padTo_eq_window (z : α) {b : List α} {n : Nat} (h : b.length ≤ n) :
    padTo z b n = window (fun p => b.getD p z) 0 n := by
  conv_lhs => rw [← window_getD z (padTo z b n), length_padTo h]
  exact window_congr fun p _ _ => getD_padTo z b n p

/-- Reading `len` elements at `off` with zero-fill past the end, in one go. -/
theorem padTo_slice_eq_window (z : α) (b : List α) (off len : Nat) :
    padTo z (slice b off len) len = window (fun p => b.getD p z) off len := by
  have hlen : (slice b off len).length ≤ len := by
    rw [slice, List.length_take]
    omega
  rw [padTo_eq_window z hlen]
  apply List.ext_getElem?
  intro i
  simp only [getElem?_window]
  by_cases hi : i < len
  · simp [hi, slice, List.getD_eq_getElem?_getD, List.getElem?_drop]
  · simp [hi]

/-- Copying the next part of an address space behind the part that is already there. -/
theorem overwrite_window_append (f : Nat → α) (z : α) {start lo mid hi : Nat} (h₁ : start ≤ lo)
    (h₂ : lo ≤ mid) :
    overwrite (window f start (lo - start) ++ List.replicate (hi - lo) z) (lo - start)
        (window f lo (mid - lo)) =
      window f start (mid - start) ++ List.replicate (hi - mid) z := by
  have happend := window_append f start (lo - start) (mid - lo)
  rw [show start + (lo - start) = lo by omega,
    show lo - start + (mid - lo) = mid - start by omega] at happend
  have htake : (window f start (lo - start) ++ List.replicate (hi - lo) z).take (lo - start) =
      window f start (lo - start) := by
    rw [List.take_append_of_le_length (by simp), List.take_of_length_le (by simp)]
  have hdrop : (window f start (lo - start) ++ List.replicate (hi - lo) z).drop
      (lo - start + (mid - lo)) = List.replicate (hi - mid) z := by
    rw [List.drop_append, List.drop_of_length_le (by simp), List.drop_replicate, length_window,
      List.nil_append]
    congr 1
    omega
  rw [overwrite, htake, length_window, hdrop, happend]

theorem patch_congr (z : α) {f g : Nat → α} (off : Nat) (data : List α) {p : Nat} (h : f p = g p) :
    patch z f off data p = patch z g off data p := by
  simp only [patch, h]

/-- Storing the next part of `data` behind the part that is already stored. -/
theorem patch_take_slice (z : α) (f : Nat → α) (data : List α) (off a n : Nat)
    (h : a + n ≤ data.length) :
    patch z (patch z f off (data.take a)) (off + a) (slice data a n) =
      patch z f off (data.take (a + n)) := by
  funext p
  have hslice : (slice data a n).length = n := by simp [slice]; omega
  have htake : (data.take a).length = a := by simp; omega
  have htake' : (data.take (a + n)).length = a + n := by simp; omega
  simp only [patch, hslice, htake, htake']
  by_cases hnew : off + a ≤ p ∧ p < off + a + n
  · rw [if_pos hnew, if_pos (by omega)]
    simp only [slice, List.getD_eq_getElem?_getD, List.getElem?_take, List.getElem?_drop,
      show p - (off + a) < n by omega, show p - off < a + n by omega, if_true,
      show a + (p - (off + a)) = p - off by omega]
  · rw [if_neg hnew]
    by_cases hold : off ≤ p ∧ p < off + a
    · rw [if_pos hold, if_pos (by omega)]
      simp only [List.getD_eq_getElem?_getD, List.getElem?_take, show p - off < a by omega,
        show p - off < a + n by omega, if_true]
    · rw [if_neg hold, if_neg (by omega)]

end OrcaBlocks.Lib
