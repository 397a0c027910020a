/-
# OrcaBlocks.Lib.MachineInt — when wrapping 64-bit arithmetic does not wrap.

`Int64` is the signed machine integer with two's-complement wrap-around. Each lemma gives the bound
under which an operation agrees with the operation on unbounded integers; `natOf` is the reading of
a machine integer as a position, exact for nonnegative values.
-/
import Mathlib

namespace OrcaBlocks.Lib

/-- A machine integer as a position. Negative values have no position and read as `0`. -/
def natOf (x : Int64) : Nat := x.toInt.toNat

theorem natOf_cast {x : Int64} (h : 0 ≤ x.toInt) : (natOf x : Int) = x.toInt := Int.toNat_of_nonneg h

theorem natOf_lt (x : Int64) : natOf x < 2 ^ 63 := by
  have := x.toInt_lt
  unfold natOf
  omega

theorem toInt_ofNat {n : Nat} (h : n < 2 ^ 63) : (Int64.ofNat n).toInt = n :=
  Int64.toInt_ofNat_of_lt h

@[simp] theorem natOf_ofNat {n : Nat} (h : n < 2 ^ 63) : natOf (Int64.ofNat n) = n := by
  rw [natOf, toInt_ofNat h, Int.toNat_natCast]

theorem ofNat_natOf {x : Int64} (h : 0 ≤ x.toInt) : Int64.ofNat (natOf x) = x := by
  apply Int64.toInt_inj.mp
  rw [toInt_ofNat (natOf_lt x), natOf_cast h]

private theorem bmod_eq_self {x : Int} (hlo : -2 ^ 63 ≤ x) (hhi : x < 2 ^ 63) :
    x.bmod (2 ^ 64) = x :=
  Int.bmod_eq_of_le (by omega) (by omega)

theorem toInt_add_of_bounds {a b : Int64}
    (h : -2 ^ 63 ≤ a.toInt + b.toInt ∧ a.toInt + b.toInt < 2 ^ 63) : (a + b).toInt = a.toInt + b.toInt := by
  rw [Int64.toInt_add, bmod_eq_self h.1 h.2]

theorem toInt_sub_of_bounds {a b : Int64}
    (h : -2 ^ 63 ≤ a.toInt - b.toInt ∧ a.toInt - b.toInt < 2 ^ 63) : (a - b).toInt = a.toInt - b.toInt := by
  rw [Int64.toInt_sub, bmod_eq_self h.1 h.2]

theorem toInt_mul_of_bounds {a b : Int64} (hlo : -2 ^ 63 ≤ a.toInt * b.toInt)
    (hhi : a.toInt * b.toInt < 2 ^ 63) : (a * b).toInt = a.toInt * b.toInt := by
  rw [Int64.toInt_mul, bmod_eq_self hlo hhi]

/-- The quotient of a nonnegative by a positive integer never wraps. -/
theorem toInt_div_of_nonneg {a b : Int64} (ha : 0 ≤ a.toInt) (hb : 0 < b.toInt) :
    (a / b).toInt = a.toInt / b.toInt := by
  have hle : a.toInt / b.toInt ≤ a.toInt := Int.ediv_le_self _ ha
  have hnonneg : 0 ≤ a.toInt / b.toInt := Int.ediv_nonneg ha (by omega)
  have := a.toInt_lt
  rw [Int64.toInt_div, Int.tdiv_eq_ediv_of_nonneg ha, bmod_eq_self (by omega) (by omega)]

/-- The sum of two nonnegative integers that wraps is negative. -/
theorem toInt_add_neg_of_overflow {a b : Int64} (ha : 0 ≤ a.toInt) (hb : 0 ≤ b.toInt)
    (hover : 2 ^ 63 ≤ a.toInt + b.toInt) : (a + b).toInt < 0 := by
  have h₁ := a.toInt_lt
  have h₂ := b.toInt_lt
  rw [Int64.toInt_add, Int.bmod_def]
  have hmod : (a.toInt + b.toInt) % ((2 ^ 64 : Nat) : Int) = a.toInt + b.toInt :=
    Int.emod_eq_of_lt (by omega) (by omega)
  rw [hmod, if_neg (by omega)]
  omega

end OrcaBlocks.Lib
