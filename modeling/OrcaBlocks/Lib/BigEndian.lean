/-
# OrcaBlocks.Lib.BigEndian — numbers as big-endian bytes.

One codec for all widths, over the natural numbers: `bigEndian n w` is `w` modulo `256 ^ n` in `n`
bytes, and `ofBigEndian` reads any number of bytes. They are inverse both ways. The word types of a
wire format are read and written through it.
-/
import Mathlib

namespace OrcaBlocks.Lib

/-- `w` in `n` bytes, most significant first. -/
def bigEndian : Nat → Nat → List UInt8
  | 0, _ => []
  | n + 1, w => UInt8.ofNat (w / 256 ^ n) :: bigEndian n w

/-- The number that bytes stand for. -/
def ofBigEndian (b : List UInt8) : Nat := b.foldl (fun acc x => acc * 256 + x.toNat) 0

@[simp] theorem length_bigEndian (n w : Nat) : (bigEndian n w).length = n := by
  induction n with
  | zero => rfl
  | succ n ih => simp [bigEndian, ih]

private theorem foldl_bytes (b : List UInt8) (acc : Nat) :
    b.foldl (fun acc x => acc * 256 + x.toNat) acc = acc * 256 ^ b.length + ofBigEndian b := by
  induction b generalizing acc with
  | nil => simp [ofBigEndian]
  | cons x b ih =>
    unfold ofBigEndian
    rw [List.foldl_cons, List.foldl_cons, ih, ih (0 * 256 + x.toNat), List.length_cons]
    ring

theorem ofBigEndian_cons (x : UInt8) (b : List UInt8) :
    ofBigEndian (x :: b) = x.toNat * 256 ^ b.length + ofBigEndian b := by
  unfold ofBigEndian
  rw [List.foldl_cons, foldl_bytes]
  simp [ofBigEndian]

theorem ofBigEndian_lt (b : List UInt8) : ofBigEndian b < 256 ^ b.length := by
  induction b with
  | nil => simp [ofBigEndian]
  | cons x b ih =>
    rw [ofBigEndian_cons, List.length_cons, Nat.pow_succ]
    have hx := x.toNat_lt
    calc x.toNat * 256 ^ b.length + ofBigEndian b < x.toNat * 256 ^ b.length + 256 ^ b.length := by omega
      _ = (x.toNat + 1) * 256 ^ b.length := by ring
      _ ≤ 256 * 256 ^ b.length := Nat.mul_le_mul_right _ (by omega)
      _ = 256 ^ b.length * 256 := by ring

theorem ofBigEndian_bigEndian (n w : Nat) : ofBigEndian (bigEndian n w) = w % 256 ^ n := by
  induction n with
  | zero => simp [bigEndian, ofBigEndian, Nat.mod_one]
  | succ n ih =>
    have hbyte : (UInt8.ofNat (w / 256 ^ n)).toNat = w / 256 ^ n % 256 := UInt8.toNat_ofNat'
    rw [bigEndian, ofBigEndian_cons, ih, length_bigEndian, hbyte, Nat.pow_succ, Nat.mod_mul,
      Nat.mul_comm (256 ^ n), Nat.add_comm]

/-- Only the lower bytes of the number matter. -/
private theorem bigEndian_add (n m w : Nat) : bigEndian n (m * 256 ^ n + w) = bigEndian n w := by
  induction n generalizing m with
  | zero => rfl
  | succ n ih =>
    have hsplit : m * 256 ^ (n + 1) + w = m * 256 * 256 ^ n + w := by ring
    rw [bigEndian, bigEndian, hsplit, ih]
    congr 1
    apply UInt8.toNat_inj.mp
    rw [UInt8.toNat_ofNat', UInt8.toNat_ofNat', Nat.add_comm, Nat.add_mul_div_right _ _ (Nat.pow_pos (by decide))]
    omega

theorem bigEndian_ofBigEndian (b : List UInt8) : bigEndian b.length (ofBigEndian b) = b := by
  induction b with
  | nil => rfl
  | cons x b ih =>
    rw [ofBigEndian_cons, List.length_cons, bigEndian, bigEndian_add, ih]
    congr 1
    apply UInt8.toNat_inj.mp
    have hlt := ofBigEndian_lt b
    rw [UInt8.toNat_ofNat', Nat.add_comm, Nat.add_mul_div_right _ _ (Nat.pow_pos (by decide)),
      Nat.div_eq_of_lt hlt, Nat.zero_add, Nat.mod_eq_of_lt x.toNat_lt]

end OrcaBlocks.Lib
