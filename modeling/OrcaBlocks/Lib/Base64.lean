/-
# OrcaBlocks.Lib.Base64 — standard base64 with padding, and that decoding inverts encoding.

Three bytes are four digits in base 64, most significant first; a last group of one or two bytes is padded
with `=`. `encode` and `decode` work group by group, so the round trip is the arithmetic of one group and
an induction. The decoder skips line breaks, as decoders of the standard alphabet do, and does not insist
that the unused bits of a padded group are zero.

`plain_encode` is what a carrier of encoded text needs to know: it is made of letters, digits, `+`, `/` and
`=` only.
-/
import Mathlib

namespace OrcaBlocks.Lib.Base64

/-- The digit `d` of the alphabet. -/
def digit (d : Nat) : UInt8 :=
  if d < 26 then UInt8.ofNat (65 + d)
  else if d < 52 then UInt8.ofNat (97 + (d - 26))
  else if d < 62 then UInt8.ofNat (48 + (d - 52))
  else if d = 62 then 43
  else 47

/-- The value of a byte of the alphabet. -/
def value (c : UInt8) : Option Nat :=
  if 65 ≤ c ∧ c ≤ 90 then some (c.toNat - 65)
  else if 97 ≤ c ∧ c ≤ 122 then some (c.toNat - 97 + 26)
  else if 48 ≤ c ∧ c ≤ 57 then some (c.toNat - 48 + 52)
  else if c = 43 then some 62
  else if c = 47 then some 63
  else none

/-- The padding byte. -/
def pad : UInt8 := 61

def encode : List UInt8 → List UInt8
  | [] => []
  | [a] => [digit (a.toNat / 4), digit (a.toNat % 4 * 16), pad, pad]
  | [a, b] =>
    [digit (a.toNat / 4), digit (a.toNat % 4 * 16 + b.toNat / 16), digit (b.toNat % 16 * 4), pad]
  | a :: b :: c :: rest =>
    digit (a.toNat / 4) :: digit (a.toNat % 4 * 16 + b.toNat / 16) ::
      digit (b.toNat % 16 * 4 + c.toNat / 64) :: digit (c.toNat % 64) :: encode rest

/-- Decode groups of four. -/
def decodeGroups : List UInt8 → Option (List UInt8)
  | [] => some []
  | c₀ :: c₁ :: c₂ :: c₃ :: rest => do
    let d₀ ← value c₀
    let d₁ ← value c₁
    let a := UInt8.ofNat (d₀ * 4 + d₁ / 16)
    if c₂ = pad then
      if c₃ = pad ∧ rest = [] then some [a] else none
    else
      let d₂ ← value c₂
      let b := UInt8.ofNat (d₁ % 16 * 16 + d₂ / 4)
      if c₃ = pad then
        if rest = [] then some [a, b] else none
      else
        let d₃ ← value c₃
        let c := UInt8.ofNat (d₂ % 4 * 64 + d₃)
        let more ← decodeGroups rest
        some (a :: b :: c :: more)
  | _ => none

/-- Line breaks in encoded text are skipped. -/
def decode (text : List UInt8) : Option (List UInt8) :=
  decodeGroups (text.filter fun c => c ≠ 10 ∧ c ≠ 13)

/-! ## Digits -/

theorem value_digit {d : Nat} (h : d < 64) : value (digit d) = some d := by
  have hall : ∀ d < 64, value (digit d) = some d := by decide
  exact hall d h

theorem digit_ne_pad {d : Nat} (h : d < 64) : digit d ≠ pad := by
  have hall : ∀ d < 64, digit d ≠ pad := by decide
  exact hall d h

/-- The bytes of encoded text: letters, digits, `+`, `/`, and the padding. -/
def IsPlain (c : UInt8) : Prop := (value c).isSome ∨ c = pad

theorem plain_digit {d : Nat} (h : d < 64) : IsPlain (digit d) :=
  Or.inl (by rw [value_digit h]; rfl)

theorem plain_pad : IsPlain pad := Or.inr rfl

theorem plain_encode (bytes : List UInt8) : ∀ c ∈ encode bytes, IsPlain c := by
  induction bytes using encode.induct with
  | case1 => simp [encode]
  | case2 a =>
    have ha := a.toNat_lt
    simp only [encode, List.forall_mem_cons]
    exact ⟨plain_digit (by omega), plain_digit (by omega), plain_pad, plain_pad, by simp⟩
  | case3 a b =>
    have ha := a.toNat_lt
    have hb := b.toNat_lt
    simp only [encode, List.forall_mem_cons]
    exact ⟨plain_digit (by omega), plain_digit (by omega), plain_digit (by omega), plain_pad, by simp⟩
  | case4 a b c rest ih =>
    have ha := a.toNat_lt
    have hb := b.toNat_lt
    have hc := c.toNat_lt
    simp only [encode, List.forall_mem_cons]
    exact ⟨plain_digit (by omega), plain_digit (by omega), plain_digit (by omega),
      plain_digit (by omega), ih⟩

/-- Only nothing is encoded as nothing. -/
theorem encode_eq_nil {bytes : List UInt8} : encode bytes = [] ↔ bytes = [] := by
  rcases bytes with _ | ⟨a, _ | ⟨b, _ | ⟨c, rest⟩⟩⟩
  all_goals simp [encode]

/-! ## The round trip -/

theorem ofNat_toNat_eq {a : UInt8} {n : Nat} (h : n = a.toNat) : UInt8.ofNat n = a := by
  rw [h, UInt8.ofNat_toNat]

/-- Group by group. -/
theorem decodeGroups_encode (bytes : List UInt8) : decodeGroups (encode bytes) = some bytes := by
  induction bytes using encode.induct with
  | case1 => rfl
  | case2 a =>
    have ha := a.toNat_lt
    simp only [encode, decodeGroups, value_digit (show a.toNat / 4 < 64 by omega),
      value_digit (show a.toNat % 4 * 16 < 64 by omega), Option.bind_eq_bind, Option.bind_some,
      if_true, and_self]
    rw [ofNat_toNat_eq (a := a) (by omega)]
  | case3 a b =>
    have ha := a.toNat_lt
    have hb := b.toNat_lt
    have hd : b.toNat % 16 * 4 < 64 := by omega
    simp only [encode, decodeGroups, value_digit (show a.toNat / 4 < 64 by omega),
      value_digit (show a.toNat % 4 * 16 + b.toNat / 16 < 64 by omega), value_digit hd,
      Option.bind_eq_bind, Option.bind_some, if_neg (digit_ne_pad hd), if_true]
    rw [ofNat_toNat_eq (a := a) (by omega), ofNat_toNat_eq (a := b) (by omega)]
  | case4 a b c rest ih =>
    have ha := a.toNat_lt
    have hb := b.toNat_lt
    have hc := c.toNat_lt
    have hd₂ : b.toNat % 16 * 4 + c.toNat / 64 < 64 := by omega
    have hd₃ : c.toNat % 64 < 64 := by omega
    simp only [encode, decodeGroups, value_digit (show a.toNat / 4 < 64 by omega),
      value_digit (show a.toNat % 4 * 16 + b.toNat / 16 < 64 by omega), value_digit hd₂,
      value_digit hd₃, Option.bind_eq_bind, Option.bind_some, if_neg (digit_ne_pad hd₂),
      if_neg (digit_ne_pad hd₃), ih]
    rw [ofNat_toNat_eq (a := a) (by omega), ofNat_toNat_eq (a := b) (by omega),
      ofNat_toNat_eq (a := c) (by omega)]

/-- **Decoding inverts encoding.** -/
theorem decode_encode (bytes : List UInt8) : decode (encode bytes) = some bytes := by
  have hkeep : (encode bytes).filter (fun c => c ≠ 10 ∧ c ≠ 13) = encode bytes := by
    rw [List.filter_eq_self]
    intro c hc
    have hbreak : ∀ c : UInt8, c = 10 ∨ c = 13 → ¬ ((value c).isSome ∨ c = pad) := by
      rintro c (rfl | rfl)
      · decide
      · decide
    have hplain := plain_encode bytes c hc
    simp only [decide_eq_true_eq]
    exact ⟨fun h => hbreak c (Or.inl h) hplain, fun h => hbreak c (Or.inr h) hplain⟩
  rw [decode, hkeep, decodeGroups_encode]

end OrcaBlocks.Lib.Base64
