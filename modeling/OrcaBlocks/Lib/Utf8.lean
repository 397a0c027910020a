/-
# OrcaBlocks.Lib.Utf8 — which byte strings are UTF-8, and what a transport of strings makes of the others.

A string is UTF-8 if it is a sequence of encoded characters. `runeWidth` finds the character a string
begins with, by the table of well-formed sequences: no overlong forms, no surrogates, nothing above
U+10FFFF. It looks at no byte behind the character, so a string is cut into characters in ONE way, and a
valid string minus a valid front is valid (`Utf8.of_append`).

`coerceUtf8` is what decoders do that replace each byte that is no part of a character by U+FFFD. It is the
identity on UTF-8 and nowhere else (`utf8_iff_coerce`), since what it returns is always UTF-8.
-/
import Mathlib

namespace OrcaBlocks.Lib

/-! ## Characters -/

/-- A byte that continues a character. -/
def continues (b : UInt8) : Bool := 0x80 ≤ b && b ≤ 0xBF

/-- The length of a character that begins with the byte; `0` if none does. -/
def leadWidth (b : UInt8) : Nat :=
  if b < 0x80 then 1
  else if 0xC2 ≤ b ∧ b ≤ 0xDF then 2
  else if 0xE0 ≤ b ∧ b ≤ 0xEF then 3
  else if 0xF0 ≤ b ∧ b ≤ 0xF4 then 4
  else 0

/-- The second byte of a character, which some first bytes restrict further. -/
def secondOk (b₀ b₁ : UInt8) : Bool :=
  if b₀ = 0xE0 then 0xA0 ≤ b₁ && b₁ ≤ 0xBF
  else if b₀ = 0xED then 0x80 ≤ b₁ && b₁ ≤ 0x9F
  else if b₀ = 0xF0 then 0x90 ≤ b₁ && b₁ ≤ 0xBF
  else if b₀ = 0xF4 then 0x80 ≤ b₁ && b₁ ≤ 0x8F
  else continues b₁

/-- The bytes behind the first one. -/
def tailOk (b₀ : UInt8) : List UInt8 → Bool
  | [] => true
  | b₁ :: rest => secondOk b₀ b₁ && rest.all continues

/-- The length of the character the string begins with; `0` if it begins with none. -/
def runeWidth : List UInt8 → Nat
  | [] => 0
  | b₀ :: rest =>
    if leadWidth b₀ - 1 ≤ rest.length ∧ tailOk b₀ (rest.take (leadWidth b₀ - 1)) then leadWidth b₀
    else 0

theorem runeWidth_cons (b₀ : UInt8) (rest : List UInt8) : runeWidth (b₀ :: rest) =
    if leadWidth b₀ - 1 ≤ rest.length ∧ tailOk b₀ (rest.take (leadWidth b₀ - 1)) then leadWidth b₀
    else 0 := rfl

theorem runeWidth_le (s : List UInt8) : runeWidth s ≤ s.length := by
  cases s with
  | nil => exact Nat.le_refl 0
  | cons b₀ rest =>
    rw [runeWidth_cons]
    split
    · rw [List.length_cons]
      omega
    · exact Nat.zero_le _

/-- What is behind the character does not matter. -/
theorem runeWidth_append {s : List UInt8} (h : runeWidth s ≠ 0) (t : List UInt8) :
    runeWidth (s ++ t) = runeWidth s := by
  cases s with
  | nil => exact absurd rfl h
  | cons b₀ rest =>
    rw [runeWidth_cons] at h
    split at h
    · rename_i hchar
      rw [List.cons_append, runeWidth_cons, runeWidth_cons, if_pos hchar, if_pos ⟨by rw [List.length_append]; omega, by
        rw [List.take_append_of_le_length hchar.1]; exact hchar.2⟩]
    · exact absurd rfl h

/-- The character alone. -/
theorem runeWidth_take (s : List UInt8) : runeWidth (s.take (runeWidth s)) = runeWidth s := by
  cases s with
  | nil => rfl
  | cons b₀ rest =>
    by_cases hchar : leadWidth b₀ - 1 ≤ rest.length ∧ tailOk b₀ (rest.take (leadWidth b₀ - 1))
    · have hwidth : runeWidth (b₀ :: rest) = leadWidth b₀ := if_pos hchar
      rw [hwidth]
      cases hlead : leadWidth b₀ with
      | zero => rfl
      | succ k =>
        rw [hlead, Nat.add_sub_cancel] at hchar
        rw [List.take_succ_cons, runeWidth_cons, hlead, Nat.add_sub_cancel, List.take_take, Nat.min_self,
          List.length_take, Nat.min_eq_left hchar.1, if_pos ⟨Nat.le_refl k, hchar.2⟩]
    · have hwidth : runeWidth (b₀ :: rest) = 0 := if_neg hchar
      rw [hwidth]
      rfl

/-! ## Strings -/

/-- One encoded character. -/
def IsRune (r : List UInt8) : Prop := r ≠ [] ∧ runeWidth r = r.length

instance : DecidablePred IsRune := fun _ => inferInstanceAs (Decidable (_ ∧ _))

theorem IsRune.width {r : List UInt8} (h : IsRune r) (rest : List UInt8) :
    runeWidth (r ++ rest) = r.length := by
  have hne : runeWidth r ≠ 0 := fun h0 => h.1 (List.length_eq_zero_iff.mp (h.2 ▸ h0))
  rw [runeWidth_append hne, h.2]

theorem isRune_take {s : List UInt8} (h : runeWidth s ≠ 0) : IsRune (s.take (runeWidth s)) := by
  have hlen : (s.take (runeWidth s)).length = runeWidth s := by
    rw [List.length_take, Nat.min_eq_left (runeWidth_le s)]
  refine ⟨fun hnil => ?_, by rw [hlen, runeWidth_take]⟩
  rw [hnil] at hlen
  exact h hlen.symm

/-- A sequence of encoded characters. -/
inductive Utf8 : List UInt8 → Prop
  | nil : Utf8 []
  | rune {r rest : List UInt8} : IsRune r → Utf8 rest → Utf8 (r ++ rest)

theorem Utf8.append {s t : List UInt8} (hs : Utf8 s) (ht : Utf8 t) : Utf8 (s ++ t) := by
  induction hs with
  | nil => exact ht
  | rune hr _ ih =>
    rw [List.append_assoc]
    exact .rune hr ih

/-- **A valid string minus a valid front is valid.** -/
theorem Utf8.of_append {s t : List UInt8} (hs : Utf8 s) (h : Utf8 (s ++ t)) : Utf8 t := by
  induction hs with
  | nil => exact h
  | @rune r rest hr _ ih =>
    rw [List.append_assoc] at h
    -- the whole begins with the same character
    generalize hwhole : r ++ (rest ++ t) = whole at h
    cases h with
    | nil => exact absurd (List.append_eq_nil_iff.mp hwhole).1 hr.1
    | @rune r' rest' hr' hrest' =>
      have hlen : r.length = r'.length := by
        rw [← hr.width (rest ++ t), hwhole, hr'.width]
      obtain ⟨-, hback⟩ := List.append_inj hwhole hlen
      rw [← hback] at hrest'
      exact ih hrest'

/-! ## Coercion -/

/-- U+FFFD. -/
def replacement : List UInt8 := [0xEF, 0xBF, 0xBD]

/-- The loop of `coerceUtf8`, with as many turns as `fuel`. -/
def coerceLoop : Nat → List UInt8 → List UInt8
  | 0, _ => []
  | _, [] => []
  | fuel + 1, b :: rest =>
    if runeWidth (b :: rest) = 0 then replacement ++ coerceLoop fuel rest
    else (b :: rest).take (runeWidth (b :: rest)) ++
      coerceLoop fuel ((b :: rest).drop (runeWidth (b :: rest)))

/-- Each byte that is no part of a character is replaced by U+FFFD. -/
def coerceUtf8 (s : List UInt8) : List UInt8 := coerceLoop s.length s

theorem utf8_coerceLoop (fuel : Nat) (s : List UInt8) : Utf8 (coerceLoop fuel s) := by
  induction fuel generalizing s with
  | zero => exact .nil
  | succ fuel ih =>
    cases s with
    | nil => exact .nil
    | cons b rest =>
      unfold coerceLoop
      split
      · exact .rune (by decide) (ih rest)
      · rename_i hne
        exact .rune (isRune_take hne) (ih _)

theorem utf8_coerce (s : List UInt8) : Utf8 (coerceUtf8 s) := utf8_coerceLoop _ s

theorem Utf8.coerceLoop {s : List UInt8} (h : Utf8 s) {fuel : Nat} (hfuel : s.length ≤ fuel) :
    coerceLoop fuel s = s := by
  induction h generalizing fuel with
  | nil =>
    cases fuel with
    | zero => rfl
    | succ fuel => rfl
  | @rune r rest hr _ ih =>
    obtain ⟨b, r, rfl⟩ := List.exists_cons_of_ne_nil hr.1
    have hwidth : runeWidth (b :: (r ++ rest)) = r.length + 1 := hr.width rest
    rw [List.length_append, List.length_cons] at hfuel
    obtain ⟨fuel, rfl⟩ : ∃ k, fuel = k + 1 := ⟨fuel - 1, by omega⟩
    rw [List.cons_append, Lib.coerceLoop, hwidth, if_neg (Nat.succ_ne_zero _), List.take_succ_cons,
      List.drop_succ_cons, List.take_left, List.drop_left, ih (by omega), List.cons_append]

/-- **Coercion is the identity on UTF-8, and only there.** -/
theorem utf8_iff_coerce {s : List UInt8} : Utf8 s ↔ coerceUtf8 s = s :=
  ⟨fun h => h.coerceLoop (Nat.le_refl _), fun h => h ▸ utf8_coerce s⟩

theorem map_coerceUtf8 {texts : List (List UInt8)} (h : ∀ s ∈ texts, Utf8 s) :
    texts.map coerceUtf8 = texts :=
  (List.map_congr_left fun s hs => utf8_iff_coerce.mp (h s hs)).trans (List.map_id _)

instance : DecidablePred Utf8 := fun _ => decidable_of_iff _ utf8_iff_coerce.symm

end OrcaBlocks.Lib
