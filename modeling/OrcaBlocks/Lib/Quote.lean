/-
# OrcaBlocks.Lib.Quote — one text inside another, and inside its quoted form.

A text that must not be forged is usually looked for with a substring search. What decides whether the
search finds it is where an occurrence can BEGIN and what it can CROSS:

* an occurrence crosses no byte that it does not contain (`infix_append_cons_iff`), so it lies in one line
  of a stream of lines and in one part of a text that was split;
* an occurrence cannot begin in a literal none of whose ends begins it (`Clear`, decidable).

`quote` is `strconv.Quote`: printable characters stand for themselves, everything else is an escape that
begins with a backslash. Quoting HIDES NOTHING that is printable: a text of unescaped ASCII characters whose
first byte occurs in no escape is found in the quoted form exactly if it is found in the string
(`infix_quote_append_iff`). Which characters above ASCII are printable is a table; nothing here depends on it.
-/
import OrcaBlocks.Lib.Text
import OrcaBlocks.Lib.Utf8

namespace OrcaBlocks.Lib

/-! ## Where a text occurs -/

section Occurrences

variable {α : Type} {m a b : List α} {c : α}

/-- No occurrence of `m` begins in the list, whatever follows it. -/
def Clear (m : List α) : List α → Prop
  | [] => True
  | x :: rest => (¬ (x :: rest) <+: m ∧ ¬ m <+: (x :: rest)) ∧ Clear m rest

instance decidableClear [DecidableEq α] (m : List α) : DecidablePred (Clear m)
  | [] => instDecidableTrue
  | _ :: rest =>
    have : Decidable (Clear m rest) := decidableClear m rest
    inferInstanceAs (Decidable (_ ∧ _))

theorem infix_append_of_clear (h : Clear m a) : m <:+: a ++ b ↔ m <:+: b := by
  induction a with
  | nil => rfl
  | cons x rest ih =>
    obtain ⟨⟨hfront, hwhole⟩, hrest⟩ := h
    rw [List.cons_append, List.infix_cons_iff, ih hrest]
    refine or_iff_right fun hprefix => ?_
    -- an occurrence that begins at `x` ends inside the front or covers it
    rcases List.prefix_or_prefix_of_prefix hprefix (List.prefix_append (x :: rest) b) with hm | hm
    · exact hwhole hm
    · exact hfront hm

theorem clear_of_not_mem {x : α} {m a : List α} (h : x ∉ a) : Clear (x :: m) a := by
  induction a with
  | nil => trivial
  | cons y rest ih =>
    have hne : x ≠ y := fun heq => h (heq ▸ List.mem_cons_self ..)
    have hrest : x ∉ rest := fun hmem => h (List.mem_cons_of_mem _ hmem)
    refine ⟨⟨fun hprefix => ?_, fun hprefix => ?_⟩, ih hrest⟩
    · exact hne (List.cons_prefix_cons.mp hprefix).1.symm
    · exact hne (List.cons_prefix_cons.mp hprefix).1

theorem not_infix_of_not_mem {x : α} {m a : List α} (h : x ∉ a) : ¬ x :: m <:+: a := fun hm =>
  h (hm.subset (List.mem_cons_self ..))

theorem prefix_append_cons_iff (hc : c ∉ m) : m <+: a ++ c :: b ↔ m <+: a := by
  refine ⟨fun h => ?_, fun h => h.trans (List.prefix_append _ _)⟩
  rcases List.prefix_or_prefix_of_prefix h (List.prefix_append a (c :: b)) with hm | ⟨rest, rfl⟩
  · exact hm
  · rw [List.prefix_append_right_inj] at h
    rcases rest with _ | ⟨x, rest⟩
    · exact ⟨[], by simp⟩
    · obtain ⟨rfl, -⟩ := List.cons_prefix_cons.mp h
      exact absurd (List.mem_append_right a (List.mem_cons_self ..)) hc

/-- **An occurrence crosses no element that it does not contain.** -/
theorem infix_append_cons_iff (hc : c ∉ m) : m <:+: a ++ c :: b ↔ m <:+: a ∨ m <:+: b := by
  induction a with
  | nil =>
    have hfront : m <+: c :: b ↔ m <+: [] := prefix_append_cons_iff (a := []) hc
    rw [List.nil_append, List.infix_cons_iff, hfront, List.prefix_nil, List.infix_nil]
  | cons x rest ih =>
    have hfront : m <+: x :: (rest ++ c :: b) ↔ m <+: x :: rest := prefix_append_cons_iff (a := x :: rest) hc
    rw [List.cons_append, List.infix_cons_iff, List.infix_cons_iff, hfront, ih, or_assoc]

/-- In a stream of lines an occurrence lies in one of them. -/
theorem infix_lines_iff (hm : m ≠ []) (hc : c ∉ m) (lines : List (List α)) :
    m <:+: lines.flatMap (· ++ [c]) ↔ ∃ line ∈ lines, m <:+: line := by
  induction lines with
  | nil => simpa using hm
  | cons line rest ih =>
    rw [List.flatMap_cons, List.append_assoc, List.singleton_append, infix_append_cons_iff hc, ih,
      List.exists_mem_cons_iff]

theorem infix_intercalate_iff (hm : m ≠ []) (hc : c ∉ m) (parts : List (List α)) :
    m <:+: [c].intercalate parts ↔ ∃ part ∈ parts, m <:+: part := by
  induction parts with
  | nil => simpa using hm
  | cons part rest ih =>
    cases rest with
    | nil => simp
    | cons next rest =>
      rw [List.intercalate_cons_cons, List.append_assoc, List.singleton_append,
        infix_append_cons_iff hc, ih, List.exists_mem_cons_iff _ part]

theorem infix_iff_splitOn [DecidableEq α] (hm : m ≠ []) (hc : c ∉ m) (s : List α) :
    m <:+: s ↔ ∃ part ∈ s.splitOn c, m <:+: part := by
  rw [← infix_intercalate_iff hm hc, List.intercalate_splitOn]

theorem infix_trimRight_iff [DecidableEq α] (hc : c ∉ m) (s : List α) :
    m <:+: s.rdropWhile (· = c) ↔ m <:+: s := by
  induction s using List.reverseRecOn with
  | nil => rfl
  | append_singleton s x ih =>
    by_cases hx : x = c
    · subst hx
      rw [List.rdropWhile_concat_pos _ _ _ (by simp), ih, infix_append_cons_iff hc]
      refine ⟨.inl, fun h => h.elim id fun hnil => ?_⟩
      rw [List.infix_nil.mp hnil]
      exact List.nil_infix
    · rw [List.rdropWhile_concat_neg _ _ _ (by simpa using hx)]

end Occurrences

/-! ## Quoting -/

def hexDigit (n : Nat) : UInt8 := if n < 10 then UInt8.ofNat (48 + n) else UInt8.ofNat (87 + n)

/-- The last `width` hexadecimal digits. -/
def hexDigits : Nat → Nat → Text
  | 0, _ => []
  | width + 1, n => hexDigits width (n / 16) ++ [hexDigit (n % 16)]

/-- The code point of an encoded character. -/
def runeValue : Text → Nat
  | [b₀] => b₀.toNat
  | [b₀, b₁] => b₀.toNat % 32 * 64 + b₁.toNat % 64
  | [b₀, b₁, b₂] => (b₀.toNat % 16 * 64 + b₁.toNat % 64) * 64 + b₂.toNat % 64
  | [b₀, b₁, b₂, b₃] => ((b₀.toNat % 8 * 64 + b₁.toNat % 64) * 64 + b₂.toNat % 64) * 64 + b₃.toNat % 64
  | _ => 0xFFFD

/-- The escape of a byte: `\x` and two digits. -/
def escapeByte (b : UInt8) : Text := 92 :: 120 :: hexDigits 2 b.toNat

/-- A character below U+0080. -/
def quoteAscii (b : UInt8) : Text :=
  if b = 34 ∨ b = 92 then [92, b]
  else if 32 ≤ b ∧ b ≤ 126 then [b]
  else if b = 7 then [92, 97]
  else if b = 8 then [92, 98]
  else if b = 12 then [92, 102]
  else if b = 10 then [92, 110]
  else if b = 13 then [92, 114]
  else if b = 9 then [92, 116]
  else if b = 11 then [92, 118]
  else escapeByte b

section Quote

-- which code points above ASCII are printable
variable (isPrint : Nat → Bool)

/-- A character above U+007F. -/
def quoteWide (r : Text) : Text :=
  if isPrint (runeValue r) then r
  else if runeValue r < 0x10000 then 92 :: 117 :: hexDigits 4 (runeValue r)
  else 92 :: 85 :: hexDigits 8 (runeValue r)

/-- The loop of `quote`, with as many turns as `fuel`. -/
def quoteLoop : Nat → Text → Text
  | 0, _ => []
  | _, [] => []
  | fuel + 1, b :: rest =>
    if b < 0x80 then quoteAscii b ++ quoteLoop fuel rest
    else if runeWidth (b :: rest) = 0 then escapeByte b ++ quoteLoop fuel rest
    else quoteWide isPrint ((b :: rest).take (runeWidth (b :: rest))) ++
      quoteLoop fuel ((b :: rest).drop (runeWidth (b :: rest)))

/-- `strconv.Quote`. -/
def quote (s : Text) : Text := 34 :: quoteLoop isPrint s.length s ++ [34]

end Quote

/-- An ASCII character that is quoted as itself. -/
def Unescaped (b : UInt8) : Prop := 32 ≤ b ∧ b ≤ 126 ∧ b ≠ 34 ∧ b ≠ 92

instance : DecidablePred Unescaped := fun _ => inferInstanceAs (Decidable (_ ∧ _))

/-- A byte that occurs in an escape. -/
def InEscape (b : UInt8) : Prop :=
  b ∈ ([92, 34, 97, 98, 102, 110, 114, 116, 118, 120, 117, 85] : Text) ∨ 48 ≤ b ∧ b ≤ 57 ∨ 97 ≤ b ∧ b ≤ 102

instance : DecidablePred InEscape := fun _ => inferInstanceAs (Decidable (_ ∨ _))

theorem inEscape_hexDigits {width n : Nat} {b : UInt8} (h : b ∈ hexDigits width n) : InEscape b := by
  induction width generalizing n with
  | zero => cases h
  | succ width ih =>
    rcases List.mem_append.mp h with hfront | hlast
    · exact ih hfront
    · rw [List.mem_singleton.mp hlast]
      have hdigit : ∀ d < 16, InEscape (hexDigit d) := by decide
      exact hdigit _ (Nat.mod_lt _ (by decide))

/-- An escape, or a character above ASCII: nothing in it reads as an unescaped character. -/
structure Shielded (q : Text) : Prop where
  front : ∃ b rest, q = b :: rest ∧ ¬ Unescaped b
  bytes : ∀ b ∈ q, InEscape b ∨ 0x80 ≤ b

theorem not_unescaped_wide {b : UInt8} (h : 0x80 ≤ b) : ¬ Unescaped b := fun hb =>
  absurd (UInt8.le_trans h hb.2.1) (by decide)

theorem shielded_escape {q : Text} (h : ∀ b ∈ q, InEscape b) : Shielded (92 :: q) where
  front := ⟨92, q, rfl, by decide⟩
  bytes := by
    intro b hb
    rcases List.mem_cons.mp hb with rfl | hb
    · exact .inl (by decide)
    · exact .inl (h b hb)

theorem shielded_wide {q : Text} (hne : q ≠ []) (h : ∀ b ∈ q, 0x80 ≤ b) : Shielded q where
  front := by
    obtain ⟨b, rest, rfl⟩ := List.exists_cons_of_ne_nil hne
    exact ⟨b, rest, rfl, not_unescaped_wide (h b (List.mem_cons_self ..))⟩
  bytes b hb := .inr (h b hb)

theorem shielded_escapeByte (b : UInt8) : Shielded (escapeByte b) := by
  refine shielded_escape fun d hd => ?_
  rcases List.mem_cons.mp hd with rfl | hd
  · decide
  · exact inEscape_hexDigits hd

theorem quoteAscii_of_unescaped {b : UInt8} (h : Unescaped b) : quoteAscii b = [b] := by
  obtain ⟨hlow, hhigh, hquote, hslash⟩ := h
  rw [quoteAscii, if_neg (by rintro (rfl | rfl) <;> contradiction), if_pos ⟨hlow, hhigh⟩]

theorem shielded_quoteAscii {b : UInt8} (h : ¬ Unescaped b) : Shielded (quoteAscii b) := by
  unfold quoteAscii
  split
  · rename_i hquoted
    refine shielded_escape fun d hd => ?_
    rw [List.mem_singleton.mp hd]
    rcases hquoted with rfl | rfl
    · decide
    · decide
  · rename_i hquoted
    rw [if_neg fun hrange => h ⟨hrange.1, hrange.2, fun h => hquoted (.inl h), fun h => hquoted (.inr h)⟩]
    split_ifs
    case neg => exact shielded_escapeByte b
    all_goals exact shielded_escape (by decide +kernel)

theorem wide_of_continues {b : UInt8} (h : continues b = true) : 0x80 ≤ b := by
  simp only [continues, Bool.and_eq_true, decide_eq_true_eq] at h
  exact h.1

theorem wide_of_secondOk {b₀ b₁ : UInt8} (h : secondOk b₀ b₁ = true) : 0x80 ≤ b₁ := by
  unfold secondOk at h
  split_ifs at h
  case neg => exact wide_of_continues h
  all_goals
    simp only [Bool.and_eq_true, decide_eq_true_eq] at h
    exact UInt8.le_trans (by decide) h.1

theorem wide_of_tailOk {b₀ : UInt8} {rest : Text} (h : tailOk b₀ rest = true) : ∀ d ∈ rest, 0x80 ≤ d := by
  cases rest with
  | nil => exact fun _ hd => nomatch hd
  | cons b₁ rest =>
    simp only [tailOk, Bool.and_eq_true, List.all_eq_true] at h
    intro d hd
    rcases List.mem_cons.mp hd with rfl | hd
    · exact wide_of_secondOk h.1
    · exact wide_of_continues (h.2 d hd)

/-- The bytes of a character above ASCII. -/
theorem wide_take_runeWidth {b : UInt8} (rest : Text) (h : ¬ b < 0x80) :
    ∀ d ∈ (b :: rest).take (runeWidth (b :: rest)), 0x80 ≤ d := by
  rw [runeWidth_cons]
  split
  · rename_i hchar
    intro d hd
    obtain ⟨width, hwidth⟩ | hzero : (∃ k, leadWidth b = k + 1) ∨ leadWidth b = 0 := by
      cases leadWidth b with
      | zero => exact .inr rfl
      | succ k => exact .inl ⟨k, rfl⟩
    · rw [hwidth, List.take_succ_cons] at hd
      rw [hwidth, Nat.add_sub_cancel] at hchar
      rcases List.mem_cons.mp hd with rfl | hd
      · exact UInt8.not_lt.mp h
      · exact wide_of_tailOk hchar.2 d hd
    · rw [hzero] at hd
      cases hd
  · exact fun _ hd => nomatch hd

theorem shielded_quoteWide (isPrint : Nat → Bool) {r : Text} (hne : r ≠ []) (h : ∀ d ∈ r, 0x80 ≤ d) :
    Shielded (quoteWide isPrint r) := by
  unfold quoteWide
  split_ifs
  · exact shielded_wide hne h
  all_goals
    refine shielded_escape fun d hd => ?_
    rcases List.mem_cons.mp hd with rfl | hd
    · decide
    · exact inEscape_hexDigits hd

/-! ## Occurrences in a quoted text -/

section QuotedOccurrences

variable {isPrint : Nat → Bool}

/-- One turn of the loop: an unescaped character is copied, anything else is replaced as a whole. -/
theorem quoteLoop_cases (isPrint : Nat → Bool) (fuel : Nat) (b : UInt8) (rest : Text) :
    (Unescaped b ∧ quoteLoop isPrint (fuel + 1) (b :: rest) = b :: quoteLoop isPrint fuel rest) ∨
    ∃ char behind q, b :: rest = char ++ behind ∧ char ≠ [] ∧ (∀ d ∈ char, ¬ Unescaped d) ∧ Shielded q ∧
      quoteLoop isPrint (fuel + 1) (b :: rest) = q ++ quoteLoop isPrint fuel behind := by
  rw [quoteLoop]
  by_cases hascii : b < 0x80
  · rw [if_pos hascii]
    by_cases hplain : Unescaped b
    · rw [quoteAscii_of_unescaped hplain]
      exact .inl ⟨hplain, rfl⟩
    · refine .inr ⟨[b], rest, quoteAscii b, rfl, List.cons_ne_nil _ _, fun d hd => ?_,
        shielded_quoteAscii hplain, rfl⟩
      rwa [List.mem_singleton.mp hd]
  · rw [if_neg hascii]
    have hwide := not_unescaped_wide (UInt8.not_lt.mp hascii)
    by_cases hinvalid : runeWidth (b :: rest) = 0
    · rw [if_pos hinvalid]
      refine .inr ⟨[b], rest, escapeByte b, rfl, List.cons_ne_nil _ _, fun d hd => ?_,
        shielded_escapeByte b, rfl⟩
      rwa [List.mem_singleton.mp hd]
    · rw [if_neg hinvalid]
      have hne : (b :: rest).take (runeWidth (b :: rest)) ≠ [] := by
        rw [Ne, List.take_eq_nil_iff, not_or]
        exact ⟨hinvalid, List.cons_ne_nil _ _⟩
      have hbytes := wide_take_runeWidth rest hascii
      exact .inr ⟨_, _, _, (List.take_append_drop _ _).symm, hne, fun d hd => not_unescaped_wide (hbytes d hd),
        shielded_quoteWide isPrint hne hbytes, rfl⟩

/-- In front of a quoted text stands what stands in front of the text, as far as it is unescaped. -/
theorem prefix_quoteLoop_iff (isPrint : Nat → Bool) {m s : Text} (hm : ∀ b ∈ m, Unescaped b) {fuel : Nat}
    (hfuel : s.length ≤ fuel) : m <+: quoteLoop isPrint fuel s ↔ m <+: s := by
  induction m generalizing fuel s with
  | nil => exact ⟨fun _ => List.nil_prefix, fun _ => List.nil_prefix⟩
  | cons c m ih =>
    cases s with
    | nil => cases fuel <;> rfl
    | cons b rest =>
      obtain ⟨fuel, rfl⟩ : ∃ k, fuel = k + 1 := ⟨fuel - 1, by rw [List.length_cons] at hfuel; omega⟩
      have hc := hm c (List.mem_cons_self ..)
      rcases quoteLoop_cases isPrint fuel b rest with ⟨-, hcopy⟩ | ⟨char, behind, q, hsplit, hne, hchar, hq, hloop⟩
      · rw [hcopy, List.cons_prefix_cons, List.cons_prefix_cons,
          ih (fun d hd => hm d (List.mem_cons_of_mem _ hd)) (Nat.le_of_succ_le_succ hfuel)]
      · -- neither the character nor what replaces it begins with an unescaped byte
        obtain ⟨d, char, rfl⟩ := List.exists_cons_of_ne_nil hne
        obtain ⟨e, q, rfl, he⟩ := hq.front
        rw [hloop, hsplit]
        constructor
        · intro hprefix
          exact absurd ((List.cons_prefix_cons.mp hprefix).1 ▸ hc) he
        · intro hprefix
          exact absurd ((List.cons_prefix_cons.mp hprefix).1 ▸ hc) (hchar d (List.mem_cons_self ..))

theorem infix_quoteLoop_iff {x : UInt8} {m s : Text} (hm : ∀ b ∈ x :: m, Unescaped b) (hx : ¬ InEscape x)
    {fuel : Nat} (hfuel : s.length ≤ fuel) :
    x :: m <:+: quoteLoop isPrint fuel s ↔ x :: m <:+: s := by
  have hplain := hm x (List.mem_cons_self ..)
  induction fuel generalizing s with
  | zero =>
    rw [List.length_eq_zero_iff.mp (Nat.le_zero.mp hfuel)]
    rfl
  | succ fuel ih =>
    cases s with
    | nil => rfl
    | cons b rest =>
      rcases quoteLoop_cases isPrint fuel b rest with ⟨-, hcopy⟩ | ⟨char, behind, q, hsplit, hne, hchar, hq, hloop⟩
      · have hfront := prefix_quoteLoop_iff isPrint hm hfuel
        rw [hcopy] at hfront
        rw [hcopy, List.infix_cons_iff, List.infix_cons_iff, hfront]
        exact or_congr_right (ih (Nat.le_of_succ_le_succ hfuel))
      · have hshort : behind.length ≤ fuel := by
          have hlen := congrArg List.length hsplit
          have hpos := List.length_pos_iff.mpr hne
          rw [List.length_append] at hlen
          omega
        have hclear : x ∉ q := fun hmem => (hq.bytes x hmem).elim hx fun hwide =>
          not_unescaped_wide hwide hplain
        rw [hloop, hsplit, infix_append_of_clear (clear_of_not_mem hclear),
          infix_append_of_clear (clear_of_not_mem fun hmem => hchar x hmem hplain)]
        exact ih hshort

/-- **Quoting hides no unescaped text**: one that begins with a byte of no escape is found in a quoted
string exactly if it is found in the string, and it does not reach beyond the closing quote. -/
theorem infix_quote_append_iff {x : UInt8} {m s : Text} (hm : ∀ b ∈ x :: m, Unescaped b) (hx : ¬ InEscape x)
    (behind : Text) :
    x :: m <:+: quote isPrint s ++ behind ↔ x :: m <:+: s ∨ x :: m <:+: behind := by
  have hquote : (34 : UInt8) ∉ x :: m := fun hmem => (hm 34 hmem).2.2.1 rfl
  have hopen : x :: m <:+: 34 :: quoteLoop isPrint s.length s ↔ x :: m <:+: s := by
    rw [← List.nil_append (34 :: _), infix_append_cons_iff hquote, List.infix_nil,
      or_iff_right (List.cons_ne_nil _ _)]
    exact infix_quoteLoop_iff hm hx (Nat.le_refl _)
  unfold quote
  rw [List.append_assoc, List.singleton_append, infix_append_cons_iff hquote, hopen]

end QuotedOccurrences

end OrcaBlocks.Lib
