/-
# OrcaBlocks.Lib.Text — byte strings cut into words, and settings looked up among them.

A string is a list of bytes, in whatever encoding. White space is what Unicode calls so, recognised by its
UTF-8 encoding: `spaceWidth` is the length of the white space a string begins with. Each encoding begins
with a byte that never continues another character, so looking for them byte by byte finds the same as
decoding characters, also where the bytes are not UTF-8 at all.

`fields` cuts a string at white space. `fields_spaced` is its inverse on words: what was joined with
blanks is cut where it was joined. A SETTING is a word `key=value`; `settingValue` returns the value of the
first word that begins with `key=`, and `settingValue_settings` says that among words written as settings
it is the lookup of the key.
-/
import Mathlib

namespace OrcaBlocks.Lib

abbrev Text := List UInt8

/-- The bytes of a literal of ASCII characters. -/
def ascii (s : String) : Text := s.toList.map fun c => UInt8.ofNat c.toNat

theorem ascii_ofList (cs : List Char) :
    ascii (String.ofList cs) = cs.map fun c => UInt8.ofNat c.toNat := by
  simp [ascii]

/-- The bytes of a string. -/
def utf8 (s : String) : Text := s.toByteArray.data.toList

theorem utf8_injective : Function.Injective utf8 := fun _ _ h =>
  String.toByteArray_inj.mp (ByteArray.ext (Array.toList_inj.mp h))

/-! ## White space -/

def asciiSpace (b : UInt8) : Bool := (9 ≤ b && b ≤ 13) || b == 32

/-- U+0085 and U+00A0. -/
def spaceOfTwo (b₀ b₁ : UInt8) : Bool := b₀ == 0xC2 && (b₁ == 0x85 || b₁ == 0xA0)

/-- U+1680, U+2000 to U+200A, U+2028, U+2029, U+202F, U+205F and U+3000. -/
def spaceOfThree (b₀ b₁ b₂ : UInt8) : Bool :=
  (b₀ == 0xE1 && b₁ == 0x9A && b₂ == 0x80) ||
  (b₀ == 0xE2 && b₁ == 0x80 &&
    ((0x80 ≤ b₂ && b₂ ≤ 0x8A) || b₂ == 0xA8 || b₂ == 0xA9 || b₂ == 0xAF)) ||
  (b₀ == 0xE2 && b₁ == 0x81 && b₂ == 0x9F) ||
  (b₀ == 0xE3 && b₁ == 0x80 && b₂ == 0x80)

/-- The length of the white-space character the string begins with; `0` if it begins with none. -/
def spaceWidth : Text → Nat
  | [] => 0
  | [b₀] => if asciiSpace b₀ then 1 else 0
  | [b₀, b₁] => if asciiSpace b₀ then 1 else if spaceOfTwo b₀ b₁ then 2 else 0
  | b₀ :: b₁ :: b₂ :: _ =>
    if asciiSpace b₀ then 1
    else if spaceOfTwo b₀ b₁ then 2
    else if spaceOfThree b₀ b₁ b₂ then 3
    else 0

/-- An ASCII byte that is not white space. -/
def Plain (b : UInt8) : Prop := b < 0x80 ∧ asciiSpace b = false

instance : DecidablePred Plain := fun _ => inferInstanceAs (Decidable (_ ∧ _))

theorem plain_ofNat {n : Nat} (hlo : 32 < n) (hhi : n < 128) : Plain (UInt8.ofNat n) := by
  have hn : (UInt8.ofNat n).toNat = n := by
    rw [UInt8.toNat_ofNat']
    omega
  have hcontrol : ¬ UInt8.ofNat n ≤ 13 := by
    rw [UInt8.le_iff_toNat_le, hn]
    show ¬ n ≤ 13
    omega
  have hblank : UInt8.ofNat n ≠ 32 := by
    rw [Ne, ← UInt8.toNat_inj, hn]
    show n ≠ 32
    omega
  constructor
  · rw [UInt8.lt_iff_toNat_lt, hn]
    exact hhi
  · simp [asciiSpace, hcontrol, hblank]

/-- No white space anywhere. -/
def Spaceless : Text → Prop
  | [] => True
  | b :: rest => spaceWidth (b :: rest) = 0 ∧ Spaceless rest

instance decidableSpaceless : DecidablePred Spaceless
  | [] => instDecidableTrue
  | _ :: rest =>
    have : Decidable (Spaceless rest) := decidableSpaceless rest
    inferInstanceAs (Decidable (_ = 0 ∧ _))

theorem plain_not_space : ∀ b : UInt8, Plain b →
    asciiSpace b = false ∧ (∀ b₁, spaceOfTwo b b₁ = false) ∧ ∀ b₁ b₂, spaceOfThree b b₁ b₂ = false := by
  rintro b ⟨hlt, hspace⟩
  have hne : b ≠ 0xC2 ∧ b ≠ 0xE1 ∧ b ≠ 0xE2 ∧ b ≠ 0xE3 := by
    refine ⟨?_, ?_, ?_, ?_⟩
    all_goals
      rintro rfl
      exact absurd hlt (by decide)
  refine ⟨hspace, fun b₁ => ?_, fun b₁ b₂ => ?_⟩
  · simp [spaceOfTwo, hne.1]
  · simp [spaceOfThree, hne.2.1, hne.2.2.1, hne.2.2.2]

theorem spaceWidth_plain {b : UInt8} (hb : Plain b) (rest : Text) : spaceWidth (b :: rest) = 0 := by
  obtain ⟨h₁, h₂, h₃⟩ := plain_not_space b hb
  rcases rest with _ | ⟨b₁, _ | ⟨b₂, rest⟩⟩
  · simp [spaceWidth, h₁]
  · simp [spaceWidth, h₁, h₂]
  · simp [spaceWidth, h₁, h₂, h₃]

/-- A blank behind a string does not complete a white-space character in it. -/
theorem spaceWidth_append_blank (b : UInt8) (rest tail : Text) :
    spaceWidth (b :: rest ++ 32 :: tail) = spaceWidth (b :: rest) := by
  have htwo : ∀ b₀, spaceOfTwo b₀ 32 = false := by intro b₀; simp [spaceOfTwo]
  have hthree : ∀ b₀ b₁, spaceOfThree b₀ b₁ 32 = false := by intro b₀ b₁; simp [spaceOfThree]
  have hthree' : ∀ b₀ b₂, spaceOfThree b₀ 32 b₂ = false := by intro b₀ b₂; simp [spaceOfThree]
  rcases rest with _ | ⟨b₁, _ | ⟨b₂, rest⟩⟩
  · rcases tail with _ | ⟨c, tail⟩
    · simp [spaceWidth, htwo]
    · simp [spaceWidth, htwo, hthree']
  · simp [spaceWidth, hthree]
  · simp [spaceWidth]

theorem Spaceless.append_plain {front w : Text} (hfront : ∀ b ∈ front, Plain b) (hw : Spaceless w) :
    Spaceless (front ++ w) := by
  induction front with
  | nil => exact hw
  | cons b front ih =>
    obtain ⟨hb, hrest⟩ := List.forall_mem_cons.mp hfront
    exact ⟨spaceWidth_plain hb _, ih hrest⟩

theorem spaceless_of_plain {w : Text} (hw : ∀ b ∈ w, Plain b) : Spaceless w := by
  have h := Spaceless.append_plain hw (w := []) trivial
  rwa [List.append_nil] at h

/-! ## Trimming -/

/-- The length of the white-space character a string ends with, given the string backwards. -/
def spaceWidthLast : Text → Nat
  | [] => 0
  | [b₀] => if asciiSpace b₀ then 1 else 0
  | [b₁, b₀] => if asciiSpace b₁ then 1 else if spaceOfTwo b₀ b₁ then 2 else 0
  | b₂ :: b₁ :: b₀ :: _ =>
    if asciiSpace b₂ then 1
    else if spaceOfTwo b₁ b₂ then 2
    else if spaceOfThree b₀ b₁ b₂ then 3
    else 0

/-- Drop characters from the front as long as `width` finds one. -/
def dropChars (width : Text → Nat) : Nat → Text → Text
  | 0, s => s
  | fuel + 1, s => if width s = 0 then s else dropChars width fuel (s.drop (width s))

/-- `strings.TrimSpace`. -/
def trimSpace (s : Text) : Text :=
  let s := dropChars spaceWidth s.length s
  (dropChars spaceWidthLast s.length s.reverse).reverse

/-! ## Words -/

/-- A field that was read, if it is one. -/
def flush (current : Text) : List Text := if current = [] then [] else [current]

/-- The loop of `fields`: `skip` bytes of a white-space character are still to be skipped. -/
def fieldsLoop : Nat → Text → Text → List Text
  | _, current, [] => flush current
  | skip + 1, current, _ :: rest => fieldsLoop skip current rest
  | 0, current, b :: rest =>
    match spaceWidth (b :: rest) with
    | 0 => fieldsLoop 0 (current ++ [b]) rest
    | width + 1 => flush current ++ fieldsLoop width [] rest

/-- `strings.Fields`. -/
def fields (s : Text) : List Text := fieldsLoop 0 [] s

/-- Each word behind a blank. -/
def spaced (words : List Text) : Text := words.flatMap fun word => 32 :: word

theorem spaced_append (ws ws' : List Text) : spaced (ws ++ ws') = spaced ws ++ spaced ws' :=
  List.flatMap_append

/-- A word is read as a whole, up to the end or the blank behind it. -/
theorem fieldsLoop_word {w : Text} (hw : Spaceless w) (current : Text) {rest : Text}
    (hrest : rest = [] ∨ ∃ tail, rest = 32 :: tail) :
    fieldsLoop 0 current (w ++ rest) = fieldsLoop 0 (current ++ w) rest := by
  induction w generalizing current with
  | nil => rw [List.nil_append, List.append_nil]
  | cons b w ih =>
    have hwidth : spaceWidth (b :: (w ++ rest)) = 0 := by
      rw [← hw.1]
      obtain rfl | ⟨tail, rfl⟩ := hrest
      · rw [List.append_nil]
      · exact spaceWidth_append_blank b w tail
    rw [List.cons_append, fieldsLoop, hwidth]
    dsimp only
    rw [ih hw.2, List.append_assoc, List.singleton_append]

theorem fields_word {w : Text} (hne : w ≠ []) (hw : Spaceless w) : fields w = [w] := by
  have hloop := fieldsLoop_word hw [] (Or.inl rfl)
  rw [List.append_nil, List.nil_append] at hloop
  rw [fields, hloop, fieldsLoop, flush, if_neg hne]

/-- The first word of a line is cut off at the blank. -/
theorem fields_cons {w : Text} (hne : w ≠ []) (hw : Spaceless w) (rest : Text) :
    fields (w ++ 32 :: rest) = w :: fields rest := by
  have hblank : spaceWidth (32 :: rest) = 1 := by
    rcases rest with _ | ⟨b₁, _ | ⟨b₂, rest⟩⟩
    all_goals rfl
  rw [fields, fieldsLoop_word hw [] (Or.inr ⟨rest, rfl⟩), List.nil_append, fieldsLoop, hblank]
  dsimp only
  rw [flush, if_neg hne]
  rfl

/-- **What was joined with blanks is cut where it was joined.** -/
theorem fields_spaced {word : Text} {words : List Text}
    (hwords : ∀ w ∈ word :: words, w ≠ [] ∧ Spaceless w) :
    fields (word ++ spaced words) = word :: words := by
  induction words generalizing word with
  | nil =>
    obtain ⟨hne, hword⟩ := hwords word List.mem_cons_self
    show fields (word ++ []) = [word]
    rw [List.append_nil, fields_word hne hword]
  | cons w words ih =>
    obtain ⟨⟨hne, hword⟩, hrest⟩ := List.forall_mem_cons.mp hwords
    show fields (word ++ 32 :: (w ++ spaced words)) = _
    rw [fields_cons hne hword, ih hrest]

/-- A part cut out between separators holds none. -/
theorem not_mem_of_mem_splitOn {sep : UInt8} {s part : Text} (h : part ∈ s.splitOn sep) :
    sep ∉ part := by
  induction s generalizing part with
  | nil =>
    rw [List.splitOn_nil, List.mem_singleton] at h
    rw [h]
    exact List.not_mem_nil
  | cons b s ih =>
    rw [List.splitOn_cons_eq_if_modifyHead] at h
    by_cases hb : b = sep
    · rw [if_pos (beq_iff_eq.mpr hb)] at h
      rcases List.mem_cons.mp h with rfl | h
      · exact List.not_mem_nil
      · exact ih h
    · rw [if_neg (by simpa using hb)] at h
      cases hparts : s.splitOn sep with
      | nil => exact absurd hparts (List.splitOn_ne_nil sep s)
      | cons first parts =>
        rw [hparts] at h ih
        rcases List.mem_cons.mp h with rfl | h
        · rintro (_ | ⟨_, hmem⟩)
          · exact hb rfl
          · exact ih List.mem_cons_self hmem
        · exact ih (List.mem_cons_of_mem _ h)

/-! ## Settings -/

/-- The word `key=value`. -/
def setting (key value : Text) : Text := key ++ 61 :: value

/-- The value of the first word that begins with `key=`; nothing if none does. -/
def settingValue (words : List Text) (key : Text) : Text :=
  match words.find? fun word => (key ++ [61]).isPrefixOf word with
  | some word => word.drop (key.length + 1)
  | none => []

theorem isPrefixOf_setting {key name value : Text} (hkey : 61 ∉ key) (hname : 61 ∉ name) :
    (key ++ [61]).isPrefixOf (setting name value) = true ↔ name = key := by
  rw [List.isPrefixOf_iff_prefix, setting]
  constructor
  · intro h
    induction key generalizing name with
    | nil =>
      cases name with
      | nil => rfl
      | cons b name =>
        obtain ⟨rfl, -⟩ := List.cons_prefix_cons.mp h
        exact absurd List.mem_cons_self hname
    | cons a key ih =>
      cases name with
      | nil =>
        obtain ⟨rfl, -⟩ := List.cons_prefix_cons.mp h
        exact absurd List.mem_cons_self hkey
      | cons b name =>
        obtain ⟨rfl, hrest⟩ := List.cons_prefix_cons.mp h
        rw [ih (fun hm => hkey (List.mem_cons_of_mem _ hm))
          (fun hm => hname (List.mem_cons_of_mem _ hm)) hrest]
  · rintro rfl
    exact ⟨value, by simp⟩

/-- **Among settings, behind words that do not begin so, the first with the key gives the value.** -/
theorem settingValue_settings {words : List Text} {settings : List (Text × Text)} {key : Text}
    (hwords : ∀ word ∈ words, (key ++ [61]).isPrefixOf word = false) (hkey : 61 ∉ key)
    (hnames : ∀ s ∈ settings, 61 ∉ s.1) :
    settingValue (words ++ settings.map fun s => setting s.1 s.2) key =
      (settings.lookup key).getD [] := by
  have hnone : words.find? (fun word => (key ++ [61]).isPrefixOf word) = none :=
    List.find?_eq_none.mpr fun word hword => by simp [hwords word hword]
  rw [settingValue, List.find?_append, hnone, Option.none_or]
  induction settings with
  | nil => rfl
  | cons s settings ih =>
    obtain ⟨hs, hrest⟩ := List.forall_mem_cons.mp hnames
    have hiff : (key ++ [61]).isPrefixOf (setting s.1 s.2) = true ↔ s.1 = key :=
      isPrefixOf_setting hkey hs
    rw [List.map_cons, List.find?_cons, List.lookup_cons]
    by_cases heq : s.1 = key
    · rw [hiff.mpr heq, beq_iff_eq.mpr heq.symm]
      simp [setting, heq]
    · rw [Bool.eq_false_iff.mpr (mt hiff.mp heq), beq_eq_false_iff_ne.mpr (Ne.symm heq)]
      exact ih hrest

end OrcaBlocks.Lib
