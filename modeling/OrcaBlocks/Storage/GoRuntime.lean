/-
# OrcaBlocks.Storage.GoRuntime — a `Platform` as the Go runtime provides it.

The results of this development hold for every `Platform`. This module gives one: SHA-256, UUIDs in
the text form of version 4, `encoding/json` on maps of strings that need no escaping, a clock that
ticks, a stable sort and a map iterated in insertion order. It is what the concrete runs of the other
modules are evaluated on, and it shows that the laws a `Platform` carries can be met.

`marshalIndent` writes the layout of `json.MarshalIndent(m, "", "  ")`: keys in order, one entry a
line. Read as segments between quotes, that is `{`, then key, colon, value, comma for each entry, then
`}`; the decoder works on the segments, so the round trip is one induction over the entries.
-/
import OrcaBlocks.Lib.Sha256
import OrcaBlocks.Storage.Invariant

namespace OrcaBlocks.Storage

open OrcaBlocks.Lib

namespace GoRuntime

/-! ## Text -/

/-- ASCII text as bytes. -/
def encodeText (s : List Char) : Bytes := s.map fun c => UInt8.ofNat c.toNat

def decodeText (b : Bytes) : List Char := b.map fun x => Char.ofNat x.toNat

/-- The character is one byte, and not a quote. -/
def PlainChar (c : Char) : Prop := c.toNat < 128 ∧ c ≠ '"'

instance : DecidablePred PlainChar := fun c =>
  inferInstanceAs (Decidable (c.toNat < 128 ∧ c ≠ '"'))

theorem decodeText_encodeText {s : List Char} (h : ∀ c ∈ s, c.toNat < 128) :
    decodeText (encodeText s) = s := by
  unfold decodeText encodeText
  rw [List.map_map]
  refine (List.map_congr_left fun c hc => ?_).trans (List.map_id s)
  have hlt := h c hc
  simp only [Function.comp_apply, UInt8.toNat_ofNat', id_eq]
  rw [Nat.mod_eq_of_lt (by omega)]
  exact Char.ofNat_toNat c

theorem plainChar_of_all {l : List Char} (h : (l.all fun c => PlainChar c) = true) :
    ∀ c ∈ l, PlainChar c := by
  simpa using h

/-- The characters of a string that needs no escaping. -/
theorem plainChar_of_plainString {s : String} (h : PlainString s) : ∀ c ∈ s.toList, PlainChar c := by
  intro c hc
  have hval : c.toNat = c.val.toNat := rfl
  refine ⟨?_, ?_⟩
  · rcases h c hc with halnum | rfl
    · simp only [Char.isAlphanum, Char.isAlpha, Char.isUpper, Char.isLower, Char.isDigit,
        Bool.or_eq_true, Bool.and_eq_true, decide_eq_true_eq, ge_iff_le, UInt32.le_iff_toNat_le] at halnum
      rw [hval]
      simp at halnum
      omega
    · decide
  · rintro rfl
    rcases h '"' hc with hq | hq
    · exact absurd hq (by decide)
    · exact absurd hq (by decide)

/-! ## JSON -/

/-- What stands between the quotes of an object's entries, after its opening brace. -/
def segments : List (Sigma fun _ : String => String) → List (List Char)
  | [] => []
  | [e] => [e.1.toList, [':', ' '], e.2.toList, ['\n', '\x7d']]
  | e :: e' :: rest =>
    e.1.toList :: [':', ' '] :: e.2.toList :: [',', '\n', ' ', ' '] :: segments (e' :: rest)

/-- The entries in the order of their keys. -/
def sortedEntries (w : Wire) : List (Sigma fun _ : String => String) :=
  w.entries.insertionSort fun a b => a.1 ≤ b.1

/-- `json.MarshalIndent(w, "", "  ")`, on strings that need no escaping. -/
def marshalIndent (w : Wire) : Bytes :=
  encodeText (if sortedEntries w = [] then ['\x7b', '\x7d']
    else List.intercalate ['"'] (['\x7b', '\n', ' ', ' '] :: segments (sortedEntries w)))

/-- JSON's white space is dropped from what stands between strings. -/
def punctuation (s : List Char) : List Char :=
  s.filter fun c => !(c == ' ' || c == '\n' || c == '\r' || c == '\t')

/-- The entries of an object, from its first key on. -/
def parseEntries : List (List Char) → Wire → Option Wire
  | key :: colon :: value :: sep :: rest, acc =>
    if punctuation colon = [':'] ∧ '\\' ∉ key ∧ '\\' ∉ value then
      let acc := acc.insert (String.ofList key) (String.ofList value)
      if punctuation sep = ['\x7d'] ∧ rest = [] then some acc
      else if punctuation sep = [','] then parseEntries rest acc
      else none
    else none
  | _, _ => none

/-- `json.Unmarshal` into a `map[string]string`, on strings without escapes. -/
def unmarshal (b : Bytes) : Option Wire :=
  match (decodeText b).splitOn '"' with
  | [only] => if punctuation only = ['\x7b', '\x7d'] then some ∅ else none
  | first :: rest => if punctuation first = ['\x7b'] then parseEntries rest ∅ else none
  | [] => none

/-- The strings of an entry need no escaping. -/
def PlainEntry (e : Sigma fun _ : String => String) : Prop := PlainString e.1 ∧ PlainString e.2

theorem segments_ne_nil {l : List (Sigma fun _ : String => String)} (h : l ≠ []) :
    segments l ≠ [] := by
  cases l with
  | nil => exact absurd rfl h
  | cons e rest =>
    cases rest with
    | nil => simp [segments]
    | cons e' rest => simp [segments]

theorem plainChar_segments : ∀ (l : List (Sigma fun _ : String => String)), (∀ e ∈ l, PlainEntry e) →
    ∀ s ∈ segments l, ∀ c ∈ s, PlainChar c := by
  have hcolon : ∀ c ∈ [':', ' '], PlainChar c := plainChar_of_all (by decide)
  have hcomma : ∀ c ∈ [',', '\n', ' ', ' '], PlainChar c := plainChar_of_all (by decide)
  have hclose : ∀ c ∈ ['\n', '\x7d'], PlainChar c := plainChar_of_all (by decide)
  intro l
  induction l with
  | nil =>
    intro _ s hs
    cases hs
  | cons e rest ih =>
    intro hplain s hs
    have he := hplain e List.mem_cons_self
    have hkey := plainChar_of_plainString he.1
    have hvalue := plainChar_of_plainString he.2
    cases rest with
    | nil =>
      simp only [segments, List.mem_cons, List.not_mem_nil, or_false] at hs
      rcases hs with rfl | rfl | rfl | rfl
      · exact hkey
      · exact hcolon
      · exact hvalue
      · exact hclose
    | cons e' rest =>
      simp only [segments, List.mem_cons] at hs
      rcases hs with rfl | rfl | rfl | rfl | hs
      · exact hkey
      · exact hcolon
      · exact hvalue
      · exact hcomma
      · exact ih (fun x hx => hplain x (List.mem_cons_of_mem _ hx)) s
          (by simpa only [List.mem_cons] using hs)

theorem backslash_not_mem {s : String} (h : PlainString s) : '\\' ∉ s.toList := by
  intro hc
  rcases h _ hc with hq | hq
  · exact absurd hq (by decide)
  · exact absurd hq (by decide)

theorem parseEntries_segments : ∀ (l : List (Sigma fun _ : String => String)) (acc : Wire),
    l ≠ [] → (∀ e ∈ l, PlainEntry e) →
      parseEntries (segments l) acc = some (l.foldl (fun out e => out.insert e.1 e.2) acc) := by
  intro l
  induction l with
  | nil =>
    intro acc h _
    exact absurd rfl h
  | cons e rest ih =>
    intro acc _ hplain
    have he := hplain e List.mem_cons_self
    have hcheck : punctuation [':', ' '] = [':'] ∧ '\\' ∉ e.1.toList ∧ '\\' ∉ e.2.toList :=
      ⟨by decide, backslash_not_mem he.1, backslash_not_mem he.2⟩
    cases rest with
    | nil =>
      simp only [segments, parseEntries, if_pos hcheck, String.ofList_toList]
      rw [if_pos (by decide)]
      rfl
    | cons e' rest =>
      have hrest := ih (acc.insert e.1 e.2) (by simp) fun x hx =>
        hplain x (List.mem_cons_of_mem _ hx)
      simp only [segments, parseEntries, if_pos hcheck, String.ofList_toList]
      rw [if_neg (fun h => absurd h.1 (by decide)), if_pos (by decide), hrest]
      rfl

theorem mem_intercalate {sep : List Char} {c : Char} : ∀ {ls : List (List Char)},
    c ∈ List.intercalate sep ls → c ∈ sep ∨ ∃ l ∈ ls, c ∈ l := by
  intro ls
  induction ls with
  | nil =>
    intro hc
    simp [List.intercalate] at hc
  | cons l rest ih =>
    intro hc
    cases rest with
    | nil => exact Or.inr ⟨l, List.mem_cons_self, by simpa [List.intercalate] using hc⟩
    | cons l' rest =>
      have hsplit : c ∈ l ∨ c ∈ sep ∨ c ∈ List.intercalate sep (l' :: rest) := by
        simpa [List.intercalate] using hc
      rcases hsplit with h | h | h
      · exact Or.inr ⟨l, List.mem_cons_self, h⟩
      · exact Or.inl h
      · rcases ih h with h | ⟨l'', hl, hcl⟩
        · exact Or.inl h
        · exact Or.inr ⟨l'', List.mem_cons_of_mem _ hl, hcl⟩

theorem unmarshal_marshalIndent (w : Wire) (hplain : ∀ e ∈ w.entries, PlainEntry e) :
    ∃ w', unmarshal (marshalIndent w) = some w' ∧ ∀ k, w'.lookup k = w.lookup k := by
  have hperm : (sortedEntries w).Perm w.entries := List.perm_insertionSort _ _
  have hnodup : (sortedEntries w).NodupKeys := (List.perm_nodupKeys hperm).mpr w.nodupKeys
  have hplain' : ∀ e ∈ sortedEntries w, PlainEntry e := fun e he => hplain e (hperm.mem_iff.mp he)
  have hlookup : ∀ k, (sortedEntries w).dlookup k = w.lookup k :=
    fun k => List.perm_dlookup k hnodup hperm
  by_cases hempty : sortedEntries w = []
  · refine ⟨∅, ?_, ?_⟩
    · rw [marshalIndent, if_pos hempty]
      rfl
    · intro k
      rw [← hlookup, hempty]
      rfl
  · have hsegs : ∀ s ∈ ['\x7b', '\n', ' ', ' '] :: segments (sortedEntries w),
        ∀ c ∈ s, PlainChar c := by
      intro s hs
      rcases List.mem_cons.mp hs with rfl | hs
      · exact plainChar_of_all (by decide)
      · exact plainChar_segments _ hplain' s hs
    have hascii : ∀ c ∈ List.intercalate ['"']
        (['\x7b', '\n', ' ', ' '] :: segments (sortedEntries w)), c.toNat < 128 := by
      intro c hc
      rcases mem_intercalate hc with hq | ⟨s, hs, hc⟩
      · obtain rfl := List.mem_singleton.mp hq
        decide
      · exact (hsegs s hs c hc).1
    have hsplit : (decodeText (marshalIndent w)).splitOn '"' =
        ['\x7b', '\n', ' ', ' '] :: segments (sortedEntries w) := by
      rw [marshalIndent, if_neg hempty, decodeText_encodeText hascii]
      exact List.splitOn_intercalate '"' (fun s hs hq => (hsegs s hs '"' hq).2 rfl) (by simp)
    obtain ⟨s, rest, hrest⟩ := List.exists_cons_of_ne_nil (segments_ne_nil hempty)
    refine ⟨(sortedEntries w).foldl (fun out e => out.insert e.1 e.2) ∅, ?_, ?_⟩
    · unfold unmarshal
      rw [hsplit, hrest]
      simp only
      rw [if_pos (by decide), ← hrest]
      exact parseEntries_segments _ ∅ hempty hplain'
    · intro k
      have hfold := lookup_foldl_insert Function.injective_id k (sortedEntries w) ∅ hnodup
      simp only [id_eq] at hfold
      rw [hfold, hlookup]
      simp

/-! ## The platform -/

/-- The `n`-th UUID: version 4, with twelve digits that count up. -/
def uuid (n : Nat) : String := "00000000-0000-4000-8000-" ++ (100000000000 + n).repr

theorem uuid_injective : Function.Injective uuid := by
  intro m n h
  unfold uuid at h
  rw [String.append_right_inj] at h
  exact Nat.add_left_cancel (repr_injective h)

theorem uuid_ne_empty (n : Nat) : uuid n ≠ "" := by
  intro h
  unfold uuid at h
  rw [String.append_eq_empty_iff] at h
  exact absurd h.1 (by decide)

end GoRuntime

/-- The Go runtime. -/
def goRuntime : Platform where
  sum256 := Sha256.sum256
  sum256_length := Sha256.length_sum256
  uuid := GoRuntime.uuid
  uuid_injective := GoRuntime.uuid_injective
  uuid_ne_empty := GoRuntime.uuid_ne_empty
  marshalIndent := GoRuntime.marshalIndent
  unmarshal := GoRuntime.unmarshal
  unmarshal_marshalIndent := GoRuntime.unmarshal_marshalIndent
  now := fun n => n
  sortItems := List.insertionSort fun a b => a.modTime ≤ b.modTime
  sortItems_perm := List.perm_insertionSort _
  sortItems_sorted := by
    have htotal : Std.Total fun a b : EvictItem => a.modTime ≤ b.modTime :=
      ⟨fun a b => le_total a.modTime b.modTime⟩
    have htrans : IsTrans EvictItem fun a b => a.modTime ≤ b.modTime :=
      ⟨fun _ _ _ h h' => le_trans h h'⟩
    exact List.pairwise_insertionSort _
  rangeOrder := fun l => l
  rangeOrder_perm := List.Perm.refl

/-- A node that keeps nothing in memory. -/
def plainNode : Backend := ⟨"node-a", ⟨["cache"], 1024, 0⟩⟩

end OrcaBlocks.Storage
