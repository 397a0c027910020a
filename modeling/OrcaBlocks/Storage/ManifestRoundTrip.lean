/-
# OrcaBlocks.Storage.ManifestRoundTrip — what the wire format of a manifest keeps, and what it refuses.

A manifest goes to the object store as a `map[string]string` whose keys are printed indexes. Two maps
are the SAME here if they answer every lookup alike: the order of entries is Go's, and nothing is
said about it. Printing loses nothing (`lookup_manifestToWire`), so encoding is injective and keeps the
number of entries.

The parser accepts more than the printer writes: a plus sign, leading zeroes. `Spells` says what a
decimal spelling of a number is, without the parser; `parseInt_eq_ok_iff` says the parser accepts
exactly the spellings of an `int64`, and decoding fails on exactly the maps with another key.
-/
import OrcaBlocks.Storage.Atomic
import OrcaBlocks.Storage.GoRuntime

namespace OrcaBlocks.Storage

open OrcaBlocks.Lib Backend

/-! ## Decimal spellings -/

/-- The text is an optional sign and at least one digit, and stands for the number. -/
def Spells (s : String) (i : Int) : Prop :=
  ∃ sign digits : List Char, s.toList = sign ++ digits ∧ digits ≠ [] ∧ (∀ c ∈ digits, c.isDigit) ∧
    ((sign = [] ∨ sign = ['+']) ∧ i = Nat.ofDigitChars 10 digits 0 ∨
      sign = ['-'] ∧ i = -(Nat.ofDigitChars 10 digits 0 : Nat))

/-- What the parser makes of a sign and digits. -/
theorem splitSign_append (sign : List Char) {digits : List Char} (hne : digits ≠ [])
    (hdigits : ∀ c ∈ digits, c.isDigit) :
    ((sign = [] ∨ sign = ['+']) → splitSign (sign ++ digits) = (false, digits)) ∧
      (sign = ['-'] → splitSign (sign ++ digits) = (true, digits)) := by
  refine ⟨?_, ?_⟩
  · rintro (rfl | rfl)
    · obtain ⟨c, cs, rfl⟩ := List.exists_cons_of_ne_nil hne
      have hc : c.isDigit = true := hdigits c List.mem_cons_self
      rw [List.nil_append]
      unfold splitSign
      split
      · rename_i h; cases h; exact absurd hc (by decide)
      · rename_i h; cases h; exact absurd hc (by decide)
      · rfl
    · rfl
  · rintro rfl
    rfl

/-- The text splits into its sign and what is behind it. -/
theorem exists_sign (cs : List Char) :
    ∃ sign, cs = sign ++ (splitSign cs).2 ∧
      ((splitSign cs).1 = false ∧ (sign = [] ∨ sign = ['+']) ∨ (splitSign cs).1 = true ∧ sign = ['-']) := by
  unfold splitSign
  split
  · exact ⟨['-'], rfl, Or.inr ⟨rfl, rfl⟩⟩
  · exact ⟨['+'], rfl, Or.inl ⟨rfl, Or.inr rfl⟩⟩
  · exact ⟨[], rfl, Or.inl ⟨rfl, Or.inl rfl⟩⟩

/-- **`strconv.ParseInt` accepts exactly the spellings of an `int64`.** -/
theorem parseInt_eq_ok_iff {s : String} {i : Int64} : parseInt s = .ok i ↔ Spells s i.toInt := by
  have hlo := i.le_toInt
  have hhi := i.toInt_lt
  constructor
  · intro h
    obtain ⟨sign, hsplit, hsign⟩ := exists_sign s.toList
    unfold parseInt at h
    generalize splitSign s.toList = parts at h hsplit hsign
    obtain ⟨neg, digits⟩ := parts
    dsimp only at h hsplit hsign
    split at h
    · cases h
    · rename_i hvalid
      obtain ⟨hne, hall⟩ := not_or.mp hvalid
      rw [not_not, List.all_eq_true] at hall
      refine ⟨sign, digits, hsplit, hne, hall, ?_⟩
      rcases hsign with ⟨rfl, hsign⟩ | ⟨rfl, hsign⟩
      · rw [if_neg Bool.false_ne_true] at h
        split at h
        · rename_i hlt
          cases h
          exact Or.inl ⟨hsign, Int64.toInt_ofInt_of_le (by omega) (by omega)⟩
        · cases h
      · rw [if_pos rfl] at h
        split at h
        · rename_i hle
          cases h
          exact Or.inr ⟨hsign, Int64.toInt_ofInt_of_le (by omega) (by omega)⟩
        · cases h
  · rintro ⟨sign, digits, hs, hne, hdigits, hvalue⟩
    obtain ⟨hplus, hminus⟩ := splitSign_append sign hne hdigits
    have hvalid : ¬ (digits = [] ∨ ¬ digits.all Char.isDigit = true) :=
      not_or.mpr ⟨hne, not_not.mpr (List.all_eq_true.mpr hdigits)⟩
    unfold parseInt
    rw [hs]
    rcases hvalue with ⟨hsign, hi⟩ | ⟨hsign, hi⟩
    · rw [hplus hsign]
      dsimp only
      rw [if_neg hvalid, if_neg Bool.false_ne_true, if_pos (by omega), ← hi, Int64.ofInt_toInt]
    · rw [hminus hsign]
      dsimp only
      rw [if_neg hvalid, if_pos rfl, if_pos (by omega), ← hi, Int64.ofInt_toInt]

/-- The key is a spelling of some `int64`. -/
def IsIndex (k : String) : Prop := ∃ i : Int64, Spells k i.toInt

theorem parseInt_error_iff {s : String} : (∃ e, parseInt s = .error e) ↔ ¬ IsIndex s := by
  constructor
  · rintro ⟨e, he⟩ ⟨i, hi⟩
    rw [parseInt_eq_ok_iff.mpr hi] at he
    cases he
  · intro h
    cases hp : parseInt s with
    | error e => exact ⟨e, rfl⟩
    | ok i => exact absurd ⟨i, parseInt_eq_ok_iff.mp hp⟩ h

/-! ## Maps -/

/-- Two maps with the same entries. -/
def SameMap {α β : Type} [DecidableEq α] (a b : AList fun _ : α => β) : Prop :=
  ∀ k, a.lookup k = b.lookup k

theorem SameMap.symm {α β : Type} [DecidableEq α] {a b : AList fun _ : α => β} (h : SameMap a b) :
    SameMap b a := fun k => (h k).symm

theorem SameMap.trans {α β : Type} [DecidableEq α] {a b c : AList fun _ : α => β} (h : SameMap a b)
    (h' : SameMap b c) : SameMap a c := fun k => (h k).trans (h' k)

/-- Encoding: a key that is no printed index is not there. -/
theorem lookup_manifestToWire_eq (m : Manifest) (k : String) :
    (∃ i, k = formatInt i ∧ (manifestToWire m).lookup k = m.lookup i) ∨
      (∀ i, k ≠ formatInt i) ∧ (manifestToWire m).lookup k = none := by
  by_cases hk : ∃ i, k = formatInt i
  · obtain ⟨i, rfl⟩ := hk
    exact Or.inl ⟨i, rfl, lookup_manifestToWire m i⟩
  · rw [not_exists] at hk
    refine Or.inr ⟨hk, AList.lookup_eq_none.mpr fun hmem => ?_⟩
    obtain ⟨i, hi⟩ := exists_index_of_mem_manifestToWire hmem
    exact hk i hi

/-- **Encoding keeps and reflects sameness**: it is injective on maps. -/
theorem sameMap_manifestToWire_iff {m m' : Manifest} :
    SameMap (manifestToWire m) (manifestToWire m') ↔ SameMap m m' := by
  constructor
  · intro h i
    rw [← lookup_manifestToWire, ← lookup_manifestToWire]
    exact h _
  · intro h k
    rcases lookup_manifestToWire_eq m k with ⟨i, rfl, hi⟩ | ⟨hk, hnone⟩
    · rw [hi, lookup_manifestToWire, h]
    · rcases lookup_manifestToWire_eq m' k with ⟨i, rfl, -⟩ | ⟨-, hnone'⟩
      · exact absurd rfl (hk i)
      · rw [hnone, hnone']

/-- Inserting entries under new keys, one for each. -/
theorem length_foldl_insert {α β γ : Type} [DecidableEq α] [DecidableEq β] {g : α → β}
    (hg : Function.Injective g) :
    ∀ (l : List (Sigma fun _ : α => γ)) (acc : AList fun _ : β => γ), l.NodupKeys →
      (∀ e ∈ l, g e.1 ∉ acc) →
      (l.foldl (fun out e => out.insert (g e.1) e.2) acc).entries.length =
        acc.entries.length + l.length := by
  intro l
  induction l with
  | nil => intro acc _ _; rfl
  | cons e l ih =>
    intro acc hnd hnew
    obtain ⟨he, hnd⟩ := List.nodupKeys_cons.mp hnd
    obtain ⟨hfresh, hrest⟩ := List.forall_mem_cons.mp hnew
    have hlater : ∀ e' ∈ l, g e'.1 ∉ acc.insert (g e.1) e.2 := by
      intro e' he' hmem
      rcases (AList.mem_insert _).mp hmem with heq | hmem
      · have hkey : e'.1 = e.1 := hg heq
        exact he (hkey ▸ List.mem_keys_of_mem he')
      · exact hrest e' he' hmem
    rw [List.foldl_cons, ih _ hnd hlater, AList.entries_insert_of_notMem hfresh, List.length_cons,
      List.length_cons]
    omega

theorem length_manifestToWire (m : Manifest) :
    (manifestToWire m).entries.length = m.entries.length := by
  unfold manifestToWire
  rw [length_foldl_insert formatInt_injective m.entries ∅ m.nodupKeys fun e _ => AList.notMem_empty _]
  exact Nat.zero_add _

/-- The loop of the decoder stops at the first key that is no index. -/
theorem manifestFromWireLoop_error_iff (l : List (Sigma fun _ : String => String)) (acc : Manifest) :
    (∃ e, manifestFromWireLoop l acc = .error e) ↔ ∃ entry ∈ l, ¬ IsIndex entry.1 := by
  induction l generalizing acc with
  | nil => simp [manifestFromWireLoop]
  | cons entry l ih =>
    obtain ⟨k, v⟩ := entry
    rw [List.exists_mem_cons_iff, ← parseInt_error_iff]
    cases hp : parseInt k with
    | error e =>
      refine iff_of_true ⟨.errorf "invalid manifest chunk index %q: %w" [k, e.text], ?_⟩ (Or.inl ⟨e, rfl⟩)
      simp only [manifestFromWireLoop, hp]
    | ok i =>
      simp only [manifestFromWireLoop, hp, ih]
      constructor
      · exact Or.inr
      · rintro (⟨e, he⟩ | h)
        · cases he
        · exact h

/-- **Decoding fails exactly on a map with a key that is no index.** -/
theorem manifestFromWire_error_iff (w : Wire) :
    (∃ e, manifestFromWire w = .error e) ↔ ∃ k ∈ w, ¬ IsIndex k := by
  unfold manifestFromWire
  rw [manifestFromWireLoop_error_iff]
  constructor
  · rintro ⟨entry, hentry, hk⟩
    exact ⟨entry.1, List.mem_keys_of_mem hentry, hk⟩
  · rintro ⟨k, hmem, hk⟩
    obtain ⟨v, hv⟩ := List.exists_of_mem_keys (AList.mem_keys.mp hmem)
    exact ⟨⟨k, v⟩, hv, hk⟩

/-! ## Through the object store -/

/-- `encoding/json` gives the map back. -/
def Platform.RoundTrips (P : Platform) (w : Wire) : Prop :=
  ∃ w', P.unmarshal (P.marshalIndent w) = some w' ∧ SameMap w' w

/-- What `loadManifest` does when `saveManifest` succeeded under the key. -/
theorem load_after_save {P : Platform} {who : Caller} {m : Manifest} (key : String) (w : World)
    (hjson : P.RoundTrips (manifestToWire m)) :
    (machine P faultFree who).wp
      (do saveManifest P key m; loadManifest P key : M Manifest).run
      (fun r _ => ∃ m', r = .ok m' ∧ SameMap m' m) w := by
  obtain ⟨wire, hwire, hsame⟩ := hjson
  obtain ⟨m', hm', hlookup⟩ := manifestFromWire_of_lookup_eq hsame
  unfold saveManifest loadManifest outside
  rw [wp_run_bind]
  refine wp_perform.mpr ?_
  rintro _ rfl
  dsimp only [machine, exec, Fault.on]
  rw [orElse_ok, wp_run_bind]
  refine wp_perform.mpr ?_
  rintro _ rfl
  simp only [exec, Fault.on, execGet, Function.update_self, orElse_ok, hwire]
  exact ⟨m', hm', hlookup⟩

/-- The least and the greatest index. -/
def extremes : Manifest := (AList.insert Int64.maxValue "b1" ∅).insert Int64.minValue "a0"

/-- **Manifests survive the wire format.** -/
theorem manifest_survives_wire (m : Manifest) :
    -- decoding the encoded map, whatever the order of its entries, gives the manifest back
    (∀ w, SameMap w (manifestToWire m) → ∃ m', manifestFromWire w = .ok m' ∧ SameMap m' m) ∧
    -- encoding is injective and keeps the number of entries
    (∀ m', SameMap (manifestToWire m) (manifestToWire m') → SameMap m m') ∧
    (manifestToWire m).entries.length = m.entries.length ∧
    -- an encoded map is encoded to itself again
    (∀ w m', SameMap w (manifestToWire m) → manifestFromWire w = .ok m' → SameMap (manifestToWire m') w) ∧
    -- what was saved is loaded
    (∀ (P : Platform) (who : Caller) (key : String) (w : World),
      P.RoundTrips (manifestToWire m) →
      (machine P faultFree who).wp
        (do saveManifest P key m; loadManifest P key : M Manifest).run
        (fun r _ => ∃ m', r = .ok m' ∧ SameMap m' m) w) ∧
    -- what is refused
    ∀ w : Wire, (∃ e, manifestFromWire w = .error e) ↔ ∃ k ∈ w, ¬ IsIndex k := by
  refine ⟨fun w hw => manifestFromWire_of_lookup_eq hw, fun m' h => sameMap_manifestToWire_iff.mp h,
    length_manifestToWire m, fun w m' hw hm' => ?_, fun P who key w hjson => load_after_save key w hjson,
    manifestFromWire_error_iff⟩
  obtain ⟨m'', hm'', hsame⟩ := manifestFromWire_of_lookup_eq hw
  rw [hm''] at hm'
  cases hm'
  exact (sameMap_manifestToWire_iff.mpr hsame).trans hw.symm

/-- The two ends of the range of indexes, saved and loaded. -/
theorem manifest_survives_wire_extremes :
    goRuntime.RoundTrips (manifestToWire extremes) ∧
      (machine goRuntime faultFree ⟨0, 0⟩).wp
        (do saveManifest goRuntime "manifests/a.json" extremes
            loadManifest goRuntime "manifests/a.json" : M Manifest).run
        (fun r _ => ∃ m', r = .ok m' ∧ SameMap m' extremes) World.initial := by
  have hids : ∀ e ∈ extremes.entries, ∀ c ∈ e.2.toList, c.isAlphanum ∨ c = '-' := by
    have hall : (extremes.entries.all fun e => e.2.toList.all fun c => c.isAlphanum ∨ c = '-') = true := by
      decide +kernel
    simpa using hall
  have hjson : goRuntime.RoundTrips (manifestToWire extremes) :=
    goRuntime.unmarshal_marshalIndent _ <| plain_manifestToWire fun i id hid =>
      hids ⟨i, id⟩ (AList.mem_lookup_iff.mp hid)
  exact ⟨hjson, (manifest_survives_wire extremes).2.2.2.2.1 goRuntime ⟨0, 0⟩ "manifests/a.json"
    World.initial hjson⟩

end OrcaBlocks.Storage
