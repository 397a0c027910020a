/-
# OrcaBlocks.Storage.CacheLatest — when the cache returns the latest value of an id, or a miss.

`latest` is the specification: the bytes of the last successful `Put` of each id (and what the
directory held before the first call). `Rightly` says of a sequence of calls and its answers that each
`Get` and `GetRange` answered with a miss or from `latest`.

That is so as long as every call is a `SoundCall` at the state it finds, and different ids have different
paths. The one condition about the two TIERS is in `SoundCall`: a `Put` too large for the memory tier
returns before it looks whether the tier holds the id, so an older, smaller value stays there and every
later read returns it (`cache_returns_replaced_value`). The other conditions are about ids that are no
file names.
-/
import OrcaBlocks.Storage.FileTree
import OrcaBlocks.Storage.MemoryLru

namespace OrcaBlocks.Storage

open OrcaBlocks.Lib Function

/-! ## The specification -/

/-- The bytes last put under each id. -/
abbrev Latest := String → Option Bytes

/-- A successful `Put` replaces the value of its id. -/
def latestAfter (latest : Latest) : CacheCall → Except Err (Option Bytes) → Latest
  | .put id b, .ok _ => update latest id (some b)
  | _, _ => latest

/-- The answer is a miss, or comes from the value put last. -/
def Right (latest : Latest) : CacheCall → Except Err (Option Bytes) → Prop
  | .put _ _, _ => True
  | .get id, answer => answer = .ok none ∨ ∃ b, latest id = some b ∧ answer = .ok (some b)
  | .getRange id offset length, answer => 0 ≤ offset.toInt → 0 ≤ length.toInt →
      answer = .ok none ∨ ∃ b, latest id = some b ∧
        answer = .ok (some (window (fun p => b.getD p 0) (natOf offset) (natOf length)))

/-- Every call is answered right. -/
def Rightly : Latest → List CacheCall → List (Except Err (Option Bytes)) → Prop
  | latest, call :: calls, answer :: answers =>
    Right latest call answer ∧ Rightly (latestAfter latest call answer) calls answers
  | _, _, _ => True

/-! ## The condition -/

def CacheCall.chunkID : CacheCall → String
  | .put id _ | .get id | .getRange id _ _ => id

section Latest

variable (P : Platform) (t : FileTree) (c : LocalCache)

/-- The id can be looked up: it is in memory, or its path leads to a file or to nothing. -/
def Locatable (d : Disk) (id : String) : Prop :=
  (d.memory.memoryItems.lookup id).isSome ∨ t.find d.files (c.path id) = .missing ∨
    (d.files.lookup (c.path id)).map Found.file = some (t.find d.files (c.path id))

/-- The condition on one call, at the state it finds. No system reads a file past the largest offset. -/
def SoundCall (d : Disk) : CacheCall → Prop
  | .put id b => (0 < c.memoryMax.toInt ∧ (b.length : Int) ≤ c.memoryMax.toInt) ∨
      d.memory.memoryItems.lookup id = none
  | .get id => Locatable t c d id
  | .getRange id offset length => Locatable t c d id ∧ offset.toInt + length.toInt < 2 ^ 63

/-- Every call is sound at the state it finds. -/
def Soundly : List CacheCall → Disk → Prop
  | [], _ => True
  | call :: calls, d => SoundCall t c d call ∧ Soundly calls (d.serve P t c call).2

/-- What the directory holds when nothing is in memory. -/
def onDisk (d : Disk) : Latest := fun id => (d.files.lookup (c.path id)).map CacheFile.data

/-! ## Both tiers hold the latest value -/

/-- Memory and files agree with the value put last, for the ids in use. -/
structure Agrees (used : List String) (latest : Latest) (d : Disk) : Prop where
  lru : ∃ recency, MemoryTier.Lru c.memoryMax recency d.memory
  memory : ∀ e ∈ d.memory.memoryList, latest e.2.id = some e.2.data
  files : ∀ id ∈ used, ∀ file, d.files.lookup (c.path id) = some file → latest id = some file.data

variable {P t c} {used : List String} {latest : Latest} {d : Disk}

theorem Agrees.holds (h : Agrees c used latest d) :
    MemoryTier.Holds (fun id b => latest id = some b) d.memory := by
  obtain ⟨recency, hlru⟩ := h.lru
  exact ⟨hlru.wf, h.memory⟩

/-- Stamping a file changes no content. -/
private theorem lookup_touch {path path' : Path} {file : CacheFile}
    (h : (d.touch P path).files.lookup path' = some file) :
    ∃ file', d.files.lookup path' = some file' ∧ file'.data = file.data := by
  unfold Disk.touch at h
  split at h
  · rename_i found hfound
    by_cases hp : path' = path
    · rw [hp, AList.lookup_insert] at h
      cases h
      exact ⟨found, hp ▸ hfound, rfl⟩
    · rw [AList.lookup_insert_ne hp] at h
      exact ⟨file, h, rfl⟩
  · exact ⟨file, h, rfl⟩

private theorem Agrees.touched (h : Agrees c used latest d) (path : Path) :
    ∀ id ∈ used, ∀ file, (d.touch P path).files.lookup (c.path id) = some file →
      latest id = some file.data := by
  intro id hid file hfile
  obtain ⟨file', hfile', hdata⟩ := lookup_touch hfile
  rw [← hdata]
  exact h.files id hid file' hfile'

/-! ## One call -/

theorem agrees_get (h : Agrees c used latest d) {id : String} (hid : id ∈ used)
    (hsound : Locatable t c d id) :
    Right latest (.get id) (d.get P t c id).1 ∧ Agrees c used latest (d.get P t c id).2 := by
  obtain ⟨recency, hlru⟩ := h.lru
  obtain ⟨hholds, hgood⟩ := MemoryTier.getMemory_holds h.holds id
  have hlru' := hlru.getMemory id
  unfold Disk.get
  generalize hlook : d.memory.getMemory id = looked at hholds hgood hlru'
  obtain ⟨_ | b, memory⟩ := looked
  · dsimp only
    generalize hread : (t.find d.files (c.path id)).readFile = read
    split
    · exact ⟨Or.inl rfl, ⟨_, hlru'⟩, hholds.good, h.files⟩
    · -- not in memory, so the path leads to a file or to nothing, and neither is an error
      rename_i err hne
      exfalso
      rcases hsound with hmem | hmissing | hfound
      · obtain ⟨elem, hitem⟩ := Option.isSome_iff_exists.mp hmem
        obtain ⟨data, hentry, -⟩ := hlru.wf.entry hitem
        simp [MemoryTier.getMemory, hitem, hentry] at hlook
      · rw [hmissing] at hread
        exact hne (by simpa [Found.readFile] using hread.symm)
      · obtain ⟨file, -, hfile⟩ := Option.map_eq_some_iff.mp hfound
        rw [← hfile] at hread
        cases hread
    · rename_i b
      have hfile : ∃ file, d.files.lookup (c.path id) = some file ∧ file.data = b := by
        generalize hfind : t.find d.files (c.path id) = found at hread
        cases found with
        | file file =>
          cases hread
          exact ⟨file, find_eq_file hfind, rfl⟩
        | _ => cases hread
      obtain ⟨file, hlookup, rfl⟩ := hfile
      have hvalue := h.files id hid file hlookup
      have hput := MemoryTier.putMemoryLocked_holds hholds c.memoryMax hvalue
      exact ⟨Or.inr ⟨_, hvalue, rfl⟩, ⟨_, (hlru'.putMemoryLocked id file.data).1⟩, hput.good,
        h.touched (c.path id)⟩
  · exact ⟨Or.inr ⟨b, hgood b rfl, rfl⟩, ⟨_, hlru'⟩, hholds.good, h.files⟩

theorem agrees_getRange (h : Agrees c used latest d) {id : String} (hid : id ∈ used)
    (hsound : Locatable t c d id) {offset length : Int64} (hstop : offset.toInt + length.toInt < 2 ^ 63) :
    Right latest (.getRange id offset length) (d.getRange P t c id offset length).1 ∧
      Agrees c used latest (d.getRange P t c id offset length).2 := by
  obtain ⟨recency, hlru⟩ := h.lru
  obtain ⟨hholds, hgood⟩ := MemoryTier.getMemoryRange_holds h.holds id offset length
  have hlru' := hlru.getMemoryRange id offset length
  unfold Disk.getRange
  generalize hlook : d.memory.getMemoryRange id offset length = looked at hholds hgood hlru'
  obtain ⟨_ | b, memory⟩ := looked
  · dsimp only
    generalize hread : (t.find d.files (c.path id)).readFileAt offset length = read
    split
    · exact ⟨fun _ _ => Or.inl rfl, ⟨_, hlru'⟩, hholds.good, h.files⟩
    · -- the read of a file fails only outside the offsets there are
      rename_i err hne
      refine ⟨fun hoffset hlength => ?_, ⟨_, hlru'⟩, hholds.good, h.files⟩
      exfalso
      rcases hsound with hmem | hmissing | hfound
      · obtain ⟨elem, hitem⟩ := Option.isSome_iff_exists.mp hmem
        obtain ⟨data, hentry, -⟩ := hlru.wf.entry hitem
        simp [MemoryTier.getMemoryRange, hitem, hentry] at hlook
      · rw [hmissing] at hread
        exact hne (by simpa [Found.readFileAt] using hread.symm)
      · obtain ⟨file, -, hfile⟩ := Option.map_eq_some_iff.mp hfound
        rw [← hfile, Found.readFileAt, readAtBytes_ok _ hoffset hstop] at hread
        cases hread
    · rename_i b
      refine ⟨fun hoffset hlength => ?_, ⟨_, hlru'⟩, hholds.good, h.touched (c.path id)⟩
      have hfile : ∃ file, d.files.lookup (c.path id) = some file ∧
          b = slice file.data (natOf offset) (natOf length) := by
        rcases hsound with hmem | hmissing | hfound
        · obtain ⟨elem, hitem⟩ := Option.isSome_iff_exists.mp hmem
          obtain ⟨data, hentry, -⟩ := hlru.wf.entry hitem
          simp [MemoryTier.getMemoryRange, hitem, hentry] at hlook
        · rw [hmissing] at hread
          cases hread
        · obtain ⟨file, hlookup, hfile⟩ := Option.map_eq_some_iff.mp hfound
          rw [← hfile] at hread
          exact ⟨file, hlookup, (readAtBytes_inv hread).symm⟩
      obtain ⟨file, hlookup, rfl⟩ := hfile
      exact Or.inr ⟨file.data, h.files id hid file hlookup, by rw [padTo_slice_eq_window]⟩
  · obtain ⟨data, hvalue, rfl⟩ := hgood b rfl
    exact ⟨fun _ _ => Or.inr ⟨data, hvalue, rfl⟩, ⟨_, hlru'⟩, hholds.good, h.files⟩

/-- The memory tier after a `Put` that the tier takes, or that finds its id outside the tier. -/
private theorem Agrees.putMemory (h : Agrees c used latest d) {id : String} {b : Bytes}
    (hsound : SoundCall t c d (.put id b)) :
    ∀ e ∈ (MemoryTier.putMemoryLocked c.memoryMax d.memory id b).memoryList,
      update latest id (some b) e.2.id = some e.2.data := by
  obtain ⟨recency, hlru⟩ := h.lru
  by_cases hfits : 0 < c.memoryMax.toInt ∧ (b.length : Int) ≤ c.memoryMax.toInt
  · -- the other entries stay, and the id's own entry has the new data
    obtain ⟨hlru', hres⟩ := hlru.putMemoryLocked id b
    have hweak : MemoryTier.Holds (fun i data => i = id ∨ latest i = some data) d.memory :=
      h.holds.mono fun i data hi => Or.inr hi
    have hputs : MemoryTier.Holds (fun i data => i = id ∨ latest i = some data)
        (MemoryTier.putMemoryLocked c.memoryMax d.memory id b) :=
      MemoryTier.putMemoryLocked_holds hweak c.memoryMax (Or.inl rfl)
    rintro ⟨elem, i, data⟩ he
    by_cases hi : i = id
    · subst hi
      have hitem := (hlru'.wf.items i elem).mpr ⟨data, he⟩
      have hentry := (MemoryTier.lookup_eq_some_iff hlru'.wf.nodup).mpr he
      have hb := hres hfits.1 hfits.2
      simp only [MemoryTier.resident, hitem, Option.bind_some, hentry, Option.map_some,
        Option.some.injEq] at hb
      simp [hb]
    · rw [update_of_ne hi]
      rcases hputs.good _ he with heq | hgood
      · exact absurd heq hi
      · exact hgood
  · have hsame : MemoryTier.putMemoryLocked c.memoryMax d.memory id b = d.memory := by
      unfold MemoryTier.putMemoryLocked
      rw [if_pos (by omega)]
    rw [hsame]
    rintro ⟨elem, i, data⟩ he
    have hi : i ≠ id := by
      rintro rfl
      have hitem := (hlru.wf.items i elem).mpr ⟨data, he⟩
      rw [hsound.resolve_left hfits] at hitem
      cases hitem
    rw [update_of_ne hi]
    exact h.memory _ he

theorem agrees_put (h : Agrees c used latest d) {id : String} {b : Bytes}
    (hinj : ∀ i ∈ used, c.path i = c.path id → i = id) (hsound : SoundCall t c d (.put id b)) :
    Agrees c used (latestAfter latest (.put id b) (d.serve P t c (.put id b)).1)
      (d.serve P t c (.put id b)).2 := by
  obtain ⟨recency, hlru⟩ := h.lru
  unfold Disk.serve Disk.put
  dsimp only
  by_cases hdir : t.isDir c.dir = true
  · rw [if_pos hdir]
    by_cases htakes : t.takes (c.path id) = true
    · rw [if_pos htakes]
      refine ⟨⟨_, (hlru.putMemoryLocked id b).1⟩, h.putMemory hsound, ?_⟩
      intro i hi file hfile
      have hplaced := (Disk.lookup_removeItems_eq_some.mp hfile).2
      by_cases hsame : c.path i = c.path id
      · obtain rfl := hinj i hi hsame
        rw [Disk.placed, AList.lookup_insert] at hplaced
        cases hplaced
        exact update_self ..
      · rw [Disk.placed, AList.lookup_insert_ne hsame] at hplaced
        have hne : i ≠ id := fun heq => hsame (by rw [heq])
        show update latest id (some b) i = some file.data
        rw [update_of_ne hne]
        exact h.files i hi file hplaced
    · rw [if_neg htakes]
      exact ⟨h.lru, h.memory, h.files⟩
  · rw [if_neg hdir]
    exact ⟨h.lru, h.memory, h.files⟩

/-- One sound call is answered right, and both tiers still hold the latest value. -/
theorem agrees_serve (h : Agrees c used latest d) {call : CacheCall} (hused : call.chunkID ∈ used)
    (hinj : ∀ i ∈ used, c.path i = c.path call.chunkID → i = call.chunkID)
    (hsound : SoundCall t c d call) :
    Right latest call (d.serve P t c call).1 ∧
      Agrees c used (latestAfter latest call (d.serve P t c call).1) (d.serve P t c call).2 := by
  cases call with
  | put id b => exact ⟨trivial, agrees_put h hinj hsound⟩
  | get id => exact agrees_get h hused hsound
  | getRange id offset length => exact agrees_getRange h hused hsound.1 hsound.2

/-! ## Every sequence of calls -/

private theorem rightly_of_soundly (used : List String) : ∀ (calls : List CacheCall) (latest : Latest) (d : Disk),
    Agrees c used latest d → (∀ call ∈ calls, call.chunkID ∈ used) →
    (∀ i ∈ used, ∀ j ∈ used, c.path i = c.path j → i = j) → Soundly P t c calls d →
    Rightly latest calls (Disk.serveAll P t c calls d).1 := by
  intro calls
  induction calls with
  | nil => exact fun _ _ _ _ _ _ => trivial
  | cons call calls ih =>
    intro latest d h hused hinj hsound
    have hcall := hused call (List.mem_cons_self ..)
    obtain ⟨hright, hagrees⟩ := agrees_serve (P := P) h hcall
      (fun i hi => hinj i hi _ hcall) hsound.1
    exact ⟨hright, ih _ _ hagrees (fun k hk => hused k (List.mem_cons_of_mem _ hk)) hinj hsound.2⟩

/-- **The cache returns the latest value or a miss**, on every sequence of sound calls to ids with
different paths, from an empty memory tier and any directory. -/
theorem cache_returns_latest {who : Caller} {w w' : World} {calls : List CacheCall}
    {answers : List (Except Err (Option Bytes))}
    (hnew : (w.disk who.node).memory = MemoryTier.empty)
    (hrun : (treeMachine P t who).RunsAll (calls.map fun call => (c.serve P call).run) w answers w')
    (hpaths : ∀ i ∈ calls.map CacheCall.chunkID, ∀ j ∈ calls.map CacheCall.chunkID,
      c.path i = c.path j → i = j)
    (hsound : Soundly P t c calls (w.disk who.node)) :
    Rightly (onDisk c (w.disk who.node)) calls answers := by
  have hanswers := congrArg Prod.fst (cacheServeAll_refines hrun)
  dsimp only at hanswers
  rw [hanswers]
  refine rightly_of_soundly (calls.map CacheCall.chunkID) calls _ _ ⟨⟨[], ?_⟩, ?_, ?_⟩
    (fun call hcall => List.mem_map.mpr ⟨call, hcall, rfl⟩) hpaths hsound
  · rw [hnew]
    exact MemoryTier.lru_empty
  · rw [hnew]
    intro e he
    cases he
  · intro id _ file hfile
    simp [onDisk, hfile]

end Latest

/-! ## Two runs -/

/-- A value that is put, read and replaced by one of the same size. -/
theorem cache_returns_latest_replaced :
    let c := newLocalCacheWithMemory ["cache"] 0 2
    let calls : List CacheCall := [.put "x" [1], .put "x" [2], .getRange "x" 0 3, .get "x"]
    ∃ answers, answers = [.ok none, .ok none, .ok (some [2, 0, 0]), .ok (some [2])] ∧
      Rightly (onDisk c (World.initial.disk 0)) calls answers := by
  intro c calls
  let M := treeMachine goRuntime cacheOnly ⟨0, 0⟩
  let ts := calls.map fun call => (c.serve goRuntime call).run
  have hrun : M.RunsAll ts World.initial (M.runAll (fun _ => 0) ts World.initial).1
      (M.runAll (fun _ => 0) ts World.initial).2 :=
    runsAll_of_followsAll (by decide +kernel)
  refine ⟨_, by decide +kernel, cache_returns_latest rfl hrun (by decide +kernel) ?_⟩
  exact ⟨Or.inl (by decide), Or.inl (by decide), ⟨Or.inl (by decide +kernel), by decide⟩,
    Or.inl (by decide +kernel), trivial⟩

/-- A value that is replaced by one too large for the memory tier: every later read returns the old
one. -/
theorem cache_returns_replaced_value :
    let c := newLocalCacheWithMemory ["cache"] 0 2
    let calls : List CacheCall := [.put "x" [1], .put "x" [2, 3, 4], .get "x"]
    ∃ answers w', (treeMachine goRuntime cacheOnly ⟨0, 0⟩).RunsAll
        (calls.map fun call => (c.serve goRuntime call).run) World.initial answers w' ∧
      answers = [.ok none, .ok none, .ok (some [1])] ∧
      ¬ Rightly (onDisk c (World.initial.disk 0)) calls answers := by
  intro c calls
  let M := treeMachine goRuntime cacheOnly ⟨0, 0⟩
  let ts := calls.map fun call => (c.serve goRuntime call).run
  have hrun : M.RunsAll ts World.initial (M.runAll (fun _ => 0) ts World.initial).1
      (M.runAll (fun _ => 0) ts World.initial).2 :=
    runsAll_of_followsAll (by decide +kernel)
  have hanswers : (M.runAll (fun _ => 0) ts World.initial).1 = [.ok none, .ok none, .ok (some [1])] := by
    decide +kernel
  refine ⟨_, _, hrun, hanswers, ?_⟩
  rw [hanswers]
  rintro ⟨-, -, hlast, -⟩
  rcases hlast with hmiss | ⟨b, hb, hread⟩
  · cases hmiss
  · simp [latestAfter] at hb
    subst hb
    cases hread

end OrcaBlocks.Storage
