/-
# OrcaBlocks.Storage.RangePath — `resolveChunkRange` against `resolveChunk`.

`Read` takes a part of a chunk through one function, `Write` the whole chunk through the other. Both
are `resolveWith`, so on a disk both compute ONE function, `Disk.resolveWith`, of the way they read the
overlay, the cache and what they fetched (`resolveChunk_refines`, `resolveChunkRange_refines`).

They agree on every overlay, memory tier, disk and store whose chunks fit the chunk size
(`range_path_agrees_iff`): the same outcome, the part of the same bytes, the same files afterwards. The
one exception is a read of NOTHING from a chunk id whose path is a directory: `Get` fails to read it,
`GetRange` opens it and asks for no bytes. `ChunkIndexes` yields no such part.
-/
import OrcaBlocks.Storage.FileTree
import OrcaBlocks.Storage.Content
import OrcaBlocks.Storage.GoRuntime

namespace OrcaBlocks.Storage

open OrcaBlocks.Lib Backend

variable {id : String} {s : Session} {index : Int64}

/-! ## Resolving a chunk on a disk -/

namespace Disk

variable (P : Platform) (t : FileTree) (c : LocalCache) (d : Disk)

/-- The tail of both functions: fetch a chunk the cache does not hold, and put it there. -/
def fetch (objects : String → Option Bytes) (chunkSize : Int64) (chunkID : String) :
    Except Err (Option Bytes) × Disk :=
  match objects (chunkKey chunkID) with
  | none => (.ok none, d)
  | some remote =>
    match normalizeChunk remote chunkSize with
    | .error err => (.error err, d)
    | .ok remote =>
      match d.put P t c chunkID remote with
      | (.error err, d') => (.error err, d')
      | (.ok (), d') => (.ok (some remote), d')

/-- A chunk of the base: from the cache or the store, else zeroes. -/
def resolveBase (objects : String → Option Bytes) (chunkSize : Int64)
    (cachedPart : Disk → String → Except Err (Option Bytes) × Disk) (hit : Bytes → Except Err Bytes)
    (part : Bytes → Bytes) (zeroes : Bytes) (chunkID : String) : Except Err Bytes × Disk :=
  match cachedPart d chunkID with
  | (.error err, d') => (.error err, d')
  | (.ok (some cached), d') => (hit cached, d')
  | (.ok none, d') =>
    match d'.fetch P t c objects chunkSize chunkID with
    | (.error err, d'') => (.error err, d'')
    | (.ok (some remote), d'') => (.ok (part remote), d'')
    | (.ok none, d'') => (.ok zeroes, d'')

/-- `Backend.resolveWith`, given what the overlay holds. -/
def resolveWith (s : Session) (index : Int64) (objects : String → Option Bytes)
    (dirtyPart : Except Err Bytes) (cachedPart : Disk → String → Except Err (Option Bytes) × Disk)
    (hit : Bytes → Except Err Bytes) (part : Bytes → Bytes) (zeroes : Bytes) :
    Except Err Bytes × Disk :=
  if (s.dirty.lookup index).isSome then (dirtyPart, d)
  else
    match s.baseManifest.lookup index with
    | none => (.ok zeroes, d)
    | some chunkID =>
      d.resolveBase P t c objects s.volume.chunkSize cachedPart hit part zeroes chunkID

end Disk

/-- A range of a file of a session's overlay. -/
def overlayRange (w : World) (r : SessRef) (index offset length : Int64) : Except Err Bytes :=
  match overlayFile w r index with
  | some file => (readAtBytes file.data offset length).map fun part => padTo 0 part (natOf length)
  | none => .error .notExist

section Refines

variable {P : Platform} {t : FileTree} {who : Caller} {b : Backend} {w : World}

theorem fetchChunk_refines (id : String) (volume : Volume) (chunkID : String) :
    (treeMachine P t who).wp (fetchChunk P b id volume chunkID).run
      (fun r w' =>
        r = ((w.disk who.node).fetch P t b.cache w.objects volume.chunkSize chunkID).1 ∧
        w'.disk who.node =
          ((w.disk who.node).fetch P t b.cache w.objects volume.chunkSize chunkID).2) w := by
  unfold fetchChunk
  rw [wp_run_bind]
  refine tree_access (by simp) ?_
  rw [orElse_ok]
  unfold attempt
  rw [wp_run_bind, wp_run_lift]
  refine tree_perform (by simp) ?_
  rw [orElse_ok]
  unfold Disk.fetch
  cases hobject : w.objects (chunkKey chunkID) with
  | none =>
    simp only [treeExec, exec, Fault.on, execGet, hobject]
    rw [wp_run_bind]
    exact tree_access (by simp) ⟨rfl, rfl⟩
  | some remote =>
    simp only [treeExec, exec, Fault.on, execGet, hobject]
    rw [wp_run_bind]
    refine tree_access (by simp) ?_
    rw [orElse_ok, wp_run_bind]
    cases hnorm : normalizeChunk remote volume.chunkSize with
    | error err => exact ⟨rfl, rfl⟩
    | ok whole =>
      show (treeMachine P t who).wp (do
        b.cache.put P chunkID whole
        pure (some whole) : M (Option Bytes)).run _ _
      refine wp_run_seq (put_refines chunkID whole) ?_
      intro r w' hput
      -- counting does not change the disk
      obtain ⟨rfl, hdisk⟩ : r = ((w.disk who.node).put P t b.cache chunkID whole).1 ∧
        w'.disk who.node = ((w.disk who.node).put P t b.cache chunkID whole).2 := ⟨hput.1, hput.2.1⟩
      dsimp only
      generalize (w.disk who.node).put P t b.cache chunkID whole = done at hdisk
      obtain ⟨_ | _, d⟩ := done
      · exact ⟨rfl, hdisk⟩
      · exact ⟨rfl, hdisk⟩

/-- Both functions compute `Disk.resolveWith`, if their parts compute its parts. -/
theorem resolveWith_refines (hsession : w.sessions (who.node, id) = some s) {dirtyPart : M Bytes}
    {cachedPart : String → M (Option Bytes)} {hit : Bytes → M Bytes} {part : Bytes → Bytes}
    {zeroes : Bytes} {dirty : Except Err Bytes}
    {cached : Disk → String → Except Err (Option Bytes) × Disk} {found : Bytes → Except Err Bytes}
    (hdirty : (treeMachine P t who).wp dirtyPart.run
      (fun r w' => r = dirty ∧ w'.disk who.node = w.disk who.node) w)
    (hcached : ∀ chunkID, (treeMachine P t who).wp (cachedPart chunkID).run
      (fun r w' => r = (cached (w.disk who.node) chunkID).1 ∧
        Leaves who w (cached (w.disk who.node) chunkID).2 w') w)
    (hhit : ∀ data, hit data = ofResult (found data)) :
    (treeMachine P t who).wp
      (Backend.resolveWith P b id s.volume index dirtyPart cachedPart hit part zeroes).run
      (fun r w' => r = ((w.disk who.node).resolveWith P t b.cache s index w.objects dirty cached found
          part zeroes).1 ∧
        w'.disk who.node = ((w.disk who.node).resolveWith P t b.cache s index w.objects dirty cached
          found part zeroes).2) w := by
  unfold Backend.resolveWith Disk.resolveWith
  rw [wp_run_bind]
  refine tree_access (by simp) ?_
  simp only [treeExec, exec, hsession, Option.bind_some, orElse_ok]
  by_cases hindex : (s.dirty.lookup index).isSome
  · rw [if_pos hindex, if_pos hindex]
    exact hdirty
  · rw [if_neg hindex, if_neg hindex, wp_run_bind]
    refine tree_access (by simp) ?_
    simp only [treeExec, exec, hsession, Option.bind_some, orElse_ok]
    cases hlookup : s.baseManifest.lookup index with
    | none =>
      rw [wp_run_bind]
      exact tree_access (by simp) ⟨rfl, rfl⟩
    | some chunkID =>
      unfold Disk.resolveBase
      dsimp only
      refine wp_run_seq (hcached chunkID) ?_
      rintro r w₁ ⟨rfl, hdisk, hobjects⟩
      generalize cached (w.disk who.node) chunkID = looked at hdisk
      obtain ⟨_ | _ | data, d₁⟩ := looked
      · exact ⟨rfl, hdisk⟩
      · rw [orElse_ok]
        refine wp_run_seq (fetchChunk_refines id s.volume chunkID) ?_
        rintro r w₂ ⟨rfl, hdisk₂⟩
        rw [hdisk, hobjects] at hdisk₂ ⊢
        dsimp only at hdisk₂ ⊢
        generalize d₁.fetch P t b.cache w.objects s.volume.chunkSize chunkID = got at hdisk₂
        obtain ⟨_ | _ | remote, d₂⟩ := got
        · exact ⟨rfl, hdisk₂⟩
        · exact ⟨rfl, hdisk₂⟩
        · exact ⟨rfl, hdisk₂⟩
      · rw [orElse_ok, wp_run_bind]
        refine tree_access (by simp) ?_
        rw [orElse_ok, hhit]
        exact ⟨rfl, hdisk⟩

theorem resolveChunk_refines (hsession : w.sessions (who.node, id) = some s) :
    (treeMachine P t who).wp (resolveChunk P b id s.volume index).run
      (fun r w' =>
        let resolved := (w.disk who.node).resolveWith P t b.cache s index w.objects
          (overlayChunk w (who.node, id) index s.volume.chunkSize) (fun d => d.get P t b.cache)
          (fun cached => normalizeChunk cached s.volume.chunkSize) (fun remote => remote)
          (zeroChunk s.volume.chunkSize)
        r = resolved.1 ∧ w'.disk who.node = resolved.2) w := by
  refine resolveWith_refines hsession ?_ (fun chunkID => get_refines chunkID) (fun data => rfl)
  unfold readDirtyChunk outside overlayChunk overlayFile
  rw [wp_run_bind]
  refine tree_perform (by simp) ?_
  simp only [treeExec, exec, Fault.on, execReadOverlay]
  cases (w.overlays (who.node, id)).bind fun d => d index with
  | none => exact ⟨rfl, rfl⟩
  | some file => exact ⟨rfl, rfl⟩

theorem resolveChunkRange_refines {offset length : Int64}
    (hsession : w.sessions (who.node, id) = some s) :
    (treeMachine P t who).wp (resolveChunkRange P b id s.volume index offset length).run
      (fun r w' =>
        let resolved := (w.disk who.node).resolveWith P t b.cache s index w.objects
          (overlayRange w (who.node, id) index offset length)
          (fun d chunkID => d.getRange P t b.cache chunkID offset length) (fun cached => .ok cached)
          (fun remote => slice remote (natOf offset) (natOf length)) (zeroChunk length)
        r = resolved.1 ∧ w'.disk who.node = resolved.2) w := by
  refine resolveWith_refines hsession ?_ (fun chunkID => getRange_refines chunkID offset length)
    (fun data => rfl)
  unfold readDirtyRange outside overlayRange overlayFile
  rw [wp_run_bind]
  refine tree_perform (by simp) ?_
  simp only [treeExec, exec, Fault.on, execReadOverlay]
  cases (w.overlays (who.node, id)).bind fun d => d index with
  | none => exact ⟨rfl, rfl⟩
  | some file =>
    dsimp only
    cases readAtBytes file.data offset length with
    | error err => exact ⟨rfl, rfl⟩
    | ok part => exact ⟨rfl, rfl⟩

end Refines

/-! ## Agreement -/

/-- Both fail, or both succeed and one has the part of the other's bytes. -/
def Agree (offset length : Int64) : Except Err Bytes → Except Err Bytes → Prop
  | .error _, .error _ => True
  | .ok chunk, .ok part => natOf offset + natOf length ≤ chunk.length ∧
      part = slice chunk (natOf offset) (natOf length)
  | _, _ => False

/-- No chunk in the overlay of the session, in memory, on the disk or in the store is longer than the
chunk size. -/
structure ChunksFit (c : LocalCache) (w : World) (r : SessRef) (chunkSize : Int64) : Prop where
  overlay : ∀ index file, overlayFile w r index = some file →
    (file.data.length : Int) ≤ chunkSize.toInt
  memory : ∀ e ∈ (w.disk r.1).memory.memoryList, (e.2.data.length : Int) ≤ chunkSize.toInt
  files : ∀ chunkID file, (w.disk r.1).files.lookup (c.path chunkID) = some file →
    (file.data.length : Int) ≤ chunkSize.toInt
  objects : ∀ chunkID data, w.objects (chunkKey chunkID) = some data →
    (data.length : Int) ≤ chunkSize.toInt

/-- The chunk would be read from a directory: it is clean and mapped, its id is not in memory, and
the path of its id is a directory. -/
def FromDirectory (t : FileTree) (c : LocalCache) (d : Disk) (s : Session) (index : Int64) : Prop :=
  s.dirty.lookup index = none ∧ ∃ chunkID, s.baseManifest.lookup index = some chunkID ∧
    (d.memory.getMemory chunkID).1 = none ∧ t.find d.files (c.path chunkID) = .directory

section Agree

variable {P : Platform} {t : FileTree} {c : LocalCache} {d : Disk} {offset length chunkSize : Int64}

/-- A chunk that fits, padded and cut, is the padded cut. -/
theorem agree_normalize {data : Bytes} (hfits : (data.length : Int) ≤ chunkSize.toInt)
    (hrange : natOf offset + natOf length ≤ natOf chunkSize) :
    Agree offset length (normalizeChunk data chunkSize)
      (.ok (padTo 0 (slice data (natOf offset) (natOf length)) (natOf length))) := by
  rw [normalizeChunk_ok hfits, padTo_slice_eq_window]
  refine ⟨by rwa [length_window], ?_⟩
  rw [slice_window _ hrange, Nat.zero_add]

theorem agree_zero (hrange : natOf offset + natOf length ≤ natOf chunkSize) :
    Agree offset length (.ok (zeroChunk chunkSize)) (.ok (zeroChunk length)) := by
  refine ⟨by rwa [zeroChunk, List.length_replicate], ?_⟩
  have hle : natOf length ≤ natOf chunkSize - natOf offset := by omega
  simp only [zeroChunk, slice, List.drop_replicate, List.take_replicate]
  rw [show min (natOf length) (chunkSize.toInt.toNat - natOf offset) = natOf length from
    Nat.min_eq_left hle]
  rfl

theorem agree_fetched {remote : Bytes} (hlen : remote.length = natOf chunkSize)
    (hrange : natOf offset + natOf length ≤ natOf chunkSize) :
    Agree offset length (.ok remote) (.ok (slice remote (natOf offset) (natOf length))) :=
  ⟨by rwa [hlen], rfl⟩

theorem agree_overlay {w : World} {r : SessRef} (hfits : ChunksFit c w r chunkSize)
    (hoffset : 0 ≤ offset.toInt) (hrange : natOf offset + natOf length ≤ natOf chunkSize) :
    Agree offset length (overlayChunk w r index chunkSize) (overlayRange w r index offset length) := by
  unfold overlayChunk overlayRange
  cases hfile : overlayFile w r index with
  | none => trivial
  | some file =>
    have hlimit := natOf_lt chunkSize
    have hstop : offset.toInt + length.toInt < 2 ^ 63 := by
      unfold natOf at *
      omega
    dsimp only
    rw [readAtBytes_ok _ hoffset hstop]
    exact agree_normalize (hfits.overlay index file hfile) hrange

/-- The memory tier answers both, or neither. -/
private theorem getMemory_range (m : MemoryTier) (chunkID : String) (offset length : Int64) :
    (∃ m', m.getMemory chunkID = (none, m') ∧
      m.getMemoryRange chunkID offset length = (none, m')) ∨
    ∃ m', ∃ e ∈ m.memoryList, m.getMemory chunkID = (some e.2.data, m') ∧
      m.getMemoryRange chunkID offset length =
        (some (padTo 0 (slice e.2.data (natOf offset) (natOf length)) (natOf length)), m') := by
  unfold MemoryTier.getMemory MemoryTier.getMemoryRange
  cases m.memoryItems.lookup chunkID with
  | none => exact Or.inl ⟨m, rfl, rfl⟩
  | some elem =>
    dsimp only
    cases hentry : m.memoryList.lookup elem with
    | none => exact Or.inl ⟨_, rfl, rfl⟩
    | some chunk =>
      obtain ⟨before, after, hlist, -⟩ := List.lookup_eq_some_iff.mp hentry
      have hmem : (elem, chunk) ∈ m.memoryList := by simp [hlist]
      exact Or.inr ⟨_, (elem, chunk), hmem, rfl, rfl⟩

/-- What `Get` and `GetRange` answer, side by side. -/
inductive SameLookup (offset length : Int64) (fits : Bytes → Prop) :
    Except Err (Option Bytes) × Disk → Except Err (Option Bytes) × Disk → Prop
  | fail {e e' : Err} {d d' : Disk} (hfiles : d.files = d'.files) :
      SameLookup offset length fits (.error e, d) (.error e', d')
  | miss {d : Disk} : SameLookup offset length fits (.ok none, d) (.ok none, d)
  | hit {data : Bytes} {d d' : Disk} (hdata : fits data) (hfiles : d.files = d'.files) :
      SameLookup offset length fits (.ok (some data), d)
        (.ok (some (padTo 0 (slice data (natOf offset) (natOf length)) (natOf length))), d')

/-- `Get` and `GetRange` find the same, unless nothing is to be read from a directory. -/
theorem sameLookup (chunkID : String) (hoffset : 0 ≤ offset.toInt) (hlength : 0 ≤ length.toInt)
    (hstop : offset.toInt + length.toInt < 2 ^ 63)
    (hproper : ¬ (length = 0 ∧ (d.memory.getMemory chunkID).1 = none ∧
      t.find d.files (c.path chunkID) = .directory)) :
    SameLookup offset length
      (fun data => (∃ e ∈ d.memory.memoryList, e.2.data = data) ∨
        ∃ file, d.files.lookup (c.path chunkID) = some file ∧ file.data = data)
      (d.get P t c chunkID) (d.getRange P t c chunkID offset length) := by
  unfold Disk.get Disk.getRange
  rcases getMemory_range d.memory chunkID offset length with
    ⟨m, hget, hrange⟩ | ⟨m, e, he, hget, hrange⟩
  · rw [hget, hrange]
    rw [hget] at hproper
    dsimp only
    cases hfound : t.find d.files (c.path chunkID) with
    | missing => exact .miss
    | refused => exact .fail rfl
    | directory =>
      have hsome : ¬ (0 ≤ offset ∧ length ≤ 0) := by
        rintro ⟨-, hle⟩
        have hle' := Int64.le_iff_toInt_le.mp hle
        rw [Int64.toInt_zero] at hle'
        refine hproper ⟨Int64.toInt_inj.mp ?_, rfl, hfound⟩
        rw [Int64.toInt_zero]
        omega
      simp only [Found.readFile, Found.readFileAt, if_neg hsome]
      exact .fail rfl
    | file f =>
      simp only [Found.readFile, Found.readFileAt, readAtBytes_ok _ hoffset hstop]
      exact .hit (Or.inr ⟨f, find_eq_file hfound, rfl⟩) rfl
  · rw [hget, hrange]
    exact .hit (Or.inl ⟨e, he, rfl⟩) rfl

/-- From a directory `Get` fails, and `GetRange` of nothing does not. -/
theorem lookup_directory {chunkID : String} (hoffset : 0 ≤ offset.toInt)
    (hmemory : (d.memory.getMemory chunkID).1 = none)
    (hfound : t.find d.files (c.path chunkID) = .directory) :
    (∃ e d', d.get P t c chunkID = (.error e, d')) ∧
      ∃ b d', d.getRange P t c chunkID offset 0 = (.ok (some b), d') := by
  unfold Disk.get Disk.getRange
  rcases getMemory_range d.memory chunkID offset 0 with ⟨m, hget, hrange⟩ | ⟨m, e, -, hget, -⟩
  · have hopen : (0 : Int64) ≤ offset ∧ (0 : Int64) ≤ 0 :=
      ⟨Int64.le_iff_toInt_le.mpr hoffset, Int64.le_refl 0⟩
    rw [hget, hrange, hfound]
    simp only [Found.readFile, Found.readFileAt, if_pos hopen]
    exact ⟨⟨_, _, rfl⟩, _, _, rfl⟩
  · rw [hget] at hmemory
    cases hmemory

/-- The chunk of the base, both ways: what is fetched is fetched and put alike. -/
theorem agree_base {objects : String → Option Bytes} {chunkID : String}
    (hrange : natOf offset + natOf length ≤ natOf chunkSize)
    (hobjects : ∀ data, objects (chunkKey chunkID) = some data →
      (data.length : Int) ≤ chunkSize.toInt)
    {fits : Bytes → Prop} (hfits : ∀ data, fits data → (data.length : Int) ≤ chunkSize.toInt)
    {get getRange : Disk → String → Except Err (Option Bytes) × Disk}
    (hlookup : SameLookup offset length fits (get d chunkID) (getRange d chunkID)) :
    let whole := d.resolveBase P t c objects chunkSize get
      (fun cached => normalizeChunk cached chunkSize) (fun remote => remote) (zeroChunk chunkSize) chunkID
    let part := d.resolveBase P t c objects chunkSize getRange (fun cached => .ok cached)
      (fun remote => slice remote (natOf offset) (natOf length)) (zeroChunk length) chunkID
    Agree offset length whole.1 part.1 ∧ whole.2.files = part.2.files := by
  intro whole part
  simp only [whole, part, Disk.resolveBase]
  generalize get d chunkID = got at hlookup
  generalize getRange d chunkID = got' at hlookup
  cases hlookup with
  | fail hfiles => exact ⟨trivial, hfiles⟩
  | hit hdata hfiles => exact ⟨agree_normalize (hfits _ hdata) hrange, hfiles⟩
  | @miss d₁ =>
    dsimp only
    unfold Disk.fetch
    cases hobject : objects (chunkKey chunkID) with
    | none => exact ⟨agree_zero hrange, rfl⟩
    | some remote =>
      dsimp only
      rw [normalizeChunk_ok (hobjects remote hobject)]
      dsimp only
      generalize hnorm : window (fun p => remote.getD p 0) 0 (natOf chunkSize) = norm
      have hlen : norm.length = natOf chunkSize := by rw [← hnorm, length_window]
      generalize d₁.put P t c chunkID norm = done
      obtain ⟨_ | _, d₂⟩ := done
      · exact ⟨trivial, rfl⟩
      · exact ⟨agree_fetched hlen hrange, rfl⟩

end Agree

/-- **The range path agrees with the whole-chunk path**, EXACTLY unless nothing is to be read from a
directory: both fail, or both succeed and one returns the part of the other's bytes, and the files of
the cache are the same afterwards. -/
theorem range_path_agrees_iff {P : Platform} {t : FileTree} {who : Caller} {b : Backend} {w w₁ w₂ : World}
    {id : String} {s : Session} {index offset length : Int64} {tr tr' : List (Op × Nat)}
    {whole part : Except Err Bytes} (hsession : w.sessions (who.node, id) = some s)
    (hoffset : 0 ≤ offset.toInt) (hlength : 0 ≤ length.toInt)
    (hrange : offset.toInt + length.toInt ≤ s.volume.chunkSize.toInt)
    (hfits : ChunksFit b.cache w (who.node, id) s.volume.chunkSize)
    (hwhole : (treeMachine P t who).Runs (resolveChunk P b id s.volume index).run w tr whole w₁)
    (hpart : (treeMachine P t who).Runs
      (resolveChunkRange P b id s.volume index offset length).run w tr' part w₂) :
    Agree offset length whole part ∧ (w₁.disk who.node).files = (w₂.disk who.node).files ↔
      ¬ (length = 0 ∧ FromDirectory t b.cache (w.disk who.node) s index) := by
  have hrange' : natOf offset + natOf length ≤ natOf s.volume.chunkSize := by unfold natOf; omega
  have hstop : offset.toInt + length.toInt < 2 ^ 63 := hrange.trans_lt s.volume.chunkSize.toInt_lt
  obtain ⟨rfl, hdisk₁⟩ := hwhole.wp (resolveChunk_refines hsession)
  obtain ⟨rfl, hdisk₂⟩ := hpart.wp (resolveChunkRange_refines hsession)
  rw [hdisk₁, hdisk₂]
  unfold Disk.resolveWith FromDirectory
  by_cases hdirty : (s.dirty.lookup index).isSome
  · rw [if_pos hdirty, if_pos hdirty]
    refine iff_of_true ⟨agree_overlay hfits hoffset hrange', rfl⟩ ?_
    rintro ⟨-, hclean, -⟩
    rw [hclean] at hdirty
    cases hdirty
  · rw [if_neg hdirty, if_neg hdirty]
    cases hbase : s.baseManifest.lookup index with
    | none =>
      refine iff_of_true ⟨agree_zero hrange', rfl⟩ ?_
      rintro ⟨-, -, chunkID, hmapped, -⟩
      cases hmapped
    | some chunkID =>
      dsimp only
      by_cases hdir : length = 0 ∧ ((w.disk who.node).memory.getMemory chunkID).1 = none ∧
          t.find (w.disk who.node).files (b.cache.path chunkID) = .directory
      · obtain ⟨rfl, hmemory, hfound⟩ := hdir
        refine iff_of_false ?_ (not_not.mpr ⟨rfl, Option.not_isSome_iff_eq_none.mp hdirty, chunkID, rfl,
          hmemory, hfound⟩)
        rintro ⟨hagree, -⟩
        obtain ⟨⟨e, d₁, hget⟩, data, d₂, hgetRange⟩ :=
          lookup_directory (P := P) hoffset hmemory hfound
        simp only [Disk.resolveBase, hget, hgetRange] at hagree
        exact hagree
      · refine iff_of_true (agree_base hrange' (hfits.objects chunkID) ?_
          (sameLookup chunkID hoffset hlength hstop hdir)) ?_
        · rintro data (⟨e, he, rfl⟩ | ⟨file, hfile, rfl⟩)
          · exact hfits.memory e he
          · exact hfits.files chunkID file hfile
        · rintro ⟨hzero, -, chunkID', hmapped, hrest⟩
          cases hmapped
          exact hdir ⟨hzero, hrest⟩

/-! ## Two reads -/

/-- A store with one chunk of two bytes, and a session of a volume of four-byte chunks whose base names
`chunkID` as its first chunk. -/
def oneChunk (chunkID : String) : World :=
  { World.initial with
    objects := fun key => if key = chunkKey "ab" then some [7, 8] else none
    sessions := fun r => if r = (0, "s") then
      some ⟨⟨"v", 8, 4, "", ""⟩, "", (∅ : Manifest).insert 0 chunkID, ∅⟩ else none }

private theorem oneChunk_fits (c : LocalCache) (chunkID : String) :
    ChunksFit c (oneChunk chunkID) (0, "s") 4 := by
  refine ⟨fun _ _ h => (by cases h), fun _ h => (by cases h), fun _ _ h => (by cases h), ?_⟩
  intro id data h
  unfold oneChunk at h
  dsimp only at h
  split at h
  · cases h
    decide
  · cases h

/-- Two bytes of a chunk that is shorter than the chunk size, fetched from the store. -/
theorem range_path_agrees_short_chunk :
    let b : Backend := ⟨"node-1", newLocalCacheWithMemory ["cache"] 0 8⟩
    let volume : Volume := ⟨"v", 8, 4, "", ""⟩
    ∃ tr tr' w₁ w₂, (treeMachine goRuntime cacheOnly ⟨0, 0⟩).Runs
        (resolveChunk goRuntime b "s" volume 0).run (oneChunk "ab") tr (.ok [7, 8, 0, 0]) w₁ ∧
      (treeMachine goRuntime cacheOnly ⟨0, 0⟩).Runs
        (resolveChunkRange goRuntime b "s" volume 0 1 2).run (oneChunk "ab") tr' (.ok [8, 0]) w₂ ∧
      Agree 1 2 (.ok [7, 8, 0, 0]) (.ok [8, 0]) ∧ (w₁.disk 0).files = (w₂.disk 0).files := by
  intro b volume
  let M := treeMachine goRuntime cacheOnly ⟨0, 0⟩
  let whole := (resolveChunk goRuntime b "s" volume 0).run
  let part := (resolveChunkRange goRuntime b "s" volume 0 1 2).run
  have hwhole : M.Runs whole (oneChunk "ab") _ (.ok [7, 8, 0, 0]) _ :=
    runs_of_run (fun _ => 0) (by decide +kernel) (by decide +kernel)
  have hpart : M.Runs part (oneChunk "ab") _ (.ok [8, 0]) _ :=
    runs_of_run (fun _ => 0) (by decide +kernel) (by decide +kernel)
  let s : Session := ⟨volume, "", (∅ : Manifest).insert 0 "ab", ∅⟩
  have hsession : (oneChunk "ab").sessions (0, "s") = some s := rfl
  have hiff := range_path_agrees_iff (s := s) (w := oneChunk "ab") hsession (show 0 ≤ (1 : Int64).toInt by decide)
    (show 0 ≤ (2 : Int64).toInt by decide) (by decide) (oneChunk_fits b.cache "ab") hwhole hpart
  exact ⟨_, _, _, _, hwhole, hpart, hiff.mpr fun h => absurd h.1 (by decide)⟩

/-- Nothing, read from a chunk whose id is empty: the path is the cache directory itself. -/
theorem range_path_of_directory :
    let b : Backend := ⟨"node-1", newLocalCacheWithMemory ["cache"] 0 8⟩
    let volume : Volume := ⟨"v", 8, 4, "", ""⟩
    ChunksFit b.cache (oneChunk "") (0, "s") 4 ∧
      ∃ tr tr' w₁ w₂, (treeMachine goRuntime cacheOnly ⟨0, 0⟩).Runs
          (resolveChunk goRuntime b "s" volume 0).run (oneChunk "") tr (.error .io) w₁ ∧
        (treeMachine goRuntime cacheOnly ⟨0, 0⟩).Runs
          (resolveChunkRange goRuntime b "s" volume 0 0 0).run (oneChunk "") tr' (.ok []) w₂ ∧
        ¬ Agree 0 0 (.error .io) (.ok []) := by
  intro b volume
  let M := treeMachine goRuntime cacheOnly ⟨0, 0⟩
  let whole := (resolveChunk goRuntime b "s" volume 0).run
  let part := (resolveChunkRange goRuntime b "s" volume 0 0 0).run
  have hwhole : M.Runs whole (oneChunk "") _ (.error .io) _ :=
    runs_of_run (fun _ => 0) (by decide +kernel) (by decide +kernel)
  have hpart : M.Runs part (oneChunk "") _ (.ok []) _ :=
    runs_of_run (fun _ => 0) (by decide +kernel) (by decide +kernel)
  exact ⟨oneChunk_fits b.cache "", _, _, _, _, hwhole, hpart, id⟩

end OrcaBlocks.Storage
