/-
# OrcaBlocks.Storage.ConcurrentCalls — writes and commits of one session, interleaved.

The session has no lock, so HTTP handlers and NBD connections interleave their `Write` and `CommitWithOptions` calls
stage by stage. Two things go wrong. A `Write` stores a whole chunk from a copy it took earlier: what another one
stored in between is gone. And a commit drops the WHOLE overlay at its end, but uploaded only what was marked when it
collected the dirty indexes: what was stored in between is neither in the snapshot nor in the overlay.

The races are a relation on where two calls stand (`Point.Races`). The invariant (`TeamOk`) says of every call how far
it has come and what it holds: the copy a write is about to store and the file it is about to mark are the chunk as it
is NOW with the part patched in, and the base a commit has moved the session to has all that is in the overlay. Here is
what each kind of effect does to it; `OrcaBlocks.Storage.AcknowledgedWrites` runs the calls.
-/
import OrcaBlocks.Storage.Alone
import OrcaBlocks.Storage.BatchSize
import OrcaBlocks.Storage.Stages

namespace OrcaBlocks.Storage

open OrcaBlocks.Lib Backend Function

variable {w w' : World} {r : ChunkRange} {v : Volume} {chunk : Int64 → Bytes} {i offset pos : Int64}
  {lo p : Nat} {data : Bytes} {rs : List ChunkRange} {who : Caller}

/-! ## Calls of one session -/

/-- A call on the session. Data is a Go slice, whose length is an `int`. -/
inductive SessionCall where
  | write (offset : Int64) (data : { b : Bytes // b.length < 2 ^ 63 })
  | commit (opts : CommitOptions)

def SessionCall.request (id : String) : SessionCall → Request
  | .write offset data => .write id offset data
  | .commit opts => .commit id opts

/-- The reply a result is turned into. -/
def replyWith {α : Type} (reply : α → Reply) : Except Err α → Reply
  | .ok a => reply a
  | .error _ => .failed

/-- The call in stages. -/
def SessionCall.staged (P : Platform) (b : Backend) (id : String) : SessionCall → Staged sig Point Reply
  | .write offset data => (b.stagedWrite P id offset data.1).map (replyWith fun _ => .done)
  | .commit opts => (b.stagedCommit P id opts).map (replyWith fun s => .committed s.snapshotID)

/-- The call in stages is the call. -/
theorem SessionCall.flatten_staged (P : Platform) (b : Backend) (id : String) (call : SessionCall) :
    (call.staged P b id).flatten = (call.request id).prog P b := by
  cases call with
  | write offset data =>
    simp only [staged, request, Request.prog, Staged.flatten_map, flatten_stagedWrite]
    refine congrArg (_ >>= ·) (funext fun r => ?_)
    cases r with
    | error e => rfl
    | ok u => rfl
  | commit opts =>
    simp only [staged, request, Request.prog, Staged.flatten_map, flatten_stagedCommit]
    refine congrArg (_ >>= ·) (funext fun r => ?_)
    cases r with
    | error e => rfl
    | ok snap => rfl

/-- A stage of call `n` on a node: a thread of its own, not interrupted, and nothing fails. -/
def uninterrupted (P : Platform) (node : Nat) {k : Nat} (n : Fin k) (β : Type) (x : Prog sig β) (w : World) :
    β × World :=
  (machine P faultFree ⟨node, n⟩).run (fun _ => .none) x w

/-- Calls on one session, each somewhere in its stages. -/
abbrev Team (k : Nat) := Crew k sig Point World Reply

/-- The calls, interleaved by a schedule, on a world nobody is working on. -/
def interleave (P : Platform) (b : Backend) (node : Nat) (id : String) {k : Nat} (calls : Fin k → SessionCall)
    (schedule : List (Fin k)) (w : World) : Option (Team k) :=
  Crew.play (uninterrupted P node) (fun n => (calls n).staged P b id) schedule (.idle w)

/-! ## Races -/

/-- The commit has collected the dirty indexes and not yet dropped the overlay. -/
def Point.inCommit : Point → Bool
  | .prepare => true
  | .move => true
  | .clear => true
  | _ => false

/-- **The races.** Storing a chunk of which another call holds a copy; loading one another call has stored and not
marked; collecting the indexes while a chunk is stored and not marked; storing a chunk, or collecting the indexes,
while a commit is between its collection and its end. -/
def Point.Races : Point → Point → Prop
  | .store i, .store j => i = j
  | .store _, q => q.inCommit = true
  | .load i, .mark j => i = j
  | .collect, .mark _ => True
  | .collect, q => q.inCommit = true
  | _, _ => False

instance : DecidableRel Point.Races := fun p q => by
  cases p with
  | store i => cases q with
    | store j => exact inferInstanceAs (Decidable (i = j))
    | _ => exact inferInstanceAs (Decidable (_ = true))
  | load i => cases q with
    | mark j => exact inferInstanceAs (Decidable (i = j))
    | _ => exact instDecidableFalse
  | collect => cases q with
    | mark j => exact instDecidableTrue
    | _ => exact inferInstanceAs (Decidable (_ = true))
  | _ => exact instDecidableFalse

/-- No stage of the interleaving races with a stage another call stands before. -/
def RaceFree (P : Platform) (b : Backend) (node : Nat) (id : String) {k : Nat} (calls : Fin k → SessionCall)
    (schedule : List (Fin k)) (w : World) : Prop :=
  Crew.AllCareful (uninterrupted P node) (fun n => (calls n).staged P b id) Point.Races schedule (.idle w)

instance (P : Platform) (b : Backend) (node : Nat) (id : String) {k : Nat} (calls : Fin k → SessionCall)
    (schedule : List (Fin k)) (w : World) : Decidable (RaceFree P b node id calls schedule w) :=
  inferInstanceAs (Decidable (Crew.AllCareful _ _ _ _ _))

/-! ## What must not be lost -/

/-- The position `p` is one of `n` from `offset`. -/
def Covers (offset : Int64) (n p : Nat) : Prop := natOf offset ≤ p ∧ p < natOf offset + n

/-- A value a read may find at a position of the write `n` once that has returned: the byte of `n`, or the byte of
another write that has started and was not over when `n` started. -/
def Current {k : Nat} (calls : Fin k → SessionCall) (c : Team k) (n : Fin k) (offset : Int64) (data : Bytes)
    (p : Nat) (x : UInt8) : Prop :=
  x = data.getD (p - natOf offset) 0 ∨
    ∃ m offset' data', m ≠ n ∧ calls m = .write offset' data' ∧ (c.tasks m).isSome ∧ c.past n m = false ∧
      Covers offset' data'.1.length p ∧ x = data'.1.getD (p - natOf offset') 0

/-! ## Chunks and positions -/

/-- The byte at a position of a volume whose chunks are given. -/
def byteAt (v : Volume) (chunk : Int64 → Bytes) (p : Nat) : UInt8 :=
  (chunk (Int64.ofNat (p / natOf v.chunkSize))).getD (p % natOf v.chunkSize) 0

theorem byteAt_sessionChunk {r : SessRef} {s : Session} (hcs : 0 < s.volume.chunkSize.toInt) :
    byteAt s.volume (sessionChunk w r s) = sessionByte w r s := by
  funext p
  have hmod : p % natOf s.volume.chunkSize < natOf s.volume.chunkSize :=
    Nat.mod_lt _ (by unfold natOf; omega)
  rw [byteAt, sessionChunk, getD_window 0 _ hmod, Nat.zero_add, sessionByte]

/-- **One range.** Patching a part into its chunk patches exactly the positions of the part. Positions are below
`2^63`: beyond, chunk indexes wrap. -/
theorem byteAt_update {part : Bytes} (hlength : (chunk i).length = natOf v.chunkSize)
    (hlo : lo < 2 ^ 63) (hi : i.toInt = (lo / natOf v.chunkSize : Nat))
    (hfit : lo % natOf v.chunkSize + part.length ≤ natOf v.chunkSize) (hpos : 0 < natOf v.chunkSize)
    (hp : p < 2 ^ 63) :
    byteAt v (update chunk i (overwrite (chunk i) (lo % natOf v.chunkSize) part)) p =
      patch 0 (byteAt v chunk) lo part p := by
  rw [byteAt]
  generalize hcs : natOf v.chunkSize = cs at hlength hi hfit hpos
  have hplt : p / cs < 2 ^ 63 := (Nat.div_le_self p cs).trans_lt hp
  have hllt : lo / cs < 2 ^ 63 := (Nat.div_le_self lo cs).trans_lt hlo
  have hindex : i = Int64.ofNat (lo / cs) := by
    have hn : natOf i = lo / cs := by rw [natOf, hi, Int.toNat_natCast]
    rw [← hn, ofNat_natOf (hi ▸ Int.natCast_nonneg _)]
  have hsame : Int64.ofNat (p / cs) = i ↔ p / cs = lo / cs := by
    rw [hindex]
    constructor
    · intro h
      rw [← natOf_ofNat hplt, ← natOf_ofNat hllt, h]
    · intro h
      rw [h]
  have hpsplit := Nat.div_add_mod' p cs
  have hlsplit := Nat.div_add_mod' lo cs
  have hpmod : p % cs < cs := Nat.mod_lt p hpos
  by_cases hj : p / cs = lo / cs
  · -- the position is in the chunk that was patched
    rw [hsame.mpr hj, update_self, getD_overwrite 0 (by omega)]
    rw [hj] at hpsplit
    unfold patch
    by_cases hin : lo ≤ p ∧ p < lo + part.length
    · rw [if_pos (by omega), if_pos hin, show p % cs - lo % cs = p - lo by omega]
    · rw [if_neg (by omega), if_neg hin, byteAt, hcs, hsame.mpr hj]
  · rw [update_of_ne (mt hsame.mp hj), patch, if_neg, byteAt, hcs]
    rintro ⟨h₁, h₂⟩
    apply hj
    apply Nat.div_eq_of_lt_le
    · omega
    · rw [Nat.succ_mul]; omega

/-- The part of the data that goes into a range. -/
def ChunkRange.part (r : ChunkRange) (data : Bytes) (dataPos : Int64) : Bytes :=
  slice data (natOf dataPos) (natOf (r.reqEnd - r.reqStart))

/-- What is ahead of a `Write` at position `lo`: the ranges of the rest of its data, all inside the volume. -/
structure Ahead (v : Volume) (offset : Int64) (data : Bytes) (lo : Nat) (rs : List ChunkRange) (dataPos : Int64) :
    Prop where
  tiles : Tiles (natOf v.chunkSize) lo (natOf offset + data.length) rs
  from_le : natOf offset ≤ lo
  pos : dataPos.toInt = (lo - natOf offset : Nat)
  nonneg : 0 ≤ offset.toInt
  room : ((natOf offset + data.length : Nat) : Int) ≤ v.sizeBytes.toInt

/-- One turn of the loop: the range is in one chunk, and its part of the data is what goes to its positions. -/
structure Turn (v : Volume) (offset : Int64) (data : Bytes) (lo mid : Nat) (r : ChunkRange) (dataPos : Int64) :
    Prop where
  index : r.index.toInt = (lo / natOf v.chunkSize : Nat)
  start : natOf r.chunkStart = lo % natOf v.chunkSize
  part : r.part data dataPos = slice data (lo - natOf offset) (mid - lo)
  taken : sliceOf data dataPos (dataPos + (r.reqEnd - r.reqStart)) = .ok (r.part data dataPos)
  length : (r.part data dataPos).length = mid - lo
  lt : lo < mid
  fit : lo % natOf v.chunkSize + (mid - lo) ≤ natOf v.chunkSize
  stop : mid ≤ natOf offset + data.length

theorem Tiles.eq_of_nil {cs hi : Nat} (h : Tiles cs lo hi []) : lo = hi := by
  cases h
  rfl

theorem Ahead.turn {dataPos : Int64} (h : Ahead v offset data lo (r :: rs) dataPos) :
    ∃ mid, Turn v offset data lo mid r dataPos ∧
      Ahead v offset data mid rs (dataPos + (r.reqEnd - r.reqStart)) := by
  obtain ⟨htiles, hfrom, hpos, hnonneg, hroom⟩ := h
  have hmax := v.sizeBytes.toInt_lt
  cases htiles with
  | @cons lo mid hi r rs hs he hi' hc hlt hle hfit hrest =>
    have hlen : (r.reqEnd - r.reqStart).toInt = (mid - lo : Nat) := by
      rw [toInt_sub_of_bounds (by omega), he, hs]
      omega
    have hlenNat : natOf (r.reqEnd - r.reqStart) = mid - lo := by unfold natOf; omega
    have hposNat : natOf dataPos = lo - natOf offset := by rw [natOf, hpos, Int.toNat_natCast]
    have hpart : r.part data dataPos = slice data (lo - natOf offset) (mid - lo) := by
      rw [ChunkRange.part, hlenNat, hposNat]
    refine ⟨mid, ⟨hi', ?_, hpart, ?_, ?_, hlt, hfit, hle⟩, hrest, by omega, ?_, hnonneg, hroom⟩
    · rw [natOf, hc, Int.toNat_natCast]
    · rw [hpart]
      exact sliceOf_ok hpos hlen (by omega) (by omega)
    · rw [hpart]
      simp only [slice, List.length_take, List.length_drop]
      omega
    · rw [toInt_add_of_bounds (by omega), hpos, hlen]
      omega

/-! ## How far a call has come -/

/-- How far a `Write` has come, and what is known then. `chunk` are the chunks of the session and `file` its overlay
files; `known i` is what a call remembers that found chunk `i` marked; `applied lo` says that the data before `lo` is
in its place. The copy a call is about to store, and the file it is about to mark, are the chunk as it is NOW with the
part patched in. -/
inductive WriteStage (P : Platform) (b : Backend) (id : String) (v : Volume) (offset : Int64) (data : Bytes)
    (chunk : Int64 → Bytes) (file : Int64 → Option OverlayFile) (known : Int64 → Prop) (applied : Nat → Prop) :
    Staged sig Point Reply → Prop
  | look {lo : Nat} {rs : List ChunkRange} {pos : Int64} (hahead : Ahead v offset data lo rs pos)
      (happlied : applied lo) :
      WriteStage P b id v offset data chunk file known applied
        ((b.stagedWriteRanges P id v data rs pos).map (replyWith fun _ => .done))
  | load {lo : Nat} {r : ChunkRange} {rs : List ChunkRange} {pos : Int64} (dirty : Bool)
      (hahead : Ahead v offset data lo (r :: rs) pos) (happlied : applied lo) (hdirty : dirty = true → known r.index) :
      WriteStage P b id v offset data chunk file known applied
        ((b.loadThen P id v r (.ok (r.part data pos)) dirty
          (b.stagedWriteRanges P id v data rs (pos + (r.reqEnd - r.reqStart)))).map (replyWith fun _ => .done))
  | store {lo : Nat} {r : ChunkRange} {rs : List ChunkRange} {pos : Int64}
      (hahead : Ahead v offset data lo (r :: rs) pos) (happlied : applied lo) {copy : Bytes}
      (hcopy : copy = overwrite (chunk r.index) (natOf r.chunkStart) (r.part data pos)) :
      WriteStage P b id v offset data chunk file known applied
        ((storeThen id r.index copy
          (b.stagedWriteRanges P id v data rs (pos + (r.reqEnd - r.reqStart)))).map (replyWith fun _ => .done))
  | mark {lo : Nat} {r : ChunkRange} {rs : List ChunkRange} {pos : Int64}
      (hahead : Ahead v offset data lo (r :: rs) pos) (happlied : applied lo) {f : OverlayFile}
      (hfile : file r.index = some f)
      (hdata : f.data = overwrite (chunk r.index) (natOf r.chunkStart) (r.part data pos)) :
      WriteStage P b id v offset data chunk file known applied
        ((markThen id r.index
          (b.stagedWriteRanges P id v data rs (pos + (r.reqEnd - r.reqStart)))).map (replyWith fun _ => .done))
  | failed : WriteStage P b id v offset data chunk file known applied (.done .failed)

/-- A call keeps its stage when the chunk it has a copy of, or the file it is about to mark, is left alone. -/
theorem WriteStage.mono {P : Platform} {b : Backend} {id : String} {chunk' : Int64 → Bytes}
    {file file' : Int64 → Option OverlayFile} {known known' : Int64 → Prop}
    {applied applied' : Nat → Prop} {t : Staged sig Point Reply}
    (h : WriteStage P b id v offset data chunk file known applied t)
    (hchunk : ∀ i, t.tag = some (.store i) ∨ t.tag = some (.mark i) → chunk' i = chunk i)
    (hfile : ∀ i, t.tag = some (.mark i) → file' i = file i) (hknown : ∀ i, known i → known' i)
    (happlied : ∀ lo, lo ≤ natOf offset + data.length →
      ((natOf offset + data.length : Nat) : Int) ≤ v.sizeBytes.toInt → applied lo → applied' lo) :
    WriteStage P b id v offset data chunk' file' known' applied' t := by
  have hmove : ∀ {lo : Nat} {rs : List ChunkRange} {pos : Int64}, Ahead v offset data lo rs pos → applied lo →
      applied' lo := fun hahead => happlied _ hahead.tiles.le hahead.room
  cases h with
  | look hahead happ => exact .look hahead (hmove hahead happ)
  | load dirty hahead happ hdirty => exact .load dirty hahead (hmove hahead happ) fun hd => hknown _ (hdirty hd)
  | store hahead happ hcopy => exact .store hahead (hmove hahead happ) (hchunk _ (.inl rfl) ▸ hcopy)
  | mark hahead happ hf hdata =>
    exact .mark hahead (hmove hahead happ) ((hfile _ rfl).trans hf) (hchunk _ (.inr rfl) ▸ hdata)
  | failed => exact .failed

/-- What a commit relies on between its collection and its end: the others leave the session alone. -/
def CommitRely (P : Platform) (who : Caller) (w w' : World) : Prop := Rely P who w w' ∧ UploadFrame w w'

/-- How far a commit has come, in the world `w`. While it prepares, the session is the one whose indexes it collected
(in `w₀`); when it is about to drop the overlay, the base of the session holds all that is in the overlay. -/
inductive CommitStage (P : Platform) (b : Backend) (who : Caller) (id : String) (opts : CommitOptions) (w : World)
    (s : Session) : Staged sig Point Reply → Prop
  | collect : CommitStage P b who id opts w s
      ((b.collectThen P id opts s.volume).map (replyWith fun snap => .committed snap.snapshotID))
  | prepare {w₀ : World} (total : Nat) {prep : StagedCall (Manifest × CommitBatchStats × Snapshot)}
      (hclosed : Closed P w₀) (hs : w₀.sessions (who.node, id) = some s) (hgrows : Grows w₀ w)
      (hoverlay : w.overlays (who.node, id) = w₀.overlays (who.node, id))
      (hprep : prep.Only (· = .prepare))
      (hguarded : Guarded P who (unfailing P) (CommitRely P who) UploadFrame prep.flatten
        (fun res w' => ∀ m stats snap, res = .ok (m, stats, snap) →
          Committed P True who id s s.baseManifest m snap w₀ w') w) :
      CommitStage P b who id opts w s
        ((prep.andThen fun (m, stats, snap) => stagedMoveTo opts id total m stats snap).map
          (replyWith fun snap => .committed snap.snapshotID))
  | clear (total : Nat) {m : Manifest} (stats : CommitBatchStats) (snap : Snapshot)
      (hsame : ∀ i, (s.dirty.lookup i).isSome → ∀ q < natOf s.volume.chunkSize,
        manifestChunkByte w s.baseManifest i q = chunkByte w (who.node, id) s i q) :
      CommitStage P b who id opts w s
        ((clearThen opts id total m stats snap).map (replyWith fun snap => .committed snap.snapshotID))
  | past (reply : Reply) : CommitStage P b who id opts w s (.done reply)

/-- Where two calls cannot stand at the same time: both about to mark a chunk, or one about to mark the chunk another
has a copy of, or one about to mark any chunk during a commit, or two in a commit. -/
def Point.Clash : Point → Point → Prop
  | .store i, .mark j => i = j
  | .mark i, .store j => i = j
  | .mark i, .mark j => i = j
  | .mark _, q => q.inCommit = true
  | p, .mark _ => p.inCommit = true
  | p, q => p.inCommit = true ∧ q.inCommit = true

theorem Point.Clash.symm {p q : Point} (h : p.Clash q) : q.Clash p := by
  cases p with
  | store i =>
    cases q with
    | mark j => exact Eq.symm h
    | _ => exact absurd h (by simp [Point.Clash, Point.inCommit])
  | mark i =>
    cases q with
    | store j => exact Eq.symm h
    | mark j => exact Eq.symm h
    | _ => exact h
  | _ =>
    cases q with
    | mark j => exact h
    | store j => exact absurd h (by simp [Point.Clash, Point.inCommit])
    | _ => exact And.symm h

section Invariant

variable (P : Platform) (b : Backend) (node : Nat) (id : String) {k : Nat} (calls : Fin k → SessionCall)

/-- What a call that found chunk `i` marked can be sure of: it still is, or its file is gone, or somebody is about to
mark it. -/
def Known (c : Team k) (s : Session) (i : Int64) : Prop :=
  (s.dirty.lookup i).isSome ∨ overlayFile c.state (node, id) i = none ∨ ∃ m, c.point m = some (.mark i)

/-- The data of the write `n` before `lo` is in its place. -/
def Applied (c : Team k) (s : Session) (n : Fin k) (offset : Int64) (data : Bytes) (lo : Nat) : Prop :=
  ∀ p, natOf offset ≤ p → p < lo →
    Current calls c n offset data p (byteAt s.volume (sessionChunk c.state (node, id) s) p)

def StageOk (c : Team k) (s : Session) (n : Fin k) (t : Staged sig Point Reply) : SessionCall → Prop
  | .write offset data => WriteStage P b id s.volume offset data.1 (sessionChunk c.state (node, id) s)
      (overlayFile c.state (node, id)) (Known node id c s) (Applied node id calls c s n offset data.1) t
  | .commit opts => CommitStage P b ⟨node, n⟩ id opts c.state s t

/-- **The invariant of an interleaving.** -/
structure TeamOk (c : Team k) (s : Session) : Prop where
  closed : Closed P c.state
  registered : c.state.registered (node, id) = true
  session : c.state.sessions (node, id) = some s
  positive : 0 < s.volume.chunkSize.toInt
  intact : Intact c.state (node, id) s
  safe : ∀ n t, c.tasks n = some t →
    Safe P ⟨node, n⟩ (unfailing P) t.flatten (fun _ _ => True) c.state
  stages : ∀ n t, c.tasks n = some t → StageOk P b node id calls c s n t (calls n)
  apart : ∀ n m, n ≠ m → ∀ p ∈ c.point n, ∀ q ∈ c.point m, ¬ p.Clash q
  past : ∀ n m, c.past n m = true → (c.reply m).isSome

end Invariant

/-! ## One stage, seen from the others -/

section Steps

variable {P : Platform} {b : Backend} {node : Nat} {id : String} {k : Nat} {calls : Fin k → SessionCall}
  {c c' : Team k} {s s' : Session} {n m : Fin k} {t t' : Staged sig Point Reply}

/-- Call `n` has taken a stage, and `t'` is left of it. -/
structure Stepped (c c' : Team k) (n : Fin k) (t' : Staged sig Point Reply) : Prop where
  tasks : c'.tasks = update c.tasks n (some t')
  past : c'.past = if (c.tasks n).isSome then c.past
    else update c.past n fun m => (c.reply m).isSome
  running : c.reply n = none

theorem Stepped.point_self (h : Stepped c c' n t') : c'.point n = t'.tag := by
  rw [Crew.point, h.tasks, update_self]
  rfl

theorem Stepped.point_of_ne (h : Stepped c c' n t') (hm : m ≠ n) : c'.point m = c.point m := by
  rw [Crew.point, h.tasks, update_of_ne hm, Crew.point]

theorem Stepped.reply_of_ne (h : Stepped c c' n t') (hm : m ≠ n) : c'.reply m = c.reply m := by
  rw [Crew.reply, h.tasks, update_of_ne hm, Crew.reply]

theorem Stepped.started (h : Stepped c c' n t') (hm : (c.tasks m).isSome) : (c'.tasks m).isSome := by
  rw [h.tasks]
  by_cases hmn : m = n
  · rw [hmn, update_self]
    rfl
  · rwa [update_of_ne hmn]

theorem Stepped.over_eq (h : Stepped c c' n t') (hm : m ≠ n ∨ (c.tasks n).isSome) : c'.past m = c.past m := by
  rw [h.past]
  split
  · rfl
  · rename_i hstarted
    rcases hm with hm | hm
    · exact update_of_ne hm _ _
    · exact absurd hm hstarted

theorem started_of_point {p : Point} (h : c.point n = some p) : (c.tasks n).isSome := by
  rw [Crew.point] at h
  cases htask : c.tasks n with
  | none =>
    rw [htask] at h
    cases h
  | some t => rfl

/-- A value that could stand where it did still can. -/
theorem Current.mono {x : UInt8} (h : Current calls c m offset data p x) (hstep : Stepped c c' n t')
    (hm : m ≠ n ∨ (c.tasks n).isSome) : Current calls c' m offset data p x := by
  rcases h with h | ⟨m', offset', data', hne, hcall, hstarted, hover, hcovers, hx⟩
  · exact .inl h
  · refine .inr ⟨m', offset', data', hne, hcall, hstep.started hstarted, ?_, hcovers, hx⟩
    rwa [hstep.over_eq hm]

/-- A byte of a write that is under way may stand where another write has stood. -/
theorem TeamOk.current_of_running (h : TeamOk P b node id calls c s) (hstep : Stepped c c' n t')
    (hm : m ≠ n) {offset' : Int64} {data' : { b : Bytes // b.length < 2 ^ 63 }}
    (hcall : calls n = .write offset' data') (hcovers : Covers offset' data'.1.length p) :
    Current calls c' m offset data p (data'.1.getD (p - natOf offset') 0) := by
  refine .inr ⟨n, offset', data', hm.symm, hcall, ?_, ?_, hcovers, rfl⟩
  · rw [hstep.tasks, update_self]
    rfl
  · rw [hstep.over_eq (.inl hm)]
    by_contra hover
    rw [Bool.not_eq_false] at hover
    have hreply := h.past m n hover
    rw [hstep.running] at hreply
    cases hreply

/-- A stage of a commit that stands outside its critical part needs nothing of the world. -/
theorem CommitStage.idle {opts : CommitOptions} (h : CommitStage P b who id opts w s t)
    (hvolume : s'.volume = s.volume) (hidle : ∀ q ∈ t.tag, q.inCommit = false) :
    CommitStage P b who id opts w' s' t := by
  cases h with
  | collect =>
    rw [← hvolume]
    exact .collect
  | @prepare w₀ total prep hclosed hs hgrows hoverlay hprep hguarded =>
    cases prep with
    | done r =>
      cases r with
      | error e => exact .past _
      | ok result => exact absurd (hidle .move rfl) (by decide)
    | stage tag x next =>
      obtain rfl := hprep.1
      exact absurd (hidle .prepare rfl) (by decide)
  | clear total stats snap hsame => exact absurd (hidle .clear rfl) (by decide)
  | past reply => exact .past reply

/-- The chunks of a session stay when its record and its overlay do. -/
theorem sessionChunk_grow (hclosed : Closed P w) (hgrow : StoreGrows w w') {r : SessRef}
    (hs : w.sessions r = some s) (hoverlay : w'.overlays r = w.overlays r) :
    sessionChunk w' r s = sessionChunk w r s := by
  funext i
  refine window_congr fun p _ _ => ?_
  rw [chunkByte, chunkByte, overlayFile, overlayFile, hoverlay,
    manifestChunkByte_grow hgrow (hclosed.sessions r s hs).2.1]

theorem CommitRely.trans {w'' : World} (h : CommitRely P who w w') (h' : CommitRely P who w' w'') :
    CommitRely P who w w'' := ⟨h.1.trans h'.1, h.2.trans h'.2⟩

/-- A commit keeps its stage while the others leave the session alone. -/
theorem CommitStage.rely {opts : CommitOptions} (h : CommitStage P b who id opts w s t)
    (hclosed : Closed P w) (hs : w.sessions (who.node, id) = some s) (hrely : CommitRely P who w w') :
    CommitStage P b who id opts w' s t := by
  have hgrows := hrely.1.grows
  cases h with
  | collect => exact .collect
  | prepare total hclosed₀ hs₀ hgrows₀ hoverlay hprep hguarded =>
    refine .prepare total hclosed₀ hs₀ (hgrows₀.trans hgrows) ?_ hprep (hguarded.stable CommitRely.trans hrely ?_)
    · rw [hrely.2.overlays, hoverlay]
    · exact fun res hres m stats snap hok => (hres m stats snap hok).grow hgrows
  | clear total stats snap hsame =>
    refine .clear total stats snap fun i hi q hq => ?_
    rw [manifestChunkByte_grow hgrows.store (hclosed.sessions _ s hs).2.1, hsame i hi q hq,
      hrely.2.chunkByte_dirty hi]
  | past reply => exact .past reply

/-- **The others.** A call that did not move keeps its stage if the chunk it has a copy of and the file it is about to
mark are left alone, and a commit among its critical stages if the whole session is. -/
theorem TeamOk.others (h : TeamOk P b node id calls c s) (hvolume : s'.volume = s.volume)
    (ht : c.tasks m = some t)
    (hcommit : (∀ q ∈ t.tag, q.inCommit = false) ∨ CommitRely P ⟨node, m⟩ c.state c'.state ∧ s' = s)
    (hchunk : ∀ i, t.tag = some (.store i) ∨ t.tag = some (.mark i) →
      sessionChunk c'.state (node, id) s' i = sessionChunk c.state (node, id) s i)
    (hfile : ∀ i, t.tag = some (.mark i) → overlayFile c'.state (node, id) i = overlayFile c.state (node, id) i)
    (hknown : ∀ i, Known node id c s i → Known node id c' s' i)
    (hbytes : ∀ p < 2 ^ 63, ∀ offset data,
      Current calls c m offset data p (byteAt s.volume (sessionChunk c.state (node, id) s) p) →
      Current calls c' m offset data p (byteAt s.volume (sessionChunk c'.state (node, id) s') p)) :
    StageOk P b node id calls c' s' m t (calls m) := by
  have hstage := h.stages m t ht
  cases hcall : calls m with
  | write offset data =>
    rw [hcall] at hstage
    show WriteStage P b id s'.volume offset data.1 _ _ _ _ t
    rw [hvolume]
    refine WriteStage.mono hstage hchunk hfile hknown fun lo hlo hroom happlied p hfrom hto => ?_
    have hmax := s.volume.sizeBytes.toInt_lt
    rw [hvolume]
    exact hbytes p (by omega) offset data.1 (happlied p hfrom hto)
  | commit opts =>
    rw [hcall] at hstage
    rcases hcommit with hidle | ⟨hrely, rfl⟩
    · exact CommitStage.idle hstage hvolume hidle
    · exact CommitStage.rely hstage h.closed h.session hrely

/-- **One stage** keeps the invariant if it keeps the session intact, puts the call where it clashes with nobody, and
leaves every call in a stage of its own. -/
theorem TeamOk.advance (h : TeamOk P b node id calls c s) (hstep : Stepped c c' n t')
    (hclosed : Closed P c'.state) (hguar : Guar P ⟨node, n⟩ c.state c'.state)
    (hregistered : c'.state.registered (node, id) = true) (hsession : c'.state.sessions (node, id) = some s')
    (hvolume : s'.volume = s.volume) (hintact : Intact c'.state (node, id) s')
    (hsafe : Safe P ⟨node, n⟩ (unfailing P) t'.flatten (fun _ _ => True) c'.state)
    (hclash : ∀ q ∈ t'.tag, ∀ m, m ≠ n → ∀ u ∈ c.point m, ¬ q.Clash u)
    (hself : StageOk P b node id calls c' s' n t' (calls n))
    (hothers : ∀ m, m ≠ n → ∀ t, c.tasks m = some t → StageOk P b node id calls c' s' m t (calls m)) :
    TeamOk P b node id calls c' s' where
  closed := hclosed
  registered := hregistered
  session := hsession
  positive := hvolume ▸ h.positive
  intact := hintact
  safe := by
    intro m t ht
    rw [hstep.tasks] at ht
    by_cases hm : m = n
    · subst hm
      rw [update_self, Option.some.injEq] at ht
      exact ht ▸ hsafe
    · rw [update_of_ne hm] at ht
      have hne : (⟨node, n⟩ : Caller) ≠ ⟨node, m⟩ := fun heq => hm (Fin.ext (Caller.mk.inj heq).2.symm)
      exact (h.safe m t ht).stable Respects.trans (hguar.rely hne) fun _ _ => trivial
  stages := by
    intro m t ht
    rw [hstep.tasks] at ht
    by_cases hm : m = n
    · subst hm
      rw [update_self, Option.some.injEq] at ht
      exact ht ▸ hself
    · rw [update_of_ne hm] at ht
      exact hothers m hm t ht
  apart := by
    intro m m' hne p hp q hq
    by_cases hm : m = n
    · subst hm
      rw [hstep.point_self] at hp
      rw [hstep.point_of_ne hne.symm] at hq
      exact hclash p hp m' hne.symm q hq
    · rw [hstep.point_of_ne hm] at hp
      by_cases hm' : m' = n
      · subst hm'
        rw [hstep.point_self] at hq
        exact fun hclashes => hclash q hq m hm p hp hclashes.symm
      · rw [hstep.point_of_ne hm'] at hq
        exact h.apart m m' hne p hp q hq
  past := by
    intro m m' hover
    -- what was over before this stage is over, and the call that took it is not
    have hbefore : (c.reply m').isSome := by
      rw [hstep.past] at hover
      split at hover
      · exact h.past m m' hover
      · by_cases hm : m = n
        · subst hm
          rwa [update_self] at hover
        · rw [update_of_ne hm] at hover
          exact h.past m m' hover
    have hne : m' ≠ n := by
      rintro rfl
      rw [hstep.running] at hbefore
      cases hbefore
    rwa [hstep.reply_of_ne hne]

/-- A stage that leaves the session alone. -/
theorem TeamOk.quiet (h : TeamOk P b node id calls c s) (hstep : Stepped c c' n t')
    (hclosed : Closed P c'.state) (hguar : Guar P ⟨node, n⟩ c.state c'.state)
    (hsafe : Safe P ⟨node, n⟩ (unfailing P) t'.flatten (fun _ _ => True) c'.state)
    (hframe : UploadFrame c.state c'.state) (hpoint : ∀ i, c.point n ≠ some (.mark i))
    (hclash : ∀ q ∈ t'.tag, ∀ m, m ≠ n → ∀ u ∈ c.point m, ¬ q.Clash u)
    (hself : StageOk P b node id calls c' s n t' (calls n)) : TeamOk P b node id calls c' s := by
  have hoverlay : c'.state.overlays (node, id) = c.state.overlays (node, id) := congrFun hframe.overlays _
  have hfile : overlayFile c'.state (node, id) = overlayFile c.state (node, id) := by
    funext i
    rw [overlayFile, overlayFile, hoverlay]
  have hchunk := sessionChunk_grow h.closed hguar.grows.store h.session hoverlay
  refine h.advance hstep hclosed hguar ?_ ?_ rfl (h.intact.congr hoverlay) hsafe hclash hself fun m hm t ht => ?_
  · rw [hframe.registered]
    exact h.registered
  · rw [hframe.sessions]
    exact h.session
  · have hne : (⟨node, n⟩ : Caller) ≠ ⟨node, m⟩ := fun heq => hm (Fin.ext (Caller.mk.inj heq).2.symm)
    refine h.others rfl ht (.inr ⟨⟨hguar.rely hne, hframe⟩, rfl⟩) (fun i _ => by rw [hchunk])
      (fun i _ => by rw [hfile]) (fun i hi => ?_) fun p _ offset data hcurrent => ?_
    · rcases hi with hi | hi | ⟨m', hm'⟩
      · exact .inl hi
      · exact .inr (.inl (by rwa [hfile]))
      · refine .inr (.inr ⟨m', ?_⟩)
        have hne' : m' ≠ n := by
          rintro rfl
          exact hpoint i hm'
        rwa [hstep.point_of_ne hne']
    · rw [hchunk]
      exact hcurrent.mono hstep (.inl hm)

/-! ## Storing and marking a chunk -/

theorem overwrite_overwrite {chunk : Bytes} {start : Nat} {part : Bytes} (hfit : start + part.length ≤ chunk.length) :
    overwrite (overwrite chunk start part) start part = overwrite chunk start part := by
  have hhead : (chunk.take start).length = start := by
    rw [List.length_take]
    omega
  have hbody : (chunk.take start ++ part).length = start + part.length := by
    rw [List.length_append, hhead]
  have hstart : (chunk.take start ++ part ++ chunk.drop (start + part.length)).take start = chunk.take start := by
    rw [List.append_assoc, List.take_left' hhead]
  unfold overwrite
  rw [List.drop_left' hbody, hstart]

/-- What a turn of the loop makes of the bytes. -/
theorem Turn.byteAt_patch {mid : Nat} (h : Turn v offset data lo mid r pos)
    (hlength : (chunk r.index).length = natOf v.chunkSize)
    (hroom : ((natOf offset + data.length : Nat) : Int) ≤ v.sizeBytes.toInt) (hfrom : natOf offset ≤ lo)
    (hp : p < 2 ^ 63) :
    byteAt v (update chunk r.index
        (overwrite (chunk r.index) (natOf r.chunkStart) (r.part data pos))) p =
      if lo ≤ p ∧ p < mid then data.getD (p - natOf offset) 0 else byteAt v chunk p := by
  have hmax := v.sizeBytes.toInt_lt
  have hlt := h.lt
  have hfit := h.fit
  have hstop := h.stop
  rw [h.start, byteAt_update hlength (by omega) h.index (by rw [h.length]; exact hfit) (by omega) hp, patch, h.length]
  have hend : lo + (mid - lo) = mid := by omega
  rw [hend]
  split
  · rename_i hin
    rw [h.part, slice, List.getD_eq_getElem?_getD, List.getElem?_take_of_lt (by omega), List.getElem?_drop,
      List.getD_eq_getElem?_getD, show lo - natOf offset + (p - lo) = p - natOf offset by omega]
  · rfl

/-- Writing the file of a chunk changes the chunk only if it is marked. -/
theorem sessionChunk_writeOverlay {r : SessRef} {d : OverlayDir} {copy : Bytes}
    (hd : w.overlays r = some d) (hlength : copy.length = natOf s.volume.chunkSize) :
    sessionChunk (writeOverlay w r d i copy) r s =
      if (s.dirty.lookup i).isSome then update (sessionChunk w r s) i copy else sessionChunk w r s := by
  have hother : ∀ j, ¬ (j = i ∧ (s.dirty.lookup j).isSome) →
      sessionChunk (writeOverlay w r d i copy) r s j = sessionChunk w r s j := by
    intro j hj
    refine window_congr fun p _ _ => ?_
    unfold chunkByte
    split
    · rename_i hdirty
      rw [overlayFile_writeOverlay hd, if_neg fun heq => hj ⟨heq, hdirty⟩]
    · rfl
  funext j
  by_cases hi : (s.dirty.lookup i).isSome
  · rw [if_pos hi]
    by_cases hj : j = i
    · subst hj
      have hfile : overlayFile (writeOverlay w r d j copy) r j = some (OverlayFile.write (d j) copy) := by
        rw [overlayFile_writeOverlay hd, if_pos rfl]
      rw [update_self, sessionChunk, chunkByte_of_dirty hi hfile, OverlayFile.write_data, ← hlength,
        window_getD]
    · rw [update_of_ne hj]
      exact hother j fun h => hj h.1
  · rw [if_neg hi]
    refine hother j ?_
    rintro ⟨rfl, hdirty⟩
    exact hi hdirty

/-- Marking a chunk makes it what its file is. -/
theorem sessionChunk_mark {r : SessRef} {f : OverlayFile} (hoverlays : w'.overlays = w.overlays)
    (hobjects : w'.objects = w.objects) (hfile : overlayFile w r i = some f)
    (hlength : f.data.length = natOf s.volume.chunkSize) :
    sessionChunk w' r (s.mark i) = update (sessionChunk w r s) i f.data := by
  have hsame : overlayFile w' r = overlayFile w r := by
    funext j
    rw [overlayFile, overlayFile, hoverlays]
  funext j
  by_cases hj : j = i
  · subst hj
    have hmarked : ((s.mark j).dirty.lookup j).isSome := isSome_lookup_mark.mpr (.inl rfl)
    rw [update_self, sessionChunk, chunkByte_of_dirty hmarked (hsame ▸ hfile)]
    show window (fun p => f.data.getD p 0) 0 (natOf s.volume.chunkSize) = f.data
    rw [← hlength, window_getD]
  · have hmark : ((s.mark i).dirty.lookup j).isSome ↔ (s.dirty.lookup j).isSome := by
      rw [isSome_lookup_mark]
      simp [hj]
    rw [update_of_ne hj]
    refine window_congr fun p _ _ => ?_
    unfold chunkByte manifestChunkByte objectByte
    rw [hsame, hobjects]
    simp only [hmark]
    rfl

/-- What the others find after a turn of the loop, or a part of it: each position is as it was, or has the byte of a
write that is under way. -/
theorem TeamOk.bytes_of_turn (h : TeamOk P b node id calls c s) (hstep : Stepped c c' n t') (hm : m ≠ n)
    {data : { b : Bytes // b.length < 2 ^ 63 }} (hcall : calls n = .write offset data) {mid : Nat}
    (hturn : Turn s.volume offset data.1 lo mid r pos) (hfrom : natOf offset ≤ lo)
    (hroom : ((natOf offset + data.1.length : Nat) : Int) ≤ s.volume.sizeBytes.toInt)
    (hchunk : chunk = sessionChunk c.state (node, id) s ∨ chunk = update (sessionChunk c.state (node, id) s)
      r.index (overwrite (sessionChunk c.state (node, id) s r.index) (natOf r.chunkStart) (r.part data.1 pos)))
    (hp : p < 2 ^ 63) {offset' : Int64} {data' : Bytes}
    (hcurrent : Current calls c m offset' data' p (byteAt s.volume (sessionChunk c.state (node, id) s) p)) :
    Current calls c' m offset' data' p (byteAt s.volume chunk p) := by
  rcases hchunk with rfl | rfl
  · exact hcurrent.mono hstep (.inl hm)
  · rw [hturn.byteAt_patch (length_window _ _ _) hroom hfrom hp]
    split
    · rename_i hin
      have hstop := hturn.stop
      exact h.current_of_running hstep hm hcall ⟨by omega, by omega⟩
    · exact hcurrent.mono hstep (.inl hm)

/-- The file of a chunk is written. -/
theorem TeamOk.store (h : TeamOk P b node id calls c s) {data : { b : Bytes // b.length < 2 ^ 63 }}
    (hcall : calls n = .write offset data) (hahead : Ahead s.volume offset data.1 lo (r :: rs) pos)
    (happlied : Applied node id calls c s n offset data.1 lo)
    (hpoint : c.point n = some (.store r.index))
    (hcareful : ∀ m, m ≠ n → ∀ u ∈ c.point m, ¬ (Point.store r.index).Races u) {d : OverlayDir}
    (hd : c.state.overlays (node, id) = some d) {copy : Bytes}
    (hcopy : copy = overwrite (sessionChunk c.state (node, id) s r.index) (natOf r.chunkStart) (r.part data.1 pos))
    (hstate : c'.state = writeOverlay c.state (node, id) d r.index copy)
    (hstep : Stepped c c' n ((markThen id r.index (b.stagedWriteRanges P id s.volume data.1 rs
      (pos + (r.reqEnd - r.reqStart)))).map (replyWith fun _ => .done))) (hclosed : Closed P c'.state)
    (hguar : Guar P ⟨node, n⟩ c.state c'.state)
    (hsafe : Safe P ⟨node, n⟩ (unfailing P) ((markThen id r.index (b.stagedWriteRanges P id s.volume data.1 rs
      (pos + (r.reqEnd - r.reqStart)))).map (replyWith fun _ => .done)).flatten (fun _ _ => True) c'.state) :
    TeamOk P b node id calls c' s := by
  obtain ⟨mid, hturn, -⟩ := hahead.turn
  have hfit : natOf r.chunkStart + (r.part data.1 pos).length ≤
      (sessionChunk c.state (node, id) s r.index).length := by
    rw [hturn.start, hturn.length, sessionChunk, length_window]
    exact hturn.fit
  have hlength : copy.length = natOf s.volume.chunkSize := by
    rw [hcopy, length_overwrite hfit, sessionChunk, length_window]
  have hchunk := sessionChunk_writeOverlay (i := r.index) hd hlength
  rw [← hstate] at hchunk
  have hcases : sessionChunk c'.state (node, id) s = sessionChunk c.state (node, id) s ∨
      sessionChunk c'.state (node, id) s = update (sessionChunk c.state (node, id) s) r.index
        (overwrite (sessionChunk c.state (node, id) s r.index) (natOf r.chunkStart) (r.part data.1 pos)) := by
    rw [hchunk, ← hcopy]
    split
    · exact .inr rfl
    · exact .inl rfl
  have hother : ∀ i, i ≠ r.index →
      sessionChunk c'.state (node, id) s i = sessionChunk c.state (node, id) s i := by
    intro i hi
    rcases hcases with heq | heq
    · rw [heq]
    · rw [heq, update_of_ne hi]
  have hfile : ∀ i, overlayFile c'.state (node, id) i =
      if i = r.index then some (OverlayFile.write (d r.index) copy) else overlayFile c.state (node, id) i := by
    intro i
    rw [hstate, overlayFile_writeOverlay hd]
  have hstarted := started_of_point hpoint
  refine h.advance hstep hclosed hguar ?_ ?_ rfl ⟨?_, fun i hi => ?_⟩ hsafe ?_ ?_ fun m hm t ht => ?_
  · rw [hstate]
    exact h.registered
  · rw [hstate]
    exact h.session
  · simp only [hstate, writeOverlay, World.setOverlay, update_self, Option.isSome_some]
  · rw [hfile]
    split
    · refine ⟨_, rfl, ?_⟩
      rw [OverlayFile.write_data, hlength]
      exact le_of_eq (natOf_cast (Int.le_of_lt h.positive))
    · exact h.intact.chunk i hi
  · -- nobody has a copy of the chunk, nor is about to mark it, nor is committing
    intro q hq m hm u hu hclashes
    obtain rfl : Point.mark r.index = q := Option.some.inj hq
    have hrace := hcareful m hm u hu
    have hapart := h.apart n m hm.symm _ hpoint u hu
    cases u with
    | store i => exact hrace hclashes
    | mark i => exact hapart hclashes
    | _ => exact hrace hclashes
  · rw [hcall]
    refine WriteStage.mark hahead (fun p hp hlo => ?_) (f := OverlayFile.write (d r.index) copy) ?_ ?_
    · have hmax := s.volume.sizeBytes.toInt_lt
      have hroom := hahead.room
      have hlt := hturn.lt
      have hstop := hturn.stop
      have hcurrent := (happlied p hp hlo).mono hstep (.inr hstarted)
      rcases hcases with heq | heq
      · rwa [heq]
      · rw [heq, hturn.byteAt_patch (length_window _ _ _) hroom hahead.from_le (by omega), if_neg (by omega)]
        exact hcurrent
    · rw [hfile, if_pos rfl]
    · rw [OverlayFile.write_data]
      rcases hcases with heq | heq
      · rw [heq, hcopy]
      · rw [heq, update_self, overwrite_overwrite hfit, hcopy]
  · have hpointm : c.point m = t.tag := by rw [Crew.point, ht, Option.bind_some]
    have hne : ∀ i, t.tag = some (.store i) ∨ t.tag = some (.mark i) → i ≠ r.index := by
      rintro i (hi | hi) rfl
      · exact hcareful m hm _ (hpointm.trans hi) rfl
      · exact h.apart n m hm.symm _ hpoint _ (hpointm.trans hi) rfl
    refine h.others rfl ht (.inl fun q hq => ?_) (fun i hi => hother i (hne i hi)) (fun i hi => ?_) (fun i hi => ?_)
      fun p hp offset' data' hcurrent =>
        h.bytes_of_turn hstep hm hcall hturn hahead.from_le hahead.room hcases hp hcurrent
    · have hrace := hcareful m hm q (hpointm.trans hq)
      cases q with
      | prepare => exact absurd rfl hrace
      | move => exact absurd rfl hrace
      | clear => exact absurd rfl hrace
      | _ => rfl
    · rw [hfile, if_neg (hne i (.inr hi))]
    · by_cases hir : i = r.index
      · exact .inr (.inr ⟨n, by rw [hstep.point_self, hir]; rfl⟩)
      · rcases hi with hi | hi | ⟨m', hm'⟩
        · exact .inl hi
        · exact .inr (.inl (by rwa [hfile, if_neg hir]))
        · refine .inr (.inr ⟨m', ?_⟩)
          have hne' : m' ≠ n := by
            rintro rfl
            rw [hpoint] at hm'
            cases hm'
          rwa [hstep.point_of_ne hne']

/-- A chunk whose file has been written is marked. -/
theorem TeamOk.mark (h : TeamOk P b node id calls c s) {data : { b : Bytes // b.length < 2 ^ 63 }}
    (hcall : calls n = .write offset data) (hahead : Ahead s.volume offset data.1 lo (r :: rs) pos)
    (happlied : Applied node id calls c s n offset data.1 lo)
    (hpoint : c.point n = some (.mark r.index)) {f : OverlayFile}
    (hfile : overlayFile c.state (node, id) r.index = some f)
    (hdata : f.data = overwrite (sessionChunk c.state (node, id) s r.index) (natOf r.chunkStart) (r.part data.1 pos))
    (hstate : c'.state = c.state.modifySession (node, id) fun s => s.mark r.index)
    (hstep : Stepped c c' n ((b.stagedWriteRanges P id s.volume data.1 rs
      (pos + (r.reqEnd - r.reqStart))).map (replyWith fun _ => .done))) (hclosed : Closed P c'.state)
    (hguar : Guar P ⟨node, n⟩ c.state c'.state)
    (hsafe : Safe P ⟨node, n⟩ (unfailing P) ((b.stagedWriteRanges P id s.volume data.1 rs
      (pos + (r.reqEnd - r.reqStart))).map (replyWith fun _ => .done)).flatten (fun _ _ => True) c'.state) :
    TeamOk P b node id calls c' (s.mark r.index) := by
  obtain ⟨mid, hturn, hahead'⟩ := hahead.turn
  have hfit : natOf r.chunkStart + (r.part data.1 pos).length ≤
      (sessionChunk c.state (node, id) s r.index).length := by
    rw [hturn.start, hturn.length, sessionChunk, length_window]
    exact hturn.fit
  have hlength : f.data.length = natOf s.volume.chunkSize := by
    rw [hdata, length_overwrite hfit, sessionChunk, length_window]
  have hoverlays : c'.state.overlays = c.state.overlays := by
    rw [hstate]
    rfl
  have hfiles : overlayFile c'.state (node, id) = overlayFile c.state (node, id) := by
    funext i
    rw [overlayFile, overlayFile, hoverlays]
  have hchunk : sessionChunk c'.state (node, id) (s.mark r.index) =
      update (sessionChunk c.state (node, id) s) r.index
        (overwrite (sessionChunk c.state (node, id) s r.index) (natOf r.chunkStart) (r.part data.1 pos)) := by
    rw [← hdata]
    exact sessionChunk_mark hoverlays (by rw [hstate]; rfl) hfile hlength
  have hstarted := started_of_point hpoint
  refine h.advance hstep hclosed hguar ?_ ?_ rfl ⟨?_, fun i hi => ?_⟩ hsafe ?_ ?_ fun m hm t ht => ?_
  · rw [hstate]
    exact h.registered
  · rw [hstate, World.modifySession]
    simp only [update_self, h.session, Option.map_some]
  · rw [hoverlays]
    exact h.intact.dir
  · rw [hfiles]
    rcases isSome_lookup_mark.mp hi with rfl | hi
    · exact ⟨f, hfile, le_of_eq (by rw [hlength]; exact natOf_cast (Int.le_of_lt h.positive))⟩
    · exact h.intact.chunk i hi
  · -- the call goes on to look at its next chunk, or returns
    intro q hq m _ u _ hclashes
    cases rs with
    | nil => cases hq
    | cons r' rs =>
      obtain rfl : Point.look r'.index = q := Option.some.inj hq
      cases u with
      | mark i => cases hclashes
      | _ => cases hclashes.1
  · rw [hcall]
    refine WriteStage.look hahead' fun p hp hlo => ?_
    have hmax := s.volume.sizeBytes.toInt_lt
    have hroom := hahead.room
    have hstop := hturn.stop
    show Current calls c' n offset data.1 p (byteAt s.volume (sessionChunk c'.state (node, id) (s.mark r.index)) p)
    rw [hchunk, hturn.byteAt_patch (length_window _ _ _) hroom hahead.from_le (by omega)]
    split
    · exact .inl rfl
    · exact (happlied p hp (by omega)).mono hstep (.inr hstarted)
  · have hpointm : c.point m = t.tag := by rw [Crew.point, ht, Option.bind_some]
    have hapart : ∀ u ∈ t.tag, ¬ (Point.mark r.index).Clash u := fun u hu =>
      h.apart n m hm.symm _ hpoint u (hpointm.trans hu)
    have hne : ∀ i, t.tag = some (.store i) ∨ t.tag = some (.mark i) → i ≠ r.index := by
      rintro i (hi | hi) rfl
      · exact hapart _ hi rfl
      · exact hapart _ hi rfl
    refine h.others rfl ht (.inl fun q hq => ?_) (fun i hi => ?_) (fun i _ => by rw [hfiles]) (fun i hi => ?_)
      fun p hp offset' data' hcurrent =>
        h.bytes_of_turn hstep hm hcall hturn hahead.from_le hahead.room (.inr hchunk) hp hcurrent
    · have hclash := hapart q hq
      cases q with
      | prepare => exact absurd rfl hclash
      | move => exact absurd rfl hclash
      | clear => exact absurd rfl hclash
      | _ => rfl
    · rw [hchunk, update_of_ne (hne i hi)]
    · rcases hi with hi | hi | ⟨m', hm'⟩
      · exact .inl (isSome_lookup_mark.mpr (.inr hi))
      · exact .inr (.inl (by rwa [hfiles]))
      · by_cases hmn : m' = n
        · subst hmn
          rw [hpoint] at hm'
          cases hm'
          exact .inl (isSome_lookup_mark.mpr (.inl rfl))
        · exact .inr (.inr ⟨m', by rwa [hstep.point_of_ne hmn]⟩)

/-! ## Moving the pointer and dropping the overlay -/

/-- Where a call stands in a commit, only that it does matters to the others. -/
theorem Point.clash_of_inCommit {p q u : Point} (hp : p.inCommit = true) (hq : q.inCommit = true)
    (h : p.Clash u) : q.Clash u := by
  have hcases : ∀ p : Point, p.inCommit = true → p.Clash u = (u.inCommit = true ∨ ∃ i, u = .mark i) := by
    intro p hp
    cases p with
    | prepare => cases u <;> simp [Point.Clash, Point.inCommit]
    | move => cases u <;> simp [Point.Clash, Point.inCommit]
    | clear => cases u <;> simp [Point.Clash, Point.inCommit]
    | _ => cases hp
  rw [hcases q hq, ← hcases p hp]
  exact h

/-- A stage of a commit that changes the session's record and leaves its bytes. -/
theorem TeamOk.recast (h : TeamOk P b node id calls c s) (hstep : Stepped c c' n t') {p : Point}
    (hpoint : c.point n = some p) (hp : p.inCommit = true)
    (hclosed : Closed P c'.state) (hguar : Guar P ⟨node, n⟩ c.state c'.state)
    (hregistered : c'.state.registered = c.state.registered) (hsession : c'.state.sessions (node, id) = some s')
    (hvolume : s'.volume = s.volume) (hintact : Intact c'.state (node, id) s')
    (hsafe : Safe P ⟨node, n⟩ (unfailing P) t'.flatten (fun _ _ => True) c'.state)
    (hchunk : sessionChunk c'.state (node, id) s' = sessionChunk c.state (node, id) s)
    (hknown : ∀ i, Known node id c s i → Known node id c' s' i)
    (hnext : ∀ q ∈ t'.tag, q.inCommit = true) (hself : StageOk P b node id calls c' s' n t' (calls n)) :
    TeamOk P b node id calls c' s' := by
  refine h.advance hstep hclosed hguar (by rw [hregistered]; exact h.registered) hsession hvolume hintact hsafe
    (fun q hq m hm u hu hclashes => ?_) hself fun m hm t ht => ?_
  · exact h.apart n m hm.symm p hpoint u hu (Point.clash_of_inCommit (hnext q hq) hp hclashes)
  · have hpointm : c.point m = t.tag := by rw [Crew.point, ht, Option.bind_some]
    have hapart : ∀ u ∈ t.tag, ¬ p.Clash u := fun u hu => h.apart n m hm.symm p hpoint u (hpointm.trans hu)
    refine h.others hvolume ht (.inl fun q hq => ?_) (fun i _ => by rw [hchunk]) (fun i hi => ?_) hknown
      fun p' _ offset data hcurrent => by rw [hchunk]; exact hcurrent.mono hstep (.inl hm)
    · -- nobody else is in a commit
      by_contra hin
      rw [Bool.not_eq_false] at hin
      refine hapart q hq (Point.clash_of_inCommit (p := .clear) rfl hp ?_)
      cases q with
      | prepare => exact ⟨rfl, rfl⟩
      | move => exact ⟨rfl, rfl⟩
      | clear => exact ⟨rfl, rfl⟩
      | _ => cases hin
    · exact absurd (Point.clash_of_inCommit (p := .clear) rfl hp (show Point.clear.Clash (.mark i) from rfl))
        (hapart _ hi)

/-- The session moves to a snapshot. -/
theorem movePointer_quiet (who : Caller) (opts : CommitOptions) (total : Nat) (m : Manifest)
    (stats : CommitBatchStats) (snap : Snapshot) (hs : w.sessions (who.node, id) = some s)
    (hv : w.volumes snap.volumeID = some v) :
    (machine P faultFree who).wp (movePointer opts id total m stats snap).run
      (fun r w' => r = .ok () ∧ w'.objects = w.objects ∧ w'.overlays = w.overlays ∧ w'.registered = w.registered ∧
        w'.sessions (who.node, id) = some (s.rebase snap m)) w := by
  unfold movePointer outside
  refine wp_progress ?_
  rw [wp_run_bind]
  refine quiet_perform ?_
  simp only [exec, Fault.on, execUpdateVolume, World.report, hv, orElse_ok]
  refine quiet_access ⟨rfl, rfl, rfl, rfl, ?_⟩
  simp only [exec, World.modifySession, update_self, hs, Option.map_some]
  rfl

/-- The overlay is dropped. -/
theorem dropOverlay_quiet (who : Caller) (opts : CommitOptions) (total : Nat) (m : Manifest)
    (stats : CommitBatchStats) (snap : Snapshot) (hs : w.sessions (who.node, id) = some s) :
    (machine P faultFree who).wp (dropOverlay opts id total m stats snap).run
      (fun r w' => r = .ok () ∧ w'.objects = w.objects ∧ w'.overlays (who.node, id) = some (fun _ => none) ∧
        w'.registered = w.registered ∧ w'.sessions (who.node, id) = some s.clean) w := by
  unfold dropOverlay
  refine wp_progress ?_
  unfold clearDirtyOverlay outside
  rw [wp_run_bind, wp_run_bind]
  refine quiet_perform ?_
  show Machine.orElse _ _ (.ok ()) _
  rw [orElse_ok, wp_run_bind]
  refine quiet_perform ?_
  show Machine.orElse _ _ (.ok ()) _
  rw [orElse_ok]
  refine quiet_access ?_
  rw [orElse_ok]
  refine wp_mono (progress_quiet opts _ _) ?_
  rintro r w' ⟨rfl, rfl⟩
  refine ⟨rfl, rfl, ?_, rfl, ?_⟩
  · simp [exec, execRemoveAll, Fault.on, World.report, World.modifySession, World.setOverlay]
  · simp [exec, execRemoveAll, Fault.on, World.report, World.modifySession, World.setOverlay, hs, Session.clean]

end Steps

end OrcaBlocks.Storage
