/-
# OrcaBlocks.Nbd.ReadAhead — when the device reads ahead, and that nobody can tell.

The device keeps a counter of consecutive sequential reads and a window of bytes fetched in advance, both
updated by EVERY call. Here the two are tied to the history: the counter to the calls made (`Records`), the
window to the bytes of the backend (`Mirrors`). Each tie is kept by one call and so by any sequence of
calls. From the first follows exactly which reads fetch ahead, for ANY backend; from the second, that over
a backend that is an array of bytes the device answers as the array does.
-/
import OrcaBlocks.Nbd.StorageDevice

namespace OrcaBlocks.Nbd

open OrcaBlocks.Lib
open OrcaBlocks.Storage (Bytes)

variable {r : ReadAhead} {d : StorageDevice} {length offset : Int64} {reads : List (Int64 × Int64)}

/-! ## Calls -/

/-- A call of a method, made after the one before has returned. -/
inductive Use where
  | read (offset length : Int64)
  | write (offset : Int64) (data : Bytes)
  | flush
  deriving DecidableEq, Repr

/-- The range of a request lies in the volume, as unbounded integers. -/
structure StorageDevice.Holds (d : StorageDevice) (offset length : Int) : Prop where
  start : 0 ≤ offset
  nonneg : 0 ≤ length
  stop : offset + length ≤ d.sizeBytes.toInt

instance (d : StorageDevice) (offset length : Int) : Decidable (d.Holds offset length) :=
  decidable_of_iff (0 ≤ offset ∧ 0 ≤ length ∧ offset + length ≤ d.sizeBytes.toInt)
    ⟨fun ⟨h₁, h₂, h₃⟩ => ⟨h₁, h₂, h₃⟩, fun ⟨h₁, h₂, h₃⟩ => ⟨h₁, h₂, h₃⟩⟩

def Use.InRange (d : StorageDevice) : Use → Prop
  | .read offset length => d.Holds offset.toInt length.toInt
  | .write offset data => d.Holds offset.toInt data.length
  | .flush => True

instance (d : StorageDevice) : DecidablePred (Use.InRange d)
  | .read .. => inferInstanceAs (Decidable (d.Holds ..))
  | .write .. => inferInstanceAs (Decidable (d.Holds ..))
  | .flush => .isTrue trivial

/-- A read of at least one byte, or a write. -/
def Use.IsAccess : Use → Prop
  | .read _ length => 0 < length.toInt
  | .write .. => True
  | .flush => False

instance : DecidablePred Use.IsAccess
  | .read _ length => inferInstanceAs (Decidable (0 < length.toInt))
  | .write .. => .isTrue trivial
  | .flush => .isFalse id

namespace StorageDevice

variable {σ : Type} (d : StorageDevice) (B : StorageBackend σ)

/-- The state after a call. -/
def next (s : DeviceState σ) : Use → DeviceState σ
  | .read offset length => (d.runAlone B (d.readAt offset length) s).2
  | .write offset data => (d.runAlone B (writeAt offset data) s).2
  | .flush => (d.runAlone B flush s).2

/-- The state after a sequence of calls on a new device. -/
def after (uses : List Use) (b : σ) : DeviceState σ := uses.foldl (d.next B) ⟨.zero, b⟩

@[simp] theorem after_nil (b : σ) : d.after B [] b = ⟨.zero, b⟩ := rfl

@[simp] theorem after_append_singleton (uses : List Use) (u : Use) (b : σ) :
    d.after B (uses ++ [u]) b = d.next B (d.after B uses b) u := by
  rw [after, List.foldl_append]
  rfl

end StorageDevice

def DeviceOp.asRead : DeviceOp → Option (Int64 × Int64)
  | .backendRead offset length => some (offset, length)
  | _ => none

/-- The reads of the backend that a `ReadAt` issues. -/
def StorageDevice.backendReads {σ : Type} (d : StorageDevice) (B : StorageBackend σ) (offset length : Int64)
    (s : DeviceState σ) : List (Int64 × Int64) :=
  (((d.machine B).trace (fun _ => ()) (d.readAt offset length) s).map Prod.fst).filterMap DeviceOp.asRead

/-! ## The sections on a range of the volume -/

/-- The range lies in the window. -/
def ReadAhead.InWindow (r : ReadAhead) (offset length : Int64) : Prop :=
  ∃ window, r.windowData = some window ∧ r.windowOffset.toInt ≤ offset.toInt ∧
    offset.toInt + length.toInt ≤ r.windowOffset.toInt + window.length

/-- The window starts in the volume. -/
def ReadAhead.Placed (r : ReadAhead) : Prop := 0 ≤ r.windowOffset.toInt

namespace ReadAhead

theorem readAheadHit_of_inWindow (hplaced : r.Placed) (hrange : d.Holds offset.toInt length.toInt)
    {window : Bytes} (hwindow : r.windowData = some window)
    (hfrom : r.windowOffset.toInt ≤ offset.toInt)
    (hto : offset.toInt + length.toInt ≤ r.windowOffset.toInt + window.length) :
    r.readAheadHit offset length =
      (some (some (slice window (natOf offset - natOf r.windowOffset) (natOf length))),
        r.recordReadLocked offset length) := by
  obtain ⟨hoffset, hlength, hstop⟩ := hrange
  have hsize := d.sizeBytes.toInt_lt
  have hplaced' : 0 ≤ r.windowOffset.toInt := hplaced
  have hstart : (offset - r.windowOffset).toInt = offset.toInt - r.windowOffset.toInt :=
    toInt_sub_of_bounds (by omega)
  have hend : (offset - r.windowOffset + length).toInt =
      offset.toInt - r.windowOffset.toInt + length.toInt := by
    rw [toInt_add_of_bounds (by omega), hstart]
  have hslice : natOf (offset - r.windowOffset) = natOf offset - natOf r.windowOffset ∧
      natOf (offset - r.windowOffset + length) - natOf (offset - r.windowOffset) = natOf length := by
    unfold natOf
    rw [hstart, hend]
    omega
  unfold readAheadHit
  rw [hwindow]
  simp only [Int64.lt_iff_toInt_lt, Int64.toInt_zero]
  rw [if_neg (by omega), if_neg (by omega), if_neg (by omega), hslice.2, hslice.1]

theorem readAheadHit_of_not_inWindow (hplaced : r.Placed) (hrange : d.Holds offset.toInt length.toInt)
    (hmiss : ¬ r.InWindow offset length) : r.readAheadHit offset length = (some none, r) := by
  obtain ⟨hoffset, hlength, hstop⟩ := hrange
  have hsize := d.sizeBytes.toInt_lt
  have hplaced' : 0 ≤ r.windowOffset.toInt := hplaced
  unfold readAheadHit
  cases hwindow : r.windowData with
  | none => rfl
  | some window =>
    by_cases hfrom : offset.toInt < r.windowOffset.toInt
    · dsimp only
      rw [if_pos (Int64.lt_iff_toInt_lt.mpr hfrom)]
    · have hstart : (offset - r.windowOffset).toInt = offset.toInt - r.windowOffset.toInt :=
        toInt_sub_of_bounds (by omega)
      have hend : (offset - r.windowOffset + length).toInt =
          offset.toInt - r.windowOffset.toInt + length.toInt := by
        rw [toInt_add_of_bounds (by omega), hstart]
      have hto : ¬ offset.toInt + length.toInt ≤ r.windowOffset.toInt + window.length :=
        fun hto => hmiss ⟨window, hwindow, by omega, hto⟩
      dsimp only
      rw [if_neg (mt Int64.lt_iff_toInt_lt.mp hfrom), if_pos (Or.inr (by omega))]

/-- The plan, over unbounded integers: with a streak of two the fetch is as long as the read-ahead, as far as
the volume goes. -/
theorem planReadAhead_spec (hrange : d.Holds offset.toInt length.toInt) (hpos : 0 < length.toInt) :
    ∃ n ahead, r.planReadAhead d offset length = ((n, ahead), r.recordReadLocked offset length) ∧
      (ahead = true ↔ length.toInt < n.toInt) ∧ length.toInt ≤ n.toInt ∧
      offset.toInt + n.toInt ≤ d.sizeBytes.toInt ∧
      (length.toInt < n.toInt ↔
        (r.Continues offset ∧ 2 ≤ (r.recordReadLocked offset length).sequentialStreak.toInt) ∧
          length.toInt < min d.readAheadBytes.toInt (d.sizeBytes.toInt - offset.toInt)) ∧
      (length.toInt < n.toInt →
        n.toInt = min d.readAheadBytes.toInt (d.sizeBytes.toInt - offset.toInt)) := by
  obtain ⟨hoffset, hlength, hstop⟩ := hrange
  have hsize := d.sizeBytes.toInt_lt
  have htwo : (2 : Int64).toInt = 2 := rfl
  have hremaining : (d.sizeBytes - offset).toInt = d.sizeBytes.toInt - offset.toInt :=
    toInt_sub_of_bounds (by omega)
  unfold planReadAhead
  dsimp only
  by_cases hstreak : ¬ r.Continues offset ∨ (r.recordReadLocked offset length).sequentialStreak < 2
  · rw [if_pos hstreak]
    refine ⟨length, false, rfl, by simp, le_refl _, hstop, ?_, fun h => absurd h (by omega)⟩
    refine iff_of_false (by omega) ?_
    rintro ⟨⟨hcontinues, htwice⟩, -⟩
    rcases hstreak with h | h
    · exact h hcontinues
    · rw [Int64.lt_iff_toInt_lt, htwo] at h
      omega
  · rw [if_neg hstreak]
    obtain ⟨hcontinues, htwice⟩ := not_or.mp hstreak
    rw [not_not] at hcontinues
    rw [Int64.lt_iff_toInt_lt, htwo, Int.not_lt] at htwice
    refine ⟨_, _, rfl, by rw [decide_eq_true_iff, gt_iff_lt, Int64.lt_iff_toInt_lt], ?_⟩
    simp only [Int64.lt_iff_toInt_lt, gt_iff_lt, Int64.toInt_zero, hremaining]
    -- Both cuts, by what each comparison says.
    split <;> rename_i hshort <;> split <;> rename_i hcut <;>
      refine ⟨by omega, by omega, ⟨fun h => ⟨⟨hcontinues, htwice⟩, by omega⟩, fun h => by omega⟩, by omega⟩

end ReadAhead

/-! ## A call of `ReadAt` -/

namespace StorageDevice

variable {σ : Type} {B : StorageBackend σ} {s : DeviceState σ}

/-- What a fetch returns of the bytes it got. -/
def answer (length : Int64) (data : Bytes) : Bytes :=
  if data.length < length.toInt then data else data.take (natOf length)

/-- The end of a read that asks the backend, after a plan. -/
def fetch (B : StorageBackend σ) (offset length : Int64) (plan : (Int64 × Bool) × ReadAhead) (b : σ) :
    Outcome Err Bytes × DeviceState σ :=
  match B.read offset plan.1.1 b with
  | (.panic, b) => (.panic, ⟨plan.2, b⟩)
  | (.error e, b) => (.error e, ⟨plan.2, b⟩)
  | (.ok data, b) =>
    (.ok (answer length data),
      ⟨if plan.1.2 then plan.2.storeReadAheadWindow offset data else plan.2, b⟩)

theorem reads_ahead (hahead : 0 < d.readAheadBytes.toInt) (hpos : 0 < length.toInt) :
    ¬ (d.readAheadBytes ≤ 0 ∨ length ≤ 0) := by
  simp only [Int64.le_iff_toInt_le, Int64.toInt_zero]
  omega

/-- Without read-ahead, or for no bytes, the backend is asked for what was asked. -/
theorem readAt_direct (hdirect : d.readAheadBytes ≤ 0 ∨ length ≤ 0) :
    d.runAlone B (d.readAt offset length) s =
        ((B.read offset length s.backend).1,
          { s with backend := (B.read offset length s.backend).2 }) ∧
      d.backendReads B offset length s = [(offset, length)] := by
  unfold backendReads readAt
  rw [if_pos hdirect]
  exact ⟨rfl, rfl⟩

/-- A read that the window answers. -/
theorem readAt_hit (hahead : 0 < d.readAheadBytes.toInt) (hpos : 0 < length.toInt) {data : Bytes}
    (hhit : s.ahead.readAheadHit offset length = (some (some data), r)) :
    d.runAlone B (d.readAt offset length) s = (.ok data, { s with ahead := r }) ∧
      d.backendReads B offset length s = [] := by
  unfold backendReads readAt
  rw [if_neg (reads_ahead hahead hpos)]
  simp only [runAlone, Machine.run, Machine.trace, machine, exec, hhit]
  exact ⟨trivial, rfl⟩

/-- A read that the window does not answer asks the backend once. -/
theorem readAt_miss (hahead : 0 < d.readAheadBytes.toInt) (hpos : 0 < length.toInt)
    (hmiss : s.ahead.readAheadHit offset length = (some none, s.ahead)) :
    d.runAlone B (d.readAt offset length) s =
        fetch B offset length (s.ahead.planReadAhead d offset length) s.backend ∧
      d.backendReads B offset length s = [(offset, (s.ahead.planReadAhead d offset length).1.1)] := by
  unfold backendReads readAt fetch
  rw [if_neg (reads_ahead hahead hpos)]
  simp only [runAlone, Machine.run, Machine.trace, machine, exec, hmiss]
  obtain ⟨⟨n, ahead⟩, r⟩ := s.ahead.planReadAhead d offset length
  dsimp only
  obtain ⟨data | _ | _, b⟩ := B.read offset n s.backend
  · cases ahead
    · exact ⟨rfl, rfl⟩
    · exact ⟨rfl, rfl⟩
  · exact ⟨rfl, rfl⟩
  · exact ⟨rfl, rfl⟩

end StorageDevice

/-! ## The history -/

/-- The reads since the last write, the latest first, of a history with its latest call first. -/
def recentReads : List Use → List (Int64 × Int64)
  | .read offset length :: uses => (offset, length) :: recentReads uses
  | _ => []

/-- How many of the latest reads started where the one before ended. -/
def streakOf : List (Int64 × Int64) → Nat
  | (offset, _) :: (before, length) :: reads =>
    if before.toInt + length.toInt = offset.toInt then streakOf ((before, length) :: reads) + 1 else 0
  | _ => 0

@[simp] theorem streakOf_singleton (read : Int64 × Int64) : streakOf [read] = 0 := rfl

/-- The device's record of its reads is the record of `reads`. -/
structure ReadAhead.Records (r : ReadAhead) (reads : List (Int64 × Int64)) : Prop where
  have_last : r.haveLastRead = true ↔ reads ≠ []
  last : ∀ read ∈ reads.head?, (r.lastReadOffset, r.lastReadLength) = read
  streak : r.sequentialStreak.toInt = streakOf reads

/-- Every read covers at least one byte of the volume. -/
def StorageDevice.Covers (d : StorageDevice) (reads : List (Int64 × Int64)) : Prop :=
  ∀ read ∈ reads, d.Holds read.1.toInt read.2.toInt ∧ 0 < read.2.toInt

/-- Each read of a streak starts after the one before, so the counter is never ahead of the offset. -/
theorem streakOf_le (hreads : d.Covers ((offset, length) :: reads)) :
    (streakOf ((offset, length) :: reads) : Int) ≤ offset.toInt := by
  induction reads generalizing offset length with
  | nil =>
    obtain ⟨hholds, -⟩ := hreads _ (List.mem_cons_self ..)
    exact hholds.start
  | cons read reads ih =>
    obtain ⟨before, lengthBefore⟩ := read
    obtain ⟨hholds, -⟩ := hreads _ (List.mem_cons_self ..)
    have hrest : d.Covers ((before, lengthBefore) :: reads) :=
      fun read hread => hreads read (List.mem_cons_of_mem _ hread)
    obtain ⟨-, hpos⟩ := hrest _ (List.mem_cons_self ..)
    have hle := ih hrest
    have hstart := hholds.start
    rw [streakOf]
    split
    · push_cast
      dsimp only at hpos
      omega
    · exact hstart

namespace ReadAhead

theorem records_zero : zero.Records [] := ⟨by simp [zero], by simp, rfl⟩

/-- What `Continues` says of the reads: the sum does not wrap. -/
theorem Records.continues_iff (hrecords : r.Records reads) (hreads : d.Covers reads) :
    r.Continues offset ↔
      ∃ before len rest, reads = (before, len) :: rest ∧ before.toInt + len.toInt = offset.toInt := by
  have hsize := d.sizeBytes.toInt_lt
  unfold Continues
  rw [hrecords.have_last]
  cases hcases : reads with
  | nil => simp
  | cons read rest =>
    obtain ⟨before, len⟩ := read
    have hlast := hrecords.last (before, len) (by rw [hcases]; rfl)
    obtain ⟨hholds, -⟩ := hreads (before, len) (by rw [hcases]; exact List.mem_cons_self ..)
    obtain ⟨hstart, hlen, hstop⟩ := hholds
    dsimp only at hstart hlen hstop
    have hsum : (before + len).toInt = before.toInt + len.toInt := toInt_add_of_bounds (by omega)
    rw [Prod.mk.injEq] at hlast
    rw [hlast.1, hlast.2, ← Int64.toInt_inj, hsum]
    constructor
    · rintro ⟨-, heq⟩
      exact ⟨before, len, rest, rfl, heq.symm⟩
    · rintro ⟨_, _, _, heq, hsum⟩
      cases heq
      exact ⟨List.cons_ne_nil _ _, hsum.symm⟩

/-- One read more. The counter does not overflow: the offset bounds it. -/
theorem Records.record (hrecords : r.Records reads) (hreads : d.Covers ((offset, length) :: reads)) :
    (r.recordReadLocked offset length).Records ((offset, length) :: reads) := by
  have hrest : d.Covers reads := fun read hread => hreads read (List.mem_cons_of_mem _ hread)
  have hle := streakOf_le hreads
  have hlt := offset.toInt_lt
  refine ⟨by simp [recordReadLocked], by simp [recordReadLocked], ?_⟩
  unfold recordReadLocked
  dsimp only
  by_cases hcontinues : r.Continues offset
  · obtain ⟨before, len, rest, rfl, hsum⟩ := (hrecords.continues_iff hrest).mp hcontinues
    rw [streakOf, if_pos hsum] at hle ⊢
    push_cast at hle ⊢
    have hone : (1 : Int64).toInt = 1 := rfl
    have hstreak := hrecords.streak
    rw [if_pos hcontinues, toInt_add_of_bounds (by omega), hstreak, hone]
  · rw [if_neg hcontinues]
    cases hcases : reads with
    | nil => rfl
    | cons read rest =>
      obtain ⟨before, len⟩ := read
      rw [streakOf, if_neg, Int64.toInt_zero]
      · rfl
      · exact fun hsum => hcontinues ((hrecords.continues_iff hrest).mpr ⟨before, len, rest, hcases, hsum⟩)

/-- The window has no part in the record. -/
theorem Records.store (hrecords : r.Records reads) (data : Bytes) :
    (r.storeReadAheadWindow offset data).Records reads :=
  ⟨hrecords.have_last, hrecords.last, hrecords.streak⟩

end ReadAhead

namespace StorageDevice

variable {σ : Type} {B : StorageBackend σ} {s : DeviceState σ}

/-- All a read does to the fields under the mutex: it is recorded, and the window may be replaced. -/
theorem readAt_ahead (hahead : 0 < d.readAheadBytes.toInt) (hpos : 0 < length.toInt)
    (hplaced : s.ahead.Placed) (hrange : d.Holds offset.toInt length.toInt) :
    (d.next B s (.read offset length)).ahead = s.ahead.recordReadLocked offset length ∨
      ∃ data, (d.next B s (.read offset length)).ahead =
        (s.ahead.recordReadLocked offset length).storeReadAheadWindow offset data := by
  unfold next
  dsimp only
  by_cases hhit : s.ahead.InWindow offset length
  · obtain ⟨window, hwindow, hfrom, hto⟩ := hhit
    have hsection := ReadAhead.readAheadHit_of_inWindow hplaced hrange hwindow hfrom hto
    rw [(readAt_hit hahead hpos hsection).1]
    exact Or.inl rfl
  · have hsection := ReadAhead.readAheadHit_of_not_inWindow hplaced hrange hhit
    obtain ⟨n, ahead, hplan, -⟩ := ReadAhead.planReadAhead_spec (r := s.ahead) hrange hpos
    rw [(readAt_miss hahead hpos hsection).1, hplan]
    unfold fetch
    dsimp only
    obtain ⟨data | _ | _, b⟩ := B.read offset n s.backend
    · cases ahead with
      | false => exact Or.inl rfl
      | true => exact Or.inr ⟨data, rfl⟩
    · exact Or.inl rfl
    · exact Or.inl rfl

/-- A write forgets everything. -/
theorem writeAt_ahead (data : Bytes) : (d.next B s (.write offset data)).ahead = .zero := rfl

/-- The record of a device is the record of its history. -/
theorem after_records (hahead : 0 < d.readAheadBytes.toInt) (b : σ) {uses : List Use}
    (huses : ∀ u ∈ uses, u.InRange d ∧ u.IsAccess) :
    (d.after B uses b).ahead.Placed ∧ (d.after B uses b).ahead.Records (recentReads uses.reverse) ∧
      d.Covers (recentReads uses.reverse) := by
  induction uses using List.reverseRecOn with
  | nil => exact ⟨le_refl _, ReadAhead.records_zero, fun _ h => nomatch h⟩
  | append_singleton uses u ih =>
    obtain ⟨hplaced, hrecords, hcovers⟩ :=
      ih fun v hv => huses v (List.mem_append_left _ hv)
    obtain ⟨hrange, haccess⟩ := huses u (List.mem_append_right _ (List.mem_singleton_self u))
    rw [after_append_singleton, List.reverse_append, List.reverse_singleton, List.singleton_append]
    cases u with
    | read offset length =>
      have hcovers' : d.Covers ((offset, length) :: recentReads uses.reverse) :=
        List.forall_mem_cons.mpr ⟨⟨hrange, haccess⟩, hcovers⟩
      have hrecord := hrecords.record hcovers'
      rcases readAt_ahead (B := B) hahead haccess hplaced hrange with h | ⟨data, h⟩
      · rw [h]
        exact ⟨hplaced, hrecord, hcovers'⟩
      · rw [h]
        exact ⟨hrange.start, hrecord.store data, hcovers'⟩
    | write offset data =>
      rw [writeAt_ahead]
      exact ⟨le_refl _, ReadAhead.records_zero, fun _ h => nomatch h⟩
    | flush => exact haccess.elim

end StorageDevice

/-- The last two calls are reads, the second starts where the first ended, and a read at `offset` starts where
the second ended. -/
def Sequential (uses : List Use) (offset : Int64) : Prop :=
  ∃ before offset₁ length₁ offset₂ length₂,
    uses = before ++ [.read offset₁ length₁, .read offset₂ length₂] ∧
      offset₁.toInt + length₁.toInt = offset₂.toInt ∧ offset₂.toInt + length₂.toInt = offset.toInt

theorem recentReads_eq_cons {history : List Use} (h : recentReads history = (offset, length) :: reads) :
    ∃ earlier, history = .read offset length :: earlier ∧ recentReads earlier = reads := by
  match history, h with
  | .read _ _ :: earlier, rfl => exact ⟨earlier, rfl, rfl⟩

theorem two_le_streakOf_iff :
    2 ≤ streakOf ((offset, length) :: reads) ↔
      ∃ offset₁ length₁ offset₂ length₂ rest,
        reads = (offset₂, length₂) :: (offset₁, length₁) :: rest ∧
          offset₁.toInt + length₁.toInt = offset₂.toInt ∧ offset₂.toInt + length₂.toInt = offset.toInt := by
  constructor
  · intro h
    match reads with
    | [] =>
      rw [streakOf_singleton] at h
      exact absurd h (by decide)
    | [_] =>
      rw [streakOf, streakOf_singleton] at h
      split at h
      · exact absurd h (by decide)
      · exact absurd h (by decide)
    | (offset₂, length₂) :: (offset₁, length₁) :: rest =>
      rw [streakOf] at h
      split at h
      · rename_i hsecond
        rw [streakOf] at h
        split at h
        · rename_i hfirst
          exact ⟨offset₁, length₁, offset₂, length₂, rest, rfl, hfirst, hsecond⟩
        · exact absurd h (by decide)
      · exact absurd h (by decide)
  · rintro ⟨offset₁, length₁, offset₂, length₂, rest, rfl, hfirst, hsecond⟩
    rw [streakOf, if_pos hsecond, streakOf, if_pos hfirst]
    omega

/-- A counter of two is two adjacent reads before this one. -/
theorem sequential_iff {uses : List Use} (length : Int64) :
    Sequential uses offset ↔ 2 ≤ streakOf ((offset, length) :: recentReads uses.reverse) := by
  rw [two_le_streakOf_iff]
  constructor
  · rintro ⟨before, offset₁, length₁, offset₂, length₂, rfl, hfirst, hsecond⟩
    exact ⟨offset₁, length₁, offset₂, length₂, recentReads before.reverse, by simp [recentReads], hfirst,
      hsecond⟩
  · rintro ⟨offset₁, length₁, offset₂, length₂, rest, hreads, hfirst, hsecond⟩
    obtain ⟨earlier, hhistory, hearlier⟩ := recentReads_eq_cons hreads
    obtain ⟨before, rfl, -⟩ := recentReads_eq_cons hearlier
    refine ⟨before.reverse, offset₁, length₁, offset₂, length₂, ?_, hfirst, hsecond⟩
    have huses := congrArg List.reverse hhistory
    simpa using huses

/-- **When the device reads ahead.** For every backend and every history of calls on a device with read-ahead:
a read inside the window does not ask the backend; any other read asks it ONCE, at its own offset, and for
more than it needs EXACTLY after two adjacent reads that it continues, if the read-ahead and the volume reach
further than the read. -/
theorem reads_ahead_iff {σ : Type} (d : StorageDevice) (B : StorageBackend σ) (b : σ) (uses : List Use)
    (offset length : Int64) (hahead : 0 < d.readAheadBytes.toInt)
    (huses : ∀ u ∈ uses, u.InRange d ∧ u.IsAccess)
    (hread : (Use.read offset length).InRange d ∧ (Use.read offset length).IsAccess) :
    ((d.after B uses b).ahead.InWindow offset length →
      d.backendReads B offset length (d.after B uses b) = []) ∧
    (¬ (d.after B uses b).ahead.InWindow offset length →
      ∃ n : Int64, d.backendReads B offset length (d.after B uses b) = [(offset, n)] ∧
        (length.toInt < n.toInt ↔ Sequential uses offset ∧
          length.toInt < min d.readAheadBytes.toInt (d.sizeBytes.toInt - offset.toInt)) ∧
        (length.toInt < n.toInt →
          n.toInt = min d.readAheadBytes.toInt (d.sizeBytes.toInt - offset.toInt))) := by
  obtain ⟨hplaced, hrecords, hcovers⟩ := StorageDevice.after_records (B := B) hahead b huses
  obtain ⟨hrange, hpos⟩ := hread
  have hcovers' : d.Covers ((offset, length) :: recentReads uses.reverse) :=
    List.forall_mem_cons.mpr ⟨⟨hrange, hpos⟩, hcovers⟩
  refine ⟨?_, ?_⟩
  · rintro ⟨window, hwindow, hfrom, hto⟩
    have hsection := ReadAhead.readAheadHit_of_inWindow hplaced hrange hwindow hfrom hto
    exact (StorageDevice.readAt_hit hahead hpos hsection).2
  · intro hmiss
    have hsection := ReadAhead.readAheadHit_of_not_inWindow hplaced hrange hmiss
    obtain ⟨n, ahead, hplan, -, -, -, hmore, hexact⟩ :=
      ReadAhead.planReadAhead_spec (r := (d.after B uses b).ahead) hrange hpos
    refine ⟨n, ?_, ?_, hexact⟩
    · rw [(StorageDevice.readAt_miss hahead hpos hsection).2, hplan]
    · rw [hmore, (hrecords.record hcovers').streak, Nat.ofNat_le_cast, ← sequential_iff]
      have hcontinues : Sequential uses offset → (d.after B uses b).ahead.Continues offset := by
        intro hsequential
        rw [sequential_iff length, two_le_streakOf_iff] at hsequential
        obtain ⟨offset₁, length₁, offset₂, length₂, rest, hreads, -, hsum⟩ := hsequential
        exact (hrecords.continues_iff hcovers).mpr ⟨offset₂, length₂, _, hreads, hsum⟩
      rw [and_iff_right_of_imp hcontinues]

/-! ## A backend that is an array of bytes -/

/-- On requests in the volume the backend is the array `content`, which only a write changes. -/
structure StorageBackend.IsArray {σ : Type} (B : StorageBackend σ) (d : StorageDevice)
    (content : σ → Nat → UInt8) : Prop where
  read : ∀ offset length b, d.Holds offset.toInt length.toInt →
    (B.read offset length b).1 = .ok (window (content b) (natOf offset) (natOf length)) ∧
      content (B.read offset length b).2 = content b
  write : ∀ (offset : Int64) (data : Bytes) b, d.Holds offset.toInt data.length →
    (B.write offset data b).1 = .ok () ∧
      content (B.write offset data b).2 = patch 0 (content b) (natOf offset) data
  flush : ∀ b, content (B.flushDirty b).2 = content b

/-- In the state `b` the backend reads as the array. -/
def StorageBackend.ReadsAs {σ : Type} (B : StorageBackend σ) (d : StorageDevice) (content : σ → Nat → UInt8)
    (b : σ) : Prop :=
  ∀ offset length, d.Holds offset.toInt length.toInt →
    (B.read offset length b).1 = .ok (window (content b) (natOf offset) (natOf length)) ∧
      content (B.read offset length b).2 = content b

theorem StorageBackend.IsArray.readsAs {σ : Type} {B : StorageBackend σ} {content : σ → Nat → UInt8}
    (h : B.IsArray d content) (b : σ) : B.ReadsAs d content b :=
  fun offset length hrange => h.read offset length b hrange

/-- The plainest such backend. -/
def arrayBackend : StorageBackend (Nat → UInt8) where
  read offset length f := (.ok (window f (natOf offset) (natOf length)), f)
  write offset data f := (.ok (), patch 0 f (natOf offset) data)
  flushDirty f := (.ok (), f)
  commitWithOptions _ f := (.ok (), f)
  stop f := (.ok (), f)
  onDisconnect f := f

theorem arrayBackend_isArray (d : StorageDevice) : arrayBackend.IsArray d id :=
  ⟨fun _ _ _ _ => ⟨rfl, rfl⟩, fun _ _ _ _ => ⟨rfl, rfl⟩, fun _ => rfl⟩

/-- The device of the package's tests: reads of four bytes ahead on a volume of eight. -/
def smallDevice : StorageDevice := ⟨8, false, ⟨0, false⟩, false, 4⟩

/-- The third of three adjacent reads fetches ahead. -/
theorem reads_ahead_iff_third :
    ∃ n : Int64, smallDevice.backendReads arrayBackend 2 1
        (smallDevice.after arrayBackend [.read 0 1, .read 1 1] fun _ => 7) = [(2, n)] ∧ n.toInt = 4 := by
  have hexact := (reads_ahead_iff smallDevice arrayBackend (fun _ => 7) [.read 0 1, .read 1 1] 2 1
    (by decide) (by decide) (by decide)).2
  obtain ⟨n, hreads, hmore, hn⟩ := hexact (by
    rintro ⟨w, hw, -⟩
    cases hw)
  have hsequential : Sequential [.read 0 1, .read 1 1] 2 :=
    ⟨[], 0, 1, 1, 1, rfl, by decide, by decide⟩
  exact ⟨n, hreads, hn (hmore.mpr ⟨hsequential, by decide⟩)⟩

/-! ## Read-ahead cannot be seen -/

/-- The window holds bytes of the array, all of them in the volume. -/
structure ReadAhead.Mirrors (r : ReadAhead) (d : StorageDevice) (f : Nat → UInt8) : Prop where
  placed : r.Placed
  stop : ∀ data ∈ r.windowData, r.windowOffset.toInt + data.length ≤ d.sizeBytes.toInt
  same : ∀ data ∈ r.windowData, data = window f (natOf r.windowOffset) data.length

theorem ReadAhead.mirrors_zero (d : StorageDevice) (f : Nat → UInt8) : zero.Mirrors d f :=
  ⟨le_refl _, fun _ h => (nomatch h), fun _ h => (nomatch h)⟩

theorem ReadAhead.Mirrors.record {f : Nat → UInt8} (h : r.Mirrors d f) (offset length : Int64) :
    (r.recordReadLocked offset length).Mirrors d f :=
  ⟨h.placed, h.stop, h.same⟩

/-- The bytes fetched from the array become the window. -/
theorem ReadAhead.Mirrors.store {f : Nat → UInt8} {n : Int64} (hrange : d.Holds offset.toInt n.toInt) :
    (r.storeReadAheadWindow offset (window f (natOf offset) (natOf n))).Mirrors d f := by
  have hdata : ∀ data ∈ (r.storeReadAheadWindow offset (window f (natOf offset) (natOf n))).windowData,
      data = window f (natOf offset) (natOf n) := by
    intro data hdata
    unfold storeReadAheadWindow at hdata
    dsimp only at hdata
    split at hdata
    · cases hdata
    · exact (Option.mem_some_iff.mp hdata).symm
  refine ⟨hrange.start, ?_, ?_⟩
  · intro data h
    rw [hdata data h, length_window, natOf_cast hrange.nonneg]
    exact hrange.stop
  · intro data h
    rw [hdata data h, length_window]
    rfl

namespace StorageDevice

variable {σ : Type} {B : StorageBackend σ} {content : σ → Nat → UInt8} {s : DeviceState σ}

/-- What is asked of a read: the bytes of the array, asking the backend only inside the volume. -/
structure ReadsArray (d : StorageDevice) (B : StorageBackend σ) (content : σ → Nat → UInt8)
    (s : DeviceState σ) (offset length : Int64) : Prop where
  bytes : (d.runAlone B (d.readAt offset length) s).1 =
    .ok (window (content s.backend) (natOf offset) (natOf length))
  asks : ∀ e ∈ d.backendReads B offset length s, d.Holds e.1.toInt e.2.toInt
  keeps : content (d.next B s (.read offset length)).backend = content s.backend
  mirrors : (d.next B s (.read offset length)).ahead.Mirrors d (content s.backend)

/-- Without the window: what the backend returns. -/
theorem readAt_without_window (hreads : B.ReadsAs d content s.backend) (hs : s.ahead.Mirrors d (content s.backend))
    (hdirect : d.readAheadBytes ≤ 0 ∨ length ≤ 0) (hrange : d.Holds offset.toInt length.toInt) :
    d.ReadsArray B content s offset length := by
  obtain ⟨hbytes, hkeeps⟩ := hreads offset length hrange
  obtain ⟨hrun, hasks⟩ := readAt_direct (d := d) (B := B) (s := s) hdirect
  refine ⟨?_, ?_, ?_, ?_⟩
  · rw [hrun, hbytes]
  · rw [hasks]
    exact List.forall_mem_singleton.mpr hrange
  · rw [next, hrun]
    exact hkeeps
  · rw [next, hrun]
    exact hs

/-- From the window: a slice of a slice of the array. -/
theorem readAt_inWindow (hs : s.ahead.Mirrors d (content s.backend))
    (hahead : 0 < d.readAheadBytes.toInt) (hpos : 0 < length.toInt)
    (hrange : d.Holds offset.toInt length.toInt) (hhit : s.ahead.InWindow offset length) :
    d.ReadsArray B content s offset length := by
  obtain ⟨data, hwindow, hfrom, hto⟩ := hhit
  have hsection := ReadAhead.readAheadHit_of_inWindow hs.placed hrange hwindow hfrom hto
  obtain ⟨hrun, hreads⟩ := readAt_hit (B := B) hahead hpos hsection
  have hplaced : 0 ≤ s.ahead.windowOffset.toInt := hs.placed
  have hoffset := hrange.start
  have hbytes : slice data (natOf offset - natOf s.ahead.windowOffset) (natOf length) =
      window (content s.backend) (natOf offset) (natOf length) := by
    have hinside : natOf offset - natOf s.ahead.windowOffset + natOf length ≤ data.length := by
      unfold natOf
      omega
    have hstart : natOf s.ahead.windowOffset + (natOf offset - natOf s.ahead.windowOffset) =
        natOf offset := by
      unfold natOf
      omega
    rw [hs.same data hwindow, slice_window _ hinside, hstart]
  refine ⟨?_, ?_, ?_, ?_⟩
  · rw [hrun, hbytes]
  · rw [hreads]
    exact fun _ h => nomatch h
  · rw [next, hrun]
  · rw [next, hrun]
    exact hs.record offset length

/-- Past the window: the plan stays in the volume, and the part asked for is the head of what came. -/
theorem readAt_past_window (hreads : B.ReadsAs d content s.backend) (hs : s.ahead.Mirrors d (content s.backend))
    (hahead : 0 < d.readAheadBytes.toInt) (hpos : 0 < length.toInt)
    (hrange : d.Holds offset.toInt length.toInt) (hmiss : ¬ s.ahead.InWindow offset length) :
    d.ReadsArray B content s offset length := by
  have hsection := ReadAhead.readAheadHit_of_not_inWindow hs.placed hrange hmiss
  obtain ⟨n, ahead, hplan, -, hlong, hstop, -⟩ := ReadAhead.planReadAhead_spec (r := s.ahead) hrange hpos
  have hfetch : d.Holds offset.toInt n.toInt := ⟨hrange.start, by omega, hstop⟩
  obtain ⟨hrun, hasks⟩ := readAt_miss (B := B) hahead hpos hsection
  obtain ⟨hbytes, hkeeps⟩ := hreads offset n hfetch
  have hanswer : answer length (window (content s.backend) (natOf offset) (natOf n)) =
      window (content s.backend) (natOf offset) (natOf length) := by
    have hle : natOf length ≤ natOf n := by
      unfold natOf
      omega
    unfold answer
    rw [length_window, if_neg (by rw [natOf_cast hfetch.nonneg]; omega)]
    have htake : slice (window (content s.backend) (natOf offset) (natOf n)) 0 (natOf length) =
        window (content s.backend) (natOf offset + 0) (natOf length) := slice_window _ (by omega)
    simpa [slice] using htake
  rw [hplan] at hrun hasks
  have hfetched : fetch B offset length ((n, ahead), s.ahead.recordReadLocked offset length) s.backend =
      (.ok (window (content s.backend) (natOf offset) (natOf length)),
        ⟨if ahead then (s.ahead.recordReadLocked offset length).storeReadAheadWindow offset
            (window (content s.backend) (natOf offset) (natOf n))
          else s.ahead.recordReadLocked offset length, (B.read offset n s.backend).2⟩) := by
    unfold fetch
    dsimp only
    rw [← Prod.eta (B.read offset n s.backend), hbytes, ← hanswer]
  rw [hfetched] at hrun
  refine ⟨?_, ?_, ?_, ?_⟩
  · rw [hrun]
  · rw [hasks]
    exact List.forall_mem_singleton.mpr hfetch
  · rw [next, hrun]
    exact hkeeps
  · rw [next, hrun]
    cases ahead with
    | false => exact hs.record offset length
    | true => exact ReadAhead.Mirrors.store hfetch

/-- A read of the device is a read of the array. -/
theorem readAt_array (hreads : B.ReadsAs d content s.backend) (hs : s.ahead.Mirrors d (content s.backend))
    (hrange : d.Holds offset.toInt length.toInt) : d.ReadsArray B content s offset length := by
  by_cases hdirect : d.readAheadBytes ≤ 0 ∨ length ≤ 0
  · exact readAt_without_window hreads hs hdirect hrange
  · have hahead : 0 < d.readAheadBytes.toInt ∧ 0 < length.toInt := by
      simp only [Int64.le_iff_toInt_le, Int64.toInt_zero] at hdirect
      omega
    by_cases hhit : s.ahead.InWindow offset length
    · exact readAt_inWindow hs hahead.1 hahead.2 hrange hhit
    · exact readAt_past_window hreads hs hahead.1 hahead.2 hrange hhit

/-- The window mirrors the array after any history. -/
theorem after_mirrors (harray : B.IsArray d content) (b : σ) {uses : List Use}
    (huses : ∀ u ∈ uses, u.InRange d) :
    (d.after B uses b).ahead.Mirrors d (content (d.after B uses b).backend) := by
  induction uses using List.reverseRecOn with
  | nil => exact ReadAhead.mirrors_zero d (content b)
  | append_singleton uses u ih =>
    have hs := ih fun v hv => huses v (List.mem_append_left _ hv)
    have hrange := huses u (List.mem_append_right _ (List.mem_singleton_self u))
    rw [after_append_singleton]
    cases u with
    | read offset length =>
      have hread := readAt_array (harray.readsAs _) hs hrange
      rw [hread.keeps]
      exact hread.mirrors
    | write offset data =>
      rw [writeAt_ahead]
      exact ReadAhead.mirrors_zero d _
    | flush =>
      have hkeeps : content (d.next B (d.after B uses b) .flush).backend =
          content (d.after B uses b).backend := harray.flush _
      rw [hkeeps]
      exact hs

end StorageDevice

/-- **Read-ahead is transparent.** On a device over a backend that is an array of bytes, after every history of
calls in the volume and for every read-ahead: a read returns what the backend would return for it now, as
many bytes as were asked for, and asks the backend for nothing outside the volume. -/
theorem read_ahead_transparent {σ : Type} (d : StorageDevice) (B : StorageBackend σ)
    (content : σ → Nat → UInt8) (harray : B.IsArray d content) (b : σ) (uses : List Use)
    (huses : ∀ u ∈ uses, u.InRange d) (offset length : Int64)
    (hrange : (Use.read offset length).InRange d) :
    ∃ data, (d.runAlone B (d.readAt offset length) (d.after B uses b)).1 = .ok data ∧
      (B.read offset length (d.after B uses b).backend).1 = .ok data ∧
      data.length = length.toInt ∧
      ∀ e ∈ d.backendReads B offset length (d.after B uses b), d.Holds e.1.toInt e.2.toInt := by
  have hs := StorageDevice.after_mirrors harray b huses
  have hread := StorageDevice.readAt_array (harray.readsAs _) hs hrange
  refine ⟨_, hread.bytes, (harray.read offset length _ hrange).1, ?_, hread.asks⟩
  rw [length_window, natOf_cast hrange.nonneg]

/-- A read from the window of bytes fetched ahead, after a write made the device forget an earlier one. -/
theorem read_ahead_transparent_reused :
    ∃ data, (smallDevice.runAlone arrayBackend (smallDevice.readAt 3 2)
        (smallDevice.after arrayBackend [.read 0 1, .read 1 1, .read 2 1, .write 4 [9], .read 0 1,
          .read 1 1, .read 2 1] fun _ => 7)).1 = .ok data ∧ data = [7, 9] := by
  obtain ⟨data, hdata, hread, -⟩ := read_ahead_transparent smallDevice arrayBackend id
    (arrayBackend_isArray smallDevice) (fun _ => 7) [.read 0 1, .read 1 1, .read 2 1, .write 4 [9],
      .read 0 1, .read 1 1, .read 2 1] (by decide) 3 2 (by decide)
  refine ⟨data, hdata, ?_⟩
  cases hread
  decide

end OrcaBlocks.Nbd
