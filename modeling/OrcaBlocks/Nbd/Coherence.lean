/-
# OrcaBlocks.Nbd.Coherence — one session with two front ends.

A session with an NBD export can be used over HTTP as well: `read`, `write` and `commit` of the node service go
straight to the backend, the requests of an NBD client go through the `StorageDevice` and its read-ahead window.
A write over NBD drops the window. A write over HTTP does NOT: the window keeps the bytes from before, and a
later read over NBD returns them.

As long as no HTTP write overlaps the window of the moment, every read returns the last write, through whichever
front end the two came. The window is in the state before the write, so the condition can be read off it.
-/
import OrcaBlocks.Nbd.RangeCheck
import OrcaBlocks.Nbd.SessionBackend

namespace OrcaBlocks.Nbd

open OrcaBlocks.Lib
open OrcaBlocks.Storage (Bytes World Platform Caller SessRef Sound Flat CommitOptions NoCollision
  goRuntime plainNode serveAll Backend)
open Server

variable {r : ReadAhead} {f : Nat → UInt8} {data : Bytes}

variable {σ : Type}

/-! ## The operations -/

/-- An operation of a client on the session. The offset and the length of an NBD request are words of the wire. -/
inductive FrontOp where
  | httpRead (offset length : Int64)
  | httpWrite (offset : Int64) (data : Bytes)
  | httpCommit
  | nbdRead (offset : Int64) (length : UInt32)
  | nbdWrite (offset : Int64) (data : Bytes)
  | nbdFlush
  deriving DecidableEq, Repr

/-- What the client gets. A refused request, a failed one and a closed connection are `failed`. -/
inductive FrontReply where
  | bytes (b : Bytes)
  | done
  | failed
  | panic
  deriving DecidableEq, Repr

namespace FrontOp

def ofRead : Outcome Err Bytes → FrontReply
  | .ok data => .bytes data
  | .error _ => .failed
  | .panic => .panic

def ofCall {α : Type} : Outcome Err α → FrontReply
  | .ok _ => .done
  | .error _ => .failed
  | .panic => .panic

variable (d : StorageDevice) (B : StorageBackend σ)

/-- One operation, atomically. HTTP bodies are read up to 64 MiB, NBD requests up to `maxRequestBytes`; the
server checks the range of a request before the device sees it. -/
def step (op : FrontOp) (s : DeviceState σ) : FrontReply × DeviceState σ :=
  match op with
  | .httpRead offset length =>
    (ofRead (B.read offset length s.backend).1,
      { s with backend := (B.read offset length s.backend).2 })
  | .httpWrite offset data =>
    if data.length > 64 * 1024 * 1024 then (.failed, s)
    else (ofCall (B.write offset data s.backend).1,
      { s with backend := (B.write offset data s.backend).2 })
  | .httpCommit =>
    (ofCall (returned (B.commitWithOptions ⟨0, false⟩ s.backend).1),
      { s with backend := (B.commitWithOptions ⟨0, false⟩ s.backend).2 })
  | .nbdRead offset length =>
    if length.toUInt64.toInt64 > maxRequestBytes ∨
        OutOfRange d.sizeBytes offset length.toUInt64.toInt64 then (.failed, s)
    else
      let result := d.runAlone B (d.readAt offset length.toUInt64.toInt64) s
      (ofRead result.1, result.2)
  | .nbdWrite offset data =>
    if data.length > natOf maxRequestBytes ∨
        OutOfRange d.sizeBytes offset (Int64.ofNat data.length) then (.failed, s)
    else
      let result := d.runAlone B (StorageDevice.writeAt offset data) s
      (ofCall result.1, result.2)
  | .nbdFlush =>
    let result := d.runAlone B StorageDevice.flush s
    (ofCall result.1, result.2)

/-- A sequence of operations. -/
def run : List FrontOp → DeviceState σ → List FrontReply × DeviceState σ
  | [], s => ([], s)
  | op :: ops, s =>
    let (reply, s₁) := op.step d B s
    let (replies, s₂) := run ops s₁
    (reply :: replies, s₂)

end FrontOp

/-! ## What the clients are promised -/

namespace FrontOp

/-- The array after an operation that was answered so. -/
def effect (op : FrontOp) (reply : FrontReply) (f : Nat → UInt8) : Nat → UInt8 :=
  match op, reply with
  | .httpWrite offset data, .done => patch 0 f (natOf offset) data
  | .nbdWrite offset data, .done => patch 0 f (natOf offset) data
  | _, _ => f

/-- A read of the array: no other bytes than its own, and all of them if the range is in the volume and no
longer than the limit of the front end. -/
structure ReadsRight (d : StorageDevice) (f : Nat → UInt8) (limit : Int) (offset length : Int64)
    (reply : FrontReply) : Prop where
  only : ∀ data, reply = .bytes data → data = window f (natOf offset) data.length
  all : d.Holds offset.toInt length.toInt → length.toInt ≤ limit →
    reply = .bytes (window f (natOf offset) (natOf length))

def Right (d : StorageDevice) (f : Nat → UInt8) (op : FrontOp) (reply : FrontReply) : Prop :=
  match op with
  | .httpRead offset length => ReadsRight d f length.toInt offset length reply
  | .nbdRead offset length => ReadsRight d f (32 * 1024 * 1024) offset length.toUInt64.toInt64 reply
  | _ => True

/-- **Coherence**: every read returns, for each byte, the last successful write to it, whichever way the two came,
and the byte it was at the start if there was none. -/
def Coherent (d : StorageDevice) : (Nat → UInt8) → List FrontOp → List FrontReply → Prop
  | _, [], [] => True
  | f, op :: ops, reply :: replies => op.Right d f reply ∧ Coherent d (op.effect reply f) ops replies
  | _, _, _ => False

/-- An HTTP write that does not touch the window. -/
def Spares (r : ReadAhead) : FrontOp → Prop
  | .httpWrite offset data => ∀ window ∈ r.windowData, data = [] ∨
      offset.toInt + data.length ≤ r.windowOffset.toInt ∨
      r.windowOffset.toInt + window.length ≤ offset.toInt
  | _ => True

instance (r : ReadAhead) : DecidablePred (Spares r)
  | .httpRead .. => .isTrue trivial
  | .httpWrite .. => inferInstanceAs (Decidable (∀ window ∈ r.windowData, _))
  | .httpCommit => .isTrue trivial
  | .nbdRead .. => .isTrue trivial
  | .nbdWrite .. => .isTrue trivial
  | .nbdFlush => .isTrue trivial

/-- No HTTP write of the sequence touches the window it finds. -/
def AllSpare (d : StorageDevice) (B : StorageBackend σ) : List FrontOp → DeviceState σ → Prop
  | [], _ => True
  | op :: ops, s => op.Spares s.ahead ∧ AllSpare d B ops (op.step d B s).2

instance decidableAllSpare (d : StorageDevice) (B : StorageBackend σ) :
    (ops : List FrontOp) → (s : DeviceState σ) → Decidable (AllSpare d B ops s)
  | [], _ => .isTrue trivial
  | op :: ops, s =>
    have := decidableAllSpare d B ops (op.step d B s).2
    inferInstanceAs (Decidable (op.Spares s.ahead ∧ AllSpare d B ops (op.step d B s).2))

end FrontOp

/-! ## Requests whose end wraps -/

section Wraps

variable {d : StorageDevice} {B : StorageBackend σ} {I : σ → Prop} {content : σ → Nat → UInt8}
  {s : DeviceState σ} {offset length : Int64}

/-- What the device answers is of the array, and the array and the window stay as they are. -/
structure Harmless (d : StorageDevice) (I : σ → Prop) (content : σ → Nat → UInt8) (s : DeviceState σ)
    (offset : Int64) (result : Outcome Err Bytes × DeviceState σ) : Prop where
  bytes : ∀ data, result.1 = .ok data → data = window (content s.backend) (natOf offset) data.length
  inv : I result.2.backend
  keeps : content result.2.backend = content s.backend
  mirrors : result.2.ahead.Mirrors d (content s.backend)

/-- The window section on a range that wraps: no hit, or a panic. -/
theorem readAheadHit_wrapping (hplaced : r.Placed)
    (hstop : ∀ data ∈ r.windowData, r.windowOffset.toInt + data.length ≤ d.sizeBytes.toInt)
    (hoffset : 0 ≤ offset.toInt) (hlength : 0 ≤ length.toInt)
    (hwraps : 2 ^ 63 ≤ offset.toInt + length.toInt) :
    r.readAheadHit offset length = (some none, r) ∨
      r.readAheadHit offset length = (none, r.recordReadLocked offset length) := by
  have hsize := d.sizeBytes.toInt_lt
  have hmax := offset.toInt_lt
  have hplaced' : 0 ≤ r.windowOffset.toInt := hplaced
  unfold ReadAhead.readAheadHit
  cases hwindow : r.windowData with
  | none => exact .inl rfl
  | some window =>
    have hend := hstop window hwindow
    dsimp only
    by_cases hfrom : offset < r.windowOffset
    · rw [if_pos hfrom]
      exact .inl rfl
    · rw [if_neg hfrom]
      rw [Int64.lt_iff_toInt_lt] at hfrom
      have hstart : (offset - r.windowOffset).toInt = offset.toInt - r.windowOffset.toInt :=
        toInt_sub_of_bounds (by omega)
      by_cases hsum : offset.toInt - r.windowOffset.toInt + length.toInt < 2 ^ 63
      · -- the end is an `int64`, and lies behind the window
        have hexact : (offset - r.windowOffset + length).toInt =
            offset.toInt - r.windowOffset.toInt + length.toInt := by
          rw [toInt_add_of_bounds (by omega), hstart]
        rw [if_pos (Or.inr (by omega))]
        exact .inl rfl
      · -- the end wraps: it passes the comparison, and the slice ends before it starts
        have hneg : (offset - r.windowOffset + length).toInt < 0 :=
          toInt_add_neg_of_overflow (by omega) hlength (by omega)
        rw [if_neg (by rw [Int64.lt_iff_toInt_lt, Int64.toInt_zero]; omega), if_pos]
        · exact .inr rfl
        · rw [Int64.lt_iff_toInt_lt, Int64.lt_iff_toInt_lt]
          omega

/-- The plan on such a range: no less than was asked for, or what is left of the volume. -/
theorem planReadAhead_wrapping (hoffset : 0 ≤ offset.toInt) (hsize : 0 ≤ d.sizeBytes.toInt) :
    ∃ n ahead, r.planReadAhead d offset length = ((n, ahead), r.recordReadLocked offset length) ∧
      (length.toInt ≤ n.toInt ∨ (d.Holds offset.toInt n.toInt ∧ n.toInt < length.toInt ∧ ahead = false)) := by
  have hmax := d.sizeBytes.toInt_lt
  have hmax' := offset.toInt_lt
  have hremaining : (d.sizeBytes - offset).toInt = d.sizeBytes.toInt - offset.toInt :=
    toInt_sub_of_bounds (by omega)
  unfold ReadAhead.planReadAhead
  dsimp only
  by_cases hstreak : ¬ r.Continues offset ∨ (r.recordReadLocked offset length).sequentialStreak < 2
  · rw [if_pos hstreak]
    exact ⟨length, false, rfl, .inl (le_refl _)⟩
  · rw [if_neg hstreak]
    refine ⟨_, _, rfl, ?_⟩
    simp only [Int64.lt_iff_toInt_lt, gt_iff_lt, Int64.toInt_zero, hremaining, decide_eq_false_iff_not]
    split
    · rename_i hshort
      split
      · rename_i hcut
        rw [hremaining]
        exact .inr ⟨⟨hoffset, by omega, by omega⟩, by omega, by omega⟩
      · exact .inl (le_refl _)
    · rename_i hshort
      split
      · rename_i hcut
        by_cases hless : length.toInt ≤ d.sizeBytes.toInt - offset.toInt
        · exact .inl (by omega)
        · rw [hremaining]
          exact .inr ⟨⟨hoffset, by omega, by omega⟩, by omega, by omega⟩
      · exact .inl (by omega)

/-- A read that the range check let through though its end wraps does no harm to the array. -/
theorem readAt_wrapping (hB : B.IsArrayOn d I content) (hI : I s.backend)
    (hs : s.ahead.Mirrors d (content s.backend)) (hsize : 0 ≤ d.sizeBytes.toInt) (hoffset : 0 ≤ offset.toInt)
    (hlength : 0 ≤ length.toInt) (hwraps : 2 ^ 63 ≤ offset.toInt + length.toInt) :
    Harmless d I content s offset (d.runAlone B (d.readAt offset length) s) := by
  have hmax := d.sizeBytes.toInt_lt
  have hmax' := offset.toInt_lt
  by_cases hdirect : d.readAheadBytes ≤ 0 ∨ length ≤ 0
  · obtain ⟨hinv, hkeeps, -, hrefused⟩ := hB.read offset length s.backend hI
    obtain ⟨e, he⟩ := hrefused fun h => by have := h.stop; omega
    rw [(StorageDevice.readAt_direct hdirect).1, he]
    exact ⟨by rintro _ ⟨⟩, hinv, hkeeps, hs⟩
  have hahead : 0 < d.readAheadBytes.toInt ∧ 0 < length.toInt := by
    simp only [Int64.le_iff_toInt_le, Int64.toInt_zero] at hdirect
    omega
  rcases readAheadHit_wrapping hs.placed hs.stop hoffset hlength hwraps with hmiss | hpanic
  · obtain ⟨n, ahead, hplan, hn⟩ := planReadAhead_wrapping (r := s.ahead) hoffset hsize
    obtain ⟨hinv, hkeeps, hread, hrefused⟩ := hB.read offset n s.backend hI
    have hrun := (StorageDevice.readAt_miss (B := B) hahead.1 hahead.2 hmiss).1
    rw [hplan] at hrun
    rw [hrun]
    unfold StorageDevice.fetch
    dsimp only
    rcases hn with hlong | ⟨hholds, hshort, rfl⟩
    · obtain ⟨e, he⟩ := hrefused fun h => by have := h.stop; omega
      rw [← Prod.eta (B.read offset n s.backend), he]
      exact ⟨by rintro _ ⟨⟩, hinv, hkeeps, hs.record offset length⟩
    · rw [← Prod.eta (B.read offset n s.backend), hread hholds]
      refine ⟨?_, hinv, hkeeps, hs.record offset length⟩
      rintro data ⟨⟩
      unfold StorageDevice.answer
      rw [length_window, if_pos (by rw [natOf_cast hholds.nonneg]; exact hshort), length_window]
  · have hrun : d.runAlone B (d.readAt offset length) s =
        (.panic, { s with ahead := s.ahead.recordReadLocked offset length }) := by
      unfold StorageDevice.readAt
      rw [if_neg (StorageDevice.reads_ahead hahead.1 hahead.2)]
      simp only [StorageDevice.runAlone, Machine.run, StorageDevice.machine, StorageDevice.exec, hpanic]
    rw [hrun]
    exact ⟨by rintro _ ⟨⟩, hI, rfl, hs.record offset length⟩

end Wraps

/-! ## One operation -/

/-- The two ranges have a position in common. -/
def Overlap (offset : Int64) (n : Nat) (offset' : Int64) (n' : Nat) : Prop :=
  max offset.toInt offset'.toInt < min (offset.toInt + n) (offset'.toInt + n')

instance (offset : Int64) (n : Nat) (offset' : Int64) (n' : Nat) : Decidable (Overlap offset n offset' n') :=
  inferInstanceAs (Decidable (_ < _))

/-- No byte of the range is in the window. -/
def ReadAhead.Clear (r : ReadAhead) (offset : Int64) (n : Nat) : Prop :=
  ∀ data ∈ r.windowData, ¬ Overlap r.windowOffset data.length offset n

section Step

variable {d : StorageDevice} {B : StorageBackend σ} {I K : σ → Prop} {content : σ → Nat → UInt8}
  {s : DeviceState σ} {offset length : Int64}

/-- Bytes stored beside the window do not change what it mirrors. -/
theorem ReadAhead.Mirrors.patch (h : r.Mirrors d f) (hoffset : 0 ≤ offset.toInt)
    (hclear : r.Clear offset data.length) : r.Mirrors d (patch 0 f (natOf offset) data) := by
  refine ⟨h.placed, h.stop, fun window hwindow => ?_⟩
  have hplaced : 0 ≤ r.windowOffset.toInt := h.placed
  have hapart := hclear window hwindow
  have hcast := natOf_cast hoffset
  have hcast' := natOf_cast hplaced
  rw [h.same window hwindow, length_window]
  refine window_congr fun p hfrom hto => ?_
  rw [Lib.patch, if_neg]
  rintro ⟨hle, hlt⟩
  unfold Overlap at hapart
  omega

theorem FrontOp.Spares.clear (h : (FrontOp.httpWrite offset data).Spares r) :
    r.Clear offset data.length := by
  intro window hwindow
  unfold Overlap
  rcases h window hwindow with rfl | hbefore | hbehind
  · rw [List.length_nil]
    omega
  · omega
  · omega

/-- The backend is asked once at most. -/
theorem readAt_backend (d : StorageDevice) (B : StorageBackend σ) (s : DeviceState σ) (offset length : Int64) :
    (d.runAlone B (d.readAt offset length) s).2.backend = s.backend ∨
      ∃ n, (d.runAlone B (d.readAt offset length) s).2.backend = (B.read offset n s.backend).2 := by
  by_cases hdirect : d.readAheadBytes ≤ 0 ∨ length ≤ 0
  · rw [(StorageDevice.readAt_direct hdirect).1]
    exact .inr ⟨length, rfl⟩
  unfold StorageDevice.readAt
  rw [if_neg hdirect]
  rcases hhit : s.ahead.readAheadHit offset length with ⟨_ | _ | data, r⟩
  · simp only [StorageDevice.runAlone, Machine.run, StorageDevice.machine, StorageDevice.exec, hhit]
    exact .inl trivial
  · simp only [StorageDevice.runAlone, Machine.run, StorageDevice.machine, StorageDevice.exec, hhit]
    refine .inr ⟨(r.planReadAhead d offset length).1.1, ?_⟩
    obtain ⟨⟨n, ahead⟩, r'⟩ := r.planReadAhead d offset length
    dsimp only
    obtain ⟨data | _ | _, b⟩ := B.read offset n s.backend
    · cases ahead
      · rfl
      · rfl
    · rfl
    · rfl
  · simp only [StorageDevice.runAlone, Machine.run, StorageDevice.machine, StorageDevice.exec, hhit]
    exact .inl trivial

/-- The state between operations: the window holds bytes of the array. -/
structure InStep (d : StorageDevice) (I : σ → Prop) (content : σ → Nat → UInt8) (s : DeviceState σ) : Prop where
  inv : I s.backend
  mirrors : s.ahead.Mirrors d (content s.backend)

/-- What an operation does, answered so. -/
structure StepsRight (d : StorageDevice) (I : σ → Prop) (content : σ → Nat → UInt8) (op : FrontOp)
    (s : DeviceState σ) (result : FrontReply × DeviceState σ) : Prop where
  right : op.Right d (content s.backend) result.1
  inStep : InStep d I content result.2
  content : content result.2.backend = op.effect result.1 (content s.backend)

/-- A request that is refused, or fails without an effect. -/
theorem StepsRight.refused {op : FrontOp} (hs : InStep d I content s)
    (hright : op.Right d (content s.backend) .failed) : StepsRight d I content op s (.failed, s) := by
  refine ⟨hright, hs, ?_⟩
  cases op with
  | _ => rfl

theorem step_httpRead (hB : B.IsArrayOn d I content) (hs : InStep d I content s) :
    StepsRight d I content (.httpRead offset length) s ((FrontOp.httpRead offset length).step d B s) := by
  obtain ⟨hinv, hkeeps, hread, hrefused⟩ := hB.read offset length s.backend hs.inv
  have hmirrors : s.ahead.Mirrors d (content (B.read offset length s.backend).2) := by
    rw [hkeeps]
    exact hs.mirrors
  have hstep : (FrontOp.httpRead offset length).step d B s =
      (FrontOp.ofRead (B.read offset length s.backend).1,
        { s with backend := (B.read offset length s.backend).2 }) := rfl
  rw [hstep]
  refine ⟨⟨?_, fun hholds _ => ?_⟩, ⟨hinv, hmirrors⟩, hkeeps⟩
  · intro data hdata
    by_cases hholds : d.Holds offset.toInt length.toInt
    · rw [hread hholds] at hdata
      cases hdata
      rw [length_window]
    · obtain ⟨e, he⟩ := hrefused hholds
      rw [he] at hdata
      cases hdata
  · rw [hread hholds]
    rfl

theorem right_write {op : FrontOp} {reply : FrontReply}
    (hop : op = .httpWrite offset data ∨ op = .nbdWrite offset data) : op.Right d f reply := by
  rcases hop with rfl | rfl
  · trivial
  · trivial

theorem effect_write {op : FrontOp} {reply : FrontReply}
    (hop : op = .httpWrite offset data ∨ op = .nbdWrite offset data) :
    op.effect reply f = if reply = .done then patch 0 f (natOf offset) data else f := by
  rcases hop with rfl | rfl <;> cases reply <;> rfl

/-- A write, of either front end, with what it leaves of the window. -/
theorem stepsRight_write (hB : B.IsArrayOn d I content) (hs : InStep d I content s)
    (hlength : data.length < 2 ^ 63) {op : FrontOp} {ahead : ReadAhead}
    (hop : op = .httpWrite offset data ∨ op = .nbdWrite offset data)
    (hdone : d.Holds offset.toInt data.length →
      ahead.Mirrors d (patch 0 (content s.backend) (natOf offset) data))
    (hfailed : ahead.Mirrors d (content s.backend)) :
    StepsRight d I content op s (FrontOp.ofCall (B.write offset data s.backend).1,
      ⟨ahead, (B.write offset data s.backend).2⟩) := by
  obtain ⟨hinv, hwrote, hrefused⟩ := hB.write offset data s.backend hlength hs.inv
  by_cases hholds : d.Holds offset.toInt data.length
  · obtain ⟨hok, hcontent⟩ := hwrote hholds
    refine ⟨right_write hop, ⟨hinv, ?_⟩, ?_⟩
    · rw [hcontent]
      exact hdone hholds
    · rw [effect_write hop, hcontent, hok]
      rfl
  · obtain ⟨⟨e, he⟩, hcontent⟩ := hrefused hholds
    refine ⟨right_write hop, ⟨hinv, ?_⟩, ?_⟩
    · rw [hcontent]
      exact hfailed
    · rw [effect_write hop, hcontent, he]
      rfl

theorem step_httpWrite (hB : B.IsArrayOn d I content) (hs : InStep d I content s)
    (hspares : (FrontOp.httpWrite offset data).Spares s.ahead) :
    StepsRight d I content (.httpWrite offset data) s ((FrontOp.httpWrite offset data).step d B s) := by
  unfold FrontOp.step
  dsimp only
  by_cases hlarge : data.length > 64 * 1024 * 1024
  · rw [if_pos hlarge]
    exact .refused hs trivial
  · rw [if_neg hlarge]
    exact stepsRight_write hB hs (by omega) (.inl rfl)
      (fun hholds => hs.mirrors.patch hholds.start hspares.clear) hs.mirrors

theorem step_nbdWrite (hB : B.IsArrayOn d I content) (hs : InStep d I content s) :
    StepsRight d I content (.nbdWrite offset data) s ((FrontOp.nbdWrite offset data).step d B s) := by
  have hmax : natOf maxRequestBytes = 32 * 1024 * 1024 := by decide
  unfold FrontOp.step
  dsimp only
  by_cases hrefused : data.length > natOf maxRequestBytes ∨
      OutOfRange d.sizeBytes offset (Int64.ofNat data.length)
  · rw [if_pos hrefused]
    exact .refused hs trivial
  · rw [if_neg hrefused]
    obtain ⟨hsmall, -⟩ := not_or.mp hrefused
    exact stepsRight_write hB hs (by omega) (.inr rfl)
      (fun _ => ReadAhead.mirrors_zero d _) (ReadAhead.mirrors_zero d _)

theorem step_nbdFlush (hB : B.IsArrayOn d I content) (hs : InStep d I content s) :
    StepsRight d I content .nbdFlush s (FrontOp.nbdFlush.step d B s) := by
  obtain ⟨hinv, -, hkeeps⟩ := hB.flush s.backend hs.inv
  refine ⟨trivial, ⟨hinv, ?_⟩, hkeeps⟩
  show s.ahead.Mirrors d (content (B.flushDirty s.backend).2)
  rw [hkeeps]
  exact hs.mirrors

theorem step_nbdRead (hB : B.IsArrayOn d I content) (hs : InStep d I content s)
    (hsize : 0 ≤ d.sizeBytes.toInt) {length : UInt32} :
    StepsRight d I content (.nbdRead offset length) s ((FrontOp.nbdRead offset length).step d B s) := by
  have hmax : maxRequestBytes.toInt = 32 * 1024 * 1024 := by decide
  have hnonneg : 0 ≤ length.toUInt64.toInt64.toInt := by
    rw [toInt_toInt64]
    exact Int.natCast_nonneg _
  unfold FrontOp.step
  dsimp only
  generalize hn : length.toUInt64.toInt64 = n at hnonneg ⊢
  have hright : ∀ f reply, FrontOp.ReadsRight d f (32 * 1024 * 1024) offset n reply →
      (FrontOp.nbdRead offset length).Right d f reply := by
    intro f reply h
    subst hn
    exact h
  by_cases hrefused : n > maxRequestBytes ∨ OutOfRange d.sizeBytes offset n
  · rw [if_pos hrefused]
    refine .refused hs (hright _ _ ⟨nofun, fun hholds hlimit => ?_⟩)
    have hend := d.sizeBytes.toInt_lt
    have hstop := hholds.stop
    rcases hrefused with hlarge | hout
    · rw [gt_iff_lt, Int64.lt_iff_toInt_lt, hmax] at hlarge
      omega
    · exact absurd hout ((not_outOfRange_iff hnonneg fun _ => by omega).mpr ⟨hholds.start, hstop⟩)
  · rw [if_neg hrefused]
    obtain ⟨-, hpasses⟩ := not_or.mp hrefused
    have hoffset : 0 ≤ offset.toInt := by
      by_contra hneg
      exact hpasses (.inl (by rw [Int64.lt_iff_toInt_lt, Int64.toInt_zero]; omega))
    by_cases hwraps : 2 ^ 63 ≤ offset.toInt + n.toInt
    · obtain ⟨hbytes, hinv, hkeeps, hmirrors⟩ :=
        readAt_wrapping hB hs.inv hs.mirrors hsize hoffset hnonneg hwraps
      have hend := d.sizeBytes.toInt_lt
      refine ⟨hright _ _ ⟨?_, fun hholds _ => ?_⟩, ⟨hinv, hkeeps.symm ▸ hmirrors⟩, hkeeps⟩
      · intro data hdata
        refine hbytes data ?_
        generalize (d.runAlone B (d.readAt offset n) s).1 = outcome at hdata
        cases outcome with
        | ok data' =>
          cases hdata
          rfl
        | error e => cases hdata
        | panic => cases hdata
      · have hstop := hholds.stop
        omega
    · have hholds : d.Holds offset.toInt n.toInt := by
        obtain ⟨hstart, hstop⟩ := (not_outOfRange_iff hnonneg fun _ => by omega).mp hpasses
        exact ⟨hstart, hnonneg, hstop⟩
      have hread := StorageDevice.readAt_array (hB.readsAs hs.inv) hs.mirrors hholds
      have hkeeps : content (d.runAlone B (d.readAt offset n) s).2.backend = content s.backend := hread.keeps
      have hmirrors : (d.runAlone B (d.readAt offset n) s).2.ahead.Mirrors d (content s.backend) :=
        hread.mirrors
      have hinv : I (d.runAlone B (d.readAt offset n) s).2.backend := by
        rcases readAt_backend d B s offset n with hsame | ⟨m, hasked⟩
        · rw [hsame]
          exact hs.inv
        · rw [hasked]
          exact (hB.read offset m s.backend hs.inv).1
      rw [hread.bytes]
      refine ⟨hright _ _ ⟨?_, fun _ _ => rfl⟩, ⟨hinv, hkeeps.symm ▸ hmirrors⟩, hkeeps⟩
      rintro data ⟨⟩
      rw [length_window]

/-- What is asked of commits: the array stays. `K` is what must hold afterwards for that. -/
def StorageBackend.CommitsOn (B : StorageBackend σ) (I K : σ → Prop) (content : σ → Nat → UInt8) : Prop :=
  ∀ opts b, I b → K (B.commitWithOptions opts b).2 →
    I (B.commitWithOptions opts b).2 ∧ content (B.commitWithOptions opts b).2 = content b

/-- **One operation.** -/
theorem step_right (hB : B.IsArrayOn d I content) (hcommit : B.CommitsOn I K content)
    (hsize : 0 ≤ d.sizeBytes.toInt) (hs : InStep d I content s) {op : FrontOp} (hspares : op.Spares s.ahead)
    (hK : K (op.step d B s).2.backend) : StepsRight d I content op s (op.step d B s) := by
  cases op with
  | httpRead offset length => exact step_httpRead hB hs
  | httpWrite offset data => exact step_httpWrite hB hs hspares
  | httpCommit =>
    obtain ⟨hinv, hkeeps⟩ := hcommit ⟨0, false⟩ s.backend hs.inv hK
    refine ⟨trivial, ⟨hinv, ?_⟩, hkeeps⟩
    show s.ahead.Mirrors d (content (B.commitWithOptions ⟨0, false⟩ s.backend).2)
    rw [hkeeps]
    exact hs.mirrors
  | nbdRead offset length => exact step_nbdRead hB hs hsize
  | nbdWrite offset data => exact step_nbdWrite hB hs
  | nbdFlush => exact step_nbdFlush hB hs

/-! ## A sequence of operations -/

theorem FrontOp.run_cons (op : FrontOp) (ops : List FrontOp) (s : DeviceState σ) :
    FrontOp.run d B (op :: ops) s =
      ((op.step d B s).1 :: (FrontOp.run d B ops (op.step d B s).2).1,
        (FrontOp.run d B ops (op.step d B s).2).2) := rfl

theorem run_back (hback : ∀ (op : FrontOp) s, K (op.step d B s).2.backend → K s.backend) (ops : List FrontOp)
    (hK : K (FrontOp.run d B ops s).2.backend) : K s.backend := by
  induction ops generalizing s with
  | nil => exact hK
  | cons op ops ih => exact hback op s (ih hK)

theorem run_coherent (hB : B.IsArrayOn d I content) (hcommit : B.CommitsOn I K content)
    (hback : ∀ (op : FrontOp) s, K (op.step d B s).2.backend → K s.backend) (hsize : 0 ≤ d.sizeBytes.toInt)
    (hs : InStep d I content s) (ops : List FrontOp) (hspare : FrontOp.AllSpare d B ops s)
    (hK : K (FrontOp.run d B ops s).2.backend) :
    FrontOp.Coherent d (content s.backend) ops (FrontOp.run d B ops s).1 := by
  induction ops generalizing s with
  | nil => trivial
  | cons op ops ih =>
    obtain ⟨hspares, hrest⟩ := hspare
    rw [FrontOp.run_cons] at hK ⊢
    have hright := step_right hB hcommit hsize hs hspares (run_back hback ops hK)
    refine ⟨hright.right, ?_⟩
    rw [← hright.content]
    exact ih hright.inStep hrest hK

end Step

/-! ## The engine -/

section Engine

variable {P : Platform} {b : Backend} {who : Caller} {id : String} {d : StorageDevice}

/-- A collision stays: an operation only adds to the chunks that were hashed. -/
theorem step_noCollision (op : FrontOp) (s : DeviceState World)
    (h : NoCollision P (op.step d (sessionBackend (alone P who) P b id) s).2.backend.hashed) :
    NoCollision P s.backend.hashed := by
  have hread : ∀ offset n,
      NoCollision P ((sessionBackend (alone P who) P b id).read offset n s.backend).2.hashed →
        NoCollision P s.backend.hashed :=
    fun offset n hend => (alone_noCollision (t := (b.read P id offset n).run) hend).1
  have hwrite : ∀ offset data,
      NoCollision P ((sessionBackend (alone P who) P b id).write offset data s.backend).2.hashed →
        NoCollision P s.backend.hashed :=
    fun offset data hend => (alone_noCollision (t := (b.write P id offset data).run) hend).1
  cases op with
  | httpRead offset length => exact hread offset length h
  | httpWrite offset data =>
    unfold FrontOp.step at h
    dsimp only at h
    split at h
    · exact h
    · exact hwrite offset data h
  | httpCommit => exact (alone_noCollision (t := (b.commitWithOptions P id ⟨0, false⟩).run) h).1
  | nbdRead offset length =>
    unfold FrontOp.step at h
    dsimp only at h
    split at h
    · exact h
    · rcases readAt_backend d (sessionBackend (alone P who) P b id) s offset length.toUInt64.toInt64
        with hsame | ⟨n, hasked⟩
      · rwa [hsame] at h
      · rw [hasked] at h
        exact hread offset n h
  | nbdWrite offset data =>
    unfold FrontOp.step at h
    dsimp only at h
    split at h
    · exact h
    · exact hwrite offset data h
  | nbdFlush => exact (alone_noCollision (t := (Backend.flushDirty id).run) h).1

end Engine

/-- **The two front ends of a session are coherent, as long as no HTTP write touches the read-ahead window.** For
every history of calls before, every session started then, every device of its export and every sequence of
operations on it: each read returns the last successful write to each byte, over HTTP or NBD, or the byte of the
base. -/
theorem front_ends_coherent (P : Platform) (backends : Nat → Backend)
    (calls : List (Caller × Storage.Request)) (hsized : ∀ call ∈ calls, call.2.Sized)
    (hfresh : (Storage.createdIDs (serveAll P backends World.initial calls).1).Nodup)
    (who : Caller) (volumeID id : String) (base : Bytes) (w : World)
    (hlatest : (Flat.of P (serveAll P backends World.initial calls).2).latest volumeID = some base)
    (hstart : Storage.serve P backends (serveAll P backends World.initial calls).2 who
      (.startSession volumeID) = (.started id, w))
    (d : StorageDevice) (hsize : d.sizeBytes.toInt = base.length) (ops : List FrontOp)
    (hspare : FrontOp.AllSpare d (sessionBackend (alone P who) P (backends who.node) id) ops ⟨.zero, w⟩)
    (hcollision : NoCollision P
      (FrontOp.run d (sessionBackend (alone P who) P (backends who.node) id) ops ⟨.zero, w⟩).2.backend.hashed) :
    FrontOp.Coherent d (fun p => base.getD p 0) ops
      (FrontOp.run d (sessionBackend (alone P who) P (backends who.node) id) ops ⟨.zero, w⟩).1 := by
  have hbefore : NoCollision P w.hashed :=
    run_back (K := fun w : World => NoCollision P w.hashed) step_noCollision ops hcollision
  obtain ⟨hserving, hcontent⟩ := started_serving hsized hfresh hlatest hstart hbefore hsize
  rw [← hcontent]
  exact run_coherent (s := ⟨.zero, w⟩) (K := fun w : World => NoCollision P w.hashed)
    (alone_isArrayOn P (backends who.node) who id d)
    (fun opts _ hserving hend => alone_commit hserving opts hend) step_noCollision (by omega)
    ⟨hserving, ReadAhead.mirrors_zero d _⟩ ops hspare hcollision

/-! ## A write the window does not see -/

/-- A volume of eight bytes. -/
def newVolume : List (Caller × Storage.Request) := [(⟨0, 0⟩, .createVolume "v" 8 4)]

/-- A session of it, exported. -/
def exported : World :=
  (Storage.serve goRuntime (fun _ => plainNode)
    (serveAll goRuntime (fun _ => plainNode) World.initial newVolume).2 ⟨0, 0⟩
    (.startSession "v")).2

theorem sized_newVolume : ∀ call ∈ newVolume, call.2.Sized := by
  intro call hmem
  obtain rfl := List.mem_singleton.mp hmem
  exact ⟨by decide, by decide, by decide⟩

theorem fresh_newVolume : (Storage.createdIDs (serveAll goRuntime (fun _ => plainNode)
    World.initial newVolume).1).Nodup := by
  decide +kernel

theorem latest_newVolume : (Flat.of goRuntime (serveAll goRuntime
    (fun _ => plainNode) World.initial newVolume).2).latest "v" = some (List.replicate 8 0) := by
  decide +kernel

theorem start_exported : Storage.serve goRuntime (fun _ => plainNode)
    (serveAll goRuntime (fun _ => plainNode) World.initial newVolume).2 ⟨0, 0⟩
    (.startSession "v") = (.started (goRuntime.uuid 0), exported) :=
  Prod.ext (by decide +kernel) rfl

abbrev exportedBackend : StorageBackend World :=
  sessionBackend (alone goRuntime ⟨0, 0⟩) goRuntime plainNode (goRuntime.uuid 0)

/-- Three adjacent reads over NBD fetch the bytes from 2 to 5. The write of byte 4 over HTTP succeeds, a read over
HTTP sees it, and a read over NBD does not. -/
theorem http_write_leaves_stale_window :
    let ops : List FrontOp :=
      [.nbdRead 0 1, .nbdRead 1 1, .nbdRead 2 1, .httpWrite 4 [9], .httpRead 4 1, .nbdRead 4 1]
    let replies := (FrontOp.run smallDevice exportedBackend ops ⟨.zero, exported⟩).1
    replies = [.bytes [0], .bytes [0], .bytes [0], .done, .bytes [9], .bytes [0]] ∧
      ¬ FrontOp.Coherent smallDevice (fun _ => 0) ops replies := by
  have hreplies : (FrontOp.run smallDevice exportedBackend
      [.nbdRead 0 1, .nbdRead 1 1, .nbdRead 2 1, .httpWrite 4 [9], .httpRead 4 1, .nbdRead 4 1]
      ⟨.zero, exported⟩).1 =
        [.bytes [0], .bytes [0], .bytes [0], .done, .bytes [9], .bytes [0]] := by
    decide +kernel
  refine ⟨hreplies, ?_⟩
  rw [hreplies]
  rintro ⟨-, -, -, -, -, hlast, -⟩
  have hall := hlast.all (by decide) (by decide)
  exact absurd hall (by decide)

/-- Operations of both front ends, with an HTTP write behind the window. -/
def mixedOps : List FrontOp :=
  [.nbdRead 0 1, .nbdRead 1 1, .nbdRead 2 1, .httpWrite 6 [9], .nbdWrite 4 [5], .nbdFlush, .httpCommit,
    .nbdRead 4 3]

/-- They are answered coherently. -/
theorem front_ends_coherent_mixed :
    FrontOp.Coherent smallDevice (fun p => (List.replicate 8 0).getD p 0) mixedOps
      (FrontOp.run smallDevice exportedBackend mixedOps ⟨.zero, exported⟩).1 := by
  have hspare : FrontOp.AllSpare smallDevice exportedBackend mixedOps ⟨.zero, exported⟩ := by
    decide +kernel
  refine front_ends_coherent goRuntime (fun _ => plainNode) newVolume sized_newVolume
    fresh_newVolume ⟨0, 0⟩ "v" (goRuntime.uuid 0) (List.replicate 8 0) exported latest_newVolume
    start_exported smallDevice (by decide) mixedOps hspare ?_
  unfold NoCollision
  decide +kernel

end OrcaBlocks.Nbd
