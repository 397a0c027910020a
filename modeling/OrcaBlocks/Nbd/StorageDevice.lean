/-
# OrcaBlocks.Nbd.StorageDevice — the device of `pkg/nbd/storage_device.go`.

A session of the storage backend as an NBD device, with a READ-AHEAD window in front of it. One device
serves every connection to its export, so its methods are programs over the steps that are atomic in the
source: the sections under `mu`, and the calls of the backend. Run alone, a method is a function on the
state of the device; run in a pool, its steps interleave with those of other methods.

The backend is an interface there and a parameter here. Its `Read` and `Write` slice buffers at positions they
compute, so they may PANIC. The length of a slice is an `int` and is compared as the number it is.
-/
import OrcaBlocks.Lib.Prog
import OrcaBlocks.Nbd.Server
import OrcaBlocks.Storage.Backend

namespace OrcaBlocks.Nbd

open OrcaBlocks.Lib
open OrcaBlocks.Storage (Bytes CommitOptions)

/-! ## The sections under the mutex -/

/-- The fields of a `StorageDevice` that never change. `onDisconnect` says whether the hook is set. -/
structure StorageDevice where
  sizeBytes : Int64
  commitOnDisconnect : Bool
  commitOptions : CommitOptions
  onDisconnect : Bool
  readAheadBytes : Int64

/-- The fields under `mu`. The `nil` window is `none`. -/
structure ReadAhead where
  haveLastRead : Bool
  lastReadOffset : Int64
  lastReadLength : Int64
  sequentialStreak : Int64
  windowOffset : Int64
  windowData : Option Bytes
  deriving DecidableEq, Repr

namespace ReadAhead

/-- A device just made. -/
def zero : ReadAhead := ⟨false, 0, 0, 0, 0, none⟩

/-- The read starts where the last one ended. -/
def Continues (r : ReadAhead) (offset : Int64) : Prop :=
  r.haveLastRead = true ∧ offset = r.lastReadOffset + r.lastReadLength

instance (r : ReadAhead) (offset : Int64) : Decidable (r.Continues offset) :=
  inferInstanceAs (Decidable (_ ∧ _))

def recordReadLocked (r : ReadAhead) (offset length : Int64) : ReadAhead where
  haveLastRead := true
  lastReadOffset := offset
  lastReadLength := length
  sequentialStreak := if r.Continues offset then r.sequentialStreak + 1 else 0
  windowOffset := r.windowOffset
  windowData := r.windowData

/-- `readAheadHit`: the bytes of the window, `some none` without a hit, and `none` for a PANIC: `make` of a
negative length, or a slice whose end lies before its start. -/
def readAheadHit (r : ReadAhead) (offset length : Int64) : Option (Option Bytes) × ReadAhead :=
  match r.windowData with
  | none => (some none, r)
  | some window =>
    if offset < r.windowOffset then (some none, r)
    else
      let start := offset - r.windowOffset
      let stop := start + length
      if start < 0 ∨ stop.toInt > window.length then (some none, r)
      else
        let r := r.recordReadLocked offset length
        if length < 0 ∨ stop < start then (none, r)
        else (some (some (slice window (natOf start) (natOf stop - natOf start))), r)

/-- `planReadAhead`: how much to fetch, and whether the window is to hold it. -/
def planReadAhead (d : StorageDevice) (r : ReadAhead) (offset length : Int64) :
    (Int64 × Bool) × ReadAhead :=
  let sequential := r.Continues offset
  let r := r.recordReadLocked offset length
  if ¬ sequential ∨ r.sequentialStreak < 2 then ((length, false), r)
  else
    let fetchLength := d.readAheadBytes
    let fetchLength := if fetchLength < length then length else fetchLength
    let remaining := d.sizeBytes - offset
    let fetchLength := if remaining > 0 ∧ fetchLength > remaining then remaining else fetchLength
    ((fetchLength, decide (fetchLength > length)), r)

/-- `storeReadAheadWindow`. `append` of nothing to a nil slice is nil. -/
def storeReadAheadWindow (r : ReadAhead) (offset : Int64) (data : Bytes) : ReadAhead :=
  { r with
    windowOffset := offset
    windowData := if r.windowData = none ∧ data = [] then none else some data }

/-- `invalidateReadAhead`, whatever the fields were. -/
def invalidateReadAhead (_ : ReadAhead) : ReadAhead := zero

end ReadAhead

/-! ## The methods -/

/-- An atomic step of a method. -/
inductive DeviceOp where
  | readAheadHit (offset length : Int64)
  | planReadAhead (offset length : Int64)
  | storeReadAheadWindow (offset : Int64) (data : Bytes)
  | invalidateReadAhead
  | backendRead (offset length : Int64)
  | backendWrite (offset : Int64) (data : Bytes)
  | backendFlushDirty
  | backendCommit (opts : CommitOptions)
  | backendStop
  | onDisconnect

def DeviceOp.Res : DeviceOp → Type
  | .readAheadHit .. => Option (Option Bytes)
  | .planReadAhead .. => Int64 × Bool
  | .storeReadAheadWindow .. => Unit
  | .invalidateReadAhead => Unit
  | .backendRead .. => Outcome Err Bytes
  | .backendWrite .. => Outcome Err Unit
  | .backendFlushDirty => Except Err Unit
  | .backendCommit _ => Except Err Unit
  | .backendStop => Except Err Unit
  | .onDisconnect => Unit

def deviceSig : Sig := ⟨DeviceOp, DeviceOp.Res⟩

/-- A method's program: its steps, and how it returns. -/
abbrev DeviceProg (α : Type) := Prog deviceSig (Outcome Err α)

/-- Return what the backend returned. -/
def returned {α : Type} : Except Err α → Outcome Err α
  | .ok a => .ok a
  | .error e => .error e

theorem returned_eq_ok {α : Type} {result : Except Err α} {a : α} : returned result = .ok a ↔ result = .ok a := by
  cases result with
  | error e => simp [returned]
  | ok b => simp [returned]

namespace StorageDevice

variable (d : StorageDevice)

def readAt (offset length : Int64) : DeviceProg Bytes :=
  if d.readAheadBytes ≤ 0 ∨ length ≤ 0 then
    .call (.backendRead offset length) fun result => .ret result
  else
    .call (.readAheadHit offset length) fun
      | none => .ret .panic
      | some (some data) => .ret (.ok data)
      | some none =>
        .call (.planReadAhead offset length) fun (fetchLength, storeWindow) =>
          .call (.backendRead offset fetchLength) fun
            | .panic => .ret .panic
            | .error e => .ret (.error e)
            | .ok data =>
              let answer : Bytes :=
                if data.length < length.toInt then data else data.take (natOf length)
              if storeWindow then
                .call (.storeReadAheadWindow offset data) fun _ => .ret (.ok answer)
              else .ret (.ok answer)

def writeAt (offset : Int64) (data : Bytes) : DeviceProg Unit :=
  .call .invalidateReadAhead fun _ =>
    .call (.backendWrite offset data) fun result => .ret result

def flush : DeviceProg Unit := .call .backendFlushDirty fun result => .ret (returned result)

/-- `defer d.OnDisconnect()`. -/
def thenDisconnect (result : Except Err Unit) : DeviceProg Unit :=
  if d.onDisconnect then .call .onDisconnect fun _ => .ret (returned result) else .ret (returned result)

def disconnect : DeviceProg Unit :=
  if d.commitOnDisconnect then
    .call (.backendCommit d.commitOptions) fun
      | .error e => d.thenDisconnect (.error e)
      | .ok () => .call .backendStop fun result => d.thenDisconnect result
  else .call .backendFlushDirty fun result => d.thenDisconnect result

end StorageDevice

/-! ## What the steps do -/

/-- A `StorageBackend` on the state `σ`, for the session of the device. -/
structure StorageBackend (σ : Type) where
  read : Int64 → Int64 → σ → Outcome Err Bytes × σ
  write : Int64 → Bytes → σ → Outcome Err Unit × σ
  flushDirty : σ → Except Err Unit × σ
  commitWithOptions : CommitOptions → σ → Except Err Unit × σ
  stop : σ → Except Err Unit × σ
  /-- What the hook of the device does outside of it. -/
  onDisconnect : σ → σ

structure DeviceState (σ : Type) where
  ahead : ReadAhead
  backend : σ

namespace StorageDevice

variable {σ : Type} (d : StorageDevice) (B : StorageBackend σ)

def exec (s : DeviceState σ) : (o : DeviceOp) → o.Res × DeviceState σ
  | .readAheadHit offset length =>
    ((s.ahead.readAheadHit offset length).1,
      { s with ahead := (s.ahead.readAheadHit offset length).2 })
  | .planReadAhead offset length =>
    ((s.ahead.planReadAhead d offset length).1,
      { s with ahead := (s.ahead.planReadAhead d offset length).2 })
  | .storeReadAheadWindow offset data =>
    ((), { s with ahead := s.ahead.storeReadAheadWindow offset data })
  | .invalidateReadAhead => ((), { s with ahead := s.ahead.invalidateReadAhead })
  | .backendRead offset length =>
    ((B.read offset length s.backend).1, { s with backend := (B.read offset length s.backend).2 })
  | .backendWrite offset data =>
    ((B.write offset data s.backend).1, { s with backend := (B.write offset data s.backend).2 })
  | .backendFlushDirty =>
    ((B.flushDirty s.backend).1, { s with backend := (B.flushDirty s.backend).2 })
  | .backendCommit opts =>
    ((B.commitWithOptions opts s.backend).1,
      { s with backend := (B.commitWithOptions opts s.backend).2 })
  | .backendStop => ((B.stop s.backend).1, { s with backend := (B.stop s.backend).2 })
  | .onDisconnect => ((), { s with backend := B.onDisconnect s.backend })

/-- The steps leave the environment no choice. -/
def machine : Machine deviceSig (DeviceState σ) Unit where
  exec _ s o := d.exec B s o
  allowed _ _ _ := True

/-- A method run with no other in between. -/
def runAlone {α : Type} (p : DeviceProg α) : Go Err (DeviceState σ) α := fun s =>
  (d.machine B).run (fun _ => ()) p s

/-- The device a connection is served from. It has no `ReadAtInto`. -/
def device : Device (DeviceState σ) where
  size _ := d.sizeBytes
  readAt offset length := d.runAlone B (d.readAt offset length)
  readAtInto := none
  writeAt offset data := d.runAlone B (writeAt offset data)
  flush := d.runAlone B flush
  disconnect := d.runAlone B d.disconnect

end StorageDevice

end OrcaBlocks.Nbd
