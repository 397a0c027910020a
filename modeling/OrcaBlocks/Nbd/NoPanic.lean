/-
# OrcaBlocks.Nbd.NoPanic — which histories of requests no server panics on.

A panic in the goroutine of a connection ends the node. It may come from the device, which slices its window, and
from the engine behind it, which slices the buffers of `Read` and `Write` at positions it computes. Both compute
with `int64`, and both are safe only while their sums are `int64` numbers: the sum of a REQUEST must not wrap, and
the last chunk of the VOLUME must end below 2⁶³. Within these two bounds no history of requests panics.
-/
import OrcaBlocks.Nbd.Durability

namespace OrcaBlocks.Nbd

open OrcaBlocks.Lib
open OrcaBlocks.Storage (Bytes World Platform Caller SessRef Flat NoCollision
  goRuntime serveAll plainNode Backend)
open Server

/-! ## The engine does not panic on requests in the volume -/

section Engine

variable {P : Platform} {b : Backend} {who : Caller} {id : String} {d : StorageDevice} {w : World}
  {f : Nat → UInt8}

theorem holding_read_ne_panic (h : Holding P (who.node, id) d f w) {offset length : Int64}
    (hrange : d.Holds offset.toInt length.toInt) :
    ((sessionBackend (alone P who) P b id).read offset length w).1 ≠ .panic := by
  rcases h with ⟨hserving, -⟩ | hreg
  · rw [(alone_read (b := b) hserving offset length).2.2.1 hrange]
    exact (nomatch ·)
  · rw [read_unknown hreg]
    exact (nomatch ·)

theorem holding_write_ne_panic (h : Holding P (who.node, id) d f w) {offset : Int64} {data : Bytes}
    (hlength : data.length < 2 ^ 63) (hrange : d.Holds offset.toInt data.length) :
    ((sessionBackend (alone P who) P b id).write offset data w).1 ≠ .panic := by
  rcases h with ⟨hserving, -⟩ | hreg
  · rw [((alone_write (b := b) hserving offset data hlength).2.1 hrange).1]
    exact (nomatch ·)
  · rw [write_unknown hreg]
    exact (nomatch ·)

/-- The engine, behind the device of one of its sessions. -/
theorem plannedBackend_steady (P : Platform) (b : Backend) (who : Caller) (id : String)
    (d : StorageDevice) :
    (plannedBackend P b who id).Steady d (fun s => ∃ f, Holding P (who.node, id) d f s.1)
      (fun s => NoCollision P s.1.hashed) where
  back h := (plannedBackend_promises P b who id d).back h
  keeps := by
    rintro o s ho ⟨f, hheld⟩ hK
    exact ⟨f, exec_keeping (plannedBackend_promises P b who id d) ho hheld hK⟩
  read := by
    rintro offset length s hrange ⟨f, hheld⟩
    exact holding_read_ne_panic hheld hrange
  write := by
    rintro offset data s hrange ⟨f, hheld⟩
    have hlength : data.length < 2 ^ 63 := by
      have hstart := hrange.start
      have hstop := hrange.stop
      have hsize := d.sizeBytes.toInt_lt
      omega
    exact ⟨holding_write_ne_panic hheld hlength hrange, fun _ => ⟨_, holding_write hheld offset data hlength⟩⟩

end Engine

/-- **The range check is right for requests whose end is an `int64`.** For every header, device and state of
the connection, every call of the request lies in the device EXACTLY if the header does not wrap. No history of
requests that do not wrap makes the server of a `StorageDevice` panic whose backend does not panic on requests in
the volume; and the engine is such a backend, for every session started after any history of calls, as long as
the last chunk of every volume ends below 2⁶³. -/
theorem range_check_sound_iff {δ : Type} (d : Device δ) (c : Conn δ) (header : Bytes)
    (hheader : header.length = 28) (hsize : 0 ≤ (d.size c.device).toInt) :
    ((∀ payload, ∀ call ∈
        (handleRequest (some d) { c with input := header ++ payload, calls := [] }).2.calls,
      call.Within (d.size c.device)) ↔ ¬ Wrapping header) ∧
    (∀ (σ : Type) (d : StorageDevice) (B : StorageBackend σ) (I K : σ → Prop) (b : σ)
        (requests : List (Conn (DeviceState σ))), B.Steady d I K → I b →
      (∀ c ∈ requests, ¬ Wrapping (c.input.take 28)) → K (handleAll (d.device B) requests ⟨.zero, b⟩).backend →
      Survives (d.device B) requests ⟨.zero, b⟩) ∧
    (∀ (P : Platform) (backends : Nat → Backend) (calls : List (Caller × Storage.Request)),
      (∀ call ∈ calls, call.2.Sized) →
      (Storage.createdIDs (serveAll P backends World.initial calls).1).Nodup →
      ∀ (who : Caller) (volumeID id : String) (base : Bytes) (w : World),
      (Flat.of P (serveAll P backends World.initial calls).2).latest volumeID = some base →
      Storage.serve P backends (serveAll P backends World.initial calls).2 who
        (.startSession volumeID) = (.started id, w) →
      ∀ (d : StorageDevice), d.sizeBytes.toInt = base.length →
      ∀ (plans : FlushPlans) (requests : List (Conn (DeviceState (World × FlushPlans)))),
      (∀ c ∈ requests, ¬ Wrapping (c.input.take 28)) →
      NoCollision P (handleAll (d.device (plannedBackend P (backends who.node) who id)) requests
        ⟨.zero, w, plans⟩).backend.1.hashed →
      Survives (d.device (plannedBackend P (backends who.node) who id)) requests ⟨.zero, w, plans⟩) := by
  refine ⟨calls_within_iff hheader hsize, ?_, ?_⟩
  · intro σ d B I K b requests hB hI hwrapping hK
    exact survives_of_steady hB hwrapping hI (le_refl (0 : Int)) hK
  · intro P backends calls hsized hfresh who volumeID id base w hlatest hstart d hbase plans requests hwrapping
      hcollision
    have hB := plannedBackend_steady P (backends who.node) who id d
    have hbefore : NoCollision P w.hashed := handleAll_back hB requests hcollision
    have hheld := started_serving hsized hfresh hlatest hstart hbefore hbase
    exact survives_of_steady hB hwrapping ⟨_, .inl hheld⟩ (le_refl (0 : Int)) hcollision

/-! ## Reads that panic -/

/-- A request to read, as it is sent. -/
def readRequest (handle offset : UInt64) (length : UInt32) : Bytes :=
  putUint32 requestMagic ++ putUint16 0 ++ putUint16 cmdRead ++ putUint64 handle ++ putUint64 offset ++
    putUint32 length

/-- A connection with one such request to come. -/
def readConn {δ : Type} (s : δ) (offset : UInt64) (length : UInt32) : Conn δ :=
  ⟨readRequest 1 offset length, [], none, ⟨[], []⟩, [], s⟩

/-- Three reads of one byte set up a window at 2. A read of three bytes at 2⁶³ − 1 then passes the check: the
device is asked for bytes it does not have, and panics. -/
theorem wrapped_read_panics :
    let s : DeviceState (Nat → UInt8) := ⟨.zero, fun _ => 7⟩
    ¬ Survives (smallDevice.device arrayBackend)
        [readConn s 0 1, readConn s 1 1, readConn s 2 1, readConn s (2 ^ 63 - 1) 3] s ∧
      (handleRequest (some (smallDevice.device arrayBackend)) (readConn s (2 ^ 63 - 1) 3)).2.calls =
        [.readAt (2 ^ 63 - 1) 3] ∧ ¬ DeviceCall.Within 8 (.readAt (2 ^ 63 - 1) 3) := by
  refine ⟨fun h => h.2.2.2.1 ?_, ?_, ?_⟩
  · decide +kernel
  · decide +kernel
  · have hout : ¬ (2 ^ 63 - 1 : Int64).toInt + (3 : Int64).toInt ≤ (8 : Int64).toInt := by decide +kernel
    exact fun h => hout h.2

/-- The session of a volume of 2⁶³ − 1 bytes, with the default chunk size. -/
def largest : DeviceState (World × FlushPlans) :=
  ⟨.zero, (serveAll goRuntime (fun _ => plainNode) World.initial
    [(⟨0, 0⟩, .createVolume "v" (2 ^ 63 - 1) 0), (⟨0, 0⟩, .startSession "v")]).2, fun _ _ => .none⟩

/-- Its last chunk ends at 2⁶³. A read of its last byte does not wrap, and the engine panics. -/
theorem last_byte_read_panics :
    ¬ Wrapping (readRequest 1 (2 ^ 63 - 2) 1) ∧
      (handleRequest (some ((⟨2 ^ 63 - 1, false, ⟨0, false⟩, false, 0⟩ : StorageDevice).device
        (plannedBackend goRuntime plainNode ⟨0, 0⟩ (goRuntime.uuid 0))))
        (readConn largest (2 ^ 63 - 2) 1)).1 = .panic := by
  decide +kernel

/-- The engine behind the device: reads up to the last byte and past the window do not. -/
theorem range_check_sound_iff_reads :
    Survives exportedDevice
      [readConn exportedState 0 1, readConn exportedState 1 1, readConn exportedState 2 1,
        readConn exportedState 7 1] exportedState ∧ Wrapping (readRequest 1 (2 ^ 63 - 1) 3) := by
  refine ⟨?_, by decide +kernel⟩
  refine (range_check_sound_iff exportedDevice (readConn exportedState 7 1) (readRequest 1 7 1)
    (by decide +kernel) (by decide +kernel)).2.2 goRuntime (fun _ => plainNode) newVolume
    sized_newVolume fresh_newVolume ⟨0, 0⟩ "v" (goRuntime.uuid 0) (List.replicate 8 0) exported
    latest_newVolume start_exported smallDevice (by decide) (fun _ _ => .none) _ (by decide +kernel) ?_
  unfold NoCollision
  decide +kernel

end OrcaBlocks.Nbd
