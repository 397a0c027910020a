/-
# OrcaBlocks.Nbd.RangeCheck — for which requests the range check keeps the device in bounds.

`handleRequest` compares `offset + length`, an `int64` sum of numbers the CLIENT chose, with the size of the
device. For a sum below 2⁶³ the check is right. A sum that wraps is negative, so below every size, and the
request goes through to the device.

What happens then is up to the device. A `StorageDevice` computes the end of the range in its window the same
way, and for an end that wrapped it takes a slice that ends before it starts: a panic, which no connection
recovers from. As long as no request wraps, a history of requests has the panics of the BACKEND and no others.
-/
import OrcaBlocks.Nbd.ReadAhead
import OrcaBlocks.Nbd.Requests

namespace OrcaBlocks.Nbd

open OrcaBlocks.Lib
open OrcaBlocks.Storage (Bytes)
open Server

variable {size : Int64} {call : DeviceCall} {h : Header} {α : Type}

/-! ## The check -/

/-- The bytes the call is about lie in a device of that size, as unbounded integers. -/
def DeviceCall.Within (size : Int64) : DeviceCall → Prop
  | .readAt offset length => 0 ≤ offset.toInt ∧ offset.toInt + length.toInt ≤ size.toInt
  | .readAtInto offset length => 0 ≤ offset.toInt ∧ offset.toInt + length.toInt ≤ size.toInt
  | .writeAt offset data => 0 ≤ offset.toInt ∧ offset.toInt + data.length ≤ size.toInt
  | .flush => True
  | .disconnect => True

/-- The length of a read is no negative number. -/
def DeviceCall.Nonneg : DeviceCall → Prop
  | .readAt _ length => 0 ≤ length.toInt
  | _ => True

/-- The end of a read or a write that the server takes on is no `int64`. -/
structure Server.Header.Wraps (h : Header) : Prop where
  access : h.cmd = cmdRead ∨ h.cmd = cmdWrite
  allowed : h.length ≤ maxRequestBytes
  nonneg : 0 ≤ h.offset.toInt
  wraps : 2 ^ 63 ≤ h.offset.toInt + h.length.toInt

instance (h : Header) : Decidable h.Wraps :=
  decidable_of_iff ((h.cmd = cmdRead ∨ h.cmd = cmdWrite) ∧ h.length ≤ maxRequestBytes ∧
      0 ≤ h.offset.toInt ∧ 2 ^ 63 ≤ h.offset.toInt + h.length.toInt)
    ⟨fun ⟨h₁, h₂, h₃, h₄⟩ => ⟨h₁, h₂, h₃, h₄⟩, fun ⟨h₁, h₂, h₃, h₄⟩ => ⟨h₁, h₂, h₃, h₄⟩⟩

/-- The bytes are a header like that. -/
def Wrapping (header : Bytes) : Prop := Greets header ∧ (parseHeader header).Wraps

instance (header : Bytes) : Decidable (Wrapping header) := inferInstanceAs (Decidable (_ ∧ _))

/-- The length of a request is an unsigned 32-bit number. -/
theorem toInt_toInt64 (x : UInt32) : x.toUInt64.toInt64.toInt = x.toNat := by
  have hlt := x.toNat_lt
  have hword : x.toUInt64.toBitVec.toNat = x.toNat := by simp
  change x.toUInt64.toBitVec.toInt = _
  rw [BitVec.toInt_eq_toNat_of_lt (by omega), hword]

theorem parseHeader_length_nonneg (header : Bytes) : 0 ≤ (parseHeader header).length.toInt := by
  unfold parseHeader
  rw [toInt_toInt64]
  exact Int.natCast_nonneg _

/-- The check is right for a sum that does not wrap. -/
theorem not_outOfRange_iff {offset length : Int64} (hlength : 0 ≤ length.toInt)
    (hfits : 0 ≤ offset.toInt → offset.toInt + length.toInt < 2 ^ 63) :
    ¬ OutOfRange size offset length ↔ 0 ≤ offset.toInt ∧ offset.toInt + length.toInt ≤ size.toInt := by
  unfold OutOfRange
  simp only [gt_iff_lt, Int64.lt_iff_toInt_lt, Int64.toInt_zero]
  by_cases hoffset : 0 ≤ offset.toInt
  · rw [toInt_add_of_bounds ⟨by omega, hfits hoffset⟩]
    omega
  · omega

/-- A sum that wraps passes it on every device. -/
theorem not_outOfRange_of_wraps {offset length : Int64} (hsize : 0 ≤ size.toInt)
    (hlength : 0 ≤ length.toInt) (hoffset : 0 ≤ offset.toInt)
    (hwraps : 2 ^ 63 ≤ offset.toInt + length.toInt) : ¬ OutOfRange size offset length := by
  have hnegative := toInt_add_neg_of_overflow hoffset hlength hwraps
  unfold OutOfRange
  simp only [gt_iff_lt, Int64.lt_iff_toInt_lt, Int64.toInt_zero]
  omega

section Calls

variable {δ : Type} {d : Device δ} {header payload : Bytes} {c : Conn δ}

/-- The calls a request makes: one at most, and only past the checks. -/
theorem mem_handleRequest_calls (hheader : header.length = 28) (hinput : c.input = header ++ payload)
    (hcalls : c.calls = []) :
    call ∈ (handleRequest (some d) c).2.calls ↔
      Greets header ∧ (parseHeader header).length ≤ maxRequestBytes ∧
        ¬ OutOfRange (d.size c.device) (parseHeader header).offset (parseHeader header).length ∧
        requestCall d (parseHeader header) payload = some call := by
  have hnone : call ∉ c.calls := by
    rw [hcalls]
    exact List.not_mem_nil
  rw [handleRequest_of_input d hheader c hinput]
  split
  · rename_i hgreets
    exact iff_of_false hnone fun h => hgreets h.1
  · rename_i hgreets
    split
    · rename_i hlarge
      exact iff_of_false hnone fun h => by
        have hle := h.2.1
        rw [Int64.le_iff_toInt_le] at hle
        rw [gt_iff_lt, Int64.lt_iff_toInt_lt] at hlarge
        omega
    · rename_i hlarge
      split
      · rename_i hout
        rw [(quiet_refuse _ _).1]
        exact iff_of_false hnone fun h => h.2.2.1 hout
      · rename_i hin
        have hle : (parseHeader header).length ≤ maxRequestBytes := by
          rw [gt_iff_lt, Int64.lt_iff_toInt_lt] at hlarge
          rw [Int64.le_iff_toInt_le]
          omega
        rw [dispatch_calls]
        simp only [hcalls, List.nil_append, Option.mem_toList]
        exact ⟨fun h => ⟨not_not.mp hgreets, hle, hin, h⟩, fun h => h.2.2.2⟩

/-- What the call of a request that passed the check is about. -/
theorem requestCall_within (hlength : 0 ≤ h.length.toInt)
    (hwithin : 0 ≤ h.offset.toInt ∧ h.offset.toInt + h.length.toInt ≤ size.toInt)
    (hcall : requestCall d h payload = some call) : call.Within size := by
  unfold requestCall at hcall
  split at hcall
  · cases hcall
    split
    · exact hwithin
    · exact hwithin
  · split at hcall
    · split at hcall
      · rename_i hlong
        cases hcall
        refine ⟨hwithin.1, ?_⟩
        rw [List.length_take, Nat.min_eq_left hlong, natOf_cast hlength]
        exact hwithin.2
      · cases hcall
    · split at hcall
      · cases hcall
        trivial
      · split at hcall
        · cases hcall
          trivial
        · cases hcall

theorem requestCall_nonneg (hlength : 0 ≤ h.length.toInt) (hcall : requestCall d h payload = some call) :
    call.Nonneg := by
  cases call with
  | readAt offset length =>
    unfold requestCall at hcall
    split_ifs at hcall
    all_goals cases hcall
    exact hlength
  | _ => trivial

/-- Without a wrap the check says what it is for. -/
theorem within_of_not_wraps (hlength : 0 ≤ h.length.toInt) (hwraps : ¬ h.Wraps)
    (hallowed : h.length ≤ maxRequestBytes) (hin : ¬ OutOfRange size h.offset h.length)
    (hcall : requestCall d h payload = some call) : call.Within size := by
  by_cases haccess : h.cmd = cmdRead ∨ h.cmd = cmdWrite
  · have hfits : 0 ≤ h.offset.toInt → h.offset.toInt + h.length.toInt < 2 ^ 63 := fun hoffset =>
      Int.not_le.mp fun hover => hwraps ⟨haccess, hallowed, hoffset, hover⟩
    exact requestCall_within hlength ((not_outOfRange_iff hlength hfits).mp hin) hcall
  · obtain ⟨hread, hwrite⟩ := not_or.mp haccess
    unfold requestCall at hcall
    rw [if_neg hread, if_neg hwrite] at hcall
    split at hcall
    · cases hcall
      trivial
    · split at hcall
      · cases hcall
        trivial
      · cases hcall

/-- A request whose sum wraps is about bytes no device has. -/
theorem requestCall_of_wraps (size : Int64) (hlength : 0 ≤ h.length.toInt) (hwraps : h.Wraps)
    (hpayload : natOf h.length ≤ payload.length) :
    ∃ call, requestCall d h payload = some call ∧ ¬ call.Within size := by
  have hsize := size.toInt_lt
  have hover := hwraps.wraps
  rcases hwraps.access with hcmd | hcmd
  · unfold requestCall
    rw [if_pos hcmd]
    refine ⟨_, rfl, ?_⟩
    split
    · exact fun hwithin => absurd hwithin.2 (by omega)
    · exact fun hwithin => absurd hwithin.2 (by omega)
  · unfold requestCall
    rw [if_neg (by rw [hcmd]; decide), if_pos hcmd, if_pos hpayload]
    refine ⟨_, rfl, fun hwithin => ?_⟩
    have hstop := hwithin.2
    rw [List.length_take, Nat.min_eq_left hpayload, natOf_cast hlength] at hstop
    omega

/-- The check keeps the device in bounds EXACTLY for headers that do not wrap. -/
theorem calls_within_iff (hheader : header.length = 28) (hsize : 0 ≤ (d.size c.device).toInt) :
    (∀ payload, ∀ call ∈ (handleRequest (some d) { c with input := header ++ payload, calls := [] }).2.calls,
      call.Within (d.size c.device)) ↔ ¬ Wrapping header := by
  have hlength := parseHeader_length_nonneg header
  have hinput : ∀ payload : Bytes,
      ({ c with input := header ++ payload, calls := [] } : Conn δ).input = header ++ payload :=
    fun _ => rfl
  constructor
  · rintro hall ⟨hgreets, hwraps⟩
    let payload : Bytes := List.replicate (natOf (parseHeader header).length) 0
    have hlong : natOf (parseHeader header).length ≤ payload.length := by
      rw [List.length_replicate]
    obtain ⟨call, hcall, hout⟩ :=
      requestCall_of_wraps (d := d) (d.size c.device) hlength hwraps hlong
    refine hout (hall payload call ?_)
    rw [mem_handleRequest_calls hheader (hinput payload) rfl]
    exact ⟨hgreets, hwraps.allowed,
      not_outOfRange_of_wraps hsize hlength hwraps.nonneg hwraps.wraps, hcall⟩
  · intro hwrapping payload call hcall
    rw [mem_handleRequest_calls hheader (hinput payload) rfl] at hcall
    obtain ⟨hgreets, hallowed, hin, hcall⟩ := hcall
    exact within_of_not_wraps hlength (fun h => hwrapping ⟨hgreets, h⟩) hallowed hin hcall

/-- What a request does to a device without `ReadAtInto`: nothing, or what its one call does. -/
theorem handleRequest_device (hinto : d.readAtInto = none) (c : Conn δ) :
    ((handleRequest (some d) c).1 ≠ .panic ∧ (handleRequest (some d) c).2.device = c.device) ∨
    ∃ call, (Greets (c.input.take 28) ∧ (parseHeader (c.input.take 28)).length ≤ maxRequestBytes ∧
        ¬ OutOfRange (d.size c.device) (parseHeader (c.input.take 28)).offset
          (parseHeader (c.input.take 28)).length ∧
        requestCall d (parseHeader (c.input.take 28)) (c.input.drop 28) = some call) ∧
      (handleRequest (some d) c).2.device = d.after call c.device ∧
      ((handleRequest (some d) c).1 = .panic ↔ d.Panics call c.device) := by
  by_cases hlong : 28 ≤ c.input.length
  · have hheader : (c.input.take 28).length = 28 := by simp [hlong]
    rw [handleRequest_of_input d hheader c (List.take_append_drop 28 c.input).symm]
    split
    · exact Or.inl ⟨(nomatch ·), rfl⟩
    · rename_i hgreets
      split
      · exact Or.inl ⟨(nomatch ·), rfl⟩
      · rename_i hlarge
        split
        · exact Or.inl ⟨steady_refuse _ _, (quiet_refuse _ _).2⟩
        · rename_i hin
          obtain ⟨hdevice, hpanic⟩ := dispatch_device hinto (parseHeader (c.input.take 28))
            { c with input := c.input.drop 28 }
          dsimp only at hdevice hpanic
          cases hcall : requestCall d (parseHeader (c.input.take 28)) (c.input.drop 28) with
          | none =>
            rw [hcall] at hdevice hpanic
            exact Or.inl ⟨fun h => by simpa using hpanic.mp h, hdevice⟩
          | some call =>
            rw [hcall] at hdevice hpanic
            refine Or.inr ⟨call, ⟨not_not.mp hgreets, ?_, hin, rfl⟩, hdevice, ?_⟩
            · rw [gt_iff_lt, Int64.lt_iff_toInt_lt] at hlarge
              rw [Int64.le_iff_toInt_le]
              omega
            · rw [hpanic]
              simp
  · have hshort : handleRequest (some d) c =
        (.error (if c.input = [] then .eof else .unexpectedEOF), { c with input := [] }) := by
      unfold handleRequest
      rw [Go.bind_of_error (readFull_of_not_le hlong)]
    rw [hshort]
    exact Or.inl ⟨(nomatch ·), rfl⟩

end Calls

/-! ## A history of requests -/

/-- The step does not write to the array. -/
def DeviceOp.Keeping : DeviceOp → Prop
  | .backendWrite .. => False
  | _ => True

/-- In the states `I` the backend does not panic on a request in the volume, and stays in them. `K` is what must
hold of the state a method ends in. -/
structure StorageBackend.Steady {σ : Type} (B : StorageBackend σ) (d : StorageDevice) (I K : σ → Prop) : Prop where
  back : ∀ {o : DeviceOp} {s : DeviceState σ}, K (d.exec B s o).2.backend → K s.backend
  keeps : ∀ {o : DeviceOp} {s : DeviceState σ}, o.Keeping → I s.backend → K (d.exec B s o).2.backend →
    I (d.exec B s o).2.backend
  read : ∀ (offset length : Int64) b, d.Holds offset.toInt length.toInt → I b →
    (B.read offset length b).1 ≠ .panic
  write : ∀ (offset : Int64) (data : Bytes) b, d.Holds offset.toInt data.length → I b →
    (B.write offset data b).1 ≠ .panic ∧ (K (B.write offset data b).2 → I (B.write offset data b).2)

section Run

variable {σ : Type} {d : StorageDevice} {B : StorageBackend σ} {I K : σ → Prop} {s : DeviceState σ}

/-- What must hold at the end of a method held at its start and after each of its steps. -/
theorem runAlone_back
    (hback : ∀ {o : DeviceOp} {s : DeviceState σ}, K (d.exec B s o).2.backend → K s.backend)
    (p : DeviceProg α) (hK : K (d.runAlone B p s).2.backend) : K s.backend ∧
      ((d.machine B).within fun s => K s.backend).Runs p s ((d.machine B).trace (fun _ => ()) p s)
        (d.runAlone B p s).1 (d.runAlone B p s).2 := by
  have hexec : ((d.machine B).within fun s => K s.backend).exec = (d.machine B).exec := rfl
  exact runs_run_of_final (K := fun s : DeviceState σ => K s.backend) hexec
    (fun _ _ h => ⟨hback h, trivial, h⟩) p s hK

/-- A method that does not write keeps what such steps keep. -/
theorem runAlone_keeping
    (hback : ∀ {o : DeviceOp} {s : DeviceState σ}, K (d.exec B s o).2.backend → K s.backend)
    (hkeeps : ∀ {o : DeviceOp} {s : DeviceState σ}, o.Keeping → I s.backend → K (d.exec B s o).2.backend →
      I (d.exec B s o).2.backend) {p : DeviceProg α} (hp : p.Only DeviceOp.Keeping) (hs : I s.backend)
    (hK : K (d.runAlone B p s).2.backend) : I (d.runAlone B p s).2.backend := by
  obtain ⟨-, hrun⟩ := runAlone_back hback p hK
  have hwp : ((d.machine B).within fun s => K s.backend).wp p (fun _ s' => I s'.backend) s :=
    wp_of_only hp hs fun _ _ _ ho hs hallowed => hkeeps ho hs hallowed.2
  exact hrun.wp hwp

theorem readAt_keeping (d : StorageDevice) (offset length : Int64) :
    (d.readAt offset length).Only DeviceOp.Keeping := by
  unfold StorageDevice.readAt
  split
  · exact ⟨trivial, fun _ => trivial⟩
  · refine ⟨trivial, ?_⟩
    rintro (_ | _ | data)
    · exact trivial
    · refine ⟨trivial, fun plan => ⟨trivial, ?_⟩⟩
      rintro (data | e | _)
      · dsimp only
        split
        · exact ⟨trivial, fun _ => trivial⟩
        · exact trivial
      · exact trivial
      · exact trivial
    · exact trivial

theorem thenDisconnect_keeping (d : StorageDevice) (result : Except Err Unit) :
    (d.thenDisconnect result).Only DeviceOp.Keeping := by
  unfold StorageDevice.thenDisconnect
  split
  · exact ⟨trivial, fun _ => trivial⟩
  · exact trivial

theorem disconnect_keeping (d : StorageDevice) : d.disconnect.Only DeviceOp.Keeping := by
  unfold StorageDevice.disconnect
  split
  · refine ⟨trivial, ?_⟩
    rintro (e | _)
    · exact thenDisconnect_keeping d _
    · exact ⟨trivial, fun result => thenDisconnect_keeping d result⟩
  · exact ⟨trivial, fun result => thenDisconnect_keeping d result⟩

end Run

namespace StorageDevice

variable {σ : Type} {d : StorageDevice} {B : StorageBackend σ} {I K : σ → Prop} {s : DeviceState σ}
  {offset length : Int64}

theorem returned_ne_panic (result : Except Err α) : returned result ≠ .panic := by
  cases result with
  | error e => exact (nomatch ·)
  | ok a => exact (nomatch ·)

/-- A disconnect does not touch the window. -/
theorem disconnect_steady (hplaced : s.ahead.Placed) :
    (d.runAlone B d.disconnect s).1 ≠ .panic ∧ (d.runAlone B d.disconnect s).2.ahead.Placed := by
  have hlast : ∀ result (s : DeviceState σ), s.ahead.Placed →
      (d.runAlone B (d.thenDisconnect result) s).1 ≠ .panic ∧
        (d.runAlone B (d.thenDisconnect result) s).2.ahead.Placed := by
    intro result s hs
    unfold thenDisconnect
    split
    · exact ⟨returned_ne_panic _, hs⟩
    · exact ⟨returned_ne_panic _, hs⟩
  unfold disconnect
  split
  · simp only [runAlone, Machine.run, machine, exec]
    obtain ⟨_ | _, b⟩ := B.commitWithOptions d.commitOptions s.backend
    · exact hlast _ _ hplaced
    · exact hlast _ _ hplaced
  · exact hlast _ _ hplaced

/-- What a fetch comes to, the backend decides. -/
theorem fetch_ne_panic {plan : (Int64 × Bool) × ReadAhead} {b : σ}
    (h : (B.read offset plan.1.1 b).1 ≠ .panic) : (fetch B offset length plan b).1 ≠ .panic := by
  unfold fetch
  rcases hread : B.read offset plan.1.1 b with ⟨data | e | _, b'⟩
  · exact (nomatch ·)
  · exact (nomatch ·)
  · rw [hread] at h
    exact absurd rfl h

/-- In the volume the window is never sliced out of bounds, and the backend is asked for bytes in it. -/
theorem readAt_steady (hB : B.Steady d I K) (hI : I s.backend) (hplaced : s.ahead.Placed)
    (hrange : d.Holds offset.toInt length.toInt) :
    (d.runAlone B (d.readAt offset length) s).1 ≠ .panic ∧
      (d.runAlone B (d.readAt offset length) s).2.ahead.Placed := by
  by_cases hdirect : d.readAheadBytes ≤ 0 ∨ length ≤ 0
  · rw [(readAt_direct hdirect).1]
    exact ⟨hB.read offset length s.backend hrange hI, hplaced⟩
  · have hahead : 0 < d.readAheadBytes.toInt ∧ 0 < length.toInt := by
      simp only [Int64.le_iff_toInt_le, Int64.toInt_zero] at hdirect
      omega
    refine ⟨?_, ?_⟩
    · by_cases hhit : s.ahead.InWindow offset length
      · obtain ⟨window, hwindow, hfrom, hto⟩ := hhit
        have hsection := ReadAhead.readAheadHit_of_inWindow hplaced hrange hwindow hfrom hto
        rw [(readAt_hit hahead.1 hahead.2 hsection).1]
        exact (nomatch ·)
      · have hsection := ReadAhead.readAheadHit_of_not_inWindow hplaced hrange hhit
        obtain ⟨n, ahead, hplan, -, hlong, hstop, -⟩ :=
          ReadAhead.planReadAhead_spec (r := s.ahead) hrange hahead.2
        rw [(readAt_miss hahead.1 hahead.2 hsection).1]
        refine fetch_ne_panic ?_
        rw [hplan]
        exact hB.read offset n s.backend ⟨hrange.start, by omega, hstop⟩ hI
    · have hnext : (d.next B s (.read offset length)).ahead.Placed := by
        rcases readAt_ahead (B := B) hahead.1 hahead.2 hplaced hrange with h | ⟨data, h⟩
        · rw [h]
          exact hplaced
        · rw [h]
          exact hrange.start
      exact hnext

/-- A call in bounds does not panic, and the window stays in the volume. -/
theorem device_steady (hB : B.Steady d I K) (hI : I s.backend) (hplaced : s.ahead.Placed)
    (hwithin : call.Within d.sizeBytes) (hnonneg : call.Nonneg) :
    ¬ (d.device B).Panics call s ∧ ((d.device B).after call s).ahead.Placed := by
  cases call with
  | readAt offset length => exact readAt_steady hB hI hplaced ⟨hwithin.1, hnonneg, hwithin.2⟩
  | readAtInto offset length => exact ⟨id, hplaced⟩
  | writeAt offset data =>
    have hrange : d.Holds offset.toInt data.length := ⟨hwithin.1, Int.natCast_nonneg _, hwithin.2⟩
    exact ⟨(hB.write offset data s.backend hrange hI).1, le_refl (0 : Int)⟩
  | flush => exact ⟨returned_ne_panic _, hplaced⟩
  | disconnect => exact disconnect_steady hplaced

/-- What must hold after a call held before it. -/
theorem device_back (hB : B.Steady d I K) (hK : K ((d.device B).after call s).backend) :
    K s.backend := by
  cases call with
  | readAt offset length => exact (runAlone_back hB.back (d.readAt offset length) hK).1
  | readAtInto offset length => exact hK
  | writeAt offset data => exact (runAlone_back hB.back (writeAt offset data) hK).1
  | flush => exact (runAlone_back hB.back flush hK).1
  | disconnect => exact (runAlone_back hB.back d.disconnect hK).1

theorem device_keeps (hB : B.Steady d I K) (hI : I s.backend) (hwithin : call.Within d.sizeBytes)
    (hK : K ((d.device B).after call s).backend) : I ((d.device B).after call s).backend := by
  cases call with
  | readAt offset length => exact runAlone_keeping hB.back hB.keeps (readAt_keeping d offset length) hI hK
  | readAtInto offset length => exact hI
  | writeAt offset data =>
    have hrange : d.Holds offset.toInt data.length := ⟨hwithin.1, Int.natCast_nonneg _, hwithin.2⟩
    exact (hB.write offset data s.backend hrange hI).2 hK
  | flush => exact hB.keeps (o := .backendFlushDirty) trivial hI hK
  | disconnect => exact runAlone_keeping hB.back hB.keeps (disconnect_keeping d) hI hK

end StorageDevice

/-- Requests handled one after the other, each on a connection in ANY state: none panics. -/
def Survives {δ : Type} (d : Device δ) : List (Conn δ) → δ → Prop
  | [], _ => True
  | c :: rest, s =>
    (handleRequest (some d) { c with device := s }).1 ≠ .panic ∧
      Survives d rest (handleRequest (some d) { c with device := s }).2.device

/-- The device after them. -/
def handleAll {δ : Type} (d : Device δ) : List (Conn δ) → δ → δ
  | [], s => s
  | c :: rest, s => handleAll d rest (handleRequest (some d) { c with device := s }).2.device

section History

variable {σ : Type} {d : StorageDevice} {B : StorageBackend σ} {I K : σ → Prop} {c : Conn (DeviceState σ)}

theorem handleRequest_back (hB : B.Steady d I K)
    (hK : K (handleRequest (some (d.device B)) c).2.device.backend) : K c.device.backend := by
  rcases handleRequest_device (d := d.device B) rfl c with ⟨-, hdevice⟩ | ⟨call, -, hdevice, -⟩
  · rwa [hdevice] at hK
  · rw [hdevice] at hK
    exact StorageDevice.device_back hB hK

theorem handleAll_back (hB : B.Steady d I K) (requests : List (Conn (DeviceState σ))) {s : DeviceState σ}
    (hK : K (handleAll (d.device B) requests s).backend) : K s.backend := by
  induction requests generalizing s with
  | nil => exact hK
  | cons c rest ih => exact handleRequest_back (c := { c with device := s }) hB (ih hK)

/-- One request that does not wrap. -/
theorem handleRequest_steady (hB : B.Steady d I K) (hI : I c.device.backend) (hplaced : c.device.ahead.Placed)
    (hwrapping : ¬ Wrapping (c.input.take 28))
    (hK : K (handleRequest (some (d.device B)) c).2.device.backend) :
    (handleRequest (some (d.device B)) c).1 ≠ .panic ∧ I (handleRequest (some (d.device B)) c).2.device.backend ∧
      (handleRequest (some (d.device B)) c).2.device.ahead.Placed := by
  rcases handleRequest_device (d := d.device B) rfl c with ⟨hsteady, hdevice⟩ | ⟨call, hchecks, hdevice, hpanic⟩
  · rw [hdevice]
    exact ⟨hsteady, hI, hplaced⟩
  · obtain ⟨hgreets, hallowed, hin, hcall⟩ := hchecks
    have hlength := parseHeader_length_nonneg (c.input.take 28)
    have hwithin := within_of_not_wraps hlength (fun h => hwrapping ⟨hgreets, h⟩) hallowed hin hcall
    obtain ⟨hnever, hafter⟩ :=
      StorageDevice.device_steady hB hI hplaced hwithin (requestCall_nonneg hlength hcall)
    rw [hdevice] at hK ⊢
    exact ⟨fun h => hnever (hpanic.mp h), StorageDevice.device_keeps hB hI hwithin hK, hafter⟩

/-- **The device adds no panic of its own**: over a backend that does not panic on requests in the volume, no
history of requests that do not wrap panics. -/
theorem survives_of_steady (hB : B.Steady d I K) {requests : List (Conn (DeviceState σ))}
    (hwrapping : ∀ c ∈ requests, ¬ Wrapping (c.input.take 28)) {s : DeviceState σ} (hI : I s.backend)
    (hplaced : s.ahead.Placed) (hK : K (handleAll (d.device B) requests s).backend) :
    Survives (d.device B) requests s := by
  induction requests generalizing s with
  | nil => trivial
  | cons c rest ih =>
    obtain ⟨hfirst, hrest⟩ := List.forall_mem_cons.mp hwrapping
    obtain ⟨hsteady, hI', hplaced'⟩ :=
      handleRequest_steady (c := { c with device := s }) hB hI hplaced hfirst (handleAll_back hB rest hK)
    exact ⟨hsteady, ih hrest hI' hplaced' hK⟩

end History

end OrcaBlocks.Nbd
