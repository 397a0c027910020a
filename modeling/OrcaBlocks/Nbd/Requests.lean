/-
# OrcaBlocks.Nbd.Requests — what one request does to the device.

`handleRequest` reads a header, checks it, and makes at most ONE call to the device; all else it does is to
read from the connection and to write to it. `Quiet` is that all else. What is left of a request is a case
distinction on its command, stated once here for every device and every state of the connection.
-/
import OrcaBlocks.Nbd.Server

namespace OrcaBlocks.Nbd

open OrcaBlocks.Lib
open OrcaBlocks.Storage (Bytes)

variable {δ α β : Type}

/-! ## Parts that leave the device alone -/

/-- Nothing is called, and the device stays as it is. -/
def Quiet (x : Handler δ α) : Prop := ∀ c, (x c).2.calls = c.calls ∧ (x c).2.device = c.device

theorem quiet_pure (a : α) : Quiet (pure a : Handler δ α) := fun _ => ⟨rfl, rfl⟩

theorem quiet_fail (e : Err) : Quiet (Go.fail e : Handler δ α) := fun _ => ⟨rfl, rfl⟩

theorem quiet_crash : Quiet (Go.crash : Handler δ α) := fun _ => ⟨rfl, rfl⟩

/-- What follows in quiet leaves the calls and the device of what came before. -/
theorem bind_quiet {x : Handler δ α} {f : α → Handler δ β} (hf : ∀ a, Quiet (f a)) (c : Conn δ) :
    ((x >>= f) c).2.calls = (x c).2.calls ∧ ((x >>= f) c).2.device = (x c).2.device := by
  rw [Go.bind_apply]
  obtain ⟨a | _ | _, c'⟩ := x c
  · exact hf a c'
  · exact ⟨rfl, rfl⟩
  · exact ⟨rfl, rfl⟩

theorem quiet_bind {x : Handler δ α} {f : α → Handler δ β} (hx : Quiet x) (hf : ∀ a, Quiet (f a)) :
    Quiet (x >>= f) := by
  intro c
  obtain ⟨hcalls, hdevice⟩ := bind_quiet hf c
  rw [hcalls, hdevice]
  exact hx c

theorem readFull_of_le {n : Nat} {c : Conn δ} (h : n ≤ c.input.length) :
    readFull n c = (.ok (c.input.take n), { c with input := c.input.drop n }) := if_pos h

theorem readFull_of_not_le {n : Nat} {c : Conn δ} (h : ¬ n ≤ c.input.length) : readFull n c =
    (.error (if c.input = [] then .eof else .unexpectedEOF), { c with input := [] }) := if_neg h

theorem quiet_write (b : Bytes) : Quiet (write b : Handler δ Unit) := by
  intro c
  unfold write
  split
  · exact ⟨rfl, rfl⟩
  · exact ⟨rfl, rfl⟩
  · exact ⟨rfl, rfl⟩

theorem quiet_discard (n : Nat) : Quiet (discard n : Handler δ Unit) := fun _ => ⟨rfl, rfl⟩

theorem quiet_writeReply (handle : UInt64) (errno : UInt32) (data : Bytes) :
    Quiet (writeReply handle errno data : Handler δ Unit) := by
  refine quiet_bind (quiet_write _) fun _ => ?_
  split
  · exact quiet_write data
  · exact quiet_pure ()

theorem quiet_thenPut {buf : Bytes} {x : Handler δ α} (hx : Quiet x) : Quiet (thenPut buf x) := hx

namespace Server

theorem quiet_replyFrom (handle : UInt64) (length : Int64) (buf : Bytes) (n : Int64) :
    Quiet (replyFrom handle length buf n : Handler δ Unit) := by
  unfold replyFrom
  dsimp only
  split
  · split
    · exact quiet_thenPut quiet_crash
    · exact quiet_thenPut (quiet_writeReply _ _ _)
  · split
    · exact quiet_thenPut quiet_crash
    · exact quiet_thenPut (quiet_writeReply _ _ _)

theorem quiet_acknowledge (handle : UInt64) (result : Except Err Unit) :
    Quiet (acknowledge handle result : Handler δ Unit) := by
  unfold acknowledge
  split
  · exact quiet_writeReply _ _ _
  · exact quiet_writeReply _ _ _

end Server

/-! ## The call of a request -/

theorem callDevice_spec (call : DeviceCall) (method : Go Err δ α) (c : Conn δ) :
    (callDevice call method c).2 =
        { c with device := (method c.device).2, calls := c.calls ++ [call] } ∧
      ((callDevice call method c).1 = .panic ↔ (method c.device).1 = .panic) := by
  unfold callDevice
  obtain ⟨_ | _ | _, device⟩ := method c.device
  · exact ⟨rfl, by simp⟩
  · exact ⟨rfl, by simp⟩
  · exact ⟨rfl, by simp⟩

theorem callInto_calls (offset length : Int64) (dst : Bytes)
    (readAtInto : Int64 → Bytes → δ → Outcome Err Int64 × Bytes × δ) (c : Conn δ) :
    (callInto offset length dst readAtInto c).2.calls = c.calls ++ [.readAtInto offset length] := by
  unfold callInto
  obtain ⟨_ | _ | _, dst, device⟩ := readAtInto offset dst c.device
  · rfl
  · rfl
  · rfl

/-- The first bytes of a request are right. -/
def Greets (header : Bytes) : Prop := uint32 (header.take 4) = requestMagic

instance (header : Bytes) : Decidable (Greets header) := inferInstanceAs (Decidable (_ = _))

namespace Server

variable (d : Device δ)

/-- A request refused by the range check: the payload of a write is skipped. -/
def refuse (h : Header) : Handler δ Bool := do
  if h.cmd = cmdWrite ∧ h.length > 0 then discard (natOf h.length) else pure ()
  writeReply h.handle 22 []
  pure true

theorem quiet_refuse (h : Header) : Quiet (refuse h : Handler δ Bool) := by
  have hreply : Quiet (do writeReply h.handle 22 []; pure true : Handler δ Bool) :=
    quiet_bind (quiet_writeReply _ _ _) fun _ => quiet_pure true
  unfold refuse
  split
  · exact quiet_bind (quiet_discard _) fun _ => hreply
  · exact hreply

/-- `handleRequest` past the reading of the header. -/
theorem handleRequest_of_input {header payload : Bytes} (hheader : header.length = 28) (c : Conn δ)
    (hinput : c.input = header ++ payload) :
    handleRequest (some d) c =
      (if ¬ Greets header then
        Go.fail (.errorf "invalid request magic 0x%x" (uint32 (header.take 4)).toNat)
      else if (parseHeader header).length > maxRequestBytes then
        Go.fail (.errorf "request too large: %d" (natOf (parseHeader header).length))
      else if OutOfRange (d.size c.device) (parseHeader header).offset (parseHeader header).length then
        refuse (parseHeader header)
      else dispatch d (parseHeader header) : Handler δ Bool) { c with input := payload } := by
  have hread : readFull 28 c = (.ok header, { c with input := payload }) := by
    rw [readFull_of_le (by simp [hinput, hheader]), hinput, List.take_left' hheader,
      List.drop_left' hheader]
  unfold handleRequest
  rw [Go.bind_of_ok hread]
  unfold Greets
  dsimp only
  split
  · rfl
  · split
    · rfl
    · rfl

/-- The call a request leads to once the range check lets it through. A write whose payload is cut short leads
to none. -/
def requestCall (h : Header) (payload : Bytes) : Option DeviceCall :=
  if h.cmd = cmdRead then
    some (if d.readAtInto.isSome then .readAtInto h.offset h.length else .readAt h.offset h.length)
  else if h.cmd = cmdWrite then
    if natOf h.length ≤ payload.length then some (.writeAt h.offset (payload.take (natOf h.length)))
    else none
  else if h.cmd = cmdFlush then some .flush
  else if h.cmd = cmdDisconnect then some .disconnect
  else none

theorem writeReadReply_calls (handle : UInt64) (offset length : Int64) (c : Conn δ) :
    (writeReadReply d handle offset length c).2.calls =
      c.calls ++ [if d.readAtInto.isSome then .readAtInto offset length else .readAt offset length] := by
  unfold writeReadReply
  cases hinto : d.readAtInto with
  | none =>
    refine Eq.trans (bind_quiet (fun result => ?_) c).1 ?_
    · cases result with
      | error e => exact quiet_writeReply _ _ _
      | ok data => exact quiet_writeReply _ _ _
    · rw [(callDevice_spec ..).1]
      rfl
  | some readAtInto =>
    obtain ⟨buf, pool, hbuf⟩ : ∃ buf pool,
        (getBuffer (natOf length) : Handler δ Bytes) c = (.ok buf, { c with pool := pool }) := ⟨_, _, rfl⟩
    dsimp only
    rw [Go.bind_of_ok hbuf]
    refine Eq.trans (bind_quiet (fun filled => ?_) _).1 ?_
    · obtain ⟨result, dst⟩ := filled
      cases result with
      | error e => exact quiet_thenPut (quiet_writeReply _ _ _)
      | ok n => exact quiet_replyFrom handle length _ n
    · rw [callInto_calls]
      rfl

theorem dispatch_calls (h : Header) (c : Conn δ) :
    (dispatch d h c).2.calls = c.calls ++ (requestCall d h c.input).toList := by
  have hack : ∀ result, Quiet (do acknowledge h.handle result; pure true : Handler δ Bool) :=
    fun result => quiet_bind (quiet_acknowledge h.handle result) fun _ => quiet_pure true
  unfold dispatch requestCall
  split
  · rw [(bind_quiet (fun _ => quiet_pure true) c).1, writeReadReply_calls]
    rfl
  · split
    · split
      · rename_i hlong
        rw [Go.bind_of_ok (readFull_of_le hlong), (bind_quiet hack _).1, (callDevice_spec ..).1]
        rfl
      · rename_i hshort
        rw [Go.bind_of_error (readFull_of_not_le hshort)]
        exact (List.append_nil _).symm
    · split
      · rw [(bind_quiet hack c).1, (callDevice_spec ..).1]
        rfl
      · split
        · refine Eq.trans (bind_quiet (fun result => ?_) c).1 ?_
          · cases result with
            | error e => exact quiet_fail e
            | ok _ => exact quiet_pure false
          · rw [(callDevice_spec ..).1]
            rfl
        · have hquiet : Quiet (do writeReply h.handle 22 []; pure true : Handler δ Bool) :=
            quiet_bind (quiet_writeReply _ _ _) fun _ => quiet_pure true
          rw [(hquiet c).1]
          exact (List.append_nil _).symm

end Server

/-! ## What the call does -/

/-- No panic. -/
def Steady (x : Handler δ α) : Prop := ∀ c, (x c).1 ≠ .panic

theorem steady_pure (a : α) : Steady (pure a : Handler δ α) := fun _ h => nomatch h

theorem steady_fail (e : Err) : Steady (Go.fail e : Handler δ α) := fun _ h => nomatch h

/-- What follows steadily adds no panic to what came before. -/
theorem bind_panic_iff {x : Handler δ α} {f : α → Handler δ β} (hf : ∀ a, Steady (f a)) (c : Conn δ) :
    ((x >>= f) c).1 = .panic ↔ (x c).1 = .panic := by
  rw [Go.bind_apply]
  obtain ⟨a | _ | _, c'⟩ := x c
  · exact iff_of_false (hf a c') (nomatch ·)
  · exact iff_of_false (nomatch ·) (nomatch ·)
  · exact iff_of_true rfl rfl

theorem steady_bind {x : Handler δ α} {f : α → Handler δ β} (hx : Steady x) (hf : ∀ a, Steady (f a)) :
    Steady (x >>= f) := fun c h => hx c ((bind_panic_iff hf c).mp h)

theorem steady_write (b : Bytes) : Steady (write b : Handler δ Unit) := by
  intro c h
  unfold write at h
  split at h
  · cases h
  · cases h
  · cases h

theorem steady_writeReply (handle : UInt64) (errno : UInt32) (data : Bytes) :
    Steady (writeReply handle errno data : Handler δ Unit) := by
  refine steady_bind (steady_write _) fun _ => ?_
  split
  · exact steady_write data
  · exact steady_pure ()

/-- The state of the device after a call. A device without `ReadAtInto` is never called so. -/
def Device.after (d : Device δ) : DeviceCall → δ → δ
  | .readAt offset length, s => (d.readAt offset length s).2
  | .readAtInto .., s => s
  | .writeAt offset data, s => (d.writeAt offset data s).2
  | .flush, s => (d.flush s).2
  | .disconnect, s => (d.disconnect s).2

/-- The call panics. -/
def Device.Panics (d : Device δ) : DeviceCall → δ → Prop
  | .readAt offset length, s => (d.readAt offset length s).1 = .panic
  | .readAtInto .., _ => False
  | .writeAt offset data, s => (d.writeAt offset data s).1 = .panic
  | .flush, s => (d.flush s).1 = .panic
  | .disconnect, s => (d.disconnect s).1 = .panic

namespace Server

theorem steady_acknowledge (handle : UInt64) (result : Except Err Unit) :
    Steady (acknowledge handle result : Handler δ Unit) := by
  unfold acknowledge
  split
  · exact steady_writeReply _ _ _
  · exact steady_writeReply _ _ _

theorem steady_refuse (h : Header) : Steady (refuse h : Handler δ Bool) := by
  have hreply : Steady (do writeReply h.handle 22 []; pure true : Handler δ Bool) :=
    steady_bind (steady_writeReply _ _ _) fun _ => steady_pure true
  unfold refuse
  split
  · exact steady_bind (fun _ h => nomatch h) fun _ => hreply
  · exact hreply

variable {d : Device δ}

/-- A call of the device with a quiet and steady rest: the rest of `dispatch` after each of its calls. -/
theorem callDevice_then (call : DeviceCall) (method : Go Err δ α) {f : Except Err α → Handler δ β}
    (hquiet : ∀ a, Quiet (f a)) (hsteady : ∀ a, Steady (f a)) (c : Conn δ) :
    ((callDevice call method >>= f) c).2.calls = c.calls ++ [call] ∧
      ((callDevice call method >>= f) c).2.device = (method c.device).2 ∧
      (((callDevice call method >>= f) c).1 = .panic ↔ (method c.device).1 = .panic) := by
  obtain ⟨hstate, hpanic⟩ := callDevice_spec call method c
  obtain ⟨hcalls, hdevice⟩ := bind_quiet (x := callDevice call method) hquiet c
  refine ⟨?_, ?_, ?_⟩
  · rw [hcalls, hstate]
  · rw [hdevice, hstate]
  · rw [bind_panic_iff hsteady, hpanic]

/-- The end of a disconnect. -/
def leave : Except Err Unit → Handler δ Bool
  | .error e => Go.fail e
  | .ok () => pure false

theorem quiet_leave (result : Except Err Unit) : Quiet (leave result : Handler δ Bool) := by
  cases result with
  | error e => exact quiet_fail e
  | ok _ => exact quiet_pure false

theorem steady_leave (result : Except Err Unit) : Steady (leave result : Handler δ Bool) := by
  cases result with
  | error e => exact steady_fail e
  | ok _ => exact steady_pure false

theorem writeReadReply_device (hinto : d.readAtInto = none) (handle : UInt64) (offset length : Int64)
    (c : Conn δ) :
    (writeReadReply d handle offset length c).2.device = (d.readAt offset length c.device).2 ∧
      ((writeReadReply d handle offset length c).1 = .panic ↔
        (d.readAt offset length c.device).1 = .panic) := by
  unfold writeReadReply
  rw [hinto]
  refine (callDevice_then _ _ (fun result => ?_) (fun result => ?_) c).2
  · cases result with
    | error e => exact quiet_writeReply _ _ _
    | ok data => exact quiet_writeReply _ _ _
  · cases result with
    | error e => exact steady_writeReply _ _ _
    | ok data => exact steady_writeReply _ _ _

/-- On a device without `ReadAtInto` a request does to the device what its call does, and panics if it does. -/
theorem dispatch_device (hinto : d.readAtInto = none) (h : Header) (c : Conn δ) :
    (dispatch d h c).2.device = ((requestCall d h c.input).elim c.device fun call => d.after call c.device) ∧
      ((dispatch d h c).1 = .panic ↔ ∃ call ∈ requestCall d h c.input, d.Panics call c.device) := by
  have hquiet : ∀ result, Quiet (do acknowledge h.handle result; pure true : Handler δ Bool) :=
    fun result => quiet_bind (quiet_acknowledge h.handle result) fun _ => quiet_pure true
  have hsteady : ∀ result, Steady (do acknowledge h.handle result; pure true : Handler δ Bool) :=
    fun result => steady_bind (steady_acknowledge h.handle result) fun _ => steady_pure true
  unfold dispatch requestCall
  split
  · obtain ⟨hdevice, hpanic⟩ := writeReadReply_device hinto h.handle h.offset h.length c
    rw [(bind_quiet (fun _ => quiet_pure true) c).2, bind_panic_iff (fun _ => steady_pure true), hdevice,
      hpanic, hinto]
    simp [Device.after, Device.Panics]
  · split
    · split
      · rename_i hlong
        rw [Go.bind_of_ok (readFull_of_le hlong)]
        obtain ⟨-, hdevice, hpanic⟩ := callDevice_then
          (.writeAt h.offset (c.input.take (natOf h.length)))
          (d.writeAt h.offset (c.input.take (natOf h.length))) hquiet hsteady
          { c with input := c.input.drop (natOf h.length) }
        rw [hdevice, hpanic]
        simp [Device.after, Device.Panics]
      · rename_i hshort
        rw [Go.bind_of_error (readFull_of_not_le hshort)]
        simp
    · split
      · obtain ⟨-, hdevice, hpanic⟩ := callDevice_then .flush d.flush hquiet hsteady c
        rw [hdevice, hpanic]
        simp [Device.after, Device.Panics]
      · split
        · obtain ⟨-, hdevice, hpanic⟩ :=
            callDevice_then .disconnect d.disconnect quiet_leave steady_leave c
          refine ⟨hdevice, hpanic.trans ?_⟩
          simp [Device.Panics]
        · have hreply : Quiet (do writeReply h.handle 22 []; pure true : Handler δ Bool) :=
            quiet_bind (quiet_writeReply _ _ _) fun _ => quiet_pure true
          have hnever : Steady (do writeReply h.handle 22 []; pure true : Handler δ Bool) :=
            steady_bind (steady_writeReply _ _ _) fun _ => steady_pure true
          exact ⟨(hreply c).2, iff_of_false (hnever c) (by simp)⟩

end Server

end OrcaBlocks.Nbd
