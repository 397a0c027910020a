/-
# OrcaBlocks.Nbd.Durability — what an acknowledged FLUSH and an acknowledged FUA write promise.

The server announces SEND_FLUSH and SEND_FUA. A FLUSH that is answered with errno 0 promises that every write
answered before it is durable; a WRITE with the FUA bit promises that for itself. FLUSH is kept: the device
flushes the overlay of the session, a failed `Sync` is an error to the client, and the files hold every
acknowledged byte when the reply is sent. FUA is NOT: `handleRequest` reads the command and never the command
flags, and a write with the bit set ends where every write ends, in the page cache.

The plans of the environment say which calls of each `FlushDirty` fail, and how.
-/
import OrcaBlocks.Nbd.Coherence
import OrcaBlocks.Nbd.Framing

namespace OrcaBlocks.Nbd

open OrcaBlocks.Lib
open OrcaBlocks.Storage (Bytes World Platform Caller SessRef Flat NoCollision CommitOptions
  goRuntime machine Backend Op Fault serveAll)
open Server

variable {δ σ : Type}

/-! ## One request and its answer -/

namespace Request

/-- The reply that says that a request without an answer of its own was done. -/
def ack (r : Request) : Bytes := replyHeader r.handle 0

/-- The FUA bit of the command flags. -/
def fua (r : Request) : Bool := r.flags &&& 1 ≠ 0

/-- The payload as the server reads it. -/
def data (r : Request) : Bytes := r.payload.take r.length.toNat

/-- The server takes one request, the next on its connection: what it sends, and the device then. -/
def serve (d : Device δ) (r : Request) (s : δ) : Bytes × δ :=
  let c := (handleRequest (some d) ⟨r.encode, [], none, ⟨[], []⟩, [], s⟩).2
  (c.output, c.device)

end Request

theorem replyHeader_inj {handle : UInt64} {errno errno' : UInt32}
    (h : replyHeader handle errno = replyHeader handle errno') : errno = errno' := by
  unfold replyHeader at h
  have hfront := List.append_inj_left' h rfl
  have herrno := List.append_inj_right hfront rfl
  rw [← uint32_putUint32 errno, herrno, uint32_putUint32]

/-- What a request comes to. -/
inductive Taken (d : Device δ) (r : Request) (s : δ) : Bytes → δ → Prop
  /-- Too long, out of range, cut short, or of an unknown command. -/
  | refused {reply : Bytes} (hreply : reply ≠ r.ack) : Taken d r s reply s
  | read (hcmd : r.cmd = cmdRead) (reply : Bytes) :
      Taken d r s reply (d.readAt r.offset.toInt64 r.length.toUInt64.toInt64 s).2
  | write (hcmd : r.cmd = cmdWrite) (hlong : r.data.length = r.length.toNat) (hshort : r.data.length < 2 ^ 63)
      {reply : Bytes} (hack : reply = r.ack ↔ (d.writeAt r.offset.toInt64 r.data s).1 = .ok ()) :
      Taken d r s reply (d.writeAt r.offset.toInt64 r.data s).2
  | flush (hcmd : r.cmd = cmdFlush) {reply : Bytes} (hack : reply = r.ack ↔ (d.flush s).1 = .ok ()) :
      Taken d r s reply (d.flush s).2
  | disconnect (hcmd : r.cmd = cmdDisconnect) (reply : Bytes) : Taken d r s reply (d.disconnect s).2

section Taken

variable {d : Device δ} {r : Request} {s : δ}

theorem Request.ack_ne_nil (r : Request) : [] ≠ r.ack := by
  intro h
  have hlength := congrArg List.length h
  simp [Request.ack, replyHeader] at hlength

/-- The end of a WRITE or a FLUSH: errno 0 means that the device has done it. -/
theorem acknowledged_iff (call : DeviceCall) (method : Go Err δ Unit) {c : Conn δ} (hroom : c.room = none)
    (houtput : c.output = []) :
    ((do let result ← callDevice call method; acknowledge r.handle result; pure true : Handler δ Bool) c).2.output =
      r.ack ↔ (method c.device).1 = .ok () := by
  have hreply : ∀ (errno : UInt32) (device : δ),
      (do writeReply r.handle errno []; pure true : Handler δ Bool)
        { c with device := device, calls := c.calls ++ [call] } =
      (.ok true, { c with
        device := device
        calls := c.calls ++ [call]
        output := replyHeader r.handle errno }) := by
    intro errno device
    refine (Go.bind_of_ok (writeWith_of_room (by exact hroom) _ _)).trans ?_
    simp [houtput]
  rcases hmethod : method c.device with ⟨_ | e | _, device⟩
  · have hcall : callDevice call method c =
        (.ok (.ok ()), { c with device := device, calls := c.calls ++ [call] }) := by
      unfold callDevice
      rw [hmethod]
    rw [Go.bind_of_ok hcall]
    refine iff_of_true ?_ rfl
    exact congrArg (fun result => result.2.output) (hreply 0 device)
  · have hcall : callDevice call method c =
        (.ok (.error e), { c with device := device, calls := c.calls ++ [call] }) := by
      unfold callDevice
      rw [hmethod]
    rw [Go.bind_of_ok hcall]
    refine iff_of_false (fun h => ?_) (nomatch ·)
    have hfive : replyHeader r.handle 5 = replyHeader r.handle 0 :=
      (congrArg (fun result => result.2.output) (hreply 5 device)).symm.trans h
    exact absurd (replyHeader_inj hfive) (by decide)
  · have hcall : callDevice call method c =
        (.panic, { c with device := device, calls := c.calls ++ [call] }) := by
      unfold callDevice
      rw [hmethod]
    rw [Go.bind_of_panic hcall]
    refine iff_of_false (fun h => ?_) (nomatch ·)
    exact absurd (houtput.symm.trans h) r.ack_ne_nil

/-- errno 22. -/
theorem invalid_output (r : Request) {c : Conn δ} (hroom : c.room = none) (houtput : c.output = []) :
    ((do writeReply r.handle 22 []; pure true : Handler δ Bool) c).2.output ≠ r.ack := by
  intro h
  have hwritten : (do writeReply r.handle 22 []; pure true : Handler δ Bool) c =
      (.ok true, { c with output := c.output ++ replyHeader r.handle 22 ++ [] }) :=
    Go.bind_of_ok (writeWith_of_room hroom _ _)
  rw [hwritten, houtput, List.nil_append, List.append_nil] at h
  exact absurd (replyHeader_inj h) (by decide)

theorem refuse_output (r : Request) {c : Conn δ} (hroom : c.room = none) (houtput : c.output = []) :
    (refuse (parseHeader r.header) c).2.output ≠ r.ack := by
  rw [r.parseHeader_header]
  unfold refuse
  dsimp only
  split
  · exact invalid_output (c := { c with input := c.input.drop (natOf r.length.toUInt64.toInt64) }) r hroom houtput
  · exact invalid_output r hroom houtput

theorem dispatch_taken (hinto : d.readAtInto = none) (hlength : r.length.toNat ≤ 32 * 1024 * 1024) {c : Conn δ}
    (hroom : c.room = none) (houtput : c.output = []) (hinput : c.input = r.payload) :
    Taken d r c.device (dispatch d (parseHeader r.header) c).2.output
      (dispatch d (parseHeader r.header) c).2.device := by
  have hdevice := (dispatch_device hinto (parseHeader r.header) c).1
  rw [r.parseHeader_header] at hdevice ⊢
  rw [hdevice, hinput]
  unfold requestCall dispatch
  dsimp only
  by_cases hread : r.cmd = cmdRead
  · rw [if_pos hread, if_pos hread, hinto]
    exact .read hread _
  rw [if_neg hread, if_neg hread]
  by_cases hwrite : r.cmd = cmdWrite
  · rw [if_pos hwrite, if_pos hwrite, r.natOf_length]
    by_cases hlong : r.length.toNat ≤ r.payload.length
    · rw [if_pos hlong, Go.bind_of_ok (readFull_of_le (by rwa [hinput])), hinput]
      have hdata : r.data.length = r.length.toNat := List.length_take_of_le hlong
      refine .write hwrite hdata (by omega) ?_
      exact acknowledged_iff (c := { c with input := r.payload.drop r.length.toNat })
        (.writeAt r.offset.toInt64 r.data) (d.writeAt r.offset.toInt64 r.data) hroom houtput
    · rw [if_neg hlong, Go.bind_of_error (readFull_of_not_le (by rwa [hinput]))]
      exact .refused (houtput.symm ▸ r.ack_ne_nil)
  rw [if_neg hwrite, if_neg hwrite]
  by_cases hflush : r.cmd = cmdFlush
  · rw [if_pos hflush, if_pos hflush]
    exact .flush hflush (acknowledged_iff .flush d.flush hroom houtput)
  rw [if_neg hflush, if_neg hflush]
  by_cases hdisconnect : r.cmd = cmdDisconnect
  · rw [if_pos hdisconnect, if_pos hdisconnect]
    exact .disconnect hdisconnect _
  rw [if_neg hdisconnect, if_neg hdisconnect]
  exact .refused (invalid_output r hroom houtput)

/-- **One request, whatever its header says.** -/
theorem serve_taken (hinto : d.readAtInto = none) (r : Request) (s : δ) :
    Taken d r s (r.serve d s).1 (r.serve d s).2 := by
  have hinput : (⟨r.encode, [], none, ⟨[], []⟩, [], s⟩ : Conn δ).input = r.header ++ r.payload := rfl
  have hrun := handleRequest_of_input d r.length_header _ hinput
  unfold Request.serve
  rw [hrun, if_neg (not_not_intro r.greets_header)]
  split
  · exact .refused r.ack_ne_nil
  · rename_i hallowed
    split
    · dsimp only
      rw [(quiet_refuse (parseHeader r.header) _).2]
      exact .refused (refuse_output r rfl rfl)
    · refine dispatch_taken (c := ⟨r.payload, [], none, ⟨[], []⟩, [], s⟩) hinto ?_ rfl rfl rfl
      have hmax : maxRequestBytes.toInt = 32 * 1024 * 1024 := by decide
      rw [r.parseHeader_header, gt_iff_lt, Int64.lt_iff_toInt_lt, toInt_toInt64, hmax] at hallowed
      omega

end Taken

/-! ## The promises -/

namespace Request

/-- What the clients have been told the array is, once the request has been answered so. -/
def promised (r : Request) (reply : Bytes) (f : Nat → UInt8) : Nat → UInt8 :=
  if r.cmd = cmdWrite ∧ reply = r.ack then patch 0 f (natOf r.offset.toInt64) r.data else f

/-- **The promise of the reply**, about what a power loss right after it leaves: a FLUSH that is done leaves every
acknowledged write, a WRITE with the FUA bit that is done leaves itself. -/
structure Keeps (r : Request) (reply : Bytes) (durable f : Nat → UInt8) : Prop where
  flush : r.cmd = cmdFlush → reply = r.ack → durable = f
  fua : r.cmd = cmdWrite → r.fua → reply = r.ack → ∀ p, natOf r.offset.toInt64 ≤ p →
    p < natOf r.offset.toInt64 + r.data.length → durable p = f p

/-- A sequence of requests, each taken when the one before has been answered. -/
def serveAll (d : Device δ) : List Request → δ → δ
  | [], s => s
  | r :: rs, s => serveAll d rs (r.serve d s).2

/-- Every reply keeps its promise. The array is `f` at the start, `durable` what a power loss would leave of it. -/
def KeepAll (d : Device δ) (durable : δ → Nat → UInt8) : (Nat → UInt8) → List Request → δ → Prop
  | _, [], _ => True
  | f, r :: rs, s =>
    r.Keeps (r.serve d s).1 (durable (r.serve d s).2) (r.promised (r.serve d s).1 f) ∧
      KeepAll d durable (r.promised (r.serve d s).1 f) rs (r.serve d s).2

end Request

/-! ## A backend with a durable side -/

/-- In the states `I f` of the backend its array is `f` to the clients, as far as it still answers them.
`K` is what must hold of the state a method ends in. -/
structure StorageBackend.Promises (B : StorageBackend σ) (durable : σ → Nat → UInt8)
    (I : (Nat → UInt8) → σ → Prop) (K : σ → Prop) : Prop where
  back : ∀ {d : StorageDevice} {o : DeviceOp} {s : DeviceState σ}, K (d.exec B s o).2.backend → K s.backend
  read : ∀ f offset length b, I f b → K (B.read offset length b).2 → I f (B.read offset length b).2
  write : ∀ f (offset : Int64) (data : Bytes) b, data.length < 2 ^ 63 → I f b → K (B.write offset data b).2 →
    I (if (B.write offset data b).1 = .ok () then patch 0 f (natOf offset) data else f) (B.write offset data b).2
  flush : ∀ f b, I f b → K (B.flushDirty b).2 → I f (B.flushDirty b).2 ∧
    ((B.flushDirty b).1 = .ok () → durable (B.flushDirty b).2 = f)
  commit : ∀ f opts b, I f b → K (B.commitWithOptions opts b).2 → I f (B.commitWithOptions opts b).2
  stop : ∀ f b, I f b → K (B.stop b).2 → I f (B.stop b).2
  onDisconnect : ∀ f b, I f b → I f (B.onDisconnect b)

section Promises

variable {d : StorageDevice} {B : StorageBackend σ} {durable : σ → Nat → UInt8} {I : (Nat → UInt8) → σ → Prop}
  {K : σ → Prop} {s : DeviceState σ} {f : Nat → UInt8}

theorem exec_keeping (hB : B.Promises durable I K) {o : DeviceOp} (ho : o.Keeping) (hs : I f s.backend)
    (hK : K (d.exec B s o).2.backend) : I f (d.exec B s o).2.backend := by
  cases o with
  | backendRead offset length => exact hB.read f offset length s.backend hs hK
  | backendWrite offset data => exact ho.elim
  | backendFlushDirty => exact (hB.flush f s.backend hs hK).1
  | backendCommit opts => exact hB.commit f opts s.backend hs hK
  | backendStop => exact hB.stop f s.backend hs hK
  | onDisconnect => exact hB.onDisconnect f s.backend hs
  | _ => exact hs

/-- What one request comes to, on the device of such a backend. -/
theorem serve_keeps (hB : B.Promises durable I K) {r : Request}
    (hfua : r.cmd = cmdWrite → r.fua → r.length = 0) (hs : I f s.backend)
    (hK : K (r.serve (d.device B) s).2.backend) :
    r.Keeps (r.serve (d.device B) s).1 (durable (r.serve (d.device B) s).2.backend)
        (r.promised (r.serve (d.device B) s).1 f) ∧
      I (r.promised (r.serve (d.device B) s).1 f) (r.serve (d.device B) s).2.backend := by
  have htaken := serve_taken (d := d.device B) rfl r s
  generalize r.serve (d.device B) s = result at htaken hK ⊢
  obtain ⟨reply, s'⟩ := result
  dsimp only at htaken hK ⊢
  -- a write with the bit set is empty, so there is no byte to keep
  have hwrites : r.cmd = cmdWrite → r.fua → ∀ p, natOf r.offset.toInt64 ≤ p →
      p < natOf r.offset.toInt64 + r.data.length → durable s'.backend p = r.promised reply f p := by
    intro hcmd hbit p hlo hhi
    have hempty : r.data.length = 0 := by
      rw [Request.data, hfua hcmd hbit]
      rfl
    omega
  have hother : r.cmd ≠ cmdWrite → r.promised reply f = f := fun hcmd => if_neg fun h => hcmd h.1
  cases htaken with
  | refused hreply =>
    have hsame : r.promised reply f = f := if_neg fun h => hreply h.2
    exact ⟨⟨fun _ hack => absurd hack hreply, fun _ _ hack => absurd hack hreply⟩, hsame.symm ▸ hs⟩
  | read hcmd =>
    have hne : r.cmd ≠ cmdWrite := fun h => absurd (hcmd.symm.trans h) (by decide)
    refine ⟨⟨fun h => absurd (hcmd.symm.trans h) (by decide), fun h => absurd h hne⟩, ?_⟩
    rw [hother hne]
    exact runAlone_keeping (I := I f) hB.back (exec_keeping hB) (readAt_keeping d _ _) hs hK
  | write hcmd hlong hshort hack =>
    refine ⟨⟨fun h => absurd (hcmd.symm.trans h) (by decide), fun h hbit _ => hwrites h hbit⟩, ?_⟩
    have hwrite := hB.write f r.offset.toInt64 r.data s.backend hshort hs hK
    have hdone : reply = r.ack ↔ (B.write r.offset.toInt64 r.data s.backend).1 = .ok () := hack
    have hsame : r.promised reply f = if (B.write r.offset.toInt64 r.data s.backend).1 = .ok () then
        patch 0 f (natOf r.offset.toInt64) r.data else f := by
      unfold Request.promised
      simp only [hcmd, hdone, true_and]
    rw [hsame]
    exact hwrite
  | flush hcmd hack =>
    have hne : r.cmd ≠ cmdWrite := fun h => absurd (hcmd.symm.trans h) (by decide)
    obtain ⟨hkept, hdurable⟩ := hB.flush f s.backend hs hK
    rw [hother hne]
    exact ⟨⟨fun _ hreply => hdurable (returned_eq_ok.mp (hack.mp hreply)), fun h => absurd h hne⟩, hkept⟩
  | disconnect hcmd =>
    have hne : r.cmd ≠ cmdWrite := fun h => absurd (hcmd.symm.trans h) (by decide)
    refine ⟨⟨fun h => absurd (hcmd.symm.trans h) (by decide), fun h => absurd h hne⟩, ?_⟩
    rw [hother hne]
    exact runAlone_keeping (I := I f) hB.back (exec_keeping hB) (disconnect_keeping d) hs hK

theorem serve_back (hB : B.Promises durable I K) (r : Request)
    (hK : K (r.serve (d.device B) s).2.backend) : K s.backend := by
  have htaken := serve_taken (d := d.device B) rfl r s
  generalize r.serve (d.device B) s = result at htaken hK
  obtain ⟨reply, s'⟩ := result
  cases htaken with
  | refused => exact hK
  | read => exact (runAlone_back hB.back (d.readAt _ _) hK).1
  | write => exact (runAlone_back (d := d) hB.back (StorageDevice.writeAt _ _) hK).1
  | flush => exact (runAlone_back (d := d) hB.back StorageDevice.flush hK).1
  | disconnect => exact (runAlone_back hB.back d.disconnect hK).1

theorem serveAll_back (hB : B.Promises durable I K) (rs : List Request)
    (hK : K (Request.serveAll (d.device B) rs s).backend) : K s.backend := by
  induction rs generalizing s with
  | nil => exact hK
  | cons r rs ih => exact serve_back hB r (ih hK)

/-- The run: every request of a sequence keeps its promise. -/
theorem keepAll_of_promises (hB : B.Promises durable I K) {rs : List Request}
    (hfua : ∀ r ∈ rs, r.cmd = cmdWrite → r.fua → r.length = 0) (hs : I f s.backend)
    (hK : K (Request.serveAll (d.device B) rs s).backend) :
    Request.KeepAll (d.device B) (fun s => durable s.backend) f rs s := by
  induction rs generalizing f s with
  | nil => trivial
  | cons r rs ih =>
    obtain ⟨hkeeps, hnext⟩ := serve_keeps hB (hfua r List.mem_cons_self) hs (serveAll_back hB rs hK)
    exact ⟨hkeeps, ih (fun r hr => hfua r (List.mem_cons_of_mem _ hr)) hnext hK⟩

end Promises

/-! ## The engine, with syncs that may fail -/

/-- For each call of `FlushDirty` to come: which of its calls to the outside fail, and how. -/
abbrev FlushPlans := Nat → Op → Fault

/-- Alone, with the faults of a plan. -/
def planned (P : Platform) (who : Caller) (plan : Op → Fault) : Runner World := fun _ t w =>
  (machine P (fun _ _ _ => True) who).run plan t w

/-- The engine as the backend of a device: `FlushDirty` runs under the next plan, the other methods without
faults. -/
def plannedBackend (P : Platform) (b : Backend) (who : Caller) (id : String) :
    StorageBackend (World × FlushPlans) :=
  let B := sessionBackend (alone P who) P b id
  { read := fun offset length s => ((B.read offset length s.1).1, (B.read offset length s.1).2, s.2)
    write := fun offset data s => ((B.write offset data s.1).1, (B.write offset data s.1).2, s.2)
    flushDirty := fun s =>
      let result := (sessionBackend (planned P who (s.2 0)) P b id).flushDirty s.1
      (result.1, result.2, fun n => s.2 (n + 1))
    commitWithOptions := fun opts s =>
      ((B.commitWithOptions opts s.1).1, (B.commitWithOptions opts s.1).2, s.2)
    stop := fun s => ((B.stop s.1).1, (B.stop s.1).2, s.2)
    onDisconnect := fun s => s }

/-- The bytes of a session a power loss would leave. -/
def durableOf (P : Platform) (r : SessRef) (w : World) : Nat → UInt8 := contentOf P r w.lose

/-- The session has the array `f`, or it is gone. -/
def Holding (P : Platform) (r : SessRef) (d : StorageDevice) (f : Nat → UInt8) (w : World) : Prop :=
  (Serving P r d w ∧ contentOf P r w = f) ∨ w.registered r = false

section Engine

variable {P : Platform} {b : Backend} {who : Caller} {id : String} {d : StorageDevice} {w : World}
  {f : Nat → UInt8}

/-- A method of a session that is gone fails, and changes nothing. -/
theorem alone_unknown {α : Type} (hreg : w.registered (who.node, id) = false) (g : Storage.Volume → Storage.M α) :
    alone P who _ (Backend.session id >>= g).run w = (.error .notFound, w) := by
  obtain ⟨herror, hsame⟩ := alone_wp (P := P) (Storage.unknown_fails hreg g)
  exact Prod.ext herror hsame

/-- So its reads and writes fail. -/
theorem read_unknown (hreg : w.registered (who.node, id) = false) (offset length : Int64) :
    (sessionBackend (alone P who) P b id).read offset length w = (.error (.outside "storage"), w) := by
  have hrun : alone P who _ (b.read P id offset length).run w = (.error .notFound, w) := alone_unknown hreg _
  show Prod.map passOut (fun s => s) (alone P who _ (b.read P id offset length).run w) = _
  rw [hrun]
  rfl

theorem write_unknown (hreg : w.registered (who.node, id) = false) (offset : Int64) (data : Bytes) :
    (sessionBackend (alone P who) P b id).write offset data w = (.error (.outside "storage"), w) := by
  have hrun : alone P who _ (b.write P id offset data).run w = (.error .notFound, w) := alone_unknown hreg _
  show Prod.map passOut (fun s => s) (alone P who _ (b.write P id offset data).run w) = _
  rw [hrun]
  rfl

theorem planned_wp {α : Type} {t : Prog Storage.sig α} {Q : α → World → Prop} (plan : Op → Fault)
    (h : (machine P (fun _ _ _ => True) who).wp t Q w) :
    Q (planned P who plan α t w).1 (planned P who plan α t w).2 := by
  have hexec : (machine P (fun _ _ _ => True) who).exec =
    (machine P (fun _ _ _ => True) who).exec := rfl
  exact (runs_run_of_final hexec (K := fun _ => True) (fun _ _ _ => ⟨trivial, trivial⟩) t w trivial).2.wp h

theorem passOn_eq_ok {α : Type} {result : Except Storage.Err α} {a : α} :
    passOn result = .ok a ↔ result = .ok a := by
  cases result with
  | error e => simp [passOn]
  | ok b => simp [passOn]

theorem holding_read (h : Holding P (who.node, id) d f w) (offset length : Int64) :
    Holding P (who.node, id) d f ((sessionBackend (alone P who) P b id).read offset length w).2 := by
  rcases h with ⟨hserving, hcontent⟩ | hreg
  · obtain ⟨hserving', hcontent', -⟩ := alone_read (b := b) hserving offset length
    exact .inl ⟨hserving', hcontent'.trans hcontent⟩
  · rw [read_unknown hreg]
    exact .inr hreg

theorem holding_write (h : Holding P (who.node, id) d f w) (offset : Int64) (data : Bytes)
    (hlength : data.length < 2 ^ 63) :
    let result := (sessionBackend (alone P who) P b id).write offset data w
    Holding P (who.node, id) d (if result.1 = .ok () then patch 0 f (natOf offset) data else f) result.2 := by
  rcases h with ⟨hserving, hcontent⟩ | hreg
  · obtain ⟨hserving', hdone, hrefused⟩ := alone_write (b := b) hserving offset data hlength
    refine .inl ⟨hserving', ?_⟩
    by_cases hrange : d.Holds offset.toInt data.length
    · obtain ⟨hok, hpatched⟩ := hdone hrange
      rw [hpatched, if_pos hok, hcontent]
    · obtain ⟨⟨e, he⟩, hsame⟩ := hrefused hrange
      rw [hsame, he, if_neg (nomatch ·), hcontent]
  · rw [write_unknown hreg]
    exact .inr hreg

theorem holding_commit (h : Holding P (who.node, id) d f w) (opts : CommitOptions)
    (hcollision : NoCollision P ((sessionBackend (alone P who) P b id).commitWithOptions opts w).2.hashed) :
    Holding P (who.node, id) d f ((sessionBackend (alone P who) P b id).commitWithOptions opts w).2 := by
  rcases h with ⟨hserving, hcontent⟩ | hreg
  · obtain ⟨hserving', hcontent'⟩ := alone_commit hserving opts hcollision
    exact .inl ⟨hserving', hcontent'.trans hcontent⟩
  · have hrun : alone P who _ (b.commitWithOptions P id opts).run w = (.error .notFound, w) := alone_unknown hreg _
    show Holding P (who.node, id) d f (alone P who _ (b.commitWithOptions P id opts).run w).2
    rw [hrun]
    exact .inr hreg

theorem holding_stop (h : Holding P (who.node, id) d f w)
    (hcollision : NoCollision P ((sessionBackend (alone P who) P b id).stop w).2.hashed) :
    Holding P (who.node, id) d f ((sessionBackend (alone P who) P b id).stop w).2 := by
  obtain ⟨-, tr, hrun⟩ := alone_noCollision (t := (Backend.stop id).run) hcollision
  rcases h with ⟨hserving, -⟩ | hreg
  · obtain ⟨⟨-, hsame⟩, -⟩ := hrun.wp (Storage.stop_spec hserving.sound.closed hserving.session.1)
    exact .inr ((congrFun hsame.registered _).trans (Function.update_self _ _ _))
  · obtain ⟨-, hsame⟩ := hrun.wp (Storage.stop_unknown hreg)
    refine .inr ?_
    show (alone P who _ (Backend.stop id).run w).2.registered _ = false
    rw [hsame]
    exact hreg

/-- **A flush that returns leaves the array durable**, one that fails leaves the array. -/
theorem holding_flush (h : Holding P (who.node, id) d f w) (plans : FlushPlans) :
    let result := (plannedBackend P b who id).flushDirty (w, plans)
    Holding P (who.node, id) d f result.2.1 ∧
      (result.1 = .ok () → durableOf P (who.node, id) result.2.1 = f) := by
  dsimp only
  generalize hrun : planned P who (plans 0) _ (Backend.flushDirty id).run w = run
  have hresult : (plannedBackend P b who id).flushDirty (w, plans) =
      (passOn run.1, run.2, fun n => plans (n + 1)) := by
    rw [← hrun]
    rfl
  rw [hresult, passOn_eq_ok]
  rcases h with ⟨hserving, hcontent⟩ | hreg
  · obtain ⟨hreg, s, hs, -⟩ := hserving.session
    have hspec : (machine P (fun _ _ _ => True) who).wp (Backend.flushDirty id).run _ w :=
      Storage.flushDirty_spec hreg hs
    have hflushed := planned_wp (plans 0) hspec
    rw [hrun] at hflushed
    obtain ⟨hsynced, hdone, -⟩ := hflushed
    obtain ⟨hserving', hcontent'⟩ :=
      hserving.of_flat (hsynced.sound hserving.sound) (hsynced.flat hserving.sound.closed)
    refine ⟨.inl ⟨hserving', hcontent'.trans hcontent⟩, fun hok => ?_⟩
    have hs' : run.2.sessions (who.node, id) = some s := by
      rw [hsynced.frame]
      exact hs
    refine Eq.trans ?_ (hcontent'.trans hcontent)
    unfold durableOf contentOf sessionArray
    rw [Storage.Flat.sessions_lose hs' (hdone hok)]
  · have hspec : (machine P (fun _ _ _ => True) who).wp (Backend.flushDirty id).run _ w :=
      Storage.unknown_fails hreg _
    obtain ⟨herror, hsame⟩ := planned_wp (plans 0) hspec
    rw [hrun] at herror hsame
    rw [herror, hsame]
    exact ⟨.inr hreg, (nomatch ·)⟩

/-- A collision stays. -/
theorem planned_noCollision {α : Type} {plan : Op → Fault} {t : Prog Storage.sig α}
    (h : NoCollision P (planned P who plan α t w).2.hashed) : NoCollision P w.hashed := by
  have hexec : (machine P (fun _ _ _ => True) who).exec =
    (machine P (fun _ _ _ => True) who).exec := rfl
  exact (runs_run_of_final (K := fun w => NoCollision P w.hashed) hexec
    (fun w o h => ⟨(Storage.collisionFree_of_noCollision (plan o) w o h).1, trivial⟩) t w h).1

theorem plannedBackend_promises (P : Platform) (b : Backend) (who : Caller) (id : String)
    (d : StorageDevice) :
    (plannedBackend P b who id).Promises (fun s => durableOf P (who.node, id) s.1)
      (fun f s => Holding P (who.node, id) d f s.1) (fun s => NoCollision P s.1.hashed) where
  back := by
    intro d o s h
    cases o with
    | backendRead offset length => exact (alone_noCollision (t := (b.read P id offset length).run) h).1
    | backendWrite offset data => exact (alone_noCollision (t := (b.write P id offset data).run) h).1
    | backendFlushDirty => exact planned_noCollision (t := (Backend.flushDirty id).run) h
    | backendCommit opts => exact (alone_noCollision (t := (b.commitWithOptions P id opts).run) h).1
    | backendStop => exact (alone_noCollision (t := (Backend.stop id).run) h).1
    | _ => exact h
  read _ offset length _ h _ := holding_read h offset length
  write _ offset data _ hlength h _ := holding_write h offset data hlength
  flush _ s h _ := holding_flush h s.2
  commit _ opts _ h hcollision := holding_commit h opts hcollision
  stop _ _ h hcollision := holding_stop (b := b) h hcollision
  onDisconnect _ _ h := h

end Engine

/-- The session of a new volume, with no fault planned. -/
def exportedState : DeviceState (World × FlushPlans) := ⟨.zero, exported, fun _ _ => .none⟩

abbrev exportedDevice : Device (DeviceState (World × FlushPlans)) :=
  smallDevice.device (plannedBackend goRuntime Storage.plainNode ⟨0, 0⟩ (goRuntime.uuid 0))

/-- Two writes and two flushes, the first of which meets a disk that fails. -/
def flushedRequests : List Request :=
  [⟨0, cmdWrite, 1, 0, 2, [7, 8]⟩, ⟨1, cmdFlush, 2, 0, 0, []⟩, ⟨0, cmdWrite, 3, 5, 1, [9]⟩, ⟨0, cmdFlush, 4, 0, 0, []⟩]

/-- The first flush fails, the second does not. -/
def firstFlushFails : FlushPlans := fun n _ => if n = 0 then .fail else .none

end OrcaBlocks.Nbd
