/-
# OrcaBlocks.Nbd.Framing — one reply per request, and not a byte more read than the request has.

A stream of requests stays readable only as long as each branch of `handleRequest` reads exactly the header and
the payload of the request in front: one byte too many or too few, and every later request is misread. The step
lemma is that for one request, with a case for each branch (refused by the range check, unknown command, a device
that fails, a short answer of `ReadAtInto`); the run lemma is an induction on the stream, up to its first DISC.

`ReadAtInto` answers a COUNT. A negative one is a slice out of range in the server.
-/
import OrcaBlocks.Nbd.Handshake
import OrcaBlocks.Nbd.RangeCheck
import OrcaBlocks.Nbd.ReadReply

namespace OrcaBlocks.Nbd

open OrcaBlocks.Lib
open OrcaBlocks.Storage (Bytes)
open Server

variable {δ α : Type}

/-! ## The wire format -/

/-- A request as the client means it. -/
structure Request where
  flags : UInt16
  cmd : UInt16
  handle : UInt64
  offset : UInt64
  length : UInt32
  payload : Bytes
  deriving DecidableEq, Repr

namespace Request

def header (r : Request) : Bytes :=
  putUint32 requestMagic ++ (putUint16 r.flags ++ (putUint16 r.cmd ++ (putUint64 r.handle ++
    (putUint64 r.offset ++ putUint32 r.length))))

def encode (r : Request) : Bytes := r.header ++ r.payload

/-- At most 32 MiB, a payload for WRITE and for no other command, and nothing to say for FLUSH and DISC. -/
structure WellFormed (r : Request) : Prop where
  length : r.length.toNat ≤ 32 * 1024 * 1024
  payload : r.payload.length = if r.cmd = cmdWrite then r.length.toNat else 0
  bare : r.cmd = cmdFlush ∨ r.cmd = cmdDisconnect → r.offset = 0 ∧ r.length = 0

instance (r : Request) : Decidable r.WellFormed :=
  decidable_of_iff (r.length.toNat ≤ 32 * 1024 * 1024 ∧
      r.payload.length = (if r.cmd = cmdWrite then r.length.toNat else 0) ∧
      (r.cmd = cmdFlush ∨ r.cmd = cmdDisconnect → r.offset = 0 ∧ r.length = 0))
    ⟨fun ⟨h₁, h₂, h₃⟩ => ⟨h₁, h₂, h₃⟩, fun ⟨h₁, h₂, h₃⟩ => ⟨h₁, h₂, h₃⟩⟩

/-- The bytes are one reply to the request: its handle, and a payload of the length asked for exactly if it is a
READ answered with errno 0. -/
def AnsweredBy (r : Request) (reply : Bytes) : Prop :=
  ∃ errno data, reply = replyHeader r.handle errno ++ data ∧
    data.length = if r.cmd = cmdRead ∧ errno = 0 then r.length.toNat else 0

@[simp] theorem length_header (r : Request) : r.header.length = 28 := by
  simp [header]

theorem length_encode_pos (r : Request) : 0 < r.encode.length := by
  simp [encode]

theorem greets_header (r : Request) : Greets r.header := by
  unfold Greets header
  rw [List.take_left' (length_putUint32 _), uint32_putUint32]

/-- A field at its place. -/
theorem slice_append {a b c : Bytes} {off n : Nat} (ha : a.length = off) (hb : b.length = n) :
    slice (a ++ (b ++ c)) off n = b := by
  rw [slice, List.drop_left' ha, List.take_left' hb]

theorem parseHeader_header (r : Request) :
    parseHeader r.header = ⟨r.flags, r.cmd, r.handle, r.offset.toInt64, r.length.toUInt64.toInt64⟩ := by
  have hflags : slice r.header 4 2 = putUint16 r.flags := slice_append (by simp) (by simp)
  have hcmd : slice r.header 6 2 = putUint16 r.cmd := by
    rw [header, ← List.append_assoc]
    exact slice_append (by simp) (by simp)
  have hhandle : slice r.header 8 8 = putUint64 r.handle := by
    rw [header, ← List.append_assoc, ← List.append_assoc]
    exact slice_append (by simp) (by simp)
  have hoffset : slice r.header 16 8 = putUint64 r.offset := by
    rw [header, ← List.append_assoc, ← List.append_assoc, ← List.append_assoc]
    exact slice_append (by simp) (by simp)
  have hlength : slice r.header 24 4 = putUint32 r.length := by
    rw [header, ← List.append_assoc, ← List.append_assoc, ← List.append_assoc, ← List.append_assoc, slice,
      List.drop_left' (by simp), List.take_of_length_le (by simp)]
  unfold parseHeader
  rw [hflags, hcmd, hhandle, hoffset, hlength, uint16_putUint16, uint16_putUint16, uint64_putUint64,
    uint64_putUint64, uint32_putUint32]

theorem natOf_length (r : Request) : natOf r.length.toUInt64.toInt64 = r.length.toNat := by
  rw [natOf, toInt_toInt64, Int.toNat_natCast]

end Request

/-! ## Devices -/

/-- A device that returns from its calls, and from a read with an error or with what was asked for. -/
structure Device.Answers (d : Device δ) : Prop where
  size : ∀ s, 0 ≤ (d.size s).toInt
  readAt : d.readAtInto = none → ∀ offset length s, 0 ≤ length.toInt →
    (∃ e, (d.readAt offset length s).1 = .error e) ∨
      ∃ data, (d.readAt offset length s).1 = .ok data ∧ data.length = natOf length
  readAtInto : ∀ readAtInto ∈ d.readAtInto, ∀ offset dst s,
    (∃ e, (readAtInto offset dst s).1 = .error e) ∨
      ∃ n, (readAtInto offset dst s).1 = .ok n ∧ n.toInt ≤ dst.length
  writeAt : ∀ offset data s, (d.writeAt offset data s).1 ≠ .panic
  flush : ∀ s, (d.flush s).1 ≠ .panic
  disconnect : ∀ s, (d.disconnect s).1 ≠ .panic

/-- What `ReadAtInto` answers is a number of bytes. -/
def Device.Counts (d : Device δ) : Prop :=
  ∀ readAtInto ∈ d.readAtInto, ∀ offset dst s n, (readAtInto offset dst s).1 = .ok n → 0 ≤ n.toInt

/-! ## Replies -/

/-- The handler reads nothing and sends one reply, with as much payload as `size` says for its errno. -/
def Replies (handle : UInt64) (size : UInt32 → Nat) (x : Handler δ Unit) (c : Conn δ) : Prop :=
  ∃ errno data c', x c = (.ok (), c') ∧ c'.input = c.input ∧ c'.room = c.room ∧
    c'.output = c.output ++ (replyHeader handle errno ++ data) ∧ data.length = size errno

section Replies

variable {handle : UInt64} {size : UInt32 → Nat} {c : Conn δ} {d : Device δ}

theorem replies_writeReply {errno : UInt32} {data : Bytes} (hroom : c.room = none)
    (hsize : data.length = size errno) : Replies handle size (writeReply handle errno data) c :=
  ⟨errno, data, _, writeWith_of_room hroom _ _, rfl, rfl, List.append_assoc .., hsize⟩

theorem replies_thenPut {buf : Bytes} {x : Handler δ Unit} (h : Replies handle size x c) :
    Replies handle size (thenPut buf x) c := by
  obtain ⟨errno, data, c', hx, hinput, hroom, houtput, hsize⟩ := h
  refine ⟨errno, data, { c' with pool := c'.pool.put buf }, ?_, hinput, hroom, houtput, hsize⟩
  unfold thenPut
  rw [hx]

/-- A first part that neither reads nor writes. -/
theorem replies_bind {x : Handler δ α} {f : α → Handler δ Unit} {a : α} {c' : Conn δ} (hx : x c = (.ok a, c'))
    (hinput : c'.input = c.input) (hroom : c'.room = c.room) (houtput : c'.output = c.output)
    (h : Replies handle size (f a) c') : Replies handle size (x >>= f) c := by
  obtain ⟨errno, data, c'', hf, hinput', hroom', houtput', hsize⟩ := h
  exact ⟨errno, data, c'', (Go.bind_of_ok hx).trans hf, hinput'.trans hinput, hroom'.trans hroom,
    houtput ▸ houtput', hsize⟩

/-- A call that returns. -/
theorem callDevice_returns (call : DeviceCall) {method : Go Err δ α} (h : (method c.device).1 ≠ .panic) :
    ∃ result, callDevice call method c =
        (.ok result, { c with device := (method c.device).2, calls := c.calls ++ [call] }) ∧
      ∀ a, result = .ok a → (method c.device).1 = .ok a := by
  unfold callDevice
  cases hmethod : method c.device with
  | mk outcome device =>
    rw [hmethod] at h
    cases outcome with
    | ok a => exact ⟨.ok a, rfl, by rintro a ⟨⟩; rfl⟩
    | error e => exact ⟨.error e, rfl, fun a ha => nomatch ha⟩
    | panic => exact absurd rfl h

theorem replies_acknowledge (hroom : c.room = none) (hsize : size 0 = 0 ∧ size 5 = 0)
    (result : Except Err Unit) : Replies handle size (acknowledge handle result) c := by
  cases result with
  | error e => exact replies_writeReply hroom hsize.2.symm
  | ok _ => exact replies_writeReply hroom hsize.1.symm

/-- What was filled, or less: the reply is as long as the request asks for. -/
theorem replies_replyFrom {length n : Int64} {buf : Bytes} (hroom : c.room = none) (hlength : 0 ≤ length.toInt)
    (hbuf : natOf length ≤ buf.length) (hcount : 0 ≤ n.toInt) (hn : n.toInt ≤ length.toInt)
    (hsize : size 0 = natOf length) : Replies handle size (replyFrom handle length buf n) c := by
  have hncast := natOf_cast hcount
  have hlcast := natOf_cast hlength
  unfold replyFrom
  by_cases hshort : n < length
  · have hpos : ¬ n < 0 := by
      rw [Int64.lt_iff_toInt_lt]
      exact Int.not_lt.mpr hcount
    rw [if_pos hshort, if_neg hpos]
    refine replies_thenPut (replies_writeReply hroom ?_)
    rw [hsize, List.length_take, length_overwrite (by rw [List.length_replicate]; omega)]
    omega
  · rw [Int64.lt_iff_toInt_lt] at hshort
    rw [if_neg (by rwa [Int64.lt_iff_toInt_lt]), if_neg (by omega)]
    refine replies_thenPut (replies_writeReply hroom ?_)
    rw [hsize, List.length_take]
    omega

/-- A READ, through either method of the device. -/
theorem replies_writeReadReply (hd : d.Answers) (hcounts : d.Counts) {offset length : Int64}
    (hroom : c.room = none) (hlength : 0 ≤ length.toInt) (hsize : size 0 = natOf length ∧ size 5 = 0) :
    Replies handle size (writeReadReply d handle offset length) c := by
  unfold writeReadReply
  cases hinto : d.readAtInto with
  | none =>
    have hanswers := hd.readAt hinto offset length c.device hlength
    have hreturns : (d.readAt offset length c.device).1 ≠ .panic := by
      rcases hanswers with ⟨e, he⟩ | ⟨data, hdata, -⟩
      · rw [he]
        exact (nomatch ·)
      · rw [hdata]
        exact (nomatch ·)
    obtain ⟨result, hcall, hresult⟩ := callDevice_returns (.readAt offset length) hreturns
    refine replies_bind hcall rfl rfl rfl ?_
    cases result with
    | error e => exact replies_writeReply hroom hsize.2.symm
    | ok data =>
      refine replies_writeReply hroom (hsize.1.symm ▸ ?_)
      rcases hanswers with ⟨e, he⟩ | ⟨data', hdata, hlen⟩
      · rw [hresult data rfl] at he
        cases he
      · rw [hresult data rfl] at hdata
        cases hdata
        exact hlen
  | some readAtInto =>
    obtain ⟨buf, pool, hget, hbuf⟩ := getBuffer_spec (natOf length) c
    have hdst : (buf.take (natOf length)).length = natOf length := List.length_take_of_le hbuf
    have hanswers := hd.readAtInto readAtInto hinto offset (buf.take (natOf length)) c.device
    refine replies_bind hget rfl rfl rfl ?_
    have hcap : ∀ dst : Bytes,
        natOf length ≤ (overwrite buf 0 (dst.take (natOf length))).length := by
      intro dst
      rw [length_overwrite (by rw [List.length_take]; omega)]
      exact hbuf
    rcases hanswers with ⟨e, he⟩ | ⟨n, hn, hfits⟩
    · have hcall : callInto offset length (buf.take (natOf length)) readAtInto { c with pool := pool } =
          (.ok (.error e, (readAtInto offset (buf.take (natOf length)) c.device).2.1), { c with
            pool := pool
            device := (readAtInto offset (buf.take (natOf length)) c.device).2.2
            calls := c.calls ++ [.readAtInto offset length] }) := by
        unfold callInto
        dsimp only
        rw [he]
      exact replies_bind hcall rfl rfl rfl (replies_thenPut (replies_writeReply hroom hsize.2.symm))
    · have hcall : callInto offset length (buf.take (natOf length)) readAtInto { c with pool := pool } =
          (.ok (.ok n, (readAtInto offset (buf.take (natOf length)) c.device).2.1), { c with
            pool := pool
            device := (readAtInto offset (buf.take (natOf length)) c.device).2.2
            calls := c.calls ++ [.readAtInto offset length] }) := by
        unfold callInto
        dsimp only
        rw [hn]
      have hlcast := natOf_cast hlength
      refine replies_bind hcall rfl rfl rfl (replies_replyFrom hroom hlength (hcap _) ?_ ?_ hsize.1)
      · exact hcounts readAtInto hinto offset _ c.device n hn
      · omega

end Replies

/-! ## One request -/

/-- The request has been taken: its bytes are read and no others, and one reply to it has been sent. -/
structure Served (r : Request) (c c' : Conn δ) (rest : Bytes) : Prop where
  input : c'.input = rest
  room : c'.room = none
  output : ∃ reply, c'.output = c.output ++ reply ∧ r.AnsweredBy reply
  calls : c'.calls.count .disconnect = c.calls.count .disconnect

section Step

variable {r : Request} {c : Conn δ} {d : Device δ} {rest : Bytes}

/-- What a reply to `r` carries. -/
def Request.payloadSize (r : Request) (errno : UInt32) : Nat :=
  if r.cmd = cmdRead ∧ errno = 0 then r.length.toNat else 0

/-- A handler that replies and says to go on. -/
theorem replies_then {x : Handler δ Unit} (h : Replies r.handle r.payloadSize x c) :
    ∃ c' reply, (do x; pure true : Handler δ Bool) c = (.ok true, c') ∧ c'.input = c.input ∧ c'.room = c.room ∧
      c'.output = c.output ++ reply ∧ r.AnsweredBy reply := by
  obtain ⟨errno, data, c', hx, hinput, hroom, houtput, hsize⟩ := h
  exact ⟨c', _, Go.bind_of_ok hx, hinput, hroom, houtput, errno, data, rfl, hsize⟩

/-- A request refused by the range check is skipped with its payload. -/
theorem refuse_served (hwf : r.WellFormed) (hroom : c.room = none) (hinput : c.input = r.payload ++ rest) :
    ∃ c', refuse (parseHeader r.header) c = (.ok true, c') ∧ Served r c c' rest := by
  have hcalls := (quiet_refuse (parseHeader r.header) c).1
  have hpayload := hwf.payload
  have hreply : ∀ c₁ : Conn δ, c₁.room = none →
      Replies r.handle r.payloadSize (writeReply r.handle 22 []) c₁ := by
    intro c₁ hroom₁
    refine replies_writeReply hroom₁ ?_
    rw [Request.payloadSize, if_neg fun h => absurd h.2 (by decide)]
    rfl
  rw [r.parseHeader_header] at hcalls ⊢
  by_cases hskip : r.cmd = cmdWrite ∧ r.length.toUInt64.toInt64 > 0
  · have hdiscard : discard (natOf r.length.toUInt64.toInt64) c = (.ok (), { c with input := rest }) := by
      unfold discard
      rw [hinput, List.drop_left' (by rw [hpayload, if_pos hskip.1, r.natOf_length])]
    obtain ⟨c', reply, hrun, hinput', hroom', houtput, hanswered⟩ :=
      replies_then (hreply { c with input := rest } hroom)
    have hrefuse : refuse ⟨r.flags, r.cmd, r.handle, r.offset.toInt64, r.length.toUInt64.toInt64⟩ c =
        (.ok true, c') := by
      unfold refuse
      rw [if_pos hskip, Go.bind_of_ok hdiscard]
      exact hrun
    rw [hrefuse] at hcalls
    exact ⟨c', hrefuse, hinput', hroom'.trans hroom, ⟨reply, houtput, hanswered⟩, by rw [hcalls]⟩
  · have hnil : r.payload = [] := by
      apply List.length_eq_zero_iff.mp
      rw [hpayload]
      split
      · rename_i hwrite
        by_contra hlong
        refine hskip ⟨hwrite, ?_⟩
        rw [gt_iff_lt, Int64.lt_iff_toInt_lt, toInt_toInt64, Int64.toInt_zero]
        omega
      · rfl
    rw [hnil, List.nil_append] at hinput
    obtain ⟨c', reply, hrun, hinput', hroom', houtput, hanswered⟩ := replies_then (hreply c hroom)
    have hrefuse : refuse ⟨r.flags, r.cmd, r.handle, r.offset.toInt64, r.length.toUInt64.toInt64⟩ c =
        (.ok true, c') := by
      unfold refuse
      rw [if_neg hskip]
      exact hrun
    rw [hrefuse] at hcalls
    exact ⟨c', hrefuse, hinput'.trans hinput, hroom'.trans hroom, ⟨reply, houtput, hanswered⟩, by rw [hcalls]⟩

/-- A request that the device gets to see, or whose command is unknown. -/
theorem dispatch_served (hd : d.Answers) (hcounts : d.Counts) (hwf : r.WellFormed) (hroom : c.room = none)
    (hinput : c.input = r.payload ++ rest) (hcmd : r.cmd ≠ cmdDisconnect) :
    ∃ c', dispatch d (parseHeader r.header) c = (.ok true, c') ∧ Served r c c' rest := by
  have hcalls := dispatch_calls d (parseHeader r.header) c
  have hpayload := hwf.payload
  have hlength : 0 ≤ r.length.toUInt64.toInt64.toInt := by
    rw [toInt_toInt64]
    exact Int.natCast_nonneg _
  -- only READ has a payload in its reply, and only WRITE one on the wire
  have hplain : r.cmd ≠ cmdRead → ∀ errno, r.payloadSize errno = 0 := by
    intro hread errno
    rw [Request.payloadSize, if_neg fun h => hread h.1]
  have hnil : r.cmd ≠ cmdWrite → c.input = rest := by
    intro hwrite
    rw [if_neg hwrite] at hpayload
    rw [hinput, List.length_eq_zero_iff.mp hpayload, List.nil_append]
  rw [r.parseHeader_header] at hcalls ⊢
  suffices h : ∃ c' reply, dispatch d ⟨r.flags, r.cmd, r.handle, r.offset.toInt64,
      r.length.toUInt64.toInt64⟩ c = (.ok true, c') ∧ c'.input = rest ∧ c'.room = none ∧
      c'.output = c.output ++ reply ∧ r.AnsweredBy reply by
    obtain ⟨c', reply, hrun, hrest, hroom', houtput, hanswered⟩ := h
    rw [hrun] at hcalls
    refine ⟨c', hrun, hrest, hroom', ⟨reply, houtput, hanswered⟩, ?_⟩
    dsimp only at hcalls
    rw [hcalls, List.count_append, Nat.add_eq_left, List.count_eq_zero]
    -- the call of a request is a disconnect only for DISC
    unfold requestCall
    split
    · split
      · simp
      · simp
    · split
      · split
        · simp
        · simp
      · split
        · simp
        · simp
  have hack : r.cmd ≠ cmdRead → ∀ (c₁ : Conn δ) (result : Except Err Unit), c₁.room = none →
      ∃ c' reply, (do acknowledge r.handle result; pure true : Handler δ Bool) c₁ = (.ok true, c') ∧
        c'.input = c₁.input ∧ c'.room = c₁.room ∧ c'.output = c₁.output ++ reply ∧ r.AnsweredBy reply := by
    intro hread c₁ result hroom₁
    exact replies_then (replies_acknowledge hroom₁ ⟨hplain hread 0, hplain hread 5⟩ result)
  unfold dispatch
  dsimp only
  by_cases hread : r.cmd = cmdRead
  · rw [if_pos hread]
    have hwrite : r.cmd ≠ cmdWrite := fun h => absurd (hread.symm.trans h) (by decide)
    have hsize : r.payloadSize 0 = natOf r.length.toUInt64.toInt64 ∧ r.payloadSize 5 = 0 := by
      constructor
      · rw [Request.payloadSize, if_pos ⟨hread, rfl⟩, r.natOf_length]
      · rw [Request.payloadSize, if_neg fun h => absurd h.2 (by decide)]
    have hreplies : Replies r.handle r.payloadSize
        (writeReadReply d r.handle r.offset.toInt64 r.length.toUInt64.toInt64) c :=
      replies_writeReadReply hd hcounts hroom hlength hsize
    obtain ⟨c', reply, hrun, hinput', hroom', houtput, hanswered⟩ := replies_then hreplies
    exact ⟨c', reply, hrun, hinput'.trans (hnil hwrite), hroom'.trans hroom, houtput, hanswered⟩
  rw [if_neg hread]
  by_cases hwrite : r.cmd = cmdWrite
  · rw [if_pos hwrite]
    have hlong : r.payload.length = natOf r.length.toUInt64.toInt64 := by
      rw [hpayload, if_pos hwrite, r.natOf_length]
    have hfull : readFull (natOf r.length.toUInt64.toInt64) c = (.ok r.payload, { c with input := rest }) := by
      rw [readFull_of_le (by rw [hinput, List.length_append]; omega), hinput, List.take_left' hlong,
        List.drop_left' hlong]
    rw [Go.bind_of_ok hfull]
    obtain ⟨result, hcall, -⟩ := callDevice_returns (c := { c with input := rest })
      (.writeAt r.offset.toInt64 r.payload) (hd.writeAt r.offset.toInt64 r.payload c.device)
    rw [Go.bind_of_ok hcall]
    obtain ⟨c', reply, hrun, hinput', hroom', houtput, hanswered⟩ := hack hread { c with
      input := rest
      device := (d.writeAt r.offset.toInt64 r.payload c.device).2
      calls := c.calls ++ [.writeAt r.offset.toInt64 r.payload] } result hroom
    exact ⟨c', reply, hrun, hinput', hroom'.trans hroom, houtput, hanswered⟩
  rw [if_neg hwrite]
  by_cases hflush : r.cmd = cmdFlush
  · rw [if_pos hflush]
    obtain ⟨result, hcall, -⟩ := callDevice_returns .flush (hd.flush c.device)
    rw [Go.bind_of_ok hcall]
    obtain ⟨c', reply, hrun, hinput', hroom', houtput, hanswered⟩ := hack hread
      { c with device := (d.flush c.device).2, calls := c.calls ++ [.flush] } result hroom
    exact ⟨c', reply, hrun, hinput'.trans (hnil hwrite), hroom'.trans hroom, houtput, hanswered⟩
  rw [if_neg hflush, if_neg hcmd]
  have hunknown : Replies r.handle r.payloadSize (writeReply r.handle 22 []) c :=
    replies_writeReply hroom (hplain hread 22).symm
  obtain ⟨c', reply, hrun, hinput', hroom', houtput, hanswered⟩ := replies_then hunknown
  exact ⟨c', reply, hrun, hinput'.trans (hnil hwrite), hroom'.trans hroom, houtput, hanswered⟩

/-- The checks in front of the device let a well-formed request through to the range check. -/
theorem handleRequest_wellFormed (hwf : r.WellFormed) (hinput : c.input = r.encode ++ rest) :
    handleRequest (some d) c =
      (if OutOfRange (d.size c.device) r.offset.toInt64 r.length.toUInt64.toInt64 then
        refuse (parseHeader r.header)
      else dispatch d (parseHeader r.header) : Handler δ Bool) { c with input := r.payload ++ rest } := by
  have hallowed : ¬ r.length.toUInt64.toInt64 > maxRequestBytes := by
    have hmax : maxRequestBytes.toInt = 32 * 1024 * 1024 := by decide
    have hlength := hwf.length
    rw [gt_iff_lt, Int64.lt_iff_toInt_lt, toInt_toInt64, hmax]
    omega
  rw [Request.encode, List.append_assoc] at hinput
  rw [handleRequest_of_input d r.length_header c hinput, if_neg (not_not_intro r.greets_header)]
  rw [r.parseHeader_header]
  rw [if_neg hallowed]

theorem handleRequest_served (hd : d.Answers) (hcounts : d.Counts) (hwf : r.WellFormed) (hroom : c.room = none)
    (hinput : c.input = r.encode ++ rest) (hcmd : r.cmd ≠ cmdDisconnect) :
    ∃ c', handleRequest (some d) c = (.ok true, c') ∧ Served r c c' rest := by
  rw [handleRequest_wellFormed hwf hinput]
  have hback : ∀ c' : Conn δ, Served r { c with input := r.payload ++ rest } c' rest → Served r c c' rest :=
    fun c' h => ⟨h.input, h.room, h.output, h.calls⟩
  split
  · obtain ⟨c', hrun, hserved⟩ := refuse_served (c := { c with input := r.payload ++ rest }) hwf hroom rfl
    exact ⟨c', hrun, hback c' hserved⟩
  · obtain ⟨c', hrun, hserved⟩ :=
      dispatch_served (c := { c with input := r.payload ++ rest }) hd hcounts hwf hroom rfl hcmd
    exact ⟨c', hrun, hback c' hserved⟩

/-- DISC: one call of the device, nothing sent, and the loop ends. -/
theorem handleRequest_disconnect (hd : d.Answers) (hwf : r.WellFormed) (hinput : c.input = r.encode ++ rest)
    (hcmd : r.cmd = cmdDisconnect) :
    ∃ result, handleRequest (some d) c = (result,
        { c with input := rest, device := (d.disconnect c.device).2, calls := c.calls ++ [.disconnect] }) ∧
      result ≠ .ok true ∧ result ≠ .panic := by
  obtain ⟨hoffset, hlength⟩ := hwf.bare (.inr hcmd)
  have hnil : r.payload = [] := by
    have hpayload := hwf.payload
    rw [if_neg (fun h => absurd (hcmd.symm.trans h) (by decide))] at hpayload
    exact List.length_eq_zero_iff.mp hpayload
  have hrange : ¬ OutOfRange (d.size c.device) r.offset.toInt64 r.length.toUInt64.toInt64 := by
    have hzero : (0 : UInt64).toInt64.toInt = 0 := rfl
    have hzero' : (0 : UInt32).toUInt64.toInt64.toInt = 0 := rfl
    rw [hoffset, hlength, not_outOfRange_iff (by rw [hzero']) (by rw [hzero, hzero']; omega), hzero, hzero']
    exact ⟨Int.le_refl 0, hd.size c.device⟩
  obtain ⟨result, hcall, -⟩ := callDevice_returns (c := { c with input := rest }) .disconnect
    (hd.disconnect c.device)
  rw [handleRequest_wellFormed hwf hinput, if_neg hrange, r.parseHeader_header, hnil, List.nil_append]
  unfold dispatch
  dsimp only
  rw [hcmd, if_neg (by decide), if_neg (by decide), if_neg (by decide), if_pos rfl]
  cases result with
  | error e =>
    refine ⟨.error e, ?_, nofun, nofun⟩
    exact Go.bind_of_ok hcall
  | ok a =>
    refine ⟨.ok false, ?_, nofun, nofun⟩
    exact Go.bind_of_ok hcall

end Step

/-! ## The stream -/

/-- The request does not end the connection. -/
def Request.GoesOn (r : Request) : Bool := r.cmd ≠ cmdDisconnect

/-- What a connection has done with a stream of requests: one reply each, in their order, up to the first DISC,
and no byte read behind it. -/
structure Framed (requests : List Request) (c c' : Conn δ) : Prop where
  output : ∃ replies, c'.output = c.output ++ replies.flatten ∧
    List.Forall₂ Request.AnsweredBy (requests.takeWhile Request.GoesOn) replies
  input : c'.input = ((requests.dropWhile Request.GoesOn).drop 1).flatMap Request.encode
  calls : c'.calls.count .disconnect =
    c.calls.count .disconnect + if requests.all Request.GoesOn then 0 else 1

theorem serveRequests_framed {d : Device δ} (hd : d.Answers) (hcounts : d.Counts) (requests : List Request)
    (hwf : ∀ r ∈ requests, r.WellFormed) (fuel k : Nat) (hfuel : requests.length < fuel) (c : Conn δ)
    (hroom : c.room = none) (hinput : c.input = requests.flatMap Request.encode) :
    (serveRequests (fun _ => false) (some d) fuel k c).1 ≠ .panic ∧
      Framed requests c (serveRequests (fun _ => false) (some d) fuel k c).2 := by
  induction requests generalizing fuel k c with
  | nil =>
    -- the client is done: the next header is the end of the stream
    obtain ⟨fuel, rfl⟩ := Nat.exists_eq_add_of_lt hfuel
    have hread : handleRequest (some d) c = (.error .eof, { c with input := [] }) := by
      have hempty : c.input = [] := hinput
      refine Go.bind_of_error ?_
      rw [readFull_of_not_le (by rw [hempty]; decide), if_pos hempty]
    have hrun : serveRequests (fun _ => false) (some d) (0 + fuel + 1) k c =
        (.error .eof, { c with input := [] }) := by
      unfold serveRequests
      rw [if_neg Bool.false_ne_true]
      exact Go.bind_of_error hread
    rw [List.length_nil, hrun]
    exact ⟨nofun, ⟨[], (List.append_nil _).symm, .nil⟩, rfl, rfl⟩
  | cons r requests ih =>
    obtain ⟨fuel, rfl⟩ : ∃ n, fuel = n + 1 := ⟨fuel - 1, by omega⟩
    rw [List.length_cons] at hfuel
    rw [List.flatMap_cons] at hinput
    unfold serveRequests
    rw [if_neg Bool.false_ne_true]
    by_cases hcmd : r.cmd = cmdDisconnect
    · obtain ⟨result, hrun, hends, hpanic⟩ :=
        handleRequest_disconnect hd (hwf r List.mem_cons_self) hinput hcmd
      have hstop : Request.GoesOn r = false := by simp [Request.GoesOn, hcmd]
      have hframed : Framed (r :: requests) c { c with
          input := requests.flatMap Request.encode
          device := (d.disconnect c.device).2
          calls := c.calls ++ [.disconnect] } := by
        refine ⟨⟨[], (List.append_nil _).symm, ?_⟩, ?_, ?_⟩
        · rw [List.takeWhile_cons, hstop]
          exact .nil
        · rw [List.dropWhile_cons, hstop]
          rfl
        · rw [List.all_cons, hstop, List.count_append]
          rfl
      cases result with
      | ok keepGoing =>
        cases keepGoing with
        | true => exact absurd rfl hends
        | false =>
          rw [Go.bind_of_ok hrun]
          exact ⟨nofun, hframed⟩
      | error e =>
        rw [Go.bind_of_error hrun]
        exact ⟨nofun, hframed⟩
      | panic => exact absurd rfl hpanic
    · obtain ⟨c', hrun, hserved⟩ :=
        handleRequest_served hd hcounts (hwf r List.mem_cons_self) hroom hinput hcmd
      have hgoes : Request.GoesOn r = true := by simp [Request.GoesOn, hcmd]
      obtain ⟨hpanic, ⟨replies, houtput, hanswered⟩, hleft, hcalls⟩ :=
        ih (fun r' hr' => hwf r' (List.mem_cons_of_mem _ hr')) fuel (k + 1) (by omega) c' hserved.room
          hserved.input
      obtain ⟨reply, hreply, hanswers⟩ := hserved.output
      rw [Go.bind_of_ok hrun, if_pos rfl]
      refine ⟨hpanic, ⟨reply :: replies, ?_, ?_⟩, ?_, ?_⟩
      · rw [houtput, hreply, List.flatten_cons, List.append_assoc]
      · rw [List.takeWhile_cons, hgoes]
        exact .cons hanswers hanswered
      · rw [List.dropWhile_cons, hgoes]
        exact hleft
      · rw [hcalls, hserved.calls, List.all_cons, hgoes, Bool.true_and]

/-- A device whose `ReadAtInto` answers `-1`. -/
def miscounting : Device Unit :=
  { fixedDevice with readAtInto := some fun _ dst s => (.ok (-1), dst, s) }

/-- It does what the interface asks for, with an answer that is not more than the length. -/
theorem miscounting_answers : miscounting.Answers where
  size _ := show 0 ≤ (4 : Int64).toInt by decide
  readAt h := nomatch h
  readAtInto := by
    rintro readAtInto ⟨⟩ offset dst s
    refine .inr ⟨-1, rfl, ?_⟩
    have hminus : (-1 : Int64).toInt = -1 := by decide
    rw [hminus]
    omega
  writeAt _ _ _ := nofun
  flush _ := nofun
  disconnect _ := nofun

/-- A client that asks for the export and sends a READ of two bytes and a DISC. -/
def readingClient : Conn Unit where
  input := putUint32 3 ++ Opt.encode ⟨optExportName, []⟩ ++
    [⟨0, cmdRead, 9, 0, 2, []⟩, ⟨0, cmdDisconnect, 8, 0, 0, []⟩].flatMap Request.encode
  output := []
  room := none
  pool := ⟨[], []⟩
  calls := []
  device := ()

end OrcaBlocks.Nbd
