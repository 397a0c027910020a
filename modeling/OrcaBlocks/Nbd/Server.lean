/-
# OrcaBlocks.Nbd.Server — the NBD server of `pkg/nbd/server.go`.

One connection: the bytes the client sends, the bytes the server has sent, and the device behind it.
What the server does with a device is a method call on an interface, so the device is a parameter
here: any state with any methods, which may fail and may panic. The calls made are logged.

The client's bytes are a list: a read that needs more than is left fails, as `io.ReadFull` does when
the client closes its side. A write fails once the connection is broken; `room` is the number of
writes left until then.

A buffer of the pool is a list as long as its CAPACITY, with whatever the requests before left in it. What
`sync.Pool` hands out is its own choice, so the choices are part of the state.

Logging and the statistics collector have no effect on the connection and are left out.
-/
import OrcaBlocks.Lib.BigEndian
import OrcaBlocks.Lib.Bytes
import OrcaBlocks.Lib.Go
import OrcaBlocks.Lib.MachineInt
import OrcaBlocks.Storage.Types

namespace OrcaBlocks.Nbd

open OrcaBlocks.Lib
open OrcaBlocks.Storage (Bytes)

/-! ## Words on the wire -/

def putUint16 (x : UInt16) : Bytes := bigEndian 2 x.toNat
def putUint32 (x : UInt32) : Bytes := bigEndian 4 x.toNat
def putUint64 (x : UInt64) : Bytes := bigEndian 8 x.toNat

def uint16 (b : Bytes) : UInt16 := UInt16.ofNat (ofBigEndian b)
def uint32 (b : Bytes) : UInt32 := UInt32.ofNat (ofBigEndian b)
def uint64 (b : Bytes) : UInt64 := UInt64.ofNat (ofBigEndian b)

@[simp] theorem length_putUint16 (x : UInt16) : (putUint16 x).length = 2 := length_bigEndian ..
@[simp] theorem length_putUint32 (x : UInt32) : (putUint32 x).length = 4 := length_bigEndian ..
@[simp] theorem length_putUint64 (x : UInt64) : (putUint64 x).length = 8 := length_bigEndian ..

@[simp] theorem uint16_putUint16 (x : UInt16) : uint16 (putUint16 x) = x := by
  have hlt : x.toNat < 256 ^ 2 := x.toNat_lt
  rw [uint16, putUint16, ofBigEndian_bigEndian, Nat.mod_eq_of_lt hlt, UInt16.ofNat_toNat]

@[simp] theorem uint32_putUint32 (x : UInt32) : uint32 (putUint32 x) = x := by
  have hlt : x.toNat < 256 ^ 4 := x.toNat_lt
  rw [uint32, putUint32, ofBigEndian_bigEndian, Nat.mod_eq_of_lt hlt, UInt32.ofNat_toNat]

@[simp] theorem uint64_putUint64 (x : UInt64) : uint64 (putUint64 x) = x := by
  have hlt : x.toNat < 256 ^ 8 := x.toNat_lt
  rw [uint64, putUint64, ofBigEndian_bigEndian, Nat.mod_eq_of_lt hlt, UInt64.ofNat_toNat]

theorem putUint32_uint32 {b : Bytes} (h : b.length = 4) : putUint32 (uint32 b) = b := by
  have hlt := ofBigEndian_lt b
  rw [h] at hlt
  rw [putUint32, uint32, UInt32.toNat_ofNat_of_lt' hlt]
  exact h ▸ bigEndian_ofBigEndian b

theorem putUint64_uint64 {b : Bytes} (h : b.length = 8) : putUint64 (uint64 b) = b := by
  have hlt := ofBigEndian_lt b
  rw [h] at hlt
  rw [putUint64, uint64, UInt64.toNat_ofNat_of_lt' hlt]
  exact h ▸ bigEndian_ofBigEndian b

/-! ## Constants -/

def nbdMagic : UInt64 := 0x4e42444d41474943
def iHaveOpt : UInt64 := 0x49484156454f5054
def requestMagic : UInt32 := 0x25609513
def replyMagic : UInt32 := 0x67446698
def optExportName : UInt32 := 1
def optAbort : UInt32 := 2
def optGo : UInt32 := 7
def repMagic : UInt64 := 0x3e889045565a9
def repAck : UInt32 := 1
def repInfo : UInt32 := 3
def repErrUnsup : UInt32 := 0x80000001
def infoExport : UInt16 := 0
def flagFixedNew : UInt16 := 1
def flagNoZeroes : UInt16 := 2
def transHasFlags : UInt16 := 1
def transSendFlush : UInt16 := 4
def transSendFUA : UInt16 := 8
def cmdRead : UInt16 := 0
def cmdWrite : UInt16 := 1
def cmdDisconnect : UInt16 := 2
def cmdFlush : UInt16 := 3
def maxRequestBytes : Int64 := 32 * 1024 * 1024

/-! ## Connections and devices -/

/-- The errors of the package, and those it passes on. -/
inductive Err where
  | eof
  | unexpectedEOF
  /-- `fmt.Errorf(format, arg)`. -/
  | errorf (format : String) (arg : Nat)
  /-- A write to a broken connection. -/
  | write
  /-- The error of the context. -/
  | ctx
  /-- An error of a device, a resolver or a storage backend. -/
  | outside (text : String)
  deriving DecidableEq, Repr

/-- A call the server makes to a device. -/
inductive DeviceCall where
  | readAt (offset length : Int64)
  | readAtInto (offset length : Int64)
  | writeAt (offset : Int64) (data : Bytes)
  | flush
  | disconnect
  deriving DecidableEq, Repr

/-- A `Device` on the state `δ`. A device may have `ReadAtInto`, which is given the offset and what the
buffer holds; it answers the number of bytes it filled, and leaves the buffer and the state changed. -/
structure Device (δ : Type) where
  size : δ → Int64
  readAt : Int64 → Int64 → Go Err δ Bytes
  readAtInto : Option (Int64 → Bytes → δ → Outcome Err Int64 × Bytes × δ)
  writeAt : Int64 → Bytes → Go Err δ Unit
  flush : Go Err δ Unit
  disconnect : Go Err δ Unit

/-- `readBufferPool`: the buffers put back, and the choices `Get` will make: one of them, or a new one. -/
structure BufferPool where
  free : List Bytes
  picks : List (Option Nat)
  deriving DecidableEq, Repr

structure Conn (δ : Type) where
  /-- What the client has sent and the server has not read. -/
  input : Bytes
  /-- What the server has sent. -/
  output : Bytes
  /-- How many more writes succeed; `none` if all do. -/
  room : Option Nat
  pool : BufferPool
  calls : List DeviceCall
  device : δ

/-- The `Server`. A `nil` device is `none`. -/
structure Server (δ : Type) where
  device : Option (Device δ)
  resolve : Option (Bytes → Except Err (Option (Device δ)))

variable {δ : Type}

abbrev Handler (δ : Type) := Go Err (Conn δ)

/-- `io.ReadFull`. -/
def readFull (n : Nat) : Handler δ Bytes := fun c =>
  if n ≤ c.input.length then (.ok (c.input.take n), { c with input := c.input.drop n })
  else (.error (if c.input = [] then .eof else .unexpectedEOF), { c with input := [] })

/-- `_, _ = io.CopyN(io.Discard, rw, n)`. -/
def discard (n : Nat) : Handler δ Unit := fun c => (.ok (), { c with input := c.input.drop n })

/-- `rw.Write`. -/
def write (b : Bytes) : Handler δ Unit := fun c =>
  match c.room with
  | none => (.ok (), { c with output := c.output ++ b })
  | some 0 => (.error .write, c)
  | some (room + 1) => (.ok (), { c with output := c.output ++ b, room := some room })

/-- `b[lo:hi]`. -/
def goSlice (b : Bytes) (lo hi : Nat) : Handler δ Bytes :=
  if lo ≤ hi ∧ hi ≤ b.length then pure (slice b lo (hi - lo)) else Go.crash

/-- A method call on the device. -/
def callDevice {α : Type} (call : DeviceCall) (method : Go Err δ α) : Handler δ (Except Err α) := fun c =>
  match method c.device with
  | (.ok a, device) => (.ok (.ok a), { c with device := device, calls := c.calls ++ [call] })
  | (.error e, device) => (.ok (.error e), { c with device := device, calls := c.calls ++ [call] })
  | (.panic, device) => (.panic, { c with device := device, calls := c.calls ++ [call] })

/-- A call of `ReadAtInto`: its answer and what the buffer holds then. -/
def callInto (offset length : Int64) (dst : Bytes)
    (readAtInto : Int64 → Bytes → δ → Outcome Err Int64 × Bytes × δ) :
    Handler δ (Except Err Int64 × Bytes) := fun c =>
  let (result, dst, device) := readAtInto offset dst c.device
  let c := { c with device := device, calls := c.calls ++ [.readAtInto offset length] }
  match result with
  | .ok n => (.ok (.ok n, dst), c)
  | .error e => (.ok (.error e, dst), c)
  | .panic => (.panic, c)

/-- `device.Size()`, of an interface that may be nil. -/
def sizeOf (device : Option (Device δ)) : Handler δ (Device δ × Int64) := fun c =>
  match device with
  | some d => (.ok (d, d.size c.device), c)
  | none => (.panic, c)

/-! ## The buffer pool -/

namespace BufferPool

/-- `readBufferPool.New`. -/
def fresh : Bytes := List.replicate (128 * 1024) 0

/-- `readBufferPool.Get`. -/
def get (p : BufferPool) : Bytes × BufferPool :=
  match p.picks.head?.join with
  | none => (fresh, { p with picks := p.picks.tail })
  | some i =>
    match p.free[i]? with
    | none => (fresh, { p with picks := p.picks.tail })
    | some buf => (buf, ⟨p.free.eraseIdx i, p.picks.tail⟩)

/-- `putBuffer`. -/
def put (p : BufferPool) (buf : Bytes) : BufferPool :=
  if buf.length > natOf maxRequestBytes then p else { p with free := buf :: p.free }

end BufferPool

/-- `getBuffer(length)`, up to its capacity. -/
def getBuffer (length : Nat) : Handler δ Bytes := fun c =>
  let (buf, pool) := c.pool.get
  (.ok (if buf.length < length then List.replicate length 0 else buf), { c with pool := pool })

/-- `defer putBuffer(buf)`: the buffer goes back with what it holds when the rest of the function ends. -/
def thenPut {α : Type} (buf : Bytes) (rest : Handler δ α) : Handler δ α := fun c =>
  let (result, c) := rest c
  (result, { c with pool := c.pool.put buf })

/-! ## Replies -/

/-- Write a header, and data if there is any. -/
def writeWith (header data : Bytes) : Handler δ Unit := do
  write header
  if data.length > 0 then write data else pure ()

def replyHeader (handle : UInt64) (errno : UInt32) : Bytes :=
  putUint32 replyMagic ++ putUint32 errno ++ putUint64 handle

def writeReply (handle : UInt64) (errno : UInt32) (data : Bytes) : Handler δ Unit :=
  writeWith (replyHeader handle errno) data

def optionReplyHeader (opt rep : UInt32) (data : Bytes) : Bytes :=
  putUint64 repMagic ++ putUint32 opt ++ putUint32 rep ++ putUint32 (UInt32.ofNat data.length)

def writeOptionReply (opt rep : UInt32) (data : Bytes) : Handler δ Unit :=
  writeWith (optionReplyHeader opt rep data) data

/-! ## The handshake -/

namespace Server

def resolveDevice (s : Server δ) (exportName : Bytes) : Handler δ (Option (Device δ)) :=
  match s.resolve with
  | some resolve =>
    match resolve exportName with
    | .ok device => pure device
    | .error e => Go.fail e
  | none =>
    match s.device with
    | none => Go.fail (.errorf "missing NBD device" 0)
    | some device => pure (some device)

/-- The size and the flags of an export. -/
def exportInfo (size : Int64) : Bytes :=
  putUint64 size.toUInt64 ++ putUint16 (transHasFlags ||| transSendFlush ||| transSendFUA)

def writeExport (device : Option (Device δ)) (clientNoZeroes : Bool) : Handler δ (Device δ) := do
  let (device, size) ← sizeOf device
  write (exportInfo size)
  if clientNoZeroes then pure device
  else do
    write (List.replicate 124 0)
    pure device

def handleOptGo (s : Server δ) (opt : UInt32) (payload : Bytes) : Handler δ (Device δ) := do
  if payload.length < 6 then Go.fail (.errorf "invalid NBD_OPT_GO payload length %d" payload.length)
  else
    let nameLen := uint32 (payload.take 4)
    if nameLen > 4096 ∨ (4 + nameLen + 2).toNat > payload.length then
      Go.fail (.errorf "invalid NBD_OPT_GO export name length %d" nameLen.toNat)
    else do
      let exportName ← goSlice payload 4 (4 + nameLen).toNat
      let device ← s.resolveDevice exportName
      let (device, size) ← sizeOf device
      writeOptionReply opt repInfo (putUint16 infoExport ++ exportInfo size)
      writeOptionReply opt repAck []
      pure device

/-- The head of the loop of `handshake`: the next option and its payload. -/
def readOption : Handler δ (UInt32 × Bytes) := do
  let optHeader ← readFull 16
  let got := uint64 (optHeader.take 8)
  if got ≠ iHaveOpt then Go.fail (.errorf "invalid option magic 0x%x" got.toNat)
  else
    let opt := uint32 (slice optHeader 8 4)
    let optLen := uint32 (slice optHeader 12 4)
    if optLen > 64 * 1024 then Go.fail (.errorf "NBD option payload too large: %d" optLen.toNat)
    else do
      let payload ← if optLen > 0 then readFull optLen.toNat else pure []
      pure (opt, payload)

/-- The loop of `handshake`, with as many turns as `fuel`. -/
def options (s : Server δ) (clientNoZeroes : Bool) : Nat → Handler δ (Device δ)
  | 0 => Go.fail .eof
  | fuel + 1 => do
    let (opt, payload) ← readOption
    if opt = optExportName then do
      let device ← s.resolveDevice payload
      writeExport device clientNoZeroes
    else if opt = optGo then s.handleOptGo opt payload
    else if opt = optAbort then Go.fail .eof
    else do
      writeOptionReply opt repErrUnsup []
      s.options clientNoZeroes fuel

/-- What the server sends first. -/
def greeting : Bytes := putUint64 nbdMagic ++ putUint64 iHaveOpt ++ putUint16 (flagFixedNew ||| flagNoZeroes)

/-- `handshake`. An option takes at least 16 bytes, so there are no more turns than bytes. -/
def handshake (s : Server δ) : Handler δ (Device δ) := do
  write greeting
  let clientFlags ← readFull 4
  let clientNoZeroes := uint32 clientFlags &&& flagNoZeroes.toUInt32 ≠ 0
  fun c => s.options clientNoZeroes (c.input.length + 1) c

/-! ## Requests -/

/-- A request header. -/
structure Header where
  flags : UInt16
  cmd : UInt16
  handle : UInt64
  offset : Int64
  length : Int64
  deriving DecidableEq, Repr

def parseHeader (header : Bytes) : Header where
  flags := uint16 (slice header 4 2)
  cmd := uint16 (slice header 6 2)
  handle := uint64 (slice header 8 8)
  offset := (uint64 (slice header 16 8)).toInt64
  length := (uint32 (slice header 24 4)).toUInt64.toInt64

/-- The reply made of what `ReadAtInto` filled: what it left of the part asked for is cleared. -/
def replyFrom (handle : UInt64) (length : Int64) (buf : Bytes) (n : Int64) : Handler δ Unit :=
  if n < length then
    if n < 0 then thenPut buf Go.crash
    else
      let buf := overwrite buf (natOf n) (List.replicate (natOf length - natOf n) 0)
      thenPut buf (writeReply handle 0 (buf.take (natOf length)))
  else if natOf n > buf.length then thenPut buf Go.crash
  else thenPut buf (writeReply handle 0 (buf.take (natOf n)))

def writeReadReply (d : Device δ) (handle : UInt64) (offset length : Int64) : Handler δ Unit :=
  match d.readAtInto with
  | some readAtInto => do
    let buf ← getBuffer (natOf length)
    let (result, dst) ← callInto offset length (buf.take (natOf length)) readAtInto
    let buf := overwrite buf 0 (dst.take (natOf length))
    match result with
    | .error _ => thenPut buf (writeReply handle 5 [])
    | .ok n => replyFrom handle length buf n
  | none => do
    match ← callDevice (.readAt offset length) (d.readAt offset length) with
    | .error _ => writeReply handle 5 []
    | .ok data => writeReply handle 0 data

/-- The end of a request whose device call has no answer but an error. -/
def acknowledge (handle : UInt64) (result : Except Err Unit) : Handler δ Unit :=
  match result with
  | .error _ => writeReply handle 5 []
  | .ok () => writeReply handle 0 []

/-- The `switch` of `handleRequest`. -/
def dispatch (d : Device δ) (h : Header) : Handler δ Bool := do
  if h.cmd = cmdRead then do
    writeReadReply d h.handle h.offset h.length
    pure true
  else if h.cmd = cmdWrite then do
    let data ← readFull (natOf h.length)
    let result ← callDevice (.writeAt h.offset data) (d.writeAt h.offset data)
    acknowledge h.handle result
    pure true
  else if h.cmd = cmdFlush then do
    let result ← callDevice .flush d.flush
    acknowledge h.handle result
    pure true
  else if h.cmd = cmdDisconnect then do
    match ← callDevice .disconnect d.disconnect with
    | .error e => Go.fail e
    | .ok () => pure false
  else do
    writeReply h.handle 22 []
    pure true

/-- The request is refused before the device is asked. The sum is an `int64`. -/
def OutOfRange (size offset length : Int64) : Prop := offset < 0 ∨ length < 0 ∨ offset + length > size

instance (size offset length : Int64) : Decidable (OutOfRange size offset length) :=
  inferInstanceAs (Decidable (_ ∨ _ ∨ _))

/-- `handleRequest`. The answer says whether to go on. -/
def handleRequest (device : Option (Device δ)) : Handler δ Bool := do
  let header ← readFull 28
  let got := uint32 (header.take 4)
  if got ≠ requestMagic then Go.fail (.errorf "invalid request magic 0x%x" got.toNat)
  else
    let h := parseHeader header
    if h.length > maxRequestBytes then Go.fail (.errorf "request too large: %d" (natOf h.length))
    else
      match device with
      | none => Go.fail (.errorf "missing NBD device" 0)
      | some d => do
        let (_, size) ← sizeOf (some d)
        if OutOfRange size h.offset h.length then do
          if h.cmd = cmdWrite ∧ h.length > 0 then discard (natOf h.length) else pure ()
          writeReply h.handle 22 []
          pure true
        else dispatch d h

/-- The loop of `Handle`, with as many turns as `fuel`; `cancelled k` says whether the context is
cancelled when it is checked for the `k`-th time. -/
def serveRequests (cancelled : Nat → Bool) (device : Option (Device δ)) : Nat → Nat → Handler δ Unit
  | 0, _ => pure ()
  | fuel + 1, k => do
    if cancelled k then Go.fail .ctx
    else
      let keepGoing ← handleRequest device
      if keepGoing then serveRequests cancelled device fuel (k + 1) else pure ()

/-- `Handle`. A request takes at least 28 bytes, so there are no more turns than bytes. -/
def handle (s : Server δ) (cancelled : Nat → Bool) : Handler δ Unit := do
  let device ← s.handshake
  fun c => serveRequests cancelled (some device) (c.input.length + 1) 0 c

end Server

end OrcaBlocks.Nbd
