/-
# OrcaBlocks.Services.Terminal — the console of a VM, read by polling.

`collect` of `cmd/node-service` appends what the serial line yields to a buffer, in whatever pieces it
arrives. `GET tty/output` answers what is behind the offset it is given, and the length of the buffer as
the next offset. Offsets count BYTES. The reply is JSON, which carries strings: what is not UTF-8 is
replaced (`coerceUtf8`), and the client decodes the replacement.

So a poll that falls between two bytes of one character returns a replacement for each half. The bytes
the client has are the console's EXACTLY if no poll does (`polling_faithful_iff`): what a client decoded is
always UTF-8, so it cannot be a front of the output that is not.
-/
import OrcaBlocks.Lib.MachineInt
import OrcaBlocks.Lib.Text
import OrcaBlocks.Lib.Utf8
import OrcaBlocks.Storage.Wire

namespace OrcaBlocks.Services

open OrcaBlocks.Lib OrcaBlocks.Storage

/-! ## The node -/

/-- The fields of a `firecrackerProcess` that `ttyOutput` reads. -/
structure ConsoleProcess where
  outputBuf : Text
  done : Bool
  deriving DecidableEq, Repr

/-- `appendOutput`. -/
def ConsoleProcess.appendOutput (p : ConsoleProcess) (chunk : Text) : ConsoleProcess :=
  { p with outputBuf := p.outputBuf ++ chunk }

/-- `outputSince`. -/
def ConsoleProcess.outputSince (p : ConsoleProcess) (offset : Int64) : Text × Int64 :=
  let len := Int64.ofNat p.outputBuf.length
  let offset := if offset < 0 then 0 else offset
  let offset := if offset > len then len else offset
  (p.outputBuf.drop (natOf offset), len)

inductive TTYReply where
  | notFound
  | badRequest (message : String)
  | ok (sessionID : String) (offset : Int64) (output : Text) (done : Bool)
  deriving DecidableEq, Repr

/-- The reply for an offset. -/
def ConsoleProcess.reply (p : ConsoleProcess) (sessionID : String) (offset : Int64) : TTYReply :=
  let (output, next) := p.outputSince offset
  .ok sessionID next output p.done

/-- `ttyOutput`; `raw` is the query parameter, empty if there is none. -/
def ttyOutput (processes : String → Option ConsoleProcess) (sessionID raw : String) : TTYReply :=
  match processes sessionID with
  | none => .notFound
  | some p =>
    if raw = "" then p.reply sessionID 0
    else
      match parseInt raw with
      | .error _ => .badRequest "offset must be a non-negative integer"
      | .ok n =>
        if n < 0 then .badRequest "offset must be a non-negative integer" else p.reply sessionID n

/-- What the client decodes: `encoding/json` there and back. -/
def TTYReply.decoded : TTYReply → TTYReply
  | .ok sessionID offset output done => .ok sessionID offset (coerceUtf8 output) done
  | reply => reply

/-! ## A client that polls -/

structure Client where
  /-- The offset returned last. -/
  offset : Int64
  /-- The outputs decoded so far, one behind the other. -/
  received : Text
  deriving DecidableEq, Repr

def Client.take (c : Client) : TTYReply → Client
  | .ok _ offset output _ => ⟨offset, c.received ++ output⟩
  | _ => c

inductive ConsoleEvent where
  /-- The serial line yields a piece of output. -/
  | output (chunk : Text)
  | poll
  | exit
  deriving DecidableEq, Repr

structure Terminal where
  process : ConsoleProcess
  client : Client
  deriving DecidableEq, Repr

/-- Nothing was written and nothing read. -/
def Terminal.initial : Terminal := ⟨⟨[], false⟩, ⟨0, []⟩⟩

section Polling

-- the session that is polled, and the other sessions of the node
variable (id : String) (others : String → Option ConsoleProcess)

def Terminal.step (t : Terminal) : ConsoleEvent → Terminal
  | .output chunk => { t with process := t.process.appendOutput chunk }
  | .exit => { t with process := { t.process with done := true } }
  | .poll =>
    let reply := ttyOutput (Function.update others id (some t.process)) id (formatInt t.client.offset)
    { t with client := t.client.take reply.decoded }

def Terminal.run (events : List ConsoleEvent) : Terminal :=
  events.foldl (Terminal.step id others) Terminal.initial

/-- What the console wrote. -/
def consoleOutput (events : List ConsoleEvent) : Text :=
  events.flatMap fun
    | .output chunk => chunk
    | _ => []

/-! ## One step -/

/-- A poll at an offset inside the buffer. -/
theorem ttyOutput_poll {p : ConsoleProcess} {offset : Int64} (hnonneg : 0 ≤ offset.toInt)
    (hle : natOf offset ≤ p.outputBuf.length) (hfit : p.outputBuf.length < 2 ^ 63) :
    ttyOutput (Function.update others id (some p)) id (formatInt offset) =
      .ok id (Int64.ofNat p.outputBuf.length) (p.outputBuf.drop (natOf offset)) p.done := by
  have hraw : formatInt offset ≠ "" := by
    intro hempty
    have hparse := parseInt_formatInt offset
    rw [hempty] at hparse
    cases hparse
  have hpos : ¬ offset < 0 := by
    rw [Int64.lt_iff_toInt_lt]
    exact Int.not_lt.mpr hnonneg
  have hin : ¬ offset > Int64.ofNat p.outputBuf.length := by
    have hcast := natOf_cast hnonneg
    rw [gt_iff_lt, Int64.lt_iff_toInt_lt, toInt_ofNat hfit]
    omega
  unfold ttyOutput
  rw [Function.update_self]
  dsimp only
  rw [if_neg hraw, parseInt_formatInt]
  dsimp only
  rw [if_neg hpos, ConsoleProcess.reply, ConsoleProcess.outputSince]
  dsimp only
  rw [if_neg hpos, if_neg hin]

/-- What holds of a terminal whatever the polls do: the buffer is what the console wrote, the client's
offset is inside it, and what the client has is UTF-8. -/
structure Terminal.Sane (t : Terminal) (output : Text) : Prop where
  buffer : t.process.outputBuf = output
  nonneg : 0 ≤ t.client.offset.toInt
  inside : natOf t.client.offset ≤ output.length
  valid : Utf8 t.client.received

theorem Terminal.Sane.poll {t : Terminal} {output : Text} (h : t.Sane output)
    (hfit : output.length < 2 ^ 63) :
    (t.step id others .poll).client =
      ⟨Int64.ofNat output.length,
        t.client.received ++ coerceUtf8 (output.drop (natOf t.client.offset))⟩ := by
  obtain ⟨rfl, hnonneg, hinside, -⟩ := h
  unfold Terminal.step
  dsimp only
  rw [ttyOutput_poll id others hnonneg hinside hfit]
  rfl

theorem consoleOutput_append (events : List ConsoleEvent) (e : ConsoleEvent) :
    consoleOutput (events ++ [e]) = consoleOutput events ++ consoleOutput [e] := List.flatMap_append

theorem Terminal.Sane.step {t : Terminal} {output : Text} (h : t.Sane output) (e : ConsoleEvent)
    (hfit : output.length < 2 ^ 63) : (t.step id others e).Sane (output ++ consoleOutput [e]) := by
  cases e with
  | output chunk =>
    have hchunk : consoleOutput [.output chunk] = chunk := by simp [consoleOutput]
    rw [hchunk]
    refine ⟨by rw [← h.buffer]; rfl, h.nonneg, ?_, h.valid⟩
    rw [List.length_append]
    exact Nat.le_trans h.inside (Nat.le_add_right _ _)
  | exit =>
    have hnone : consoleOutput [.exit] = [] := rfl
    rw [hnone, List.append_nil]
    exact ⟨h.buffer, h.nonneg, h.inside, h.valid⟩
  | poll =>
    have hnone : consoleOutput [.poll] = [] := rfl
    have hclient := h.poll id others hfit
    rw [hnone, List.append_nil]
    refine ⟨h.buffer, ?_, ?_, ?_⟩
    · rw [hclient, toInt_ofNat hfit]
      exact Int.natCast_nonneg _
    · rw [hclient, natOf_ofNat hfit]
    · rw [hclient]
      exact h.valid.append (utf8_coerce _)

theorem sane_run {events : List ConsoleEvent} (hfit : (consoleOutput events).length < 2 ^ 63) :
    (Terminal.run id others events).Sane (consoleOutput events) := by
  induction events using List.reverseRecOn with
  | nil => exact ⟨rfl, Int.le_refl 0, Nat.le_refl 0, .nil⟩
  | append_singleton events e ih =>
    rw [consoleOutput_append] at hfit ⊢
    have hfront : (consoleOutput events).length < 2 ^ 63 := by
      rw [List.length_append] at hfit
      omega
    rw [Terminal.run, List.foldl_append]
    exact (ih hfront).step id others e hfront

/-! ## Whole runs -/

/-- What the client has is the front of the console's output up to the offset it was returned last. -/
def Faithful (t : Terminal) (whole : Text) : Prop :=
  natOf t.client.offset ≤ whole.length ∧ t.client.received = whole.take (natOf t.client.offset)

/-- A run up to an event. -/
theorem consoleOutput_take (events : List ConsoleEvent) (k : Nat) :
    ∃ later, consoleOutput events = consoleOutput (events.take k) ++ later := by
  refine ⟨consoleOutput (events.drop k), ?_⟩
  conv_lhs => rw [← List.take_append_drop k events]
  exact List.flatMap_append

theorem run_take_succ {events : List ConsoleEvent} {k : Nat} {e : ConsoleEvent}
    (he : events[k]? = some e) :
    Terminal.run id others (events.take (k + 1)) =
      (Terminal.run id others (events.take k)).step id others e := by
  rw [List.take_add_one, he, Option.toList_some, Terminal.run, List.foldl_append]
  rfl

/-- **When polling loses and alters nothing.** For any session, and any sequence of output pieces and polls:
what the client has is the front of the console's output up to its last offset, after every event, EXACTLY
if at every poll the output up to then is UTF-8, that is, no poll falls inside a character. -/
theorem polling_faithful_iff (events : List ConsoleEvent)
    (hfit : (consoleOutput events).length < 2 ^ 63) :
    (∀ k, Faithful (Terminal.run id others (events.take k)) (consoleOutput events)) ↔
      ∀ k, events[k]? = some .poll → Utf8 (consoleOutput (events.take k)) := by
  have hfits : ∀ k, (consoleOutput (events.take k)).length < 2 ^ 63 := by
    intro k
    obtain ⟨later, hlater⟩ := consoleOutput_take events k
    rw [hlater, List.length_append] at hfit
    omega
  have hsane := fun k => sane_run id others (hfits k)
  constructor
  · intro h k hk
    -- after the poll the client has everything, and what it has is UTF-8
    obtain ⟨later, hlater⟩ := consoleOutput_take events k
    obtain ⟨-, hreceived⟩ := h (k + 1)
    have hvalid := (hsane (k + 1)).valid
    rw [run_take_succ id others hk] at hreceived hvalid
    have hoffset := congrArg Client.offset ((hsane k).poll id others (hfits k))
    rw [hreceived, hoffset, natOf_ofNat (hfits k), hlater, List.take_left] at hvalid
    exact hvalid
  · intro h k
    -- besides, what the client has ends between two characters
    suffices Faithful (Terminal.run id others (events.take k)) (consoleOutput events) from this
    induction k with
    | zero => exact ⟨Nat.zero_le _, rfl⟩
    | succ k ih =>
      cases he : events[k]? with
      | none =>
        have hsame : events.take (k + 1) = events.take k := by
          rw [List.take_add_one, he, Option.toList_none, List.append_nil]
        rw [hsame]
        exact ih
      | some e =>
        rw [run_take_succ id others he]
        cases e with
        | output chunk => exact ih
        | exit => exact ih
        | poll =>
          obtain ⟨later, hlater⟩ := consoleOutput_take events k
          have hpoll := (hsane k).poll id others (hfits k)
          have hinside := (hsane k).inside
          obtain ⟨-, hreceived⟩ := ih
          rw [hlater, List.take_append_of_le_length hinside] at hreceived
          have hsplit := List.take_append_drop
            (natOf (Terminal.run id others (events.take k)).client.offset)
            (consoleOutput (events.take k))
          have hpiece : Utf8 ((consoleOutput (events.take k)).drop
              (natOf (Terminal.run id others (events.take k)).client.offset)) := by
            refine Utf8.of_append (hreceived ▸ (hsane k).valid) ?_
            rw [hsplit]
            exact h k he
          unfold Faithful
          rw [hpoll, natOf_ofNat (hfits k), hlater, List.take_left, List.length_append]
          refine ⟨Nat.le_add_right _ _, ?_⟩
          rw [utf8_iff_coerce.mp hpiece, hreceived, hsplit]

end Polling

/-- Two pieces of output, polled between characters. -/
def cutBetween : List ConsoleEvent := [.output [0xC3, 0xA9], .poll, .output [0x21], .exit, .poll]

/-- One character, polled between its bytes. -/
def cutInside : List ConsoleEvent := [.output [0xC3], .poll, .output [0xA9], .poll]

theorem polling_faithful_iff_cutBetween : (consoleOutput cutBetween).length < 2 ^ 63 ∧
    ∀ k, Faithful (Terminal.run "s" (fun _ => none) (cutBetween.take k)) (consoleOutput cutBetween) := by
  have hfit : (consoleOutput cutBetween).length < 2 ^ 63 := by decide
  refine ⟨hfit, (polling_faithful_iff "s" (fun _ => none) cutBetween hfit).mpr fun k hk => ?_⟩
  have hcuts : ∀ k < 5, cutBetween[k]? = some .poll → Utf8 (consoleOutput (cutBetween.take k)) := by decide
  refine hcuts k (Nat.lt_of_not_le fun hge => ?_) hk
  rw [List.getElem?_eq_none hge] at hk
  cases hk

/-- **A poll between the two bytes of `é`**: the console wrote UTF-8, and the client has two replacement
characters. -/
theorem polling_splits_character :
    Utf8 (consoleOutput cutInside) ∧
      (Terminal.run "s" (fun _ => none) cutInside).client = ⟨2, replacement ++ replacement⟩ ∧
      ¬ Faithful (Terminal.run "s" (fun _ => none) cutInside) (consoleOutput cutInside) := by
  refine ⟨by decide, by decide, fun h => absurd h.2 (by decide)⟩

end OrcaBlocks.Services
