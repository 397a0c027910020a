/-
# OrcaBlocks.Services.SuccessMarker — how the node learns that the command in the guest succeeded.

`orca-init` and the command it runs share ONE channel, the serial console. The guest prints what it is about
to run, then what the command printed, then how it ended; an exit code of zero is followed by the line
`orca-init: image-rootfs ok`. The node appends what it reads to a buffer and looks for that text ANYWHERE in
it (`signalMarkerIfOutputContainsMarker`). When it is found the run is a success and the volume is committed.

The guest's lines are modelled as `orca-init` formats them, `%q` included; the host's side is the goroutine
`collect` with everything it keeps, over any cuts of the stream, the goroutine that waits for the process,
and the `select` of `waitForMarkerOrExit`.

* How the stream is cut does not matter (`readAll_read`): the state after any reads is the state after
  one read of all of it.
* The marker has no line feed, no quote and no backslash, and no other line begins it. So it is found in
  the stream of a failed command EXACTLY if the command, the working directory, what the command printed, or a
  user string that cannot be resolved contains it (`success_means_exit_zero_iff`). The NAME of a user that can be
  resolved has no colon, and the marker has one.
-/
import OrcaBlocks.Lib.Quote
import OrcaBlocks.Services.Credentials
import OrcaBlocks.Services.Firecracker
import OrcaBlocks.Services.Terminal

namespace OrcaBlocks.Services

open OrcaBlocks.Lib OrcaBlocks.Storage

/-- `strings.Contains`. -/
def contains (s sub : Text) : Bool := decide (sub <:+: s)

@[simp] theorem contains_eq_true {s sub : Text} : contains s sub = true ↔ sub <:+: s := decide_eq_true_iff

/-! ## The guest -/

/-- The line that `logf` writes, without the line feed. -/
def logf (message : Text) : Text := ascii "orca-init: " ++ message

/-- The lines of `emitCaptured`. -/
def emitCaptured (stream text : Text) : List Text :=
  let text := text.rdropWhile (· = 10)
  if text = [] then []
  else (text.splitOn 10).map fun line => ascii "orca-" ++ stream ++ ascii ": " ++ line

/-- `waitStatusString` of a wait status of Linux. -/
def waitStatusString (status : UInt32) : Text :=
  if status &&& 0x7F = 0 then ascii "exit:" ++ ascii ((status >>> 8) &&& 0xFF).toNat.repr
  else if status &&& 0x7F ≠ 0x7F then ascii "signal:" ++ ascii (status &&& 0x7F).toNat.repr
  else if status &&& 0xFF = 0x7F then ascii "stopped:" ++ ascii ((status >>> 8) &&& 0xFF).toNat.repr
  else ascii "raw:" ++ ascii status.toNat.repr

/-- The text of the error of `strconv.ParseUint(s, 10, 32)`. -/
def parseUintErr (isPrint : Nat → Bool) (s : Text) : Text :=
  ascii "strconv.ParseUint: parsing " ++ quote isPrint s ++
    if 2 ^ 32 ≤ numeral (s.takeWhile isDigit) then ascii ": value out of range" else ascii ": invalid syntax"

/-- What a run of `main` without a terminal depends on. -/
structure GuestRun where
  /-- What was logged before the user is resolved: the build time, failures of the set-up. -/
  setup : List Text
  command : Text
  workdir : Text
  /-- The user string, from `orca.user_b64`. -/
  user : Text
  /-- `/etc/passwd` and `/etc/group` of the guest, if they can be read. -/
  passwd : Option Text
  group : Option Text
  /-- What the error says if `/etc/group` cannot be read. -/
  groupErr : Text
  /-- The children that `Wait4` reports, with their states. -/
  children : List (Nat × UInt32)
  /-- The error that ends the reaping, if it is not `ECHILD`. -/
  waitErr : Option Text
  stdout : Text
  stderr : Text
  deriving DecidableEq, Repr

namespace GuestRun

variable (isPrint : Nat → Bool) (r : GuestRun)

/-- `resolveUserSpec`, of the user string. -/
def resolved : Except InitErr (PasswdEntry × UInt32) :=
  (⟨[], r.passwd, r.group, [], true⟩ : Guest).resolveUserSpec r.user

/-- The text of its error. -/
def errText : InitErr → Text
  | .userNotFound => ascii "user not found"
  | .groupNotFound => ascii "group not found"
  | .parseUint text => parseUintErr isPrint text
  | .readFile _ => r.groupErr

/-- What `imageCredential` logs. -/
def userLines : List Text :=
  if r.user = [] then []
  else
    match r.resolved with
    | .error err =>
      [logf (ascii "user setup failed for " ++ quote isPrint r.user ++ ascii ": " ++ r.errText isPrint err)]
    | .ok _ => []

/-- The name that `imageCredential` returns. -/
def username : Text :=
  if r.user = [] then []
  else
    match r.resolved with
    | .error _ => []
    | .ok (entry, _) => entry.name

/-- The line before the command is started. -/
def startedLine : Text :=
  logf (ascii "started image-rootfs command=" ++ quote isPrint r.command ++ ascii " workdir=" ++
    quote isPrint r.workdir ++ ascii " user=" ++ quote isPrint r.username)

/-- `reapAdoptedChildren`. -/
def reapAdoptedChildren : List Text :=
  r.children.map (fun child =>
      logf (ascii "reaped child pid=" ++ ascii child.1.repr ++ ascii " status=" ++ waitStatusString child.2)) ++
    r.waitErr.toList.map fun err => logf (ascii "child reaper wait failed: " ++ err)

/-- How the command ended. -/
def resultLines (exitCode : Int64) : List Text :=
  if exitCode = 0 then [logf (ascii "command ok exit_code=0"), logf (ascii "image-rootfs ok")]
  else [logf (ascii "command failed exit_code=" ++ ascii (formatInt exitCode))]

/-- The lines of the console. -/
def lines (exitCode : Int64) : List Text :=
  r.setup.map logf ++ r.userLines isPrint ++ r.startedLine isPrint :: r.reapAdoptedChildren ++
    emitCaptured (ascii "stdout") r.stdout ++ emitCaptured (ascii "stderr") r.stderr ++ resultLines exitCode

/-- The serial stream. -/
def serial (exitCode : Int64) : Text := (r.lines isPrint exitCode).flatMap (· ++ [10])

end GuestRun

/-! ## The node -/

/-- A `firecrackerProcess`, with what the goroutine `collect` keeps of the lines. -/
structure FirecrackerProcess extends ConsoleProcess where
  marker : Text
  /-- `markerCh` is closed. -/
  markerSignalled : Bool
  doneErr : Option Text
  /-- The context is done. -/
  expired : Bool
  pendingLine : Text
  capturingLegacyUserOutput : Bool
  hasFirstUserOutput : Bool
  deriving DecidableEq, Repr

inductive RunErr where
  | exitedBeforeMarker (err : Text)
  | exitedWithoutMarker (marker : Text)
  | contextDone
  deriving DecidableEq, Repr

/-- `isUserOutputLine`. -/
def isUserOutputLine (line : Text) (capturingLegacyUserOutput : Bool) : Bool :=
  if contains line (ascii "orca-stdout:") || contains line (ascii "orca-stderr:") then true
  else capturingLegacyUserOutput && !contains line (ascii "orca-init:")

/-- `successMarker`, as `runFirecrackerSession` picks it for a mode. -/
def successMarker (mode : FirecrackerMode) : Text :=
  if mode.usesSessionRootFS then
    if mode = .imageRootfsTTY then ascii "orca-init: tty ready" else ascii "orca-init: image-rootfs ok"
  else ascii "orca-init: " ++ mode.text ++ ascii " ok"

namespace FirecrackerProcess

/-- `startFirecrackerProcess`. -/
def start (marker : Text) : FirecrackerProcess where
  outputBuf := []
  done := false
  marker := marker
  markerSignalled := false
  doneErr := none
  expired := false
  pendingLine := []
  capturingLegacyUserOutput := false
  hasFirstUserOutput := false

/-- `signalMarkerIfOutputContainsMarker`. -/
def signalMarkerIfOutputContainsMarker (p : FirecrackerProcess) : FirecrackerProcess :=
  { p with markerSignalled := p.markerSignalled || contains p.outputBuf p.marker }

/-- One complete line, in `collect`. -/
def takeLine (p : FirecrackerProcess) (line : Text) : FirecrackerProcess :=
  { p with
    hasFirstUserOutput := p.hasFirstUserOutput || isUserOutputLine line p.capturingLegacyUserOutput
    capturingLegacyUserOutput :=
      if contains line (ascii "orca-init: started image-rootfs command=") then true
      else if contains line (ascii "orca-init: command ok") || contains line (ascii "orca-init: command failed")
      then false
      else p.capturingLegacyUserOutput }

/-- The inner loop of `collect`, with as many turns as `fuel`. -/
def takeLines : Nat → FirecrackerProcess → FirecrackerProcess
  | 0, p => p
  | fuel + 1, p =>
    let idx := p.pendingLine.findIdx (· = 10)
    if idx = p.pendingLine.length then p
    else
      takeLines fuel
        ({ p with pendingLine := p.pendingLine.drop (idx + 1) }.takeLine (p.pendingLine.take (idx + 1)))

/-- One turn of `collect`. -/
def read (p : FirecrackerProcess) (chunk : Text) : FirecrackerProcess :=
  let p := { p with toConsoleProcess := p.toConsoleProcess.appendOutput chunk }
  let p := p.signalMarkerIfOutputContainsMarker
  let p := { p with pendingLine := p.pendingLine ++ chunk }
  takeLines p.pendingLine.length p

/-- The goroutine that waits for the process. -/
def exit (p : FirecrackerProcess) (err : Option Text) : FirecrackerProcess :=
  { p.signalMarkerIfOutputContainsMarker with doneErr := err, done := true }

/-- `waitForMarkerOrExit`: what it may return, the channels that are ready deciding. -/
def waitForMarkerOrExit (p : FirecrackerProcess) : List (Except RunErr Unit) :=
  (if p.markerSignalled then [.ok ()] else []) ++
  (if p.done then
    match p.doneErr with
    | some err => [.error (.exitedBeforeMarker err)]
    | none => if contains p.outputBuf p.marker then [.ok ()] else [.error (.exitedWithoutMarker p.marker)]
  else []) ++
  if p.expired then [.error .contextDone] else []

/-! ## Cuts -/

/-- The complete lines that are pending are taken. -/
def settle (p : FirecrackerProcess) : FirecrackerProcess := takeLines p.pendingLine.length p

theorem takeLines_succ (fuel : Nat) (p : FirecrackerProcess) :
    takeLines (fuel + 1) p =
      if p.pendingLine.findIdx (· = 10) = p.pendingLine.length then p
      else takeLines fuel
        ({ p with pendingLine := p.pendingLine.drop (p.pendingLine.findIdx (· = 10) + 1) }.takeLine
          (p.pendingLine.take (p.pendingLine.findIdx (· = 10) + 1))) := rfl

theorem takeLines_eq_settle {fuel : Nat} {p : FirecrackerProcess} (h : p.pendingLine.length ≤ fuel) :
    takeLines fuel p = p.settle := by
  unfold settle
  induction fuel using Nat.strongRecOn generalizing p with
  | _ fuel ih =>
    cases fuel with
    | zero => rw [Nat.le_zero.mp h]
    | succ fuel =>
      cases hlen : p.pendingLine.length with
      | zero =>
        rw [takeLines_succ, List.length_eq_zero_iff.mp hlen, List.findIdx_nil, List.length_nil, if_pos rfl]
        rfl
      | succ n =>
        rw [takeLines_succ, takeLines_succ]
        split
        · rfl
        · -- what is left is shorter, so both amounts of fuel are enough for it
          set q := ({ p with pendingLine := _ } : FirecrackerProcess).takeLine _ with hq
          have hshort : q.pendingLine.length ≤ n := by
            rw [hq]
            show (p.pendingLine.drop _).length ≤ n
            rw [List.length_drop, hlen]
            omega
          rw [ih fuel (Nat.lt_succ_self _) (by omega), ih n (by omega) hshort]

theorem settle_eq_self {p : FirecrackerProcess} (h : 10 ∉ p.pendingLine) : p.settle = p := by
  have hidx : p.pendingLine.findIdx (· = 10) = p.pendingLine.length := by
    rw [List.findIdx_eq_length]
    intro b hb
    exact decide_eq_false fun heq => h (heq ▸ hb)
  rw [← takeLines_eq_settle (Nat.le_succ _), takeLines_succ, if_pos hidx]

theorem settle_line {p : FirecrackerProcess} {line rest : Text} (hline : 10 ∉ line)
    (h : p.pendingLine = line ++ 10 :: rest) :
    p.settle = ({ p with pendingLine := rest }.takeLine (line ++ [10])).settle := by
  have hidx : p.pendingLine.findIdx (· = 10) = line.length := by
    have hfront : line.findIdx (· = 10) = line.length := by
      rw [List.findIdx_eq_length]
      intro b hb
      exact decide_eq_false fun heq => hline (heq ▸ hb)
    rw [h, List.findIdx_append, hfront, if_neg (Nat.lt_irrefl _), List.findIdx_cons, decide_eq_true rfl,
      cond_true, Nat.zero_add]
  have htake : p.pendingLine.take (line.length + 1) = line ++ [10] := by
    rw [h, List.take_append, List.take_of_length_le (Nat.le_succ _), Nat.add_sub_cancel_left]
    rfl
  have hdrop : p.pendingLine.drop (line.length + 1) = rest := by
    rw [h, List.drop_append, List.drop_of_length_le (Nat.le_succ _), Nat.add_sub_cancel_left]
    rfl
  have hne : ¬ line.length = p.pendingLine.length := by
    rw [h, List.length_append, List.length_cons]
    omega
  rw [← takeLines_eq_settle (Nat.le_succ _), takeLines_succ, hidx, if_neg hne, htake, hdrop]
  refine takeLines_eq_settle ?_
  show rest.length ≤ _
  rw [h, List.length_append, List.length_cons]
  omega

/-- What holds when no line is complete, and behind a line if it holds before it, holds. -/
theorem line_induction {P : FirecrackerProcess → Prop} (last : ∀ p, 10 ∉ p.pendingLine → P p)
    (line : ∀ p line rest, 10 ∉ line → p.pendingLine = line ++ 10 :: rest →
      P ({ p with pendingLine := rest }.takeLine (line ++ [10])) → P p)
    (p : FirecrackerProcess) : P p := by
  induction hn : p.pendingLine.length using Nat.strongRecOn generalizing p with
  | _ n ih =>
    by_cases hmem : 10 ∈ p.pendingLine
    · obtain ⟨front, rest, hsplit, hfront⟩ := List.eq_append_cons_of_mem hmem
      refine line p front rest hfront hsplit (ih rest.length ?_ _ rfl)
      rw [← hn, hsplit, List.length_append, List.length_cons]
      omega
    · exact last p hmem

/-- More output, with the lines left to be taken. -/
def push (p : FirecrackerProcess) (chunk : Text) : FirecrackerProcess :=
  { p with pendingLine := p.pendingLine ++ chunk }

/-- More output, as far as the buffer and the marker go. -/
def hear (p : FirecrackerProcess) (chunk : Text) : FirecrackerProcess :=
  { p with toConsoleProcess := p.toConsoleProcess.appendOutput chunk }.signalMarkerIfOutputContainsMarker

/-- Taking the complete lines early changes nothing. -/
theorem settle_push (chunk : Text) (p : FirecrackerProcess) :
    (p.settle.push chunk).settle = (p.push chunk).settle := by
  induction p using line_induction with
  | last p hlast => rw [settle_eq_self hlast]
  | line p line rest hline hsplit ih =>
    have hpushed : (p.push chunk).pendingLine = line ++ 10 :: (rest ++ chunk) := by
      simp [push, hsplit]
    rw [settle_line hline hsplit, ih, settle_line hline hpushed]
    rfl

theorem settle_hear (chunk : Text) (p : FirecrackerProcess) : p.settle.hear chunk = (p.hear chunk).settle := by
  induction p using line_induction with
  | last p hlast => rw [settle_eq_self hlast, settle_eq_self (p := p.hear chunk) hlast]
  | line p line rest hline hsplit ih =>
    rw [settle_line hline hsplit, ih, settle_line (p := p.hear chunk) hline hsplit]
    rfl

theorem hear_hear (p : FirecrackerProcess) (a b : Text) : (p.hear a).hear b = p.hear (a ++ b) := by
  have hgrow : contains (p.outputBuf ++ a) p.marker = true → contains (p.outputBuf ++ (a ++ b)) p.marker = true := by
    rw [contains_eq_true, contains_eq_true, ← List.append_assoc]
    exact fun h => h.trans (List.prefix_append _ _).isInfix
  simp only [hear, signalMarkerIfOutputContainsMarker, ConsoleProcess.appendOutput, List.append_assoc,
    Bool.or_assoc]
  cases hfirst : contains (p.outputBuf ++ a) p.marker with
  | false => rw [Bool.false_or]
  | true => rw [hgrow hfirst, Bool.or_self]

/-- Two reads are one read of both. -/
theorem read_read (p : FirecrackerProcess) (a b : Text) : (p.read a).read b = p.read (a ++ b) := by
  calc (p.read a).read b
      = (((((p.hear a).push a).settle).hear b).push b).settle := rfl
    _ = (((((p.hear a).push a).hear b).settle).push b).settle := by rw [settle_hear]
    _ = ((((p.hear a).push a).hear b).push b).settle := settle_push _ _
    _ = ((((p.hear a).hear b).push a).push b).settle := rfl
    _ = ((p.hear (a ++ b)).push (a ++ b)).settle := by
        rw [hear_hear]
        simp only [push, List.append_assoc]
    _ = p.read (a ++ b) := rfl

/-- What was heard and which lines were taken depends on the bytes alone. -/
theorem readAll_read (p : FirecrackerProcess) (chunk : Text) (chunks : List Text) :
    chunks.foldl read (p.read chunk) = p.read (chunk ++ chunks.flatten) := by
  induction chunks generalizing chunk with
  | nil => rw [List.foldl_nil, List.flatten_nil, List.append_nil]
  | cons next chunks ih => rw [List.foldl_cons, read_read, ih, List.flatten_cons, List.append_assoc]

/-- The lines are for the timing alone. -/
theorem settle_frame (p : FirecrackerProcess) :
    p.settle.outputBuf = p.outputBuf ∧ p.settle.marker = p.marker ∧
      p.settle.markerSignalled = p.markerSignalled := by
  induction p using line_induction with
  | last p hlast => rw [settle_eq_self hlast]; exact ⟨rfl, rfl, rfl⟩
  | line p line rest hline hsplit ih => rw [settle_line hline hsplit]; exact ih

theorem read_frame (p : FirecrackerProcess) (chunk : Text) :
    (p.read chunk).outputBuf = p.outputBuf ++ chunk ∧ (p.read chunk).marker = p.marker ∧
      (p.read chunk).markerSignalled = (p.markerSignalled || contains (p.outputBuf ++ chunk) p.marker) :=
  settle_frame ((p.hear chunk).push chunk)

end FirecrackerProcess

/-! ## Runs -/

inductive SerialEvent where
  /-- A read of the serial line returns. -/
  | read (chunk : Text)
  /-- The process exits. -/
  | exit (err : Option Text)
  /-- The time limit passes, or the request is cancelled. -/
  | expire
  deriving DecidableEq, Repr

namespace FirecrackerProcess

def step (p : FirecrackerProcess) : SerialEvent → FirecrackerProcess
  | .read chunk => p.read chunk
  | .exit err => if p.done then p else p.exit err
  | .expire => { p with expired := true }

def run (marker : Text) (events : List SerialEvent) : FirecrackerProcess := events.foldl step (start marker)

end FirecrackerProcess

/-- What the reads returned. -/
def serialBytes (events : List SerialEvent) : Text :=
  events.flatMap fun
    | .read chunk => chunk
    | _ => []

/-- A read returns something, and no more than the buffer of `collect` holds. -/
def SerialEvent.fits : SerialEvent → Bool
  | .read chunk => 0 < chunk.length && chunk.length ≤ 4096
  | _ => true

/-- The reads return a front of the stream. -/
structure Carries (events : List SerialEvent) (stream : Text) : Prop where
  front : serialBytes events <+: stream
  fits : ∀ event ∈ events, event.fits = true

namespace FirecrackerProcess

/-- The buffer holds what was read, and the marker was not signalled unless it is there. -/
theorem run_heard (marker : Text) (events : List SerialEvent) :
    (run marker events).outputBuf = serialBytes events ∧ (run marker events).marker = marker ∧
      ((run marker events).markerSignalled = true → marker <:+: serialBytes events) := by
  induction events using List.reverseRecOn with
  | nil => exact ⟨rfl, rfl, fun h => nomatch h⟩
  | append_singleton events e ih =>
    obtain ⟨hbuf, hmarker, hsignal⟩ := ih
    have hrun : run marker (events ++ [e]) = (run marker events).step e := by
      rw [run, List.foldl_append]
      rfl
    have hbytes : serialBytes (events ++ [e]) = serialBytes events ++ serialBytes [e] := List.flatMap_append
    rw [hrun, hbytes]
    cases e with
    | read chunk =>
      obtain ⟨hbuf', hmarker', hsignal'⟩ := read_frame (run marker events) chunk
      have hchunk : serialBytes [.read chunk] = chunk := List.append_nil chunk
      rw [hchunk]
      refine ⟨hbuf'.trans (by rw [hbuf]), hmarker'.trans hmarker, fun h => ?_⟩
      rw [step, hsignal', hbuf, hmarker, Bool.or_eq_true, contains_eq_true] at h
      exact h.elim (fun h => (hsignal h).trans (List.prefix_append _ _).isInfix) id
    | exit err =>
      have hnone : serialBytes [.exit err] = [] := rfl
      rw [hnone, List.append_nil, step]
      split
      · exact ⟨hbuf, hmarker, hsignal⟩
      · refine ⟨hbuf, hmarker, fun h => ?_⟩
        simp only [exit, signalMarkerIfOutputContainsMarker, hbuf, hmarker, Bool.or_eq_true,
          contains_eq_true] at h
        exact h.elim hsignal id
    | expire =>
      have hnone : serialBytes [.expire] = [] := rfl
      rw [hnone, List.append_nil]
      exact ⟨hbuf, hmarker, hsignal⟩

theorem ok_mem_waitForMarkerOrExit {p : FirecrackerProcess} (h : .ok () ∈ p.waitForMarkerOrExit) :
    p.markerSignalled = true ∨ p.marker <:+: p.outputBuf := by
  simp only [waitForMarkerOrExit, List.mem_append] at h
  rcases h with (h | h) | h
  · split at h
    · exact .inl ‹_›
    · cases h
  · split at h
    · split at h
      · simp at h
      · split at h
        · exact .inr (contains_eq_true.mp ‹_›)
        · simp at h
    · cases h
  · split at h
    · simp at h
    · cases h

/-- **Success can be returned exactly if the marker is in the stream.** -/
theorem success_possible_iff {marker stream : Text} (hne : marker ≠ []) :
    (∃ events, Carries events stream ∧ .ok () ∈ (run marker events).waitForMarkerOrExit) ↔ marker <:+: stream := by
  constructor
  · rintro ⟨events, hcarries, hok⟩
    obtain ⟨hbuf, hmarker, hsignal⟩ := run_heard marker events
    have hread : marker <:+: serialBytes events := by
      rcases ok_mem_waitForMarkerOrExit hok with h | h
      · exact hsignal h
      · rwa [hmarker, hbuf] at h
    exact hread.trans hcarries.front.isInfix
  · intro hin
    -- one byte at a time
    have hrun : run marker (stream.map fun b => .read [b]) = (stream.map fun b => [b]).foldl read (start marker) := by
      rw [run, List.foldl_map, List.foldl_map]
      rfl
    refine ⟨stream.map fun b => .read [b], ⟨?_, ?_⟩, ?_⟩
    · rw [serialBytes, List.flatMap_map]
      simp
    · intro event hevent
      obtain ⟨b, -, rfl⟩ := List.mem_map.mp hevent
      rfl
    · rcases stream with _ | ⟨b, rest⟩
      · exact absurd (List.infix_nil.mp hin) hne
      · rw [hrun, List.map_cons, List.foldl_cons, readAll_read]
        have hflat : [b] ++ (rest.map fun b => [b]).flatten = b :: rest := by
          rw [← List.flatMap_def, List.flatMap_singleton', List.singleton_append]
        have hsignal : ((start marker).read (b :: rest)).markerSignalled = true :=
          (read_frame (start marker) (b :: rest)).2.2.trans (contains_eq_true.mpr hin)
        rw [hflat, waitForMarkerOrExit, if_pos hsignal]
        exact List.mem_append_left _ (List.mem_append_left _ (List.mem_singleton_self _))

end FirecrackerProcess

/-! ## Where the marker can come from -/

/-- The marker of a run. -/
abbrev runMarker : Text := successMarker .imageRootfsRun

/-- Its first byte apart. -/
theorem successMarker_run : runMarker = 111 :: ascii "rca-init: image-rootfs ok" := by
  decide +kernel

theorem successMarker_run_ne_nil : runMarker ≠ [] := by
  rw [successMarker_run]
  exact List.cons_ne_nil _ _

/-- What the guest writes around the strings it is given. -/
def fixedTexts : List Text :=
  [ascii "orca-init: " ++ ascii "user setup failed for ", ascii ": ", ascii "strconv.ParseUint: parsing ",
    ascii "orca-init: " ++ ascii "started image-rootfs command=", ascii " workdir=", ascii " user=",
    ascii "orca-" ++ ascii "stdout" ++ ascii ": ", ascii "orca-" ++ ascii "stderr" ++ ascii ": ",
    ascii "exit:", ascii "signal:", ascii "stopped:", ascii "raw:",
    ascii "orca-init: " ++ ascii "reaped child pid=", ascii " status=",
    ascii "orca-init: " ++ ascii "child reaper wait failed: ",
    ascii "orca-init: " ++ ascii "command failed exit_code="]

/-- What the guest writes at the end of a line. -/
def lastTexts : List Text :=
  [[], ascii "user not found", ascii "group not found", ascii ": value out of range", ascii ": invalid syntax"]

/-- The marker is one line of plain characters, and no fixed text begins it. -/
theorem marker_fixedTexts :
    (∀ b ∈ runMarker, Unescaped b) ∧ (10 : UInt8) ∉ runMarker ∧
      (∀ text ∈ fixedTexts, Clear runMarker text) ∧
      (58 : UInt8) ∈ runMarker ∧
      ∀ text ∈ lastTexts, ¬ runMarker <:+: text := by
  decide +kernel

/-- Behind a fixed text the marker is sought in the rest. -/
theorem marker_fixedText_iff {text rest : Text} (h : text ∈ fixedTexts) :
    runMarker <:+: text ++ rest ↔ runMarker <:+: rest :=
  infix_append_of_clear (marker_fixedTexts.2.2.1 text h)

/-- The marker has a colon. -/
theorem not_marker_of_colon {text : Text} (h : 58 ∉ text) : ¬ runMarker <:+: text :=
  fun hin => h (hin.subset marker_fixedTexts.2.2.2.1)

theorem not_marker_of_mem {text : Text} (h : text ∈ lastTexts) : ¬ runMarker <:+: text :=
  marker_fixedTexts.2.2.2.2 text h

section Marker

variable {isPrint : Nat → Bool} {r : GuestRun}

theorem not_mem_repr (n : Nat) : 111 ∉ ascii n.repr := by
  intro h
  obtain ⟨c, hc, heq⟩ := List.mem_map.mp h
  rw [Nat.toList_repr] at hc
  have hdigit := Nat.isDigit_of_mem_toDigits (b := 10) (by decide) (by decide) hc
  have hrange : c.toNat ≤ 57 := by
    simp only [Char.isDigit, Bool.and_eq_true, decide_eq_true_eq] at hdigit
    exact hdigit.2
  have hcode := congrArg UInt8.toNat heq
  rw [UInt8.toNat_ofNat', Nat.mod_eq_of_lt (by omega)] at hcode
  rw [hcode] at hrange
  exact absurd hrange (by decide)

theorem not_mem_formatInt (n : Int64) : 111 ∉ ascii (formatInt n) := by
  unfold formatInt
  split
  · have hsign : ∀ s : String, ascii ("-" ++ s) = 45 :: ascii s := by
      intro s
      rw [ascii, String.toList_append, List.map_append]
      rfl
    rw [hsign, List.mem_cons, not_or]
    exact ⟨by decide, not_mem_repr _⟩
  · exact not_mem_repr _

/-- `%q` hides nothing. -/
theorem marker_quote_iff (s behind : Text) : runMarker <:+: quote isPrint s ++ behind ↔
    runMarker <:+: s ∨ runMarker <:+: behind := by
  have hplain := marker_fixedTexts.1
  rw [successMarker_run] at hplain ⊢
  exact infix_quote_append_iff hplain (by decide) behind

theorem passwdLine_name {line : Text} {entry : PasswdEntry} (h : passwdLine line = some entry) :
    58 ∉ entry.name := by
  unfold passwdLine at h
  split at h
  · cases h
  · split at h
    · rename_i hparts
      split at h
      · cases h
        exact not_mem_of_mem_splitOn (hparts ▸ List.mem_cons_self)
      · cases h
    · cases h

/-- The name of a user has no colon. -/
theorem colon_notMem_username : 58 ∉ r.username := by
  have hentries : ∀ entry ∈ passwdEntries r.passwd, 58 ∉ entry.name := by
    intro entry hmem
    unfold passwdEntries at hmem
    split at hmem
    · cases hmem
    · obtain ⟨line, -, hline⟩ := List.mem_filterMap.mp hmem
      exact passwdLine_name hline
  have hfirst : ∀ {p : PasswdEntry → Prop} {entry}, IsFirst p (passwdEntries r.passwd) entry → 58 ∉ entry.name := by
    rintro p entry ⟨-, before, after, hsplit, -⟩
    exact hentries entry (hsplit ▸ List.mem_append_right _ List.mem_cons_self)
  unfold GuestRun.username
  split
  · exact List.not_mem_nil
  · split
    · exact List.not_mem_nil
    · rename_i entry gid hresolved
      cases (resolveUserSpec_ok_iff.mp hresolved).user with
      | number _ h => exact hfirst h
      | bareNumber => exact fun hmem => absurd (List.mem_takeWhile_imp hmem) (by decide)
      | name _ h => exact hfirst h

theorem colon_notMem_of_findGroup {value text : Text} {lines : List Text}
    (h : findGroup value lines = .error (.parseUint text)) : 58 ∉ text := by
  induction lines with
  | nil => cases h
  | cons line rest ih =>
    unfold findGroup at h
    cases hline : groupNumber value line with
    | none =>
      rw [hline] at h
      exact ih h
    | some id =>
      rw [hline] at h
      dsimp only at h
      split at h
      · cases h
      · cases h
        unfold groupNumber at hline
        split at hline
        · rename_i hparts
          split at hline
          · cases hline
            exact not_mem_of_mem_splitOn (hparts ▸ List.mem_cons_of_mem _ (List.mem_cons_of_mem _ List.mem_cons_self))
          · cases hline
        · cases hline

/-- A number that does not parse is a field of a line of `/etc/group`. -/
theorem colon_notMem_of_resolved {text : Text} (h : r.resolved = .error (.parseUint text)) : 58 ∉ text := by
  unfold GuestRun.resolved Guest.resolveUserSpec at h
  cases hpasswd : resolvePasswd r.passwd (userPart r.user) with
  | error e =>
    simp only [hpasswd, bind, Except.bind, Except.error.injEq] at h
    unfold resolvePasswd at hpasswd
    dsimp only at hpasswd
    split at hpasswd
    · split at hpasswd
      · cases hpasswd
      · cases hpasswd
    · split at hpasswd
      · cases hpasswd
      · cases hpasswd
        cases h
  | ok entry =>
    simp only [hpasswd, bind, Except.bind] at h
    split at h
    · cases hgroup : resolveGroup r.group (groupPart r.user) with
      | ok gid =>
        rw [hgroup] at h
        cases h
      | error e =>
        rw [hgroup] at h
        cases h
        unfold resolveGroup at hgroup
        split at hgroup
        · cases hgroup
        · split at hgroup
          · cases hgroup
          · exact colon_notMem_of_findGroup hgroup
    · cases h

/-- The line shows the marker if one of its strings contains it, and the user's name does not. -/
theorem marker_startedLine_iff :
    runMarker <:+: r.startedLine isPrint ↔
      runMarker <:+: r.command ∨ runMarker <:+: r.workdir := by
  have hline : r.startedLine isPrint =
      (ascii "orca-init: " ++ ascii "started image-rootfs command=") ++ (quote isPrint r.command ++
        (ascii " workdir=" ++ (quote isPrint r.workdir ++ (ascii " user=" ++ (quote isPrint r.username ++ []))))) := by
    simp only [GuestRun.startedLine, logf, List.append_assoc, List.append_nil]
  rw [hline, marker_fixedText_iff (by simp [fixedTexts]), marker_quote_iff,
    marker_fixedText_iff (by simp [fixedTexts]), marker_quote_iff,
    marker_fixedText_iff (by simp [fixedTexts]), marker_quote_iff,
    or_iff_left (not_marker_of_mem (by simp [lastTexts])),
    or_iff_left (not_marker_of_colon colon_notMem_username)]

/-- What the command printed is shown line by line. -/
theorem marker_emitCaptured_iff (stream text : Text)
    (hfixed : ascii "orca-" ++ stream ++ ascii ": " ∈ fixedTexts) :
    (∃ line ∈ emitCaptured stream text, runMarker <:+: line) ↔
      runMarker <:+: text := by
  have hne := successMarker_run_ne_nil
  have hfeed := marker_fixedTexts.2.1
  rw [← infix_trimRight_iff hfeed text]
  unfold emitCaptured
  dsimp only
  split
  · rename_i hempty
    rw [hempty]
    simpa using hne
  · rw [infix_iff_splitOn hne hfeed]
    simp only [List.mem_map, exists_exists_and_eq_and]
    refine exists_congr fun line => and_congr_right fun _ => ?_
    rw [marker_fixedText_iff hfixed]

theorem not_marker_waitStatusString (status : UInt32) :
    ¬ runMarker <:+: waitStatusString status := by
  have hstatus : ∀ {text : Text}, text ∈ fixedTexts → ∀ n : Nat, ¬ runMarker <:+: text ++ ascii n.repr := by
    intro text htext n
    rw [marker_fixedText_iff htext, successMarker_run]
    exact not_infix_of_not_mem (not_mem_repr n)
  unfold waitStatusString
  split_ifs
  · exact hstatus (by simp [fixedTexts]) _
  · exact hstatus (by simp [fixedTexts]) _
  · exact hstatus (by simp [fixedTexts]) _
  · exact hstatus (by simp [fixedTexts]) _

/-- What the set-up and the kernel say does not read like the marker. -/
structure GuestRun.Quiet (r : GuestRun) : Prop where
  setup : ∀ message ∈ r.setup, ¬ runMarker <:+: logf message
  groupErr : ¬ runMarker <:+: r.groupErr
  waitErr : ∀ err ∈ r.waitErr, ¬ runMarker <:+: err

theorem not_marker_errText (hquiet : r.Quiet) {err : InitErr} (h : r.resolved = .error err) :
    ¬ runMarker <:+: r.errText isPrint err := by
  cases err with
  | userNotFound => exact not_marker_of_mem (by simp [lastTexts, GuestRun.errText])
  | groupNotFound => exact not_marker_of_mem (by simp [lastTexts, GuestRun.errText])
  | readFile path => exact hquiet.groupErr
  | parseUint text =>
    rw [GuestRun.errText, parseUintErr, List.append_assoc, marker_fixedText_iff (by simp [fixedTexts]),
      marker_quote_iff, not_or]
    refine ⟨not_marker_of_colon (colon_notMem_of_resolved h), ?_⟩
    split
    · exact not_marker_of_mem (by simp [lastTexts])
    · exact not_marker_of_mem (by simp [lastTexts])

/-- The user string is shown if it cannot be resolved. -/
theorem marker_userLines_iff (hquiet : r.Quiet) :
    (∃ line ∈ r.userLines isPrint, runMarker <:+: line) ↔
      runMarker <:+: r.user ∧ ∀ user, r.resolved ≠ .ok user := by
  unfold GuestRun.userLines
  split
  · rename_i hempty
    have hnone := not_marker_of_mem (show [] ∈ lastTexts by simp [lastTexts])
    simp [hempty, hnone]
  · cases hresolved : r.resolved with
    | ok user => simp
    | error err =>
      simp only [List.mem_singleton, exists_eq_left, ne_eq, reduceCtorEq, not_false_eq_true, implies_true, and_true]
      rw [logf, List.append_assoc, List.append_assoc, ← List.append_assoc,
        marker_fixedText_iff (by simp [fixedTexts]), marker_quote_iff,
        marker_fixedText_iff (by simp [fixedTexts]), or_iff_left (not_marker_errText hquiet hresolved)]

theorem not_marker_reapAdoptedChildren (hquiet : r.Quiet) :
    ∀ line ∈ r.reapAdoptedChildren, ¬ runMarker <:+: line := by
  intro line hline
  rcases List.mem_append.mp hline with hchild | herr
  · obtain ⟨child, -, rfl⟩ := List.mem_map.mp hchild
    have hdigits : Clear runMarker (ascii child.1.repr) := by
      rw [successMarker_run]
      exact clear_of_not_mem (not_mem_repr _)
    rw [logf, List.append_assoc, List.append_assoc, ← List.append_assoc,
      marker_fixedText_iff (by simp [fixedTexts]), infix_append_of_clear hdigits,
      marker_fixedText_iff (by simp [fixedTexts])]
    exact not_marker_waitStatusString child.2
  · obtain ⟨err, hmem, rfl⟩ := List.mem_map.mp herr
    rw [logf, ← List.append_assoc, marker_fixedText_iff (by simp [fixedTexts])]
    exact hquiet.waitErr err (Option.mem_toList.mp hmem)

theorem not_marker_resultLines {exitCode : Int64} (h : exitCode ≠ 0) :
    ∀ line ∈ GuestRun.resultLines exitCode, ¬ runMarker <:+: line := by
  intro line hline
  rw [GuestRun.resultLines, if_neg h, List.mem_singleton] at hline
  rw [hline, logf, ← List.append_assoc, marker_fixedText_iff (by simp [fixedTexts]), successMarker_run]
  exact not_infix_of_not_mem (not_mem_formatInt _)

/-- None of the strings that the guest prints contains the marker. The user string is one if it cannot be
resolved. -/
structure GuestRun.Unforged (r : GuestRun) : Prop where
  command : ¬ runMarker <:+: r.command
  workdir : ¬ runMarker <:+: r.workdir
  user : ¬ (runMarker <:+: r.user ∧ ∀ user, r.resolved ≠ .ok user)
  stdout : ¬ runMarker <:+: r.stdout
  stderr : ¬ runMarker <:+: r.stderr

/-- The stream of a command that failed. -/
theorem not_marker_serial_iff (isPrint : Nat → Bool) (hquiet : r.Quiet) {exitCode : Int64} (h : exitCode ≠ 0) :
    ¬ runMarker <:+: r.serial isPrint exitCode ↔ r.Unforged := by
  have hne := successMarker_run_ne_nil
  have hfeed := marker_fixedTexts.2.1
  have hsetup : ¬ ∃ line ∈ r.setup.map logf, runMarker <:+: line := by
    rintro ⟨line, hline, hin⟩
    obtain ⟨message, hmessage, rfl⟩ := List.mem_map.mp hline
    exact hquiet.setup message hmessage hin
  have hreaped : ¬ ∃ line ∈ r.reapAdoptedChildren, runMarker <:+: line := fun ⟨line, hline, hin⟩ =>
    not_marker_reapAdoptedChildren hquiet line hline hin
  have hresult : ¬ ∃ line ∈ GuestRun.resultLines exitCode, runMarker <:+: line :=
    fun ⟨line, hline, hin⟩ => not_marker_resultLines h line hline hin
  have hstdout := marker_emitCaptured_iff (ascii "stdout") r.stdout (by simp [fixedTexts])
  have hstderr := marker_emitCaptured_iff (ascii "stderr") r.stderr (by simp [fixedTexts])
  rw [GuestRun.serial, infix_lines_iff hne hfeed, GuestRun.lines]
  simp only [List.mem_append, List.mem_cons, or_and_right, exists_or, exists_eq_left, hsetup, hreaped, hresult,
    hstdout, hstderr, marker_userLines_iff hquiet, marker_startedLine_iff, false_or, or_false]
  constructor
  · intro hnone
    simp only [not_or] at hnone
    obtain ⟨⟨⟨huser, hcommand, hworkdir⟩, hout⟩, herr⟩ := hnone
    exact ⟨hcommand, hworkdir, huser, hout, herr⟩
  · rintro ⟨hcommand, hworkdir, huser, hout, herr⟩
    simp only [not_or]
    exact ⟨⟨⟨huser, hcommand, hworkdir⟩, hout⟩, herr⟩

end Marker

/-! ## The verdict -/

/-- **Success means that the command succeeded, whatever it is and however its output is read, EXACTLY if no
string that reaches the console contains the marker.** -/
theorem success_means_exit_zero_iff (isPrint : Nat → Bool) (r : GuestRun) (hquiet : r.Quiet) :
    (∀ (exitCode : Int64) (events : List SerialEvent), Carries events (r.serial isPrint exitCode) →
      .ok () ∈ (FirecrackerProcess.run (successMarker .imageRootfsRun) events).waitForMarkerOrExit → exitCode = 0) ↔
    r.Unforged := by
  have hne := successMarker_run_ne_nil
  constructor
  · intro hsound
    have hfailed : (1 : Int64) ≠ 0 := by decide
    rw [← not_marker_serial_iff isPrint hquiet hfailed]
    intro hin
    obtain ⟨events, hcarries, hok⟩ := (FirecrackerProcess.success_possible_iff hne).mpr hin
    exact hfailed (hsound 1 events hcarries hok)
  · intro hclean exitCode events hcarries hok
    by_contra hfailed
    refine (not_marker_serial_iff isPrint hquiet hfailed).mpr hclean ?_
    exact (FirecrackerProcess.success_possible_iff hne).mp ⟨events, hcarries, hok⟩

/-- A command that fails, and says nothing. -/
def failing (command user : Text) : GuestRun where
  setup := [ascii "build_time_utc=unknown"]
  command := command
  workdir := ascii "/"
  user := user
  passwd := some (ascii "root:x:0:0:root:/root:/bin/sh")
  group := some (ascii "root:x:0:")
  groupErr := []
  children := []
  waitErr := none
  stdout := []
  stderr := []

theorem success_means_exit_zero_iff_plain :
    (∀ (exitCode : Int64) (events : List SerialEvent),
      Carries events ((failing (ascii "exit 1") (ascii "root")).serial (fun _ => true) exitCode) →
      .ok () ∈ (FirecrackerProcess.run (successMarker .imageRootfsRun) events).waitForMarkerOrExit → exitCode = 0) ↔
    (failing (ascii "exit 1") (ascii "root")).Unforged :=
  success_means_exit_zero_iff _ _ ⟨by decide +kernel, by decide +kernel, by decide +kernel⟩

/-- The reads of a run of the command by the user, up to the line that announces it. -/
def announced (command user : Text) : List SerialEvent :=
  ((failing command user).setup.map logf ++ (failing command user).userLines (fun _ => true) ++
    [(failing command user).startedLine fun _ => true]).map fun line => .read (line ++ [10])

/-- The host finds the marker in what the run of the command prints, although the command exits with 1. -/
def ReportedOk (command user : Text) : Prop :=
  Carries (announced command user) ((failing command user).serial (fun _ => true) 1) ∧
    .ok () ∈ (FirecrackerProcess.run (successMarker .imageRootfsRun) (announced command user)).waitForMarkerOrExit

/-- The command prints nothing and exits with 1. The line that announces it carries the marker, and so does the
line about a user that is not found. -/
theorem failed_command_reported_ok :
    ReportedOk (ascii "exit 1 # orca-init: image-rootfs ok") [] ∧
      ReportedOk (ascii "exit 1") (ascii "orca-init: image-rootfs ok") := by
  refine ⟨⟨⟨?_, ?_⟩, ?_⟩, ⟨⟨?_, ?_⟩, ?_⟩⟩ <;> decide +kernel

end OrcaBlocks.Services
