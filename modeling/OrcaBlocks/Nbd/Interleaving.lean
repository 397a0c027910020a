/-
# OrcaBlocks.Nbd.Interleaving — calls of several connections on one device, step by step.

Every connection to an export is a goroutine of its own, and all of them share the `StorageDevice`. The sections
under the mutex are atomic and so is a call of the backend; between two of them anything can happen. `ReadAt` takes
its plan, fetches, and stores the window in three steps; `WriteAt` drops the window and THEN writes. So a fetch of
the old bytes can be stored after the write has dropped the window, and the reads that follow are answered with
bytes from before a write that has returned.

The log of a run lists when calls start and return. As long as no window is stored while a write to some of its
bytes is under way, nor some of its bytes written between the fetch and the store, every read returns the bytes of
the array AT ONE INSTANT of its run, and a read that starts after a write has returned sees that write or one that
was not over before it began.
-/
import OrcaBlocks.Nbd.Coherence

namespace OrcaBlocks.Nbd

open OrcaBlocks.Lib Function
open OrcaBlocks.Storage (Bytes World Platform Caller Flat NoCollision)

variable {bytes : Bytes} {f : Nat → UInt8} {o : DeviceOp}

variable {σ : Type}

/-! ## Calls in progress -/

/-- A call in progress: what was asked for, and what is left to do. -/
inductive Task where
  | read (offset length : Int64) (rest : DeviceProg Bytes)
  | write (offset : Int64) (data : Bytes) (rest : DeviceProg Unit)

/-- The step a call takes next, if it is not about to return. -/
def Task.next : Task → Option DeviceOp
  | .read _ _ (.call o _) => some o
  | .write _ _ (.call o _) => some o
  | _ => none

/-- What the clients see. Calls are numbered. -/
inductive Event where
  | readStarts (n : Nat) (offset length : Int64)
  | readReturns (n : Nat) (result : Outcome Err Bytes)
  | writeStarts (n : Nat) (offset : Int64) (data : Bytes)
  | writeReturns (n : Nat) (result : Outcome Err Unit)
  deriving DecidableEq, Repr

def Event.call : Event → Nat
  | .readStarts n .. => n
  | .readReturns n _ => n
  | .writeStarts n .. => n
  | .writeReturns n _ => n

def Event.IsStart : Event → Prop
  | .readStarts .. => True
  | .writeStarts .. => True
  | _ => False

/-- The device, the calls in progress on it, and the log, the latest event first. -/
structure Traffic (σ : Type) where
  device : DeviceState σ
  tasks : Nat → Option Task
  log : List Event

/-- A call starts, or one in progress takes its next step: it returns if there is none. -/
inductive Move where
  | read (n : Nat) (offset length : Int64)
  | write (n : Nat) (offset : Int64) (data : Bytes)
  | step (n : Nat)
  deriving DecidableEq, Repr

namespace Traffic

/-- The number has not been used. -/
def Unused (c : Traffic σ) (n : Nat) : Prop := ∀ e ∈ c.log, e.call ≠ n

instance (c : Traffic σ) (n : Nat) : Decidable (c.Unused n) :=
  inferInstanceAs (Decidable (∀ e ∈ c.log, e.call ≠ n))

variable (d : StorageDevice) (B : StorageBackend σ)

/-- One move, if it can be made. A slice is no longer than an `int` can say. -/
def move (c : Traffic σ) : Move → Option (Traffic σ)
  | .read n offset length =>
    if c.Unused n then some
      { c with
        tasks := update c.tasks n (some (.read offset length (d.readAt offset length)))
        log := .readStarts n offset length :: c.log }
    else none
  | .write n offset data =>
    if c.Unused n ∧ data.length < 2 ^ 63 then some
      { c with
        tasks := update c.tasks n (some (.write offset data (StorageDevice.writeAt offset data)))
        log := .writeStarts n offset data :: c.log }
    else none
  | .step n =>
    match c.tasks n with
    | none => none
    | some (.read offset length (.call o k)) => some
        { c with
          device := (d.exec B c.device o).2
          tasks := update c.tasks n (some (.read offset length (k (d.exec B c.device o).1))) }
    | some (.read _ _ (.ret result)) => some
        { c with tasks := update c.tasks n none, log := .readReturns n result :: c.log }
    | some (.write offset data (.call o k)) => some
        { c with
          device := (d.exec B c.device o).2
          tasks := update c.tasks n (some (.write offset data (k (d.exec B c.device o).1))) }
    | some (.write _ _ (.ret result)) => some
        { c with tasks := update c.tasks n none, log := .writeReturns n result :: c.log }

/-- An interleaving: any sequence of moves that can be made. -/
def play : List Move → Traffic σ → Option (Traffic σ)
  | [], c => some c
  | m :: ms, c => (c.move d B m).bind fun c' => play ms c'

/-- A device nobody uses yet. -/
def idle (s : DeviceState σ) : Traffic σ := ⟨s, fun _ => none, []⟩

end Traffic

/-! ## Fresh reads -/

/-- In a log, `e` stands before `e'`. -/
def Precedes (log : List Event) (e e' : Event) : Prop := ∃ later earlier, log = later ++ e' :: earlier ∧ e ∈ earlier

/-- The position `p` is one of `n` from `offset`. -/
def At (offset : Int64) (n p : Nat) : Prop := natOf offset ≤ p ∧ p < natOf offset + n

/-- A value a read may find at a position of the write `m` once that has returned: the byte of `m`, or the byte of
another write that had not returned before `m` started. -/
def Current (log : List Event) (m : Nat) (offset : Int64) (data : Bytes) (p : Nat) (v : UInt8) : Prop :=
  v = data.getD (p - natOf offset) 0 ∨
    ∃ m' offset' data', m' ≠ m ∧ .writeStarts m' offset' data' ∈ log ∧ At offset' data'.length p ∧
      v = data'.getD (p - natOf offset') 0 ∧
      ∀ result, ¬ Precedes log (.writeReturns m' result) (.writeStarts m offset data)

/-- The bytes of a read are current for every write that had returned when the read started. -/
def Sees (log : List Event) (n : Nat) (offset length : Int64) (bytes : Bytes) : Prop :=
  ∀ m offset' data, .writeStarts m offset' data ∈ log →
    Precedes log (.writeReturns m (.ok ())) (.readStarts n offset length) →
    ∀ p, At offset' data.length p → At offset bytes.length p →
      Current log m offset' data p (bytes.getD (p - natOf offset) 0)

/-- **No read that has returned was stale.** -/
def NoStaleRead (log : List Event) : Prop :=
  ∀ n offset length bytes, .readStarts n offset length ∈ log → .readReturns n (.ok bytes) ∈ log →
    Sees log n offset length bytes

/-! ## Races -/

/-- Storing a window and writing some of its bytes. -/
def DeviceOp.Races : DeviceOp → DeviceOp → Prop
  | .storeReadAheadWindow offset window, .backendWrite offset' data =>
    Overlap offset window.length offset' data.length
  | .backendWrite offset' data, .storeReadAheadWindow offset window =>
    Overlap offset window.length offset' data.length
  | _, _ => False

instance : DecidableRel DeviceOp.Races := fun o o' => by
  unfold DeviceOp.Races
  split
  · infer_instance
  · infer_instance
  · infer_instance

namespace Traffic

/-- The step about to be taken races with no step another call would take next. -/
def Careful (c : Traffic σ) : Move → Prop
  | .step n => ∀ o ∈ (c.tasks n).bind Task.next, ∀ e ∈ c.log, e.call ≠ n →
      ∀ o' ∈ (c.tasks e.call).bind Task.next, ¬ o.Races o'
  | _ => True

instance (c : Traffic σ) : DecidablePred c.Careful
  | .read .. => .isTrue trivial
  | .write .. => .isTrue trivial
  | .step n => inferInstanceAs (Decidable (∀ o ∈ (c.tasks n).bind Task.next, ∀ e ∈ c.log, e.call ≠ n →
      ∀ o' ∈ (c.tasks e.call).bind Task.next, ¬ o.Races o'))

/-- Every move of an interleaving is careful in the state it is made in. -/
def AllCareful (d : StorageDevice) (B : StorageBackend σ) : List Move → Traffic σ → Prop
  | [], _ => True
  | m :: ms, c => c.Careful m ∧ ∀ c' ∈ c.move d B m, AllCareful d B ms c'

def decidableAllCareful (d : StorageDevice) (B : StorageBackend σ) :
    (ms : List Move) → (c : Traffic σ) → Decidable (AllCareful d B ms c)
  | [], _ => .isTrue trivial
  | m :: ms, c =>
    match hmove : c.move d B m with
    | none => decidable_of_iff (c.Careful m)
        ⟨fun h => ⟨h, fun c' hc' => absurd hc' (by rw [hmove]; exact (nomatch ·))⟩, fun h => h.1⟩
    | some c₁ =>
      have := decidableAllCareful d B ms c₁
      decidable_of_iff (c.Careful m ∧ AllCareful d B ms c₁)
        ⟨fun h => ⟨h.1, fun c' hc' => by
          rw [hmove] at hc'
          obtain rfl := Option.mem_some_iff.mp hc'
          exact h.2⟩, fun h => ⟨h.1, h.2 c₁ (by rw [hmove]; rfl)⟩⟩

instance (d : StorageDevice) (B : StorageBackend σ) (ms : List Move) (c : Traffic σ) :
    Decidable (AllCareful d B ms c) := decidableAllCareful d B ms c

end Traffic

/-! ## The log grows -/

section Log

variable {log : List Event} {e x : Event} {m n : Nat} {offset length : Int64} {data : Bytes} {p : Nat}
  {v : UInt8}

theorem precedes_cons_iff {e' : Event} (hne : x ≠ e') : Precedes (x :: log) e e' ↔ Precedes log e e' := by
  constructor
  · rintro ⟨later, earlier, hlog, he⟩
    cases later with
    | nil =>
      cases hlog
      exact absurd rfl hne
    | cons y later =>
      obtain ⟨-, hlog⟩ := List.cons.inj hlog
      exact ⟨later, earlier, hlog, he⟩
  · rintro ⟨later, earlier, rfl, he⟩
    exact ⟨x :: later, earlier, rfl, he⟩

theorem Precedes.mem {e' : Event} (h : Precedes log e e') : e ∈ log ∧ e' ∈ log := by
  obtain ⟨later, earlier, rfl, he⟩ := h
  exact ⟨List.mem_append_right _ (List.mem_cons_of_mem _ he), by simp⟩

/-- An event that comes next: a call that starts has not returned. -/
structure Comes (log : List Event) (x : Event) : Prop where
  new : x ∉ log
  first : ∀ m offset data, x = .writeStarts m offset data → ∀ result, .writeReturns m result ∉ log

theorem Comes.ne (h : Comes log x) (he : e ∈ log) : x ≠ e := fun heq => h.new (heq ▸ he)

theorem Current.grow (hcomes : Comes log x) (hstart : .writeStarts m offset data ∈ log)
    (h : Current log m offset data p v) : Current (x :: log) m offset data p v := by
  rcases h with h | ⟨m', offset', data', hne, hmem, hat, hv, hlate⟩
  · exact .inl h
  · refine .inr ⟨m', offset', data', hne, List.mem_cons_of_mem _ hmem, hat, hv, fun result => ?_⟩
    rw [precedes_cons_iff (hcomes.ne hstart)]
    exact hlate result

theorem Sees.grow (hcomes : Comes log x) (hstart : .readStarts n offset length ∈ log)
    (h : Sees log n offset length bytes) : Sees (x :: log) n offset length bytes := by
  intro m offset' data hmem hbefore p hat hat'
  rw [precedes_cons_iff (hcomes.ne hstart)] at hbefore
  rcases List.mem_cons.mp hmem with heq | hmem
  · exact absurd hbefore.mem.1 (hcomes.first m offset' data heq.symm _)
  · exact (h m offset' data hmem hbefore p hat hat').grow hcomes hmem

end Log

/-! ## The invariant -/

/-- The bytes of a write are in the array `f`, or bytes that may stand in their place. -/
def Applied (log : List Event) (n : Nat) (offset : Int64) (data : Bytes) (f : Nat → UInt8) : Prop :=
  ∀ p, At offset data.length p → Current log n offset data p (f p)

/-- What is left of a `ReadAt` when the backend has answered. -/
def fetched (offset length : Int64) (store : Bool) : Outcome Err Bytes → DeviceProg Bytes
  | .panic => .ret .panic
  | .error e => .ret (.error e)
  | .ok data =>
    if store then .call (.storeReadAheadWindow offset data) fun _ => .ret (.ok (StorageDevice.answer length data))
    else .ret (.ok (StorageDevice.answer length data))

/-- How far a `ReadAt` has come, and what is known then. A fetch that is about to be stored still mirrors the
array. -/
inductive ReadStage (d : StorageDevice) (f : Nat → UInt8) (log : List Event) (n : Nat) (offset length : Int64) :
    DeviceProg Bytes → Prop
  | start : ReadStage d f log n offset length (d.readAt offset length)
  | plan (k : Int64 × Bool → DeviceProg Bytes)
      (hk : ∀ plan, k plan = .call (.backendRead offset plan.1) (fetched offset length plan.2)) :
      ReadStage d f log n offset length (.call (.planReadAhead offset length) k)
  | fetch (size : Int64) (store : Bool) :
      ReadStage d f log n offset length (.call (.backendRead offset size) (fetched offset length store))
  | store (data : Bytes) (hrange : d.Holds offset.toInt data.length)
      (hsame : data = window f (natOf offset) data.length)
      (hsees : Sees log n offset length (StorageDevice.answer length data)) :
      ReadStage d f log n offset length
        (.call (.storeReadAheadWindow offset data) fun _ => .ret (.ok (StorageDevice.answer length data)))
  | done (result : Outcome Err Bytes) (hsees : ∀ bytes, result = .ok bytes → Sees log n offset length bytes) :
      ReadStage d f log n offset length (.ret result)

/-- How far a `WriteAt` has come. One that has dropped the window and not written yet finds none of its bytes
there. -/
inductive WriteStage (f : Nat → UInt8) (ahead : ReadAhead) (log : List Event) (n : Nat) (offset : Int64)
    (data : Bytes) : DeviceProg Unit → Prop
  | start (hlength : data.length < 2 ^ 63) :
      WriteStage f ahead log n offset data (StorageDevice.writeAt offset data)
  | write (hlength : data.length < 2 ^ 63) (hclear : ahead.Clear offset data.length) :
      WriteStage f ahead log n offset data
        (.call (.backendWrite offset data) fun result => .ret result)
  | done (result : Outcome Err Unit) (happlied : result = .ok () → Applied log n offset data f) :
      WriteStage f ahead log n offset data (.ret result)

def TaskOk (d : StorageDevice) (f : Nat → UInt8) (ahead : ReadAhead) (log : List Event) (n : Nat) : Task → Prop
  | .read offset length rest => .readStarts n offset length ∈ log ∧ ReadStage d f log n offset length rest
  | .write offset data rest => .writeStarts n offset data ∈ log ∧ WriteStage f ahead log n offset data rest

/-- **The invariant of the traffic.** -/
structure Traffic.Good (d : StorageDevice) (I : σ → Prop) (content : σ → Nat → UInt8) (c : Traffic σ) : Prop where
  inv : I c.device.backend
  mirrors : c.device.ahead.Mirrors d (content c.device.backend)
  tasks : ∀ n task, c.tasks n = some task →
    TaskOk d (content c.device.backend) c.device.ahead c.log n task
  running : ∀ n task, c.tasks n = some task →
    (∀ result, .readReturns n result ∉ c.log) ∧ ∀ result, .writeReturns n result ∉ c.log
  once : ∀ e ∈ c.log, ∀ e' ∈ c.log, e.IsStart → e'.IsStart → e.call = e'.call → e = e'
  written : ∀ n offset data, .writeStarts n offset data ∈ c.log → .writeReturns n (.ok ()) ∈ c.log →
    Applied c.log n offset data (content c.device.backend)
  fresh : NoStaleRead c.log

section Grow

variable {d : StorageDevice} {ahead : ReadAhead} {log : List Event} {x : Event} {n : Nat}
  {offset length : Int64} {data : Bytes}

theorem Applied.grow (hcomes : Comes log x) (hstart : .writeStarts n offset data ∈ log)
    (h : Applied log n offset data f) : Applied (x :: log) n offset data f :=
  fun p hat => (h p hat).grow hcomes hstart

theorem TaskOk.grow (hcomes : Comes log x) {task : Task} (h : TaskOk d f ahead log n task) :
    TaskOk d f ahead (x :: log) n task := by
  cases task with
  | read offset length rest =>
    obtain ⟨hstart, hstage⟩ := h
    refine ⟨List.mem_cons_of_mem _ hstart, ?_⟩
    cases hstage with
    | start => exact .start
    | plan k hk => exact .plan k hk
    | fetch size store => exact .fetch size store
    | store data hrange hsame hsees => exact .store data hrange hsame (hsees.grow hcomes hstart)
    | done result hsees => exact .done result fun bytes hok => (hsees bytes hok).grow hcomes hstart
  | write offset data rest =>
    obtain ⟨hstart, hstage⟩ := h
    refine ⟨List.mem_cons_of_mem _ hstart, ?_⟩
    cases hstage with
    | start hlength => exact .start hlength
    | write hlength hclear => exact .write hlength hclear
    | done result happlied => exact .done result fun hok => (happlied hok).grow hcomes hstart

end Grow

/-! ## Starting and returning -/

section Moves

variable {d : StorageDevice} {B : StorageBackend σ} {I : σ → Prop} {content : σ → Nat → UInt8} {c : Traffic σ}
  {n : Nat} {offset length : Int64} {data : Bytes}

theorem Traffic.Unused.notMem (h : c.Unused n) {x : Event} (hx : x.call = n) : x ∉ c.log :=
  fun hmem => h x hmem hx

theorem Traffic.Unused.comes (h : c.Unused n) {x : Event} (hx : x.call = n) : Comes c.log x := by
  refine ⟨h.notMem hx, ?_⟩
  rintro m offset data rfl result
  exact h.notMem (x := .writeReturns m result) hx

/-- A read that finds the bytes of the array sees every write that has returned. -/
theorem Traffic.Good.sees (h : c.Good d I content)
    (hbytes : bytes = window (content c.device.backend) (natOf offset) bytes.length) :
    Sees c.log n offset length bytes := by
  intro m offset' data hstart hbefore p hat hat'
  have hbyte : bytes.getD (p - natOf offset) 0 = content c.device.backend p := by
    obtain ⟨hlo, hhi⟩ := hat'
    rw [hbytes, getD_window 0 _ (by omega), Nat.add_sub_cancel' hlo]
  rw [hbyte]
  exact h.written m offset' data hstart hbefore.mem.1 p hat

/-- A call starts. -/
theorem Traffic.Good.start (h : c.Good d I content) (hunused : c.Unused n) {x : Event} (hstarts : x.IsStart)
    (hcall : x.call = n) {task : Task}
    (htask : TaskOk d (content c.device.backend) c.device.ahead (x :: c.log) n task) :
    Traffic.Good d I content ⟨c.device, update c.tasks n (some task), x :: c.log⟩ := by
  have hcomes : Comes c.log x := hunused.comes hcall
  -- the call has no other event, so what is in the log is about other calls
  have hother : ∀ e ∈ c.log, e.call ≠ x.call := fun e he => hcall ▸ hunused e he
  have hreturns : ∀ {e : Event}, ¬ e.IsStart → e ∈ x :: c.log → e ∈ c.log := by
    intro e hnot hmem
    rcases List.mem_cons.mp hmem with rfl | hmem
    · exact absurd hstarts hnot
    · exact hmem
  refine ⟨h.inv, h.mirrors, fun m task' htask' => ?_, fun m task' htask' => ?_, ?_, ?_, ?_⟩
  · dsimp only at htask'
    by_cases hm : m = n
    · subst hm
      rw [update_self, Option.some.injEq] at htask'
      exact htask' ▸ htask
    · rw [update_of_ne hm] at htask'
      exact (h.tasks m task' htask').grow hcomes
  · dsimp only at htask'
    by_cases hm : m = n
    · subst hm
      exact ⟨fun result hmem => hunused.notMem rfl (hreturns id hmem),
        fun result hmem => hunused.notMem rfl (hreturns id hmem)⟩
    · rw [update_of_ne hm] at htask'
      obtain ⟨hread, hwrite⟩ := h.running m task' htask'
      exact ⟨fun result hmem => hread result (hreturns id hmem),
        fun result hmem => hwrite result (hreturns id hmem)⟩
  · intro e hmem e' hmem' he he' hsame
    rcases List.mem_cons.mp hmem with rfl | hmem
    · rcases List.mem_cons.mp hmem' with rfl | hmem'
      · rfl
      · exact absurd hsame.symm (hother e' hmem')
    · rcases List.mem_cons.mp hmem' with rfl | hmem'
      · exact absurd hsame (hother e (by assumption))
      · exact h.once e hmem e' hmem' he he' hsame
  · intro m offset data hstart hreturn
    have hreturn' := hreturns id hreturn
    rcases List.mem_cons.mp hstart with rfl | hstart
    · exact absurd rfl (hother (.writeReturns m (.ok ())) hreturn')
    · exact (h.written m offset data hstart hreturn').grow hcomes hstart
  · intro m offset length bytes hstart hreturn
    have hreturn' := hreturns id hreturn
    rcases List.mem_cons.mp hstart with rfl | hstart
    · exact absurd rfl (hother (.readReturns m (.ok bytes)) hreturn')
    · exact (h.fresh m offset length bytes hstart hreturn').grow hcomes hstart

/-- A call returns. -/
theorem Traffic.Good.finish (h : c.Good d I content) {x : Event} (hends : ¬ x.IsStart) (hcall : x.call = n)
    (hcomes : Comes c.log x)
    (hread : ∀ offset length bytes, .readStarts n offset length ∈ c.log → x = .readReturns n (.ok bytes) →
      Sees c.log n offset length bytes)
    (hwrite : ∀ offset data, .writeStarts n offset data ∈ c.log → x = .writeReturns n (.ok ()) →
      Applied c.log n offset data (content c.device.backend)) :
    Traffic.Good d I content ⟨c.device, update c.tasks n none, x :: c.log⟩ := by
  have hstarts : ∀ {e : Event}, e.IsStart → e ∈ x :: c.log → e ∈ c.log := by
    intro e he hmem
    rcases List.mem_cons.mp hmem with rfl | hmem
    · exact absurd he hends
    · exact hmem
  refine ⟨h.inv, h.mirrors, fun m task htask => ?_, fun m task htask => ?_, ?_, ?_, ?_⟩
  · dsimp only at htask
    by_cases hm : m = n
    · rw [hm, update_self] at htask
      cases htask
    · rw [update_of_ne hm] at htask
      exact (h.tasks m task htask).grow hcomes
  · dsimp only at htask
    by_cases hm : m = n
    · rw [hm, update_self] at htask
      cases htask
    · rw [update_of_ne hm] at htask
      obtain ⟨hread, hwrite⟩ := h.running m task htask
      refine ⟨fun result hmem => ?_, fun result hmem => ?_⟩
      · rcases List.mem_cons.mp hmem with rfl | hmem
        · exact hm hcall
        · exact hread result hmem
      · rcases List.mem_cons.mp hmem with rfl | hmem
        · exact hm hcall
        · exact hwrite result hmem
  · intro e hmem e' hmem' he he' hsame
    exact h.once e (hstarts he hmem) e' (hstarts he' hmem') he he' hsame
  · intro m offset data hstart hreturn
    have hstart' : .writeStarts m offset data ∈ c.log := hstarts (by exact trivial) hstart
    refine Applied.grow hcomes hstart' ?_
    rcases List.mem_cons.mp hreturn with rfl | hreturn
    · cases hcall
      exact hwrite offset data hstart' rfl
    · exact h.written m offset data hstart' hreturn
  · intro m offset length bytes hstart hreturn
    have hstart' : .readStarts m offset length ∈ c.log := hstarts (by exact trivial) hstart
    refine Sees.grow hcomes hstart' ?_
    rcases List.mem_cons.mp hreturn with rfl | hreturn
    · cases hcall
      exact hread offset length bytes hstart' rfl
    · exact h.fresh m offset length bytes hstart' hreturn

/-! ## A step on the device -/

/-- A call takes a step: the others must still be what they were, and the writes that are done still seen. -/
theorem Traffic.Good.step (h : c.Good d I content) {task task' : Task} (htask : c.tasks n = some task)
    {s : DeviceState σ} (hinv : I s.backend) (hmirrors : s.ahead.Mirrors d (content s.backend))
    (hnew : TaskOk d (content s.backend) s.ahead c.log n task')
    (hothers : ∀ m other, m ≠ n → c.tasks m = some other → TaskOk d (content s.backend) s.ahead c.log m other)
    (happlied : ∀ m offset data, m ≠ n → Applied c.log m offset data (content c.device.backend) →
      Applied c.log m offset data (content s.backend)) :
    Traffic.Good d I content ⟨s, update c.tasks n (some task'), c.log⟩ := by
  refine ⟨hinv, hmirrors, fun m other hother => ?_, fun m other hother => ?_, h.once, ?_, h.fresh⟩
  · dsimp only at hother
    by_cases hm : m = n
    · subst hm
      rw [update_self, Option.some.injEq] at hother
      exact hother ▸ hnew
    · rw [update_of_ne hm] at hother
      exact hothers m other hm hother
  · dsimp only at hother
    by_cases hm : m = n
    · subst hm
      exact h.running m task htask
    · rw [update_of_ne hm] at hother
      exact h.running m other hother
  · intro m offset data hstart hreturn
    have hm : m ≠ n := by
      rintro rfl
      exact (h.running m task htask).2 _ hreturn
    exact happlied m offset data hm (h.written m offset data hstart hreturn)

/-- The window stays, or goes. -/
def ReadAhead.Within (r' r : ReadAhead) : Prop :=
  ∀ data ∈ r'.windowData, data ∈ r.windowData ∧ r'.windowOffset = r.windowOffset

theorem ReadAhead.Within.clear {r r' : ReadAhead} (h : r'.Within r) {n : Nat} (hclear : r.Clear offset n) :
    r'.Clear offset n := by
  intro data hdata
  obtain ⟨hmem, hoffset⟩ := h data hdata
  rw [hoffset]
  exact hclear data hmem

/-- A step that neither writes nor stores. -/
theorem Traffic.Good.quiet (h : c.Good d I content) {task task' : Task} (htask : c.tasks n = some task)
    {s : DeviceState σ} (hinv : I s.backend) (hcontent : content s.backend = content c.device.backend)
    (hmirrors : s.ahead.Mirrors d (content c.device.backend)) (hwithin : s.ahead.Within c.device.ahead)
    (hnew : TaskOk d (content c.device.backend) s.ahead c.log n task') :
    Traffic.Good d I content ⟨s, update c.tasks n (some task'), c.log⟩ := by
  refine h.step htask hinv (hcontent.symm ▸ hmirrors) (hcontent.symm ▸ hnew) (fun m other _ hother => ?_)
    (fun m offset data _ happlied => hcontent.symm ▸ happlied)
  rw [hcontent]
  have hok := h.tasks m other hother
  cases other with
  | read offset length rest => exact hok
  | write offset data rest =>
    obtain ⟨hstart, hstage⟩ := hok
    refine ⟨hstart, ?_⟩
    cases hstage with
    | start hlength => exact .start hlength
    | write hlength hclear => exact .write hlength (hwithin.clear hclear)
    | done result happlied => exact .done result happlied

theorem ReadAhead.within_refl (r : ReadAhead) : r.Within r := fun _ h => ⟨h, rfl⟩

/-- The section that looks into the window leaves it, and what it finds there is of the array. -/
theorem ReadAhead.Mirrors.hit {r : ReadAhead} (h : r.Mirrors d f) (offset length : Int64) :
    (r.readAheadHit offset length).2.Mirrors d f ∧ (r.readAheadHit offset length).2.Within r ∧
      ∀ data, (r.readAheadHit offset length).1 = some (some data) →
        data = window f (natOf offset) data.length := by
  have hplaced : 0 ≤ r.windowOffset.toInt := h.placed
  have hmax := offset.toInt_lt
  unfold readAheadHit
  cases hwindow : r.windowData with
  | none => exact ⟨h, r.within_refl, nofun⟩
  | some data =>
    dsimp only
    by_cases hfrom : offset < r.windowOffset
    · rw [if_pos hfrom]
      exact ⟨h, r.within_refl, nofun⟩
    rw [if_neg hfrom]
    by_cases hmiss : offset - r.windowOffset < 0 ∨
        (offset - r.windowOffset + length).toInt > data.length
    · rw [if_pos hmiss]
      exact ⟨h, r.within_refl, nofun⟩
    rw [if_neg hmiss]
    have hrecord : (r.recordReadLocked offset length).Within r := fun data hdata => ⟨hdata, rfl⟩
    by_cases hpanic : length < 0 ∨ offset - r.windowOffset + length < offset - r.windowOffset
    · rw [if_pos hpanic]
      exact ⟨h.record offset length, hrecord, nofun⟩
    · rw [if_neg hpanic]
      refine ⟨h.record offset length, hrecord, ?_⟩
      rintro bytes ⟨⟩
      obtain ⟨-, hend⟩ := not_or.mp hmiss
      obtain ⟨-, horder⟩ := not_or.mp hpanic
      rw [Int64.lt_iff_toInt_lt] at hfrom horder
      have hstart : (offset - r.windowOffset).toInt = offset.toInt - r.windowOffset.toInt :=
        toInt_sub_of_bounds (by omega)
      have hbound : natOf (offset - r.windowOffset) + (natOf (offset - r.windowOffset + length) -
          natOf (offset - r.windowOffset)) ≤ data.length := by
        unfold natOf
        omega
      have hoffset : natOf r.windowOffset + natOf (offset - r.windowOffset) = natOf offset := by
        unfold natOf
        omega
      have hslice : slice data (natOf (offset - r.windowOffset)) (natOf (offset - r.windowOffset + length) -
            natOf (offset - r.windowOffset)) =
          window f (natOf offset) (natOf (offset - r.windowOffset + length) -
            natOf (offset - r.windowOffset)) := by
        rw [h.same data hwindow, slice_window f hbound, hoffset]
      rw [hslice, length_window]

theorem planReadAhead_record (d : StorageDevice) (r : ReadAhead) (offset length : Int64) :
    (r.planReadAhead d offset length).2 = r.recordReadLocked offset length := by
  unfold ReadAhead.planReadAhead
  dsimp only
  split
  · rfl
  · rfl

/-- What a fetch returns is of the array if what it fetched is. -/
theorem answer_window {lo : Nat} (hdata : data = window f lo data.length) :
    StorageDevice.answer length data = window f lo (StorageDevice.answer length data).length := by
  unfold StorageDevice.answer
  split
  · exact hdata
  · rename_i hlong
    have htake : data.take (natOf length) = window f lo (natOf length) := by
      have hfits : 0 + natOf length ≤ data.length := by
        unfold natOf
        omega
      have hslice : slice (window f lo data.length) 0 (natOf length) = window f (lo + 0) (natOf length) :=
        slice_window f hfits
      rwa [← hdata, slice, List.drop_zero, Nat.add_zero] at hslice
    rw [htake, length_window]

/-- What the backend of an array answers is of the array. -/
theorem read_of_array (hB : B.IsArrayOn d I content) {b : σ} (hb : I b)
    (hok : (B.read offset length b).1 = .ok bytes) :
    d.Holds offset.toInt bytes.length ∧ bytes = window (content b) (natOf offset) bytes.length := by
  obtain ⟨-, -, hread, hrefused⟩ := hB.read offset length b hb
  by_cases hrange : d.Holds offset.toInt length.toInt
  · rw [hread hrange, Outcome.ok.injEq] at hok
    subst hok
    rw [length_window, natOf_cast hrange.nonneg]
    exact ⟨hrange, rfl⟩
  · obtain ⟨e, he⟩ := hrefused hrange
    rw [he] at hok
    cases hok

/-- No other call is about to take a step that races with `o`. -/
def Traffic.Unraced (c : Traffic σ) (n : Nat) (o : DeviceOp) : Prop :=
  ∀ m task o', m ≠ n → c.tasks m = some task → task.next = some o' → ¬ o.Races o'

/-- A step of a `ReadAt`. -/
theorem Traffic.Good.stepRead (hB : B.IsArrayOn d I content) (h : c.Good d I content)
    {k : o.Res → DeviceProg Bytes} (htask : c.tasks n = some (.read offset length (.call o k)))
    (hunraced : c.Unraced n o) :
    Traffic.Good d I content ⟨(d.exec B c.device o).2,
      update c.tasks n (some (.read offset length (k (d.exec B c.device o).1))), c.log⟩ := by
  obtain ⟨hstart, hstage⟩ := h.tasks n _ htask
  -- what the backend answers to a read of the array
  have hasked : ∀ size, I (B.read offset size c.device.backend).2 ∧
      content (B.read offset size c.device.backend).2 = content c.device.backend :=
    fun size => ⟨(hB.read offset size c.device.backend h.inv).1, (hB.read offset size c.device.backend h.inv).2.1⟩
  generalize hrest : (Prog.call o k : DeviceProg Bytes) = rest at hstage
  cases hstage with
  | start =>
    unfold StorageDevice.readAt at hrest
    split at hrest
    · cases hrest
      refine h.quiet htask (hasked length).1 (hasked length).2 h.mirrors (ReadAhead.within_refl _)
        ⟨hstart, .done _ fun bytes hok => ?_⟩
      exact h.sees (read_of_array hB h.inv hok).2
    · cases hrest
      obtain ⟨hmirrors, hwithin, hfound⟩ := h.mirrors.hit offset length
      refine h.quiet htask h.inv rfl hmirrors hwithin ⟨hstart, ?_⟩
      generalize hanswer : (d.exec B c.device (.readAheadHit offset length)).1 = found
      have hhit : (c.device.ahead.readAheadHit offset length).1 = found := hanswer
      rw [hhit] at hfound
      rcases found with _ | _ | data
      · exact .done .panic nofun
      · refine .plan _ ?_
        rintro ⟨size, store⟩
        refine congrArg (Prog.call (S := deviceSig) (DeviceOp.backendRead offset size)) (funext fun answer => ?_)
        rcases answer with data | e | _
        · rfl
        · rfl
        · rfl
      · refine .done _ ?_
        rintro bytes ⟨⟩
        exact h.sees (hfound data rfl)
  | plan k' hk =>
    cases hrest
    have hrecord : (c.device.ahead.recordReadLocked offset length).Within c.device.ahead :=
      fun data hdata => ⟨hdata, rfl⟩
    have hahead := planReadAhead_record d c.device.ahead offset length
    rw [← hahead] at hrecord
    have hmirrors := h.mirrors.record offset length
    rw [← hahead] at hmirrors
    refine h.quiet htask h.inv rfl hmirrors hrecord ⟨hstart, ?_⟩
    show ReadStage d _ c.log n offset length (k' (c.device.ahead.planReadAhead d offset length).1)
    rw [hk]
    exact .fetch _ _
  | fetch size store =>
    cases hrest
    refine h.quiet htask (hasked size).1 (hasked size).2 h.mirrors (ReadAhead.within_refl _) ⟨hstart, ?_⟩
    show ReadStage d _ c.log n offset length
      (fetched offset length store (B.read offset size c.device.backend).1)
    cases hread : (B.read offset size c.device.backend).1 with
    | panic => exact .done .panic nofun
    | error e => exact .done (.error e) nofun
    | ok data =>
      obtain ⟨hrange, hsame⟩ := read_of_array hB h.inv hread
      have hsees : Sees c.log n offset length (StorageDevice.answer length data) :=
        h.sees (answer_window hsame)
      cases store with
      | true => exact .store data hrange hsame hsees
      | false =>
        refine .done _ ?_
        rintro bytes ⟨⟩
        exact hsees
  | store data hrange hsame hsees =>
    cases hrest
    have hlength : data.length < 2 ^ 63 := by
      have hstop := hrange.stop
      have hfrom := hrange.start
      have hmax := d.sizeBytes.toInt_lt
      omega
    have hmirrors : (c.device.ahead.storeReadAheadWindow offset data).Mirrors d (content c.device.backend) := by
      have hstored := ReadAhead.Mirrors.store (r := c.device.ahead) (f := content c.device.backend)
        (n := Int64.ofNat data.length) (show d.Holds offset.toInt (Int64.ofNat data.length).toInt by
          rwa [toInt_ofNat hlength])
      rwa [natOf_ofNat hlength, ← hsame] at hstored
    refine h.step htask h.inv hmirrors ⟨hstart, .done _ ?_⟩ (fun m other hm hother => ?_)
      (fun _ _ _ _ happlied => happlied)
    · rintro bytes ⟨⟩
      exact hsees
    · have hok := h.tasks m other hother
      cases other with
      | read offset' length' rest => exact hok
      | write offset' data' rest =>
        obtain ⟨hstart', hstage'⟩ := hok
        refine ⟨hstart', ?_⟩
        cases hstage' with
        | start hlength' => exact .start hlength'
        | done result happlied => exact .done result happlied
        | write hlength' hclear =>
          -- the write is about to be made, so the window has none of its bytes
          refine .write hlength' fun stored hstored => ?_
          have hraces := hunraced m _ _ hm hother rfl
          have hdata : stored = data := by
            have hmem : stored ∈ (c.device.ahead.storeReadAheadWindow offset data).windowData := hstored
            unfold ReadAhead.storeReadAheadWindow at hmem
            dsimp only at hmem
            split at hmem
            · cases hmem
            · exact (Option.mem_some_iff.mp hmem).symm
          rw [hdata]
          exact hraces
  | done result hsees => cases hrest

/-- A step of a `WriteAt`. -/
theorem Traffic.Good.stepWrite (hB : B.IsArrayOn d I content) (h : c.Good d I content)
    {k : o.Res → DeviceProg Unit} (htask : c.tasks n = some (.write offset data (.call o k)))
    (hunraced : c.Unraced n o) :
    Traffic.Good d I content ⟨(d.exec B c.device o).2,
      update c.tasks n (some (.write offset data (k (d.exec B c.device o).1))), c.log⟩ := by
  obtain ⟨hstart, hstage⟩ := h.tasks n _ htask
  generalize hrest : (Prog.call o k : DeviceProg Unit) = rest at hstage
  cases hstage with
  | start hlength =>
    cases hrest
    exact h.quiet htask h.inv rfl (ReadAhead.mirrors_zero d _) (fun _ hnone => nomatch hnone)
      ⟨hstart, .write hlength fun _ hnone => nomatch hnone⟩
  | done result happlied => cases hrest
  | write hlength hclear =>
    cases hrest
    obtain ⟨hinv, hdone, hrefused⟩ := hB.write offset data c.device.backend hlength h.inv
    by_cases hrange : d.Holds offset.toInt data.length
    · obtain ⟨hok, hpatched⟩ := hdone hrange
      have hwritten : ∀ p, At offset data.length p →
          content (B.write offset data c.device.backend).2 p = data.getD (p - natOf offset) 0 := by
        intro p hat
        rw [hpatched]
        exact if_pos hat
      have hkept : ∀ p, ¬ At offset data.length p →
          content (B.write offset data c.device.backend).2 p = content c.device.backend p := by
        intro p hat
        rw [hpatched]
        exact if_neg hat
      have happlied : ∀ m offset' data', m ≠ n → Applied c.log m offset' data' (content c.device.backend) →
          Applied c.log m offset' data' (content (B.write offset data c.device.backend).2) := by
        intro m offset' data' hm happlied p hat
        by_cases hover : At offset data.length p
        · -- overwritten by a write that has not returned
          refine .inr ⟨n, offset, data, hm.symm, hstart, hover, hwritten p hover, fun result hbefore => ?_⟩
          exact (h.running n _ htask).2 result hbefore.mem.1
        · rw [hkept p hover]
          exact happlied p hat
      refine h.step htask hinv (hpatched.symm ▸ h.mirrors.patch hrange.start hclear)
        ⟨hstart, .done _ fun _ p hat => .inl (hwritten p hat)⟩ (fun m other hm hother => ?_) happlied
      have hothers := h.tasks m other hother
      cases other with
      | write offset' data' rest =>
        obtain ⟨hstart', hstage'⟩ := hothers
        refine ⟨hstart', ?_⟩
        cases hstage' with
        | start hlength' => exact .start hlength'
        | write hlength' hclear' => exact .write hlength' hclear'
        | done result happlied' => exact .done result fun hok => happlied m offset' data' hm (happlied' hok)
      | read offset' length' rest =>
        obtain ⟨hstart', hstage'⟩ := hothers
        refine ⟨hstart', ?_⟩
        cases hstage' with
        | start => exact .start
        | plan k hk => exact .plan k hk
        | fetch size store => exact .fetch size store
        | done result hsees => exact .done result hsees
        | store data' hrange' hsame hsees =>
          -- the window is about to be stored, so none of its bytes has been written
          have hapart : ¬ Overlap offset' data'.length offset data.length := hunraced m _ _ hm hother rfl
          refine .store data' hrange' (hsame.trans ?_) hsees
          refine window_congr fun p hfrom hto => (hkept p fun hat => hapart ?_).symm
          have hcast := natOf_cast hrange.start
          have hcast' := natOf_cast hrange'.start
          obtain ⟨hle, hlt⟩ := hat
          unfold Overlap
          omega
    · obtain ⟨⟨e, he⟩, hsame⟩ := hrefused hrange
      refine h.quiet htask hinv hsame h.mirrors (ReadAhead.within_refl _) ⟨hstart, .done _ fun hok => ?_⟩
      have hresult : (B.write offset data c.device.backend).1 = .ok () := hok
      rw [he] at hresult
      cases hresult

theorem Traffic.Good.unraced (h : c.Good d I content) (hcareful : c.Careful (.step n)) {task : Task}
    (htask : c.tasks n = some task) (hnext : task.next = some o) : c.Unraced n o := by
  intro m other o' hm hother hnext'
  have hlogged : ∃ e ∈ c.log, e.call = m := by
    have hok := h.tasks m other hother
    cases other with
    | read offset length rest => exact ⟨_, hok.1, rfl⟩
    | write offset data rest => exact ⟨_, hok.1, rfl⟩
  obtain ⟨e, he, rfl⟩ := hlogged
  exact hcareful o (by rw [htask]; exact hnext) e he hm o' (by rw [hother]; exact hnext')

/-- What a `ReadAt` about to return has seen. -/
theorem ReadStage.sees {log : List Event} {result : Outcome Err Bytes}
    (h : ReadStage d f log n offset length (.ret result)) (hok : result = .ok bytes) :
    Sees log n offset length bytes := by
  generalize hrest : (Prog.ret result : DeviceProg Bytes) = rest at h
  cases h with
  | start =>
    unfold StorageDevice.readAt at hrest
    split at hrest
    · cases hrest
    · cases hrest
  | done result' hsees =>
    cases hrest
    exact hsees bytes hok
  | plan => cases hrest
  | fetch => cases hrest
  | store => cases hrest

/-- What a `WriteAt` about to return success has done. -/
theorem WriteStage.applied {ahead : ReadAhead} {log : List Event} {result : Outcome Err Unit}
    (h : WriteStage f ahead log n offset data (.ret result)) (hok : result = .ok ()) :
    Applied log n offset data f := by
  generalize hrest : (Prog.ret result : DeviceProg Unit) = rest at h
  cases h with
  | done result' happlied =>
    cases hrest
    exact happlied hok
  | start => cases hrest
  | write => cases hrest

/-- **One move.** -/
theorem Traffic.Good.move (hB : B.IsArrayOn d I content) (h : c.Good d I content) {mv : Move}
    (hcareful : c.Careful mv) {c' : Traffic σ} (hmove : c.move d B mv = some c') : c'.Good d I content := by
  cases mv with
  | read m offset length =>
    simp only [Traffic.move] at hmove
    split at hmove
    · rename_i hunused
      cases hmove
      exact h.start (x := .readStarts m offset length) hunused trivial rfl ⟨List.mem_cons_self, .start⟩
    · cases hmove
  | write m offset data =>
    simp only [Traffic.move] at hmove
    split at hmove
    · rename_i hallowed
      cases hmove
      exact h.start (x := .writeStarts m offset data) hallowed.1 trivial rfl
        ⟨List.mem_cons_self, .start hallowed.2⟩
    · cases hmove
  | step m =>
    simp only [Traffic.move] at hmove
    split at hmove
    · cases hmove
    · rename_i offset length o k htask
      cases hmove
      exact h.stepRead hB htask (h.unraced hcareful htask rfl)
    · rename_i offset length result htask
      cases hmove
      obtain ⟨hstart, hstage⟩ := h.tasks m _ htask
      refine h.finish id rfl ⟨(h.running m _ htask).1 result, nofun⟩ ?_ nofun
      rintro offset' length' bytes hstart' ⟨⟩
      cases h.once _ hstart _ hstart' trivial trivial rfl
      exact hstage.sees rfl
    · rename_i offset data o k htask
      cases hmove
      exact h.stepWrite hB htask (h.unraced hcareful htask rfl)
    · rename_i offset data result htask
      cases hmove
      obtain ⟨hstart, hstage⟩ := h.tasks m _ htask
      refine h.finish id rfl ⟨(h.running m _ htask).2 result, nofun⟩ nofun ?_
      rintro offset' data' hstart' ⟨⟩
      cases h.once _ hstart _ hstart' trivial trivial rfl
      exact hstage.applied rfl

theorem Traffic.good_idle {s : DeviceState σ} (hinv : I s.backend)
    (hmirrors : s.ahead.Mirrors d (content s.backend)) : (Traffic.idle s).Good d I content where
  inv := hinv
  mirrors := hmirrors
  tasks _ _ h := nomatch h
  running _ _ h := nomatch h
  once _ h := nomatch h
  written _ _ _ h := nomatch h
  fresh _ _ _ _ h := nomatch h

/-- **An interleaving.** -/
theorem Traffic.Good.play (hB : B.IsArrayOn d I content) (moves : List Move) (h : c.Good d I content)
    (hcareful : Traffic.AllCareful d B moves c) {c' : Traffic σ} (hplay : Traffic.play d B moves c = some c') :
    c'.Good d I content := by
  induction moves generalizing c with
  | nil =>
    cases hplay
    exact h
  | cons mv moves ih =>
    obtain ⟨hfirst, hrest⟩ := hcareful
    obtain ⟨c₁, hmove, hplay⟩ := Option.bind_eq_some_iff.mp hplay
    exact ih (h.move hB hfirst hmove) (hrest c₁ hmove) hplay

end Moves

/-- **No read is stale as long as no store of a window races with a write.** For every history of storage calls
before, every session started then and every interleaving of any number of `ReadAt` and `WriteAt` calls on the
device of its export: a read that starts after a write has returned finds, at each position of that write, its byte
or the byte of a write that had not returned when that one started. -/
theorem no_stale_read (P : Platform) (backends : Nat → Storage.Backend) (calls : List (Caller × Storage.Request))
    (hsized : ∀ call ∈ calls, call.2.Sized)
    (hfresh : (Storage.createdIDs (Storage.serveAll P backends World.initial calls).1).Nodup)
    (who : Caller) (volumeID id : String) (base : Bytes) (w : World)
    (hlatest : (Flat.of P (Storage.serveAll P backends World.initial calls).2).latest volumeID = some base)
    (hstart : Storage.serve P backends (Storage.serveAll P backends World.initial calls).2 who
      (.startSession volumeID) = (.started id, w)) (hcollision : NoCollision P w.hashed)
    (d : StorageDevice) (hsize : d.sizeBytes.toInt = base.length) (moves : List Move) (c : Traffic World)
    (hplay : Traffic.play d (sessionBackend (alone P who) P (backends who.node) id) moves
      (.idle ⟨.zero, w⟩) = some c)
    (hcareful : Traffic.AllCareful d (sessionBackend (alone P who) P (backends who.node) id) moves
      (.idle ⟨.zero, w⟩)) :
    NoStaleRead c.log := by
  have hserving := (started_serving hsized hfresh hlatest hstart hcollision hsize).1
  have hgood : (Traffic.idle (⟨.zero, w⟩ : DeviceState World)).Good d (Serving P (who.node, id) d)
      (contentOf P (who.node, id)) := Traffic.good_idle hserving (ReadAhead.mirrors_zero d _)
  exact (hgood.play (alone_isArrayOn P _ who id d) moves hcareful hplay).fresh

/-! ## A window stored too late -/

/-- A call in full, with nothing in between. -/
def readCall (n : Nat) (offset length : Int64) (steps : Nat) : List Move :=
  .read n offset length :: List.replicate steps (.step n)

/-- Reads at 0 and 1 have been made. The read at 2 fetches the bytes from 2 to 5; then a write of byte 4 is made in
full on the other connection, and returns; then the read stores what it fetched. -/
def lateStore : List Move :=
  readCall 0 0 1 4 ++ readCall 1 1 1 4 ++ readCall 2 2 1 3 ++ [.write 3 4 [9], .step 3, .step 3, .step 3] ++
    [.step 2, .step 2] ++ readCall 4 4 1 2

/-- The next read is answered from the window, with the byte from before the write. -/
theorem late_store_is_stale :
    ∃ c, Traffic.play smallDevice exportedBackend lateStore (.idle ⟨.zero, exported⟩) = some c ∧
      c.log = [.readReturns 4 (.ok [0]), .readStarts 4 4 1, .readReturns 2 (.ok [0]), .writeReturns 3 (.ok ()),
        .writeStarts 3 4 [9], .readStarts 2 2 1, .readReturns 1 (.ok [0]), .readStarts 1 1 1,
        .readReturns 0 (.ok [0]), .readStarts 0 0 1] ∧
      ¬ NoStaleRead c.log := by
  have hlog : (Traffic.play smallDevice exportedBackend lateStore (.idle ⟨.zero, exported⟩)).map Traffic.log =
      some [.readReturns 4 (.ok [0]), .readStarts 4 4 1, .readReturns 2 (.ok [0]), .writeReturns 3 (.ok ()),
        .writeStarts 3 4 [9], .readStarts 2 2 1, .readReturns 1 (.ok [0]), .readStarts 1 1 1,
        .readReturns 0 (.ok [0]), .readStarts 0 0 1] := by
    decide +kernel
  obtain ⟨c, hplay, hlog⟩ := Option.map_eq_some_iff.mp hlog
  refine ⟨c, hplay, hlog, fun hfresh => ?_⟩
  rw [hlog] at hfresh
  have hsees := hfresh 4 4 1 [0] (by decide) (by decide) 3 4 [9] (by decide)
    ⟨[.readReturns 4 (.ok [0])], _, rfl, by decide⟩ 4 ⟨by decide, by decide⟩ ⟨by decide, by decide⟩
  rcases hsees with hbyte | ⟨m, offset, data, hother, hmem, -⟩
  · exact absurd hbyte (by decide)
  · simp only [List.mem_cons, reduceCtorEq, Event.writeStarts.injEq, false_or, List.not_mem_nil, or_false] at hmem
    exact hother hmem.1

/-- The same calls, but the write is made after the store. -/
def storeFirst : List Move :=
  readCall 0 0 1 4 ++ readCall 1 1 1 4 ++ readCall 2 2 1 3 ++ [.write 3 4 [9], .step 2, .step 3, .step 3, .step 3] ++
    [.step 2] ++ readCall 4 4 1 4

theorem no_stale_read_storeFirst :
    ∃ c, Traffic.play smallDevice exportedBackend storeFirst (.idle ⟨.zero, exported⟩) = some c ∧
      .readReturns 4 (.ok [9]) ∈ c.log ∧ NoStaleRead c.log := by
  have hlog : ∃ log, (Traffic.play smallDevice exportedBackend storeFirst
      (.idle ⟨.zero, exported⟩)).map Traffic.log = some log ∧ .readReturns 4 (.ok [9]) ∈ log :=
    ⟨[.readReturns 4 (.ok [9]), .readStarts 4 4 1, .readReturns 2 (.ok [0]), .writeReturns 3 (.ok ()),
        .writeStarts 3 4 [9], .readStarts 2 2 1, .readReturns 1 (.ok [0]), .readStarts 1 1 1,
        .readReturns 0 (.ok [0]), .readStarts 0 0 1], by decide +kernel, by decide⟩
  obtain ⟨log, hlog, hread⟩ := hlog
  obtain ⟨c, hplay, rfl⟩ := Option.map_eq_some_iff.mp hlog
  have hcollision : NoCollision Storage.goRuntime exported.hashed := by
    unfold NoCollision
    decide +kernel
  refine ⟨c, hplay, hread, ?_⟩
  exact no_stale_read Storage.goRuntime (fun _ => Storage.plainNode) newVolume sized_newVolume fresh_newVolume
    ⟨0, 0⟩ "v" (Storage.goRuntime.uuid 0) (List.replicate 8 0) exported latest_newVolume start_exported hcollision
    smallDevice (by decide) storeFirst c hplay (by decide +kernel)

end OrcaBlocks.Nbd
