/-
# OrcaBlocks.Lib.Staged — calls that run in stages, and their interleavings.

Between the single operation (`OrcaBlocks.Lib.Pool`) and the whole call there is a third granularity: a call is cut
into STAGES, each a program that is not interrupted, and between two stages the other calls may take theirs. A staged
call forgets to a program (`Staged.flatten`), so what is proved of the program under interference still holds of the
call: one stage is a step of the thread that nobody disturbs (`WpRG.wp_remember`).

A `Crew` is a state and a finite number of calls on it. A schedule is a list of call numbers, each taking its next
stage. Which stages of two calls get into each other's way is a relation on their tags, and an interleaving is careful
if no stage is taken while another call stands before a stage it races with. `Crew.play_invariant` is the induction.

Nothing in this module knows what the operations are.
-/
import OrcaBlocks.Lib.Pool

namespace OrcaBlocks.Lib

variable {S : Sig} {T σ L : Type} {α β γ ε : Type}

/-! ## Staged calls -/

/-- A call in stages. A tag says what the next one is. -/
inductive Staged (S : Sig) (T α : Type) : Type 1 where
  | done (a : α)
  | stage (tag : T) {β : Type} (x : Prog S β) (next : β → Staged S T α)

namespace Staged

/-- The stages in a row. -/
def flatten : Staged S T α → Prog S α
  | .done a => .ret a
  | .stage _ x next => x >>= fun b => (next b).flatten

/-- What the next stage is, if the call is not over. -/
def tag : Staged S T α → Option T
  | .done _ => none
  | .stage tag _ _ => some tag

/-- The result is passed on. -/
def map (f : α → β) : Staged S T α → Staged S T β
  | .done a => .done (f a)
  | .stage tag x next => .stage tag x fun b => (next b).map f

/-- One fallible stage. -/
def once (tag : T) (x : ExceptT ε (Prog S) α) : Staged S T (Except ε α) := .stage tag x.run .done

/-- One fallible call, then another. -/
def andThen (f : α → Staged S T (Except ε β)) : Staged S T (Except ε α) → Staged S T (Except ε β)
  | .done (.ok a) => f a
  | .done (.error e) => .done (.error e)
  | .stage tag x next => .stage tag x fun b => (next b).andThen f

@[simp] theorem flatten_map (f : α → β) (t : Staged S T α) :
    (t.map f).flatten = t.flatten >>= fun a => .ret (f a) := by
  induction t with
  | done a => rfl
  | stage tag x next ih =>
    simp only [map, flatten, ih, Prog.bind_assoc]

@[simp] theorem flatten_once (tag : T) (x : ExceptT ε (Prog S) α) :
    (once tag x).flatten = x.run := x.run.bind_ret

@[simp] theorem flatten_andThen (f : α → Staged S T (Except ε β)) (t : Staged S T (Except ε α)) :
    (t.andThen f).flatten =
      (ExceptT.mk t.flatten >>= fun a => ExceptT.mk (f a).flatten : ExceptT ε (Prog S) β).run := by
  induction t with
  | done r =>
    cases r with
    | error e => rfl
    | ok a => rfl
  | stage tag x next ih =>
    simp only [andThen, flatten, ih, ExceptT.run_bind, ExceptT.run_mk, Prog.bind_assoc]

/-- Every stage of the call has a tag of `K`. -/
def Only (K : T → Prop) : Staged S T α → Prop
  | .done _ => True
  | .stage tag _ next => K tag ∧ ∀ b, (next b).Only K

theorem only_once {K : T → Prop} {tag : T} (htag : K tag) (x : ExceptT ε (Prog S) α) : (once tag x).Only K :=
  ⟨htag, fun _ => trivial⟩

theorem Only.andThen {K : T → Prop} {t : Staged S T (Except ε α)} {f : α → Staged S T (Except ε β)} (ht : t.Only K)
    (hf : ∀ a, (f a).Only K) : (t.andThen f).Only K := by
  induction t with
  | done r =>
    cases r with
    | error e => exact trivial
    | ok a => exact hf a
  | stage tag x next ih => exact ⟨ht.1, fun b => ih b (ht.2 b)⟩

end Staged

/-! ## One stage of a thread -/

/-- A thread that nobody disturbs ends as it is specified to, and everything its steps preserve relates its end to its
beginning. -/
theorem WpRG.wp_remember {M : Machine S σ L} {I : σ → Prop} {R G K : σ → σ → Prop} (hR : ∀ a, R a a)
    (hrefl : ∀ a, K a a) (htrans : ∀ {a b c}, K a b → K b c → K a c) (hG : ∀ {a b}, I a → G a b → K a b)
    {t : Prog S α} {Q : α → σ → Prop} {s : σ} (h : WpRG M I R G t Q s) (hI : I s) :
    M.wp t (fun a s' => I s' ∧ K s s' ∧ Q a s') s := by
  induction t generalizing s with
  | ret a => exact ⟨hI, hrefl s, h⟩
  | call o k ih =>
    intro l hl
    obtain ⟨hI', hstep, hk⟩ := h s (hR s) hI l hl
    refine wp_mono (ih _ hk hI') ?_
    rintro a s' ⟨hI'', hK, hQ⟩
    exact ⟨hI'', htrans (hG hI hstep) hK, hQ⟩

/-! ## Crews -/

/-- A state, how far each call on it has come, and which calls had returned when a call started. -/
structure Crew (k : Nat) (S : Sig) (T σ α : Type) : Type 1 where
  state : σ
  tasks : Fin k → Option (Staged S T α)
  past : Fin k → Fin k → Bool

namespace Crew

variable {k : Nat} (run : Fin k → (β : Type) → Prog S β → σ → β × σ) (calls : Fin k → Staged S T α)
  (races : T → T → Prop)

/-- Nobody has started. -/
def idle (s : σ) : Crew k S T σ α := ⟨s, fun _ => none, fun _ _ => false⟩

/-- What is left of a call. -/
def rest (c : Crew k S T σ α) (n : Fin k) : Staged S T α := (c.tasks n).getD (calls n)

/-- What a call that has returned has answered. -/
def reply (c : Crew k S T σ α) (n : Fin k) : Option α :=
  match c.tasks n with
  | some (.done a) => some a
  | _ => none

/-- Where a call that has started stands. -/
def point (c : Crew k S T σ α) (n : Fin k) : Option T := (c.tasks n).bind Staged.tag

/-- A call takes its next stage. The first one starts it. -/
def step (c : Crew k S T σ α) (n : Fin k) : Option (Crew k S T σ α) :=
  match c.rest calls n with
  | .done _ => none
  | .stage _ x next => some
      { state := (run n _ x c.state).2
        tasks := Function.update c.tasks n (some (next (run n _ x c.state).1))
        past := if (c.tasks n).isSome then c.past
          else Function.update c.past n fun m => (c.reply m).isSome }

/-- An interleaving. -/
def play : List (Fin k) → Crew k S T σ α → Option (Crew k S T σ α)
  | [], c => some c
  | n :: ns, c => (c.step run calls n).bind fun c' => play ns c'

/-- The next stage of `n` races with none that another call stands before. -/
def Careful (c : Crew k S T σ α) (n : Fin k) : Prop :=
  ∀ t ∈ (c.rest calls n).tag, ∀ m, m ≠ n → ∀ u ∈ c.point m, ¬ races t u

instance [DecidableRel races] (c : Crew k S T σ α) (n : Fin k) : Decidable (c.Careful calls races n) :=
  inferInstanceAs (Decidable (∀ t ∈ (c.rest calls n).tag, ∀ m, m ≠ n → ∀ u ∈ c.point m, ¬ races t u))

/-- Every stage is careful in the state it is taken in. -/
def AllCareful : List (Fin k) → Crew k S T σ α → Prop
  | [], _ => True
  | n :: ns, c => c.Careful calls races n ∧ ∀ c' ∈ c.step run calls n, AllCareful ns c'

def decidableAllCareful [DecidableRel races] :
    (ns : List (Fin k)) → (c : Crew k S T σ α) → Decidable (AllCareful run calls races ns c)
  | [], _ => .isTrue trivial
  | n :: ns, c =>
    match hstep : c.step run calls n with
    | none => decidable_of_iff (c.Careful calls races n)
        ⟨fun h => ⟨h, fun c' hc' => absurd hc' (by rw [hstep]; exact (nomatch ·))⟩, fun h => h.1⟩
    | some c₁ =>
      have := decidableAllCareful ns c₁
      decidable_of_iff (c.Careful calls races n ∧ AllCareful run calls races ns c₁)
        ⟨fun h => ⟨h.1, fun c' hc' => by
          rw [hstep] at hc'
          obtain rfl := Option.mem_some_iff.mp hc'
          exact h.2⟩, fun h => ⟨h.1, h.2 c₁ (by rw [hstep]; rfl)⟩⟩

instance [DecidableRel races] (ns : List (Fin k)) (c : Crew k S T σ α) :
    Decidable (AllCareful run calls races ns c) := decidableAllCareful run calls races ns c

variable {run calls races} {c c' : Crew k S T σ α} {n : Fin k}

/-- What a step does. -/
theorem step_cases (h : c.step run calls n = some c') :
    ∃ (tag : T) (β : Type) (x : Prog S β) (next : β → Staged S T α),
      c.rest calls n = .stage tag x next ∧ c'.state = (run n β x c.state).2 ∧
        c'.tasks = Function.update c.tasks n (some (next (run n β x c.state).1)) ∧
        c'.past = if (c.tasks n).isSome then c.past
          else Function.update c.past n fun m => (c.reply m).isSome := by
  unfold step at h
  split at h
  · cases h
  · rename_i tag β x next hrest
    cases h
    exact ⟨tag, β, x, next, hrest, rfl, rfl, rfl⟩

/-- What holds of the state at the end of an interleaving, and of the state before a stage if of the one after it, held
at the beginning. -/
theorem play_back {K : σ → Prop} (hback : ∀ n β (x : Prog S β) s, K (run n β x s).2 → K s) {ns : List (Fin k)}
    (hplay : play run calls ns c = some c') (hK : K c'.state) : K c.state := by
  induction ns generalizing c with
  | nil =>
    cases hplay
    exact hK
  | cons n ns ih =>
    obtain ⟨c₁, hfirst, hrest⟩ := Option.bind_eq_some_iff.mp hplay
    obtain ⟨tag, β, x, next, -, hstate, -⟩ := step_cases hfirst
    exact hback n β x c.state (hstate ▸ ih hrest)

/-- **The induction over an interleaving.** The careful stages keep `I`, as long as the state after them is one of
`K`; it is so all along if it is so at the end. -/
theorem play_invariant {I : Crew k S T σ α → Prop} {K : σ → Prop}
    (hback : ∀ n β (x : Prog S β) s, K (run n β x s).2 → K s)
    (hstep : ∀ c n c', I c → c.Careful calls races n → c.step run calls n = some c' → K c'.state → I c')
    {ns : List (Fin k)} (hI : I c) (hcareful : AllCareful run calls races ns c)
    (hplay : play run calls ns c = some c') (hK : K c'.state) : I c' := by
  induction ns generalizing c with
  | nil =>
    cases hplay
    exact hI
  | cons n ns ih =>
    obtain ⟨c₁, hfirst, hrest⟩ := Option.bind_eq_some_iff.mp hplay
    have hlater : K c₁.state := play_back hback hrest hK
    exact ih (hstep c n c₁ hI hcareful.1 hfirst hlater) (hcareful.2 c₁ hfirst) hrest

end Crew

end OrcaBlocks.Lib
