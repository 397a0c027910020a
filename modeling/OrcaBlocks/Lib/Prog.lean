/-
# OrcaBlocks.Lib.Prog — programs over an effect signature, and what they guarantee run alone.

A program is a finite tree: it returns, or it performs ONE operation and goes on with the answer.
Nothing about the meaning of the operations is fixed by the tree. A `Machine` gives it: from a
state, an operation and a LABEL (the environment's choice: a fault, an outcome) it computes the
answer and the next state, and it says which labels the environment may choose. One program text
therefore has several readings, a fault-free run, a run under arbitrary faults and (in
`OrcaBlocks.Lib.Pool`) a thread of an interleaved pool, and a theorem about each reading is a
theorem about the same text.

`wp M t Q s` is the demonic weakest precondition: whatever labels the environment chooses, `t` run
from `s` ends with an answer and a state in `Q`. Programs are finite trees, so `wp` is TOTAL
correctness. `wp_iff_runs` is its adequacy: it says exactly what `Runs`, the big-step relation that
also records the chosen labels, allows.

Nothing in this module knows what the operations are.
-/
import Mathlib

namespace OrcaBlocks.Lib

/-! ## Signatures and programs -/

/-- An effect signature: the operations, and the type of the answer to each. -/
structure Sig where
  Op : Type
  Res : Op → Type

/-- A program over `S` with result type `α`. -/
inductive Prog (S : Sig) (α : Type) : Type where
  | ret (a : α) : Prog S α
  | call (o : S.Op) (k : S.Res o → Prog S α) : Prog S α

namespace Prog

variable {S : Sig} {α β : Type} {P : S.Op → Prop} {t : Prog S α} {a : α}

/-- Sequential composition: graft `f` onto the leaves. -/
def bind : Prog S α → (α → Prog S β) → Prog S β
  | .ret a, f => f a
  | .call o k, f => .call o fun r => (k r).bind f

instance : Monad (Prog S) where
  pure := .ret
  bind := Prog.bind

/-- Perform one operation and return its answer. -/
def perform (o : S.Op) : Prog S (S.Res o) := .call o .ret

@[simp] theorem pure_eq (a : α) : (pure a : Prog S α) = .ret a := rfl

@[simp] theorem ret_bind (a : α) (f : α → Prog S β) : (Prog.ret a >>= f) = f a := rfl

@[simp] theorem call_bind (o : S.Op) (k : S.Res o → Prog S α) (f : α → Prog S β) :
    (Prog.call o k >>= f) = .call o fun r => k r >>= f := rfl

/-- Every operation the program can perform, along every branch, satisfies `P`. -/
def Only (P : S.Op → Prop) : Prog S α → Prop
  | .ret _ => True
  | .call o k => P o ∧ ∀ r, (k r).Only P

theorem Only.bind {f : α → Prog S β} (ht : t.Only P) (hf : ∀ a, (f a).Only P) : (t >>= f).Only P := by
  induction t with
  | ret a => exact hf a
  | call o k ih => exact ⟨ht.1, fun r => ih r (ht.2 r)⟩

theorem Only.mono {P' : S.Op → Prop} (ht : t.Only P) (hP : ∀ o, P o → P' o) : t.Only P' := by
  induction t with
  | ret a => exact trivial
  | call o k ih => exact ⟨hP o ht.1, fun r => ih r (ht.2 r)⟩

/-- Every operation the program can perform satisfies `P`, and everything it can return `Q`. -/
def Always (P : S.Op → Prop) (Q : α → Prop) : Prog S α → Prop
  | .ret a => Q a
  | .call o k => P o ∧ ∀ r, (k r).Always P Q

@[simp] theorem always_ret {Q : α → Prop} :
    (Prog.ret a : Prog S α).Always P Q ↔ Q a := Iff.rfl

@[simp] theorem always_bind {Q : β → Prop} {f : α → Prog S β} :
    (t >>= f).Always P Q ↔ t.Always P fun a => (f a).Always P Q := by
  induction t with
  | ret a => rfl
  | call o k ih => simp only [call_bind, Always, ih]

theorem Always.mono {P' : S.Op → Prop} {Q Q' : α → Prop} (ht : t.Always P Q) (hP : ∀ o, P o → P' o)
    (hQ : ∀ a, Q a → Q' a) : t.Always P' Q' := by
  induction t with
  | ret a => exact hQ a ht
  | call o k ih => exact ⟨hP o ht.1, fun r => ih r (ht.2 r)⟩

/-! ## Paths

A path through a program: the operations performed, each with its answer, and the result. Every answer the
environment could give is some path's. -/

inductive Path : Prog S α → List ((o : S.Op) × S.Res o) → α → Prop
  | ret (a : α) : Path (.ret a) [] a
  | call {o : S.Op} {k : S.Res o → Prog S α} (r : S.Res o) {tr : List ((o : S.Op) × S.Res o)} {a : α}
      (rest : Path (k r) tr a) : Path (.call o k) (⟨o, r⟩ :: tr) a

/-- The path on which the answers are given by the operation. -/
def follow (answers : (o : S.Op) → S.Res o) : Prog S α → List ((o : S.Op) × S.Res o) × α
  | .ret a => ([], a)
  | .call o k => (⟨o, answers o⟩ :: ((k (answers o)).follow answers).1,
      ((k (answers o)).follow answers).2)

theorem path_follow (answers : (o : S.Op) → S.Res o) (t : Prog S α) :
    t.Path (t.follow answers).1 (t.follow answers).2 := by
  induction t with
  | ret a => exact .ret a
  | call o k ih => exact .call _ (ih _)

theorem path_bind {f : α → Prog S β} {tr : List ((o : S.Op) × S.Res o)} {b : β}
    (h : (t >>= f).Path tr b) : ∃ a tr₁ tr₂, t.Path tr₁ a ∧ (f a).Path tr₂ b ∧ tr = tr₁ ++ tr₂ := by
  induction t generalizing tr with
  | ret a => exact ⟨a, [], tr, .ret a, h, rfl⟩
  | call o k ih =>
    rw [call_bind] at h
    cases h with
    | call r rest =>
      obtain ⟨a, tr₁, tr₂, h₁, h₂, rfl⟩ := ih r rest
      exact ⟨a, ⟨o, r⟩ :: tr₁, tr₂, .call r h₁, h₂, rfl⟩

theorem Path.always {Q : α → Prop} {tr : List ((o : S.Op) × S.Res o)} (h : t.Path tr a)
    (ht : t.Always P Q) : (∀ e ∈ tr, P e.1) ∧ Q a := by
  induction h with
  | ret a => exact ⟨by simp, ht⟩
  | call r _ ih =>
    obtain ⟨hops, hQ⟩ := ih (ht.2 r)
    exact ⟨List.forall_mem_cons.mpr ⟨ht.1, hops⟩, hQ⟩

end Prog

/-! ## Machines -/

/-- The meaning of a signature over states `σ`: how an operation computes under a label, and which
labels the environment may choose for it in a state. -/
structure Machine (S : Sig) (σ L : Type) where
  exec : L → σ → (o : S.Op) → S.Res o × σ
  allowed : L → σ → S.Op → Prop

section Machines

open Machine

variable {S : Sig} {σ L : Type} {α β : Type} (M : Machine S σ L)

/-- The big-step relation. The trace lists the operations performed, each with its label. -/
inductive Machine.Runs : Prog S α → σ → List (S.Op × L) → α → σ → Prop
  | ret (a : α) (s : σ) : Runs (.ret a) s [] a s
  | call {o : S.Op} {k : S.Res o → Prog S α} {s s' : σ} {a : α} {tr : List (S.Op × L)} (l : L)
      (hl : M.allowed l s o) (rest : Runs (k (M.exec l s o).1) (M.exec l s o).2 tr a s') :
      Runs (.call o k) s ((o, l) :: tr) a s'

/-- The run in which the environment chooses by the operation. -/
def Machine.run (plan : S.Op → L) : Prog S α → σ → α × σ
  | .ret a, s => (a, s)
  | .call o k, s => run plan (k (M.exec (plan o) s o).1) (M.exec (plan o) s o).2

/-- The trace of that run. -/
def Machine.trace (plan : S.Op → L) : Prog S α → σ → List (S.Op × L)
  | .ret _, _ => []
  | .call o k, s => (o, plan o) :: trace plan (k (M.exec (plan o) s o).1) (M.exec (plan o) s o).2

/-- Whether the environment may choose so. -/
def Machine.follows [∀ l s o, Decidable (M.allowed l s o)] (plan : S.Op → L) : Prog S α → σ → Bool
  | .ret _, _ => true
  | .call o k, s =>
    decide (M.allowed (plan o) s o) && follows plan (k (M.exec (plan o) s o).1) (M.exec (plan o) s o).2

/-- The demonic weakest precondition. -/
def Machine.wp : Prog S α → (α → σ → Prop) → σ → Prop
  | .ret a, Q, s => Q a s
  | .call o k, Q, s => ∀ l, M.allowed l s o → wp (k (M.exec l s o).1) Q (M.exec l s o).2

variable {M} {o : S.Op} {P : S.Op → Prop} {t : Prog S α} {Q : α → σ → Prop} {s s' : σ} {a : α}
  {tr : List (S.Op × L)}

theorem wp_call {k : S.Res o → Prog S α} :
    M.wp (.call o k) Q s ↔
      ∀ l, M.allowed l s o → M.wp (k (M.exec l s o).1) Q (M.exec l s o).2 := Iff.rfl

theorem wp_perform {Q : S.Res o → σ → Prop} :
    M.wp (Prog.perform o) Q s ↔ ∀ l, M.allowed l s o → Q (M.exec l s o).1 (M.exec l s o).2 :=
  Iff.rfl

/-- The sequencing rule. -/
@[simp] theorem wp_bind {f : α → Prog S β} {Q : β → σ → Prop} :
    M.wp (t >>= f) Q s ↔ M.wp t (fun a s' => M.wp (f a) Q s') s := by
  induction t generalizing s with
  | ret a => rfl
  | call o k ih =>
    simp only [Prog.call_bind, wp_call, ih]

/-- The rule of consequence. -/
theorem wp_mono {Q' : α → σ → Prop} (h : M.wp t Q s) (hQ : ∀ a s', Q a s' → Q' a s') : M.wp t Q' s := by
  induction t generalizing s with
  | ret a => exact hQ a s h
  | call o k ih =>
    intro l hl
    exact ih _ (h l hl)

theorem wp_and {Q' : α → σ → Prop} (h : M.wp t Q s) (h' : M.wp t Q' s) :
    M.wp t (fun a s' => Q a s' ∧ Q' a s') s := by
  induction t generalizing s with
  | ret a => exact ⟨h, h'⟩
  | call o k ih =>
    intro l hl
    exact ih _ (h l hl) (h' l hl)

/-- Adequacy: `wp` speaks about exactly the runs. -/
theorem wp_iff_runs : M.wp t Q s ↔ ∀ tr a s', M.Runs t s tr a s' → Q a s' := by
  constructor
  · intro h tr a s' hrun
    induction hrun with
    | ret a s => exact h
    | call l hl _ ih => exact ih (h l hl)
  · intro h
    induction t generalizing s with
    | ret a => exact h [] a s (.ret a s)
    | call o k ih =>
      intro l hl
      exact ih _ fun tr a s' hrun => h _ a s' (.call l hl hrun)

theorem Machine.Runs.wp (hrun : M.Runs t s tr a s') (h : M.wp t Q s) : Q a s' :=
  wp_iff_runs.mp h tr a s' hrun

/-- A run of a sequence is a run of its first part followed by a run of its second. -/
theorem runs_bind {f : α → Prog S β} {b : β} :
    M.Runs (t >>= f) s tr b s' ↔
      ∃ a s₁ tr₁ tr₂, M.Runs t s tr₁ a s₁ ∧ M.Runs (f a) s₁ tr₂ b s' ∧ tr = tr₁ ++ tr₂ := by
  constructor
  · intro h
    induction t generalizing s tr with
    | ret a => exact ⟨a, s, [], tr, .ret a s, h, rfl⟩
    | call o k ih =>
      rw [Prog.call_bind] at h
      cases h with
      | call l hl rest =>
        obtain ⟨a, s₁, tr₁, tr₂, h₁, h₂, rfl⟩ := ih _ rest
        exact ⟨a, s₁, _, tr₂, .call l hl h₁, h₂, rfl⟩
  · rintro ⟨a, s₁, tr₁, tr₂, h₁, h₂, rfl⟩
    induction h₁ with
    | ret a s => exact h₂
    | call l hl _ ih => exact .call l hl (ih h₂)

theorem runs_perform {a : S.Res o} (hrun : M.Runs (Prog.perform o) s tr a s') :
    ∃ l, M.allowed l s o ∧ tr = [(o, l)] ∧ a = (M.exec l s o).1 ∧ s' = (M.exec l s o).2 := by
  unfold Prog.perform at hrun
  cases hrun with
  | call l hl rest =>
    cases rest
    exact ⟨l, hl, rfl, rfl, rfl⟩

/-- The trace of a run holds only operations of the program. -/
theorem Machine.Runs.only (hrun : M.Runs t s tr a s') (h : t.Only P) : ∀ e ∈ tr, P e.1 := by
  induction hrun with
  | ret a s => simp
  | call l hl _ ih =>
    intro e he
    rcases List.mem_cons.mp he with rfl | he
    · exact h.1
    · exact ih (h.2 _) e he

/-- A planned run the environment may choose is a run. -/
theorem runs_run [∀ l s o, Decidable (M.allowed l s o)] {plan : S.Op → L}
    (h : M.follows plan t s = true) :
    M.Runs t s (M.trace plan t s) (M.run plan t s).1 (M.run plan t s).2 := by
  induction t generalizing s with
  | ret a => exact .ret a s
  | call o k ih =>
    obtain ⟨hl, hrest⟩ := Bool.and_eq_true_iff.mp h
    exact .call (plan o) (of_decide_eq_true hl) (ih _ hrest)

theorem runs_of_run [∀ l s o, Decidable (M.allowed l s o)] (plan : S.Op → L)
    (h : M.follows plan t s = true) (ha : (M.run plan t s).1 = a) :
    M.Runs t s (M.trace plan t s) a (M.run plan t s).2 := ha ▸ runs_run h

/-- Where the environment always has a choice, every program has a run. -/
theorem exists_runs (hchoice : ∀ s o, ∃ l, M.allowed l s o) (t : Prog S α) (s : σ) :
    ∃ tr a s', M.Runs t s tr a s' := by
  induction t generalizing s with
  | ret a => exact ⟨[], a, s, .ret a s⟩
  | call o k ih =>
    obtain ⟨l, hl⟩ := hchoice s o
    obtain ⟨tr, a, s', hrun⟩ := ih (M.exec l s o).1 (M.exec l s o).2
    exact ⟨_, a, s', .call l hl hrun⟩

/-- The labels of a planned run are the planned ones. -/
theorem mem_trace {plan : S.Op → L} {e : S.Op × L} (he : e ∈ M.trace plan t s) : e.2 = plan e.1 := by
  induction t generalizing s with
  | ret a => cases he
  | call o k ih =>
    rcases List.mem_cons.mp he with rfl | he
    · rfl
    · exact ih _ he

/-- A planned run whose END satisfies `K` is a run of a machine that allows only the steps `K` after
the step accounts for. -/
theorem runs_run_of_final {M' : Machine S σ L} (hexec : M'.exec = M.exec) {plan : S.Op → L}
    {K : σ → Prop} (hstep : ∀ s o, K (M.exec (plan o) s o).2 → K s ∧ M'.allowed (plan o) s o)
    (t : Prog S α) (s : σ) (hend : K (M.run plan t s).2) :
    K s ∧ M'.Runs t s (M.trace plan t s) (M.run plan t s).1 (M.run plan t s).2 := by
  induction t generalizing s with
  | ret a => exact ⟨hend, .ret a s⟩
  | call o k ih =>
    obtain ⟨hK, hrun⟩ := ih (M.exec (plan o) s o).1 (M.exec (plan o) s o).2 hend
    obtain ⟨hs, hl⟩ := hstep s o hK
    refine ⟨hs, .call (plan o) hl ?_⟩
    rw [hexec]
    exact hrun

/-- A run is still a run on a machine with the same meaning that allows the labels it chose. -/
theorem Machine.Runs.mono {M' : Machine S σ L} (hexec : M'.exec = M.exec) (hrun : M.Runs t s tr a s')
    (hall : ∀ e ∈ tr, ∀ s, M.allowed e.2 s e.1 → M'.allowed e.2 s e.1) : M'.Runs t s tr a s' := by
  induction hrun with
  | ret a s => exact .ret a s
  | @call o k s s' a tr l hl _ ih =>
    refine .call l (hall (o, l) (by simp) s hl) ?_
    rw [hexec]
    exact ih fun e he => hall e (List.mem_cons_of_mem _ he)

/-- Programs run one after the other. -/
inductive Machine.RunsAll (M : Machine S σ L) : List (Prog S α) → σ → List α → σ → Prop
  | nil (s : σ) : RunsAll M [] s [] s
  | cons {t : Prog S α} {ts : List (Prog S α)} {s s₁ s' : σ} {tr : List (S.Op × L)} {a : α}
      {as : List α} (first : M.Runs t s tr a s₁) (rest : RunsAll M ts s₁ as s') :
      RunsAll M (t :: ts) s (a :: as) s'

/-- The sequence in which the environment chooses by the operation. -/
def Machine.runAll (M : Machine S σ L) (plan : S.Op → L) : List (Prog S α) → σ → List α × σ
  | [], s => ([], s)
  | t :: ts, s =>
    let rest := runAll M plan ts (M.run plan t s).2
    ((M.run plan t s).1 :: rest.1, rest.2)

/-- A planned sequence the environment may always choose is a sequence of runs. -/
theorem runsAll_runAll (plan : S.Op → L) (hplan : ∀ s o, M.allowed (plan o) s o)
    (ts : List (Prog S α)) (s : σ) : M.RunsAll ts s (M.runAll plan ts s).1 (M.runAll plan ts s).2 := by
  induction ts generalizing s with
  | nil => exact .nil s
  | cons t ts ih =>
    have hsame : M.exec = M.exec := rfl
    have hrun := runs_run_of_final hsame (K := fun _ => True)
      (fun s o _ => ⟨trivial, hplan s o⟩) t s trivial
    exact .cons hrun.2 (ih _)

/-- Whether the environment may choose so along a sequence. -/
def Machine.followsAll (M : Machine S σ L) [∀ l s o, Decidable (M.allowed l s o)] (plan : S.Op → L) :
    List (Prog S α) → σ → Bool
  | [], _ => true
  | t :: ts, s => M.follows plan t s && followsAll M plan ts (M.run plan t s).2

theorem runsAll_of_followsAll [∀ l s o, Decidable (M.allowed l s o)] {plan : S.Op → L}
    {ts : List (Prog S α)} (h : M.followsAll plan ts s = true) :
    M.RunsAll ts s (M.runAll plan ts s).1 (M.runAll plan ts s).2 := by
  induction ts generalizing s with
  | nil => exact .nil s
  | cons t ts ih =>
    obtain ⟨hfirst, hrest⟩ := Bool.and_eq_true_iff.mp h
    exact .cons (runs_run hfirst) (ih hrest)

/-- What every program of a sequence preserves, the sequence preserves. -/
theorem Machine.RunsAll.invariant {I : σ → Prop} {ts : List (Prog S α)} {as : List α}
    (hrun : M.RunsAll ts s as s') (hinv : ∀ t ∈ ts, ∀ s, I s → M.wp t (fun _ s' => I s') s) (hs : I s) :
    I s' := by
  induction hrun with
  | nil s => exact hs
  | cons first _ ih =>
    have hstep := first.wp (hinv _ (List.mem_cons_self ..) _ hs)
    exact ih (fun t ht => hinv t (List.mem_cons_of_mem _ ht)) hstep

/-- What every operation of a program preserves, the program preserves. -/
theorem wp_of_only {I : σ → Prop} (ht : t.Only P) (hs : I s)
    (hstep : ∀ o l s, P o → I s → M.allowed l s o → I (M.exec l s o).2) :
    M.wp t (fun _ s' => I s') s := by
  induction t generalizing s with
  | ret a => exact hs
  | call o k ih =>
    intro l hl
    exact ih _ (ht.2 _) (hstep o l s ht.1 hs hl)

/-- What every operation of a program preserves, the program preserves, and its results are those it can
have. -/
theorem wp_of_always {Q : α → Prop} {I : σ → Prop} (ht : t.Always P Q) (hs : I s)
    (hstep : ∀ o l s, P o → I s → M.allowed l s o → I (M.exec l s o).2) :
    M.wp t (fun a s' => Q a ∧ I s') s := by
  induction t generalizing s with
  | ret a => exact ⟨ht, hs⟩
  | call o k ih =>
    intro l hl
    exact ih _ (ht.2 _) (hstep o l s ht.1 hs hl)

/-! ## Paths that a machine takes -/

/-- The machine can perform the operations with these answers. -/
inductive Machine.Takes (M : Machine S σ L) : σ → List ((o : S.Op) × S.Res o) → σ → Prop
  | nil (s : σ) : Takes M s [] s
  | cons {o : S.Op} {s s' : σ} {tr : List ((o : S.Op) × S.Res o)} (l : L) (hl : M.allowed l s o)
      (rest : Takes M (M.exec l s o).2 tr s') :
      Takes M s (⟨o, (M.exec l s o).1⟩ :: tr) s'

theorem Machine.Takes.append {s₁ : σ} {tr tr' : List ((o : S.Op) × S.Res o)} (h : M.Takes s tr s₁)
    (h' : M.Takes s₁ tr' s') : M.Takes s (tr ++ tr') s' := by
  induction h with
  | nil s => exact h'
  | cons l hl _ ih => exact .cons l hl (ih h')

theorem Machine.Takes.runs {tr : List ((o : S.Op) × S.Res o)} (h : M.Takes s tr s')
    (hpath : t.Path tr a) : ∃ labels, M.Runs t s labels a s' := by
  induction h generalizing t with
  | nil s =>
    cases hpath
    exact ⟨[], .ret a s⟩
  | cons l hl _ ih =>
    cases hpath with
    | call r rest =>
      obtain ⟨labels, hrun⟩ := ih rest
      exact ⟨_, .call l hl hrun⟩

/-! ## Runs observed, and runs that stay in a set of states -/

/-- The machine that also keeps a list of the events among the operations performed. -/
def Machine.watched {E : Type} (M : Machine S σ L) (event : S.Op → Option E) : Machine S (σ × List E) L where
  exec l s o := ((M.exec l s.1 o).1, ((M.exec l s.1 o).2, s.2 ++ (event o).toList))
  allowed l s o := M.allowed l s.1 o

theorem Machine.Runs.watched {E : Type} {event : S.Op → Option E} (hrun : M.Runs t s tr a s')
    (es : List E) :
    (M.watched event).Runs t (s, es) tr a (s', es ++ (tr.map Prod.fst).filterMap event) := by
  induction hrun generalizing es with
  | ret a s => simpa using Runs.ret a (s, es)
  | @call o k s s' a tr l hl _ ih =>
    refine .call l hl ?_
    have hevents : es ++ ((((o, l) :: tr).map Prod.fst).filterMap event) =
        (es ++ (event o).toList) ++ (tr.map Prod.fst).filterMap event := by
      cases hevent : event o with
      | none => simp [hevent]
      | some e => simp [hevent]
    rw [hevents]
    exact ih _

/-- A program without events does what it does, and no event is seen. -/
theorem wp_watched {E : Type} {event : S.Op → Option E} {es : List E}
    (ht : t.Only fun o => event o = none) (h : M.wp t Q s) :
    (M.watched event).wp t (fun a s' => Q a s'.1 ∧ s'.2 = es) (s, es) := by
  induction t generalizing s with
  | ret a => exact ⟨h, rfl⟩
  | call o k ih =>
    intro l hl
    have hes : es ++ (event o).toList = es := by simp [show event o = none from ht.1]
    show (M.watched event).wp (k (M.exec l s o).1) _ ((M.exec l s o).2, es ++ (event o).toList)
    rw [hes]
    exact ih _ (ht.2 _) (h l hl)

/-- The machine whose steps all end in `I`. -/
def Machine.within (M : Machine S σ L) (I : σ → Prop) : Machine S σ L where
  exec := M.exec
  allowed l s o := M.allowed l s o ∧ I (M.exec l s o).2

theorem wp_within {I : σ → Prop} (h : M.wp t Q s) (hs : I s) :
    (M.within I).wp t (fun a s' => Q a s' ∧ I s') s := by
  induction t generalizing s with
  | ret a => exact ⟨h, hs⟩
  | call o k ih =>
    intro l hl
    exact ih _ (h l hl.1) hl.2

/-! ## Programs that can fail

Go's `if err != nil { return err }` is `ExceptT`: the first error ends the program. -/

variable {ε : Type} {x : ExceptT ε (Prog S) α} {f : α → ExceptT ε (Prog S) β}

theorem only_run_bind (hx : x.run.Only P) (hf : ∀ a, (f a).run.Only P) : (x >>= f).run.Only P := by
  rw [ExceptT.run_bind]
  refine Prog.Only.bind hx ?_
  rintro (e | a)
  · exact trivial
  · exact hf a

@[simp] theorem always_run_lift {Q : Except ε α → Prop} :
    (liftM t : ExceptT ε (Prog S) α).run.Always P Q ↔ t.Always P fun a => Q (.ok a) := by
  show (t >>= fun a => Prog.ret (.ok a)).Always P Q ↔ _
  rw [Prog.always_bind]
  rfl

@[simp] theorem always_run_bind {Q : Except ε β → Prop} :
    (x >>= f).run.Always P Q ↔ x.run.Always P fun r =>
      (∀ e, r = .error e → Q (.error e)) ∧ ∀ a, r = .ok a → (f a).run.Always P Q := by
  rw [ExceptT.run_bind, Prog.always_bind]
  constructor
  · intro h
    refine h.mono (fun _ ho => ho) ?_
    rintro (e | a) hr
    · refine ⟨fun e' he => ?_, fun a ha => by cases ha⟩
      cases he
      exact hr
    · refine ⟨fun e he => (by cases he), fun a' ha => ?_⟩
      cases ha
      exact hr
  · intro h
    refine h.mono (fun _ ho => ho) ?_
    rintro (e | a) ⟨herr, hok⟩
    · exact herr e rfl
    · exact hok a rfl

/-- A path through a sequence fails in its first part or goes on to its second. -/
theorem path_run_bind {tr : List ((o : S.Op) × S.Res o)} {r : Except ε β} (h : (x >>= f).run.Path tr r) :
    (∃ e, x.run.Path tr (.error e) ∧ r = .error e) ∨
      ∃ a tr₁ tr₂, x.run.Path tr₁ (.ok a) ∧ (f a).run.Path tr₂ r ∧ tr = tr₁ ++ tr₂ := by
  rw [ExceptT.run_bind] at h
  obtain ⟨a, tr₁, tr₂, h₁, h₂, rfl⟩ := Prog.path_bind h
  cases a with
  | error e =>
    cases h₂
    exact Or.inl ⟨e, by rwa [List.append_nil], rfl⟩
  | ok a => exact Or.inr ⟨a, tr₁, tr₂, h₁, h₂, rfl⟩

/-- A run of a sequence fails in its first part or goes on to its second. -/
theorem runs_run_bind {r : Except ε β} (hrun : M.Runs (x >>= f).run s tr r s') :
    (∃ e, M.Runs x.run s tr (.error e) s' ∧ r = .error e) ∨
      ∃ a s₁ tr₁ tr₂, M.Runs x.run s tr₁ (.ok a) s₁ ∧ M.Runs (f a).run s₁ tr₂ r s' ∧
        tr = tr₁ ++ tr₂ := by
  rw [ExceptT.run_bind] at hrun
  obtain ⟨a, s₁, tr₁, tr₂, h₁, h₂, rfl⟩ := runs_bind.mp hrun
  cases a with
  | error e =>
    cases h₂
    exact Or.inl ⟨e, by rwa [List.append_nil], rfl⟩
  | ok a => exact Or.inr ⟨a, s₁, tr₁, tr₂, h₁, h₂, rfl⟩

/-- Some run of the program ends so. -/
def Machine.Leads (M : Machine S σ L) (x : ExceptT ε (Prog S) α) (s : σ) (r : Except ε α) (s' : σ) : Prop :=
  ∃ tr, M.Runs x.run s tr r s'

theorem Machine.Leads.bind {s₁ s₂ : σ} {r : Except ε β} (hx : M.Leads x s (.ok a) s₁)
    (hf : M.Leads (f a) s₁ r s₂) : M.Leads (x >>= f) s r s₂ := by
  obtain ⟨tr₁, h₁⟩ := hx
  obtain ⟨tr₂, h₂⟩ := hf
  refine ⟨tr₁ ++ tr₂, ?_⟩
  rw [ExceptT.run_bind]
  exact runs_bind.mpr ⟨.ok a, s₁, tr₁, tr₂, h₁, h₂, rfl⟩

theorem leads_pure (a : α) (s : σ) : M.Leads (pure a : ExceptT ε (Prog S) α) s (.ok a) s :=
  ⟨[], .ret _ s⟩

theorem leads_lift (h : M.Runs t s tr a s') : M.Leads (liftM t : ExceptT ε (Prog S) α) s (.ok a) s' :=
  ⟨tr ++ [], runs_bind.mpr ⟨a, s', tr, [], h, .ret _ s', rfl⟩⟩

/-- What a failing program's continuation sees: an error skips it. -/
def Machine.orElse (Q : Except ε β → σ → Prop) (f : α → σ → Prop) : Except ε α → σ → Prop
  | .ok a, s => f a s
  | .error e, s => Q (.error e) s

@[simp] theorem orElse_ok {Q : Except ε β → σ → Prop} {f : α → σ → Prop} :
    orElse Q f (.ok a) s ↔ f a s := Iff.rfl

@[simp] theorem orElse_error {Q : Except ε β → σ → Prop} {f : α → σ → Prop} {e : ε} :
    orElse Q f (.error e) s ↔ Q (.error e) s := Iff.rfl

@[simp] theorem wp_run_bind {Q : Except ε β → σ → Prop} :
    M.wp (x >>= f).run Q s ↔ M.wp x.run (orElse Q fun a s' => M.wp (f a).run Q s') s := by
  rw [ExceptT.run_bind, wp_bind]
  constructor
  all_goals
    intro h
    refine wp_mono h ?_
    rintro (e | a) s' h'
    · exact h'
    · exact h'

/-- The two rules for a sequence at once. -/
theorem wp_run_seq {R : Except ε α → σ → Prop} {Q : Except ε β → σ → Prop} (hx : M.wp x.run R s)
    (hf : ∀ r s', R r s' → orElse Q (fun a s' => M.wp (f a).run Q s') r s') : M.wp (x >>= f).run Q s :=
  wp_run_bind.mpr (wp_mono hx hf)

@[simp] theorem wp_run_pure {Q : Except ε α → σ → Prop} :
    M.wp (pure a : ExceptT ε (Prog S) α).run Q s ↔ Q (.ok a) s := Iff.rfl

@[simp] theorem wp_run_lift {Q : Except ε α → σ → Prop} :
    M.wp (liftM t : ExceptT ε (Prog S) α).run Q s ↔ M.wp t (fun a s' => Q (.ok a) s') s := by
  show M.wp (t >>= fun a => Prog.ret (.ok a)) Q s ↔ _
  rw [wp_bind]
  rfl

end Machines

/-! ## The monad of programs is lawful -/

section Lawful

variable {S : Sig} {α β γ : Type}

theorem Prog.bind_ret (t : Prog S α) : (t >>= fun a => Prog.ret a) = t := by
  induction t with
  | ret a => rfl
  | call o k ih => exact congrArg (Prog.call o) (funext ih)

theorem Prog.bind_assoc (t : Prog S α) (f : α → Prog S β) (g : β → Prog S γ) :
    (t >>= f) >>= g = t >>= fun a => f a >>= g := by
  induction t with
  | ret a => rfl
  | call o k ih => exact congrArg (Prog.call o) (funext ih)

instance : LawfulMonad (Prog S) :=
  LawfulMonad.mk' _ (fun t => t.bind_ret) (fun _ _ => rfl) fun t f g => t.bind_assoc f g

end Lawful

end OrcaBlocks.Lib
