/-
# OrcaBlocks.Lib.Pool — programs interleaved at the granularity of one operation.

A pool is a shared state and a family of threads, each a program with some of its operations still
to perform. Any thread may perform its next operation at any time, a free slot may start a new
program, and a set of threads may go down for good after any step. This is the whole space of
interleavings: no fairness, no atomicity beyond the single operation.

The proof rule is rely/guarantee. `WpRG` is the weakest precondition of a thread that is interfered
with before each of its steps: the others may have moved the state along `R`, the shared invariant
`I` holds, and the thread must re-establish `I` and keep to `G`. If every program a slot may start
satisfies it, and each thread's guarantee is within every other thread's rely, then `I` holds in
EVERY reachable pool (`Pool.Reachable.safe`) and every step of it is within some guarantee
(`Pool.Step.safe`). What a program leaves when it returns (`Done`) is then known of every slot in which
nothing is in progress (`Pool.Reachable.settled`).
-/
import OrcaBlocks.Lib.Prog

namespace OrcaBlocks.Lib

open Function

variable {ι : Type} [DecidableEq ι] {S : Sig} {σ L : Type} {α β : Type}

/-! ## Pools and their steps -/

/-- A shared state, the threads in progress, and the slots that are down for good. -/
structure Pool (ι : Type) (S : Sig) (σ α : Type) where
  state : σ
  threads : ι → Option (Prog S α)
  down : ι → Prop

namespace Pool

/-- A slot is free when nothing runs in it or what ran in it has returned. -/
def Free (p : Pool ι S σ α) (i : ι) : Prop :=
  p.threads i = none ∨ ∃ a, p.threads i = some (.ret a)

/-- One step of the pool. `start i t` says that slot `i` may start the program `t`. -/
inductive Step (M : ι → Machine S σ L) (start : ι → Prog S α → Prop) :
    Pool ι S σ α → Pool ι S σ α → Prop
  | step {p : Pool ι S σ α} (i : ι) {o : S.Op} {k : S.Res o → Prog S α} (l : L)
      (ht : p.threads i = some (.call o k)) (hl : (M i).allowed l p.state o) :
      Step M start p
        { p with
          state := ((M i).exec l p.state o).2
          threads := update p.threads i (some (k ((M i).exec l p.state o).1)) }
  | spawn {p : Pool ι S σ α} (i : ι) (t : Prog S α) (hfree : p.Free i) (hup : ¬ p.down i)
      (hstart : start i t) :
      Step M start p { p with threads := update p.threads i (some t) }
  | halt {p : Pool ι S σ α} (dead : ι → Prop) [DecidablePred dead] :
      Step M start p
        { p with
          threads := fun i => if dead i then none else p.threads i
          down := fun i => p.down i ∨ dead i }

/-- The pools that can be reached from a set of initial states with no thread running. -/
inductive Reachable (M : ι → Machine S σ L) (start : ι → Prog S α → Prop) (init : σ → Prop) :
    Pool ι S σ α → Prop
  | init {s : σ} (hs : init s) : Reachable M start init ⟨s, fun _ => none, fun _ => False⟩
  | step {p q : Pool ι S σ α} (hp : Reachable M start init p) (hstep : Step M start p q) :
      Reachable M start init q

end Pool

/-! ## Rely/guarantee -/

/-- The weakest precondition of a thread under interference. -/
def WpRG (M : Machine S σ L) (I : σ → Prop) (R G : σ → σ → Prop) :
    Prog S α → (α → σ → Prop) → σ → Prop
  | .ret a, Q, s => Q a s
  | .call o k, Q, s => ∀ s₁, R s s₁ → I s₁ → ∀ l, M.allowed l s₁ o →
      I (M.exec l s₁ o).2 ∧ G s₁ (M.exec l s₁ o).2 ∧
        WpRG M I R G (k (M.exec l s₁ o).1) Q (M.exec l s₁ o).2

namespace WpRG

variable {M : Machine S σ L} {I : σ → Prop} {R G : σ → σ → Prop} {t : Prog S α} {Q : α → σ → Prop}
  {s s' : σ} {a : α} {tr : List (S.Op × L)}

theorem perform {o : S.Op} {Q : S.Res o → σ → Prop} (h : ∀ s₁, R s s₁ → I s₁ → ∀ l, M.allowed l s₁ o →
      I (M.exec l s₁ o).2 ∧ G s₁ (M.exec l s₁ o).2 ∧
        Q (M.exec l s₁ o).1 (M.exec l s₁ o).2) :
    WpRG M I R G (Prog.perform o) Q s := h

/-- The sequencing rule. -/
@[simp] theorem bind_iff {f : α → Prog S β} {Q : β → σ → Prop} :
    WpRG M I R G (t >>= f) Q s ↔ WpRG M I R G t (fun a s' => WpRG M I R G (f a) Q s') s := by
  induction t generalizing s with
  | ret a => rfl
  | call o k ih =>
    simp only [Prog.call_bind, WpRG, ih]

/-- The rule of consequence. -/
theorem mono {Q' : α → σ → Prop} (h : WpRG M I R G t Q s) (hQ : ∀ a s', Q a s' → Q' a s') :
    WpRG M I R G t Q' s := by
  induction t generalizing s with
  | ret a => exact hQ a s h
  | call o k ih =>
    intro s₁ hR hI l hl
    obtain ⟨hI', hG, hk⟩ := h s₁ hR hI l hl
    exact ⟨hI', hG, ih _ hk⟩

/-- A thread's precondition survives interference. -/
theorem stable (h : WpRG M I R G t Q s) (htrans : ∀ {a b c}, R a b → R b c → R a c) (hR : R s s')
    (hQ : ∀ a, Q a s → Q a s') : WpRG M I R G t Q s' := by
  cases t with
  | ret a => exact hQ a h
  | call o k => exact fun s₁ hR₁ => h s₁ (htrans hR hR₁)

/-- A thread that keeps to less keeps to more. -/
theorem guarantee {G' : σ → σ → Prop} (h : WpRG M I R G t Q s) (hG : ∀ a b, I a → G a b → G' a b) :
    WpRG M I R G' t Q s := by
  induction t generalizing s with
  | ret a => exact h
  | call o k ih =>
    intro s₁ hR hI l hl
    obtain ⟨hI', hstep, hk⟩ := h s₁ hR hI l hl
    exact ⟨hI', hG _ _ hI hstep, ih _ hk⟩

/-- What interference and the thread's own steps preserve relates its end to its beginning. -/
theorem remember {K : σ → σ → Prop} (hrefl : ∀ a, K a a) (htrans : ∀ {a b c}, K a b → K b c → K a c)
    (hR : ∀ {a b}, R a b → K a b) (hG : ∀ {a b}, I a → G a b → K a b) (h : WpRG M I R G t Q s) :
    WpRG M I R G t (fun a s' => K s s' ∧ Q a s') s := by
  induction t generalizing s with
  | ret a => exact ⟨hrefl s, h⟩
  | call o k ih =>
    intro s₁ hRs hI l hl
    obtain ⟨hI', hstep, hk⟩ := h s₁ hRs hI l hl
    refine ⟨hI', hstep, (ih _ hk).mono ?_⟩
    rintro a s' ⟨hK, hQ⟩
    exact ⟨htrans (hR hRs) (htrans (hG hI hstep) hK), hQ⟩

/-- A program all of whose operations keep an assertion keeps it, and returns what it always returns. -/
theorem of_always {P : S.Op → Prop} {Q : α → Prop} {K : σ → Prop} (ht : t.Always P Q)
    (hR : ∀ {a b}, R a b → K a → K b) (hstep : ∀ o l s, P o → I s → K s → M.allowed l s o →
      I (M.exec l s o).2 ∧ G s (M.exec l s o).2 ∧ K (M.exec l s o).2) (hK : K s) :
    WpRG M I R G t (fun a s' => Q a ∧ K s') s := by
  induction t generalizing s with
  | ret a => exact ⟨ht, hK⟩
  | call o k ih =>
    intro s₁ hs hI l hl
    obtain ⟨hI', hG, hK'⟩ := hstep o l s₁ ht.1 hI (hR hs hK) hl
    exact ⟨hI', hG, ih _ (ht.2 _) hK'⟩

/-- A thread of one component of a family of states. -/
theorem component {κ : Type} [DecidableEq κ] {n : κ} {J : κ → σ → Prop} {M' : Machine S (κ → σ) L}
    (hexec : ∀ l s o, M'.exec l s o =
      ((M.exec l (s n) o).1, update s n (M.exec l (s n) o).2))
    (hallowed : ∀ l s o, M'.allowed l s o → M.allowed l (s n) o) (hJ : J n = I) {s : κ → σ}
    (h : WpRG M I R G t Q (s n)) :
    WpRG M' (fun s => ∀ m, J m (s m)) (fun s s' => R (s n) (s' n))
      (fun s s' => G (s n) (s' n) ∧ ∀ m, m ≠ n → s' m = s m) t (fun a s' => Q a (s' n)) s := by
  induction t generalizing s with
  | ret a => exact h
  | call o k ih =>
    intro s₁ hR hI l hl
    have hIn : I (s₁ n) := hJ ▸ hI n
    obtain ⟨hI', hG, hk⟩ := h (s₁ n) hR hIn l (hallowed l s₁ o hl)
    rw [hexec]
    dsimp only
    refine ⟨fun m => ?_, ⟨?_, fun m hm => update_of_ne hm _ _⟩, ih _ ?_⟩
    · by_cases hm : m = n
      · subst hm
        rw [update_self, hJ]
        exact hI'
      · rw [update_of_ne hm]
        exact hI m
    · rw [update_self]
      exact hG
    · rw [update_self]
      exact hk

/-- A thread that is not interfered with runs alone. -/
theorem wp (hR : ∀ a, R a a) (h : WpRG M I R G t Q s) (hI : I s) :
    M.wp t (fun a s' => I s' ∧ Q a s') s := by
  induction t generalizing s with
  | ret a => exact ⟨hI, h⟩
  | call o k ih =>
    intro l hl
    obtain ⟨hI', -, hk⟩ := h s (hR s) hI l hl
    exact ih _ hk hI'

/-- All states of a thread that runs alone satisfy the invariant. -/
theorem runs_within (hR : ∀ a, R a a) (h : WpRG M I R G t Q s) (hI : I s) (hrun : M.Runs t s tr a s') :
    (M.within I).Runs t s tr a s' := by
  induction hrun with
  | ret a s => exact .ret a s
  | call l hl _ ih =>
    obtain ⟨hI', -, hk⟩ := h _ (hR _) hI l hl
    exact .call l ⟨hl, hI'⟩ (ih hk hI')

end WpRG

section Fallible

variable {M : Machine S σ L} {I : σ → Prop} {R G : σ → σ → Prop} {ε : Type} {t : Prog S α} {s : σ}
  {x : ExceptT ε (Prog S) α} {f : α → ExceptT ε (Prog S) β}

@[simp] theorem run_bind_iff {Q : Except ε β → σ → Prop} :
    WpRG M I R G (x >>= f).run Q s ↔
      WpRG M I R G x.run (Machine.orElse Q fun a s' => WpRG M I R G (f a).run Q s') s := by
  rw [ExceptT.run_bind, WpRG.bind_iff]
  constructor
  all_goals
    intro h
    refine h.mono ?_
    rintro (e | a) s' h'
    · exact h'
    · exact h'

@[simp] theorem run_lift_iff {Q : Except ε α → σ → Prop} :
    WpRG M I R G (liftM t : ExceptT ε (Prog S) α).run Q s ↔
      WpRG M I R G t (fun a s' => Q (.ok a) s') s := by
  show WpRG M I R G (t >>= fun a => Prog.ret (.ok a)) Q s ↔ _
  rw [WpRG.bind_iff]
  rfl

/-- The sequencing rule with what is known in between. -/
theorem run_seq {P : Except ε α → σ → Prop} {Q : Except ε β → σ → Prop} (hx : WpRG M I R G x.run P s)
    (hok : ∀ a s', P (.ok a) s' → WpRG M I R G (f a).run Q s')
    (herr : ∀ e s', P (.error e) s' → Q (.error e) s') : WpRG M I R G (x >>= f).run Q s := by
  refine run_bind_iff.mpr (hx.mono ?_)
  rintro (e | a) s' hP
  · exact herr e s' hP
  · exact hok a s' hP

end Fallible

/-! ## Soundness -/

namespace Pool

variable {M : ι → Machine S σ L} {start : ι → Prog S α → Prop} {init : σ → Prop}
variable {I : σ → Prop} {R G : ι → σ → σ → Prop} {p : Pool ι S σ α} {t : Prog S α} {s s' : σ} {a : α}
  {tr : List (S.Op × L)}

/-- What the rule keeps true of a pool: the shared invariant, and every thread's precondition. -/
def Safe (M : ι → Machine S σ L) (I : σ → Prop) (R G : ι → σ → σ → Prop)
    (p : Pool ι S σ α) : Prop :=
  I p.state ∧ ∀ i t, p.threads i = some t → WpRG (M i) I (R i) (G i) t (fun _ _ => True) p.state

/-- The same with what a returned program leaves, for the slots in which nothing was stopped half way. -/
def Settled (M : ι → Machine S σ L) (I : σ → Prop) (R G : ι → σ → σ → Prop) (Done : ι → σ → Prop)
    (p : Pool ι S σ α) : Prop :=
  I p.state ∧
    (∀ i t, p.threads i = some t → WpRG (M i) I (R i) (G i) t (fun _ => Done i) p.state) ∧
    ∀ i, p.threads i = none → ¬ p.down i → Done i p.state

theorem Step.settled {Done : ι → σ → Prop} (htrans : ∀ i {a b c}, R i a b → R i b c → R i a c)
    (hrefl : ∀ i a, R i a a) (hGR : ∀ i j, i ≠ j → ∀ {a b}, G i a b → R j a b)
    (hstable : ∀ i {a b}, R i a b → Done i a → Done i b)
    (hstart : ∀ i t, start i t → ∀ s, I s → Done i s →
      WpRG (M i) I (R i) (G i) t (fun _ => Done i) s) {q : Pool ι S σ α} (hp : Settled M I R G Done p)
    (hstep : Step M start p q) :
    Settled M I R G Done q ∧ (q.state = p.state ∨ ∃ i, G i p.state q.state) := by
  obtain ⟨hI, hthreads, hidle⟩ := hp
  cases hstep with
  | @step i o k l ht hl =>
    obtain ⟨hI', hG, hk⟩ := hthreads i _ ht p.state (hrefl i _) hI l hl
    refine ⟨⟨hI', fun j t hj => ?_, fun j hj hup => ?_⟩, Or.inr ⟨i, hG⟩⟩
    · by_cases hij : j = i
      · subst hij
        simp only [update_self, Option.some.injEq] at hj
        exact hj ▸ hk
      · -- another thread: this step is interference to it
        simp only [update_of_ne hij] at hj
        have hR := hGR i j (Ne.symm hij) hG
        exact (hthreads j t hj).stable (htrans j) hR fun _ => hstable j hR
    · by_cases hij : j = i
      · subst hij
        simp at hj
      · simp only [update_of_ne hij] at hj
        exact hstable j (hGR i j (Ne.symm hij) hG) (hidle j hj hup)
  | spawn i t hfree hup hst =>
    have hdone : Done i p.state := by
      obtain hnone | ⟨a, hret⟩ := hfree
      · exact hidle i hnone hup
      · exact hthreads i _ hret
    refine ⟨⟨hI, fun j u hj => ?_, fun j hj hnot => ?_⟩, Or.inl rfl⟩
    · by_cases hij : j = i
      · subst hij
        simp only [update_self, Option.some.injEq] at hj
        exact hj ▸ hstart j t hst _ hI hdone
      · simp only [update_of_ne hij] at hj
        exact hthreads j u hj
    · by_cases hij : j = i
      · subst hij
        simp at hj
      · simp only [update_of_ne hij] at hj
        exact hidle j hj hnot
  | halt dead =>
    refine ⟨⟨hI, fun j t hj => ?_, fun j hj hnot => ?_⟩, Or.inl rfl⟩
    · by_cases hd : dead j
      · simp [hd] at hj
      · simp only [hd, if_false] at hj
        exact hthreads j t hj
    · have hd : ¬ dead j := fun h => hnot (Or.inr h)
      simp only [hd, if_false] at hj
      exact hidle j hj fun h => hnot (Or.inl h)

theorem Reachable.settled {Done : ι → σ → Prop} (htrans : ∀ i {a b c}, R i a b → R i b c → R i a c)
    (hrefl : ∀ i a, R i a a) (hGR : ∀ i j, i ≠ j → ∀ {a b}, G i a b → R j a b)
    (hstable : ∀ i {a b}, R i a b → Done i a → Done i b)
    (hstart : ∀ i t, start i t → ∀ s, I s → Done i s →
      WpRG (M i) I (R i) (G i) t (fun _ => Done i) s) (hinit : ∀ s, init s → I s ∧ ∀ i, Done i s)
    (h : Reachable M start init p) : Settled M I R G Done p := by
  induction h with
  | init hs => exact ⟨(hinit _ hs).1, by simp, fun i _ _ => (hinit _ hs).2 i⟩
  | step _ hstep ih => exact (hstep.settled htrans hrefl hGR hstable hstart ih).1

omit [DecidableEq ι] in
theorem Settled.safe (h : Settled M I R G (fun _ _ => True) p) : Safe M I R G p :=
  ⟨h.1, h.2.1⟩

omit [DecidableEq ι] in
theorem Safe.settled (h : Safe M I R G p) : Settled M I R G (fun _ _ => True) p :=
  ⟨h.1, h.2, fun _ _ _ => trivial⟩

theorem Step.safe (htrans : ∀ i {a b c}, R i a b → R i b c → R i a c) (hrefl : ∀ i a, R i a a)
    (hGR : ∀ i j, i ≠ j → ∀ {a b}, G i a b → R j a b)
    (hstart : ∀ i t, start i t → ∀ s, I s → WpRG (M i) I (R i) (G i) t (fun _ _ => True) s)
    {q : Pool ι S σ α} (hp : Safe M I R G p) (hstep : Step M start p q) :
    Safe M I R G q ∧ (q.state = p.state ∨ ∃ i, G i p.state q.state) := by
  obtain ⟨hq, hG⟩ := hstep.settled htrans hrefl hGR (fun _ _ _ _ => id)
    (fun i t ht s hI _ => hstart i t ht s hI) hp.settled
  exact ⟨hq.safe, hG⟩

/-- The invariant rule: `Safe` holds in every reachable pool. -/
theorem Reachable.safe (htrans : ∀ i {a b c}, R i a b → R i b c → R i a c) (hrefl : ∀ i a, R i a a)
    (hGR : ∀ i j, i ≠ j → ∀ {a b}, G i a b → R j a b)
    (hstart : ∀ i t, start i t → ∀ s, I s → WpRG (M i) I (R i) (G i) t (fun _ _ => True) s)
    (hinit : ∀ s, init s → I s) (h : Reachable M start init p) : Safe M I R G p :=
  (h.settled htrans hrefl hGR (fun _ _ _ _ => id) (fun i t ht s hI _ => hstart i t ht s hI)
    fun s hs => ⟨hinit s hs, fun _ => trivial⟩).safe

/-- A thread may run to its end while the others wait. -/
theorem Reachable.run (hp : Reachable M start init p) {i : ι} (ht : p.threads i = some t)
    (hrun : (M i).Runs t p.state tr a s') :
    Reachable M start init
      { p with state := s', threads := update p.threads i (some (.ret a)) } := by
  generalize hs : p.state = s at hrun
  induction hrun generalizing p with
  | ret a s =>
    subst hs
    rw [← ht, update_eq_self]
    exact hp
  | @call o k s s' a tr l hl _ ih =>
    subst hs
    have hnext := ih (hp.step (.step i l ht hl)) (by simp) rfl
    rwa [update_idem] at hnext

/-- A free slot may start a program and run it to its end. -/
theorem Reachable.serve (hp : Reachable M start init p) {i : ι} (hfree : p.Free i) (hup : ¬ p.down i)
    (ht : start i t) (hrun : (M i).Runs t p.state tr a s') :
    Reachable M start init
      { p with state := s', threads := update p.threads i (some (.ret a)) } := by
  have hnext := (hp.step (.spawn i t hfree hup ht)).run (update_self ..) hrun
  rwa [update_idem] at hnext

/-- The slot is then free again. -/
theorem Free.served (hfree : ∀ j, p.Free j) (i : ι) (a : α) (s' : σ) (j : ι) :
    Free { p with state := s', threads := update p.threads i (some (.ret a)) } j := by
  by_cases hij : j = i
  · subst hij
    exact Or.inr ⟨a, update_self ..⟩
  · simpa only [Free, update_of_ne hij] using hfree j

end Pool

end OrcaBlocks.Lib
