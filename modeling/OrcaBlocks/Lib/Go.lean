/-
# OrcaBlocks.Lib.Go — functions that return a value, return an error, or PANIC.

A panic is not an error: `if err != nil` does not see it and nothing in the caller runs after it. It
has its own outcome here. The state is kept in all three cases, since what was done before a return or
a panic was done.
-/
import Mathlib

namespace OrcaBlocks.Lib

inductive Outcome (ε α : Type) where
  | ok (a : α)
  | error (e : ε)
  | panic
  deriving DecidableEq, Repr

/-- A function on the state `σ`. -/
def Go (ε σ α : Type) : Type := σ → Outcome ε α × σ

namespace Go

variable {ε σ τ α β : Type}

instance : Monad (Go ε σ) where
  pure a := fun s => (.ok a, s)
  bind x f := fun s =>
    match x s with
    | (.ok a, s') => f a s'
    | (.error e, s') => (.error e, s')
    | (.panic, s') => (.panic, s')

/-- `return err`. -/
def fail (e : ε) : Go ε σ α := fun s => (.error e, s)

/-- An index or a slice out of range, a method of a nil interface. -/
def crash : Go ε σ α := fun s => (.panic, s)

variable {x : Go ε σ α} {f : α → Go ε σ β} {s s' : σ}

@[simp] theorem pure_apply (a : α) (s : σ) : (pure a : Go ε σ α) s = (.ok a, s) := rfl

@[simp] theorem fail_apply (e : ε) (s : σ) : (fail e : Go ε σ α) s = (.error e, s) := rfl

theorem bind_apply (x : Go ε σ α) (f : α → Go ε σ β) (s : σ) : (x >>= f) s =
    match x s with
    | (.ok a, s') => f a s'
    | (.error e, s') => (.error e, s')
    | (.panic, s') => (.panic, s') := rfl

theorem bind_of_ok {a : α} (h : x s = (.ok a, s')) : (x >>= f) s = f a s' := by
  rw [bind_apply, h]

theorem bind_of_error {e : ε} (h : x s = (.error e, s')) : (x >>= f) s = (.error e, s') := by
  rw [bind_apply, h]

theorem bind_of_panic (h : x s = (.panic, s')) : (x >>= f) s = (.panic, s') := by
  rw [bind_apply, h]

end Go

end OrcaBlocks.Lib
