import Transact.Problem

/-! # Computations

A computation changes a state and either returns a value or halts. What it did to the state before
it halted stays done. It halts because a failure was raised, which its caller may intercept, or
because the nesting of foreign code went deeper than it was given leave to; nobody intercepts that.

* `convert_eq`, `convert_eq_refuse`: an intercepted failure is turned into a report, or that raises. -/

namespace Transact

/-- Why a computation has halted. -/
inductive Halt where
  | raised (f : Failure)
  | exhausted
deriving Inhabited

/-- A computation over a state that may halt. -/
abbrev Run (σ : Type) := EStateM Halt σ

namespace Run

variable {σ α : Type}

/-- Halts with a failure. -/
def raise (f : Failure) : Run σ α := throw (.raised f)

/-- Raises a problem as a failure. -/
def refuse (p : Problem) : Run σ α := raise p.toFailure

/-- Turns an intercepted failure into a report. **A value that has no text raises in turn.** -/
def convert (f : Failure) : Run σ Failure :=
  match f.toReport? with
  | none => refuse .noText
  | some report => return report

/-- The first of several failures: the report that is there already, or else a report of this one. -/
def first (report : Option Failure) (f : Failure) : Run σ Failure :=
  report.elim (convert f) pure

/-- Halts because no more nesting is allowed. -/
def exhausted : Run σ α := throw .exhausted

/-- Intercepts a raised failure; the state stays as the computation left it. -/
def attempt (x : Run σ α) : Run σ (Except Failure α) := fun s =>
  match x s with
  | .ok a t => .ok (.ok a) t
  | .error (.raised f) t => .ok (.error f) t
  | .error .exhausted t => .error .exhausted t

/-- Runs a computation to its end and keeps the state in every case. -/
def observe (x : Run σ α) (s : σ) : Except Halt α × σ :=
  match x s with
  | .ok a t => (.ok a, t)
  | .error h t => (.error h, t)

/-- Makes calls one after the other: what each of them returns, with the state that it leaves. -/
def trace {κ : Type} (call : κ → σ → α × σ) : List κ → σ → List (α × σ)
  | [], _ => []
  | c :: rest, s =>
    let answer := call c s
    answer :: trace call rest answer.2

theorem convert_eq {f report : Failure} (h : f.toReport? = some report) :
    (convert f : Run σ Failure) = pure report := by
  simp [convert, h]

theorem convert_eq_refuse {f : Failure} (h : f.toReport? = none) :
    (convert f : Run σ Failure) = refuse .noText := by
  simp [convert, h]

end Run

end Transact
