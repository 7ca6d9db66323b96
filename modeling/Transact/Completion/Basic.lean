import Transact.Problem

/-! # Completions

A completion stands for an outcome that is still to come. It is settled once; a second settlement is
refused and changes nothing. Whoever asks for the outcome before it is there waits for it.

* `settle_pending`, `settle_settled`: the two cases of a settlement.
* `ask_pending`, `ask_settled`: who asks too early waits. -/

namespace Transact

/-- How something ended. -/
inductive Resolution (ν : Type) where
  | succeeded (v : ν)
  | failed (cause : Failure)
deriving Inhabited

namespace Resolution

variable {ν : Type}

/-- The word for a resolution. -/
def word : Resolution ν → String
  | succeeded _ => "succeeded"
  | failed _ => "failed"

/-- The value, if this is a success. -/
def value? : Resolution ν → Option ν
  | succeeded v => some v
  | failed _ => none

/-- The failure, if this is one. -/
def cause? : Resolution ν → Option Failure
  | succeeded _ => none
  | failed f => some f

end Resolution

/-- What is known of an outcome so far. -/
inductive Status (ν : Type) where
  | pending
  | settled (r : Resolution ν)
deriving Inhabited

namespace Status

variable {ν : Type}

/-- The word for a status. -/
def word : Status ν → String
  | pending => "pending"
  | settled r => r.word

/-- Whether there is a resolution already. -/
def isSettled : Status ν → Bool
  | pending => false
  | settled _ => true

/-- The resolution, if there is one already. -/
def resolution? : Status ν → Option (Resolution ν)
  | pending => none
  | settled r => some r

/-- The only change there is: from pending to settled. -/
def settle (r : Resolution ν) : Status ν → Except Problem (Status ν)
  | pending => .ok (settled r)
  | settled earlier => .error (.alreadySettled earlier.word)

end Status

/-- **A completion** with those who wait for it, by number, in the order in which they asked. -/
structure Completion (ν : Type) where
  status : Status ν := .pending
  waiters : List Nat := []

namespace Completion

variable {ν : Type} {r : Resolution ν} {c : Completion ν} {n : Nat}

/-- Settles a completion; also returns those who waited. -/
def settle (r : Resolution ν) (c : Completion ν) : Except Problem (Completion ν × List Nat) :=
  (c.status.settle r).map fun status => ({ status }, c.waiters)

/-- Somebody asks, under a number. Also returns the outcome, if it is there. -/
def ask (n : Nat) (c : Completion ν) : Completion ν × Option (Resolution ν) :=
  match c.status with
  | .pending => ({ c with waiters := c.waiters ++ [n] }, none)
  | .settled r => (c, some r)

theorem settle_pending (h : c.status = .pending) :
    c.settle r = .ok ({ status := .settled r }, c.waiters) := by
  simp [settle, h, Status.settle, Except.map]

theorem settle_settled {earlier : Resolution ν} (h : c.status = .settled earlier) :
    c.settle r = .error (.alreadySettled earlier.word) := by
  simp [settle, h, Status.settle, Except.map]

theorem ask_pending (h : c.status = .pending) :
    c.ask n = ({ c with waiters := c.waiters ++ [n] }, none) := by
  simp [ask, h]

theorem ask_settled (h : c.status = .settled r) : c.ask n = (c, some r) := by
  simp [ask, h]

end Completion

end Transact
