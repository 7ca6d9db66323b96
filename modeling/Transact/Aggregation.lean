import Transact.Number.Basic
import Transact.Problem

/-! # Aggregated sends

An aggregation counts down the outstanding sends of a transaction. Each send settles it once; a
failed send turns the intent to commit into a rollback, and the earliest failure is remembered. When
the last send is settled, the aggregation hands over its decision. -/

namespace Transact

/-- What is to be done once all sends are settled, and the earliest failure among them. -/
structure Decision where
  commit : Bool
  earliestFailure : Option Failure

/-- The sends that an outcome waits for, and what they have come to so far. -/
structure Aggregation where
  /-- How many sends are still outstanding. -/
  pending : Number
  /-- Whether the transaction is still meant to commit. -/
  commit : Bool
  earliestFailure : Option Failure := none

namespace Aggregation

/-- An aggregation of so many sends; only a natural number will do. -/
def ofSends (pending : Number) (commit : Bool) : Except Problem Aggregation :=
  if !pending.isInteger || pending.isNegative then .error (.sendCount pending)
  else .ok { pending, commit }

/-- Whether every send was settled. -/
def isComplete (a : Aggregation) : Bool := a.pending = .ofNat 0

/-- Takes note of how one send ended. -/
def note (failure : Option Failure) (a : Aggregation) : Aggregation :=
  match failure with
  | none => a
  | some f =>
    let known := a.earliestFailure.any (!·.isAbsent)
    { a with commit := false, earliestFailure := if known then a.earliestFailure else some f }

/-- Settles one send. **The note comes first:** also a send that is one too many leaves its trace
before it is refused. The decision is there when no send is outstanding any more. -/
def settle (failure : Option Failure) (a : Aggregation) :
    Aggregation × Except Problem (Option Decision) :=
  let a := a.note failure
  if a.isComplete then (a, .error .sendsSettled)
  else
    let a := { a with pending := a.pending.pred }
    (a, .ok (if a.isComplete then some ⟨a.commit, a.earliestFailure⟩ else none))

end Aggregation

end Transact
