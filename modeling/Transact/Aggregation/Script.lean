import Transact.Aggregation
import Transact.Run

/-! # Scripted aggregations

One aggregation together with the code that takes its decision. That code is foreign: it may settle
further sends of the same aggregation, and it may raise. -/

namespace Transact.Aggregation

/-- Settles one send of the aggregation that a larger state keeps; `decide` is the code that takes the
decision. -/
def settleIn {σ : Type} (read : σ → Aggregation) (write : Aggregation → σ → σ)
    (decide : Decision → Run σ Unit) (failure : Option Failure) : Run σ Unit := do
  let (aggregation, result) := (read (← get)).settle failure
  modify (write aggregation)
  match result with
  | .error p => Run.refuse p
  | .ok none => return
  | .ok (some decision) => decide decision

namespace Script

/-- What can be done with an aggregation, from outside or by the code that takes its decision. -/
inductive Call where
  | succeed
  | fail (f : Failure)
  | raise (f : Failure)
deriving Inhabited

/-- A decision was taken, and found the aggregation complete or not. -/
structure Event where
  decision : Decision
  complete : Bool

/-- An aggregation, and what was seen of it. -/
structure State where
  aggregation : Aggregation
  log : List Event := []

/-- Settles one send; `calls` runs the code that takes the decision. -/
def settle (calls : List Call → Run State Unit) (onDecision : List Call)
    (failure : Option Failure) : Run State Unit :=
  settleIn State.aggregation (fun aggregation s => { s with aggregation })
    (fun decision => do
      modify fun s => { s with log := s.log ++ [⟨decision, s.aggregation.isComplete⟩] }
      calls onDecision) failure

/-- One call, with `depth` levels of decisions below it. -/
def perform (onDecision : List Call) : (depth : Nat) → Call → Run State Unit
  | 0, _ => Run.exhausted
  | _ + 1, .raise f => Run.raise f
  | depth + 1, .succeed =>
    settle (fun script => script.forM (perform onDecision depth)) onDecision none
  | depth + 1, .fail f =>
    settle (fun script => script.forM (perform onDecision depth)) onDecision (some f)

/-- A call from outside: the log starts afresh. Two levels are enough, because a decision is taken
when no send is outstanding any more. -/
def call (onDecision : List Call) (c : Call) (s : State) : Except Halt Unit × State :=
  (perform onDecision 2 c).observe { s with log := [] }

end Script

end Transact.Aggregation
