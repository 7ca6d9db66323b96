import Transact.Completion.Basic
import Transact.Run

/-! # Scripted completions

One completion together with the handlers that were given to it and the calls that are made on it.
A handler is foreign code: it may make calls on the completion that it serves, and it may raise. The
promises handed out by `ask` are settled after everything else that a call does. -/

namespace Transact.Completion

section
variable {σ ν : Type} (read : σ → Completion ν) (write : Completion ν → σ → σ)
  (tell : Resolution ν → Nat → Run σ Unit)

/-- Settles the completion that a larger state keeps. **Those who wait are told first,** in the order in
which they asked; then the handler is called, if there is one. -/
def resolveIn (handler : Resolution ν → Option (Run σ Unit)) (r : Resolution ν) : Run σ Unit := do
  match (read (← get)).settle r with
  | .error p => Run.refuse p
  | .ok (completion, waiters) =>
    modify (write completion)
    waiters.forM (tell r)
    match handler r with
    | none => return
    | some code => code

/-- Asks the completion that a larger state keeps for its outcome. -/
def askIn (n : Nat) : Run σ Unit := do
  let (completion, outcome) := (read (← get)).ask n
  modify (write completion)
  match outcome with
  | none => return
  | some r => tell r n

end

namespace Script

/-- What can be done with a completion, from outside or from one of its handlers. -/
inductive Call where
  | succeed (v : Value)
  | fail (cause : Failure)
  | ask
  | raise (f : Failure)
deriving Inhabited

/-- The handlers of a completion; each makes its calls in order until one of them raises. -/
structure Handlers where
  onSuccess : Option (List Call) := none
  onFailure : Option (List Call) := none

/-- The calls of the handler for this outcome, if there is one. -/
def Handlers.for (h : Handlers) : Resolution Value → Option (List Call)
  | .succeeded _ => h.onSuccess
  | .failed _ => h.onFailure

/-- What a script sees. -/
inductive Event where
  /-- A handler was called with this resolution, and found the completion in this status. -/
  | handled (r : Resolution Value) (status : String)
  /-- The promise of this number was settled. -/
  | kept (promise : Nat) (r : Resolution Value)

/-- A completion, and what was seen of it. -/
structure State where
  completion : Completion Value := {}
  /-- How many promises were handed out. -/
  promises : Nat := 0
  /-- Promises that are settled at the end of the present call. -/
  due : List (Nat × Resolution Value) := []
  log : List Event := []

/-- A promise falls due. -/
def promise (r : Resolution Value) (n : Nat) : Run State Unit :=
  modify fun s => { s with due := s.due ++ [(n, r)] }

/-- Settles the completion; `calls` runs the code of its handlers. -/
def resolve (calls : List Call → Run State Unit) (handlers : Handlers) (r : Resolution Value) :
    Run State Unit :=
  resolveIn State.completion (fun completion s => { s with completion }) promise
    (fun r => (handlers.for r).map fun script => do
      modify fun s => { s with log := s.log ++ [.handled r s.completion.status.word] }
      calls script) r

/-- Hands out a promise, which falls due at once if the outcome is already there. -/
def ask : Run State Nat := do
  let n := (← get).promises
  modify fun s => { s with promises := n + 1 }
  askIn State.completion (fun completion s => { s with completion }) promise n
  return n

/-- One call, with `depth` levels of handlers below it. -/
def perform (handlers : Handlers) : (depth : Nat) → Call → Run State (Option Nat)
  | 0, _ => Run.exhausted
  | _ + 1, .raise f => Run.raise f
  | _ + 1, .ask => do return some (← ask)
  | depth + 1, .succeed v => do
    resolve (fun script => script.forM fun c => discard (perform handlers depth c)) handlers
      (.succeeded v)
    return none
  | depth + 1, .fail f => do
    resolve (fun script => script.forM fun c => discard (perform handlers depth c)) handlers
      (.failed f)
    return none

/-- A call from outside: the log starts afresh, and promises that fell due are settled last. Two
levels are enough, because a handler that is called finds the completion settled. -/
def call (handlers : Handlers) (c : Call) (s : State) : Except Halt (Option Nat) × State :=
  let (result, s) := (perform handlers 2 c).observe { s with log := [] }
  (result, { s with due := [], log := s.log ++ s.due.map fun (n, r) => .kept n r })

end Script

end Transact.Completion
