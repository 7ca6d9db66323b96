import Transact.Client.Context

/-! # Scripts

A script is what foreign code does to a client: calls on its links and contexts, and events of an
endpoint that are raised by hand. A request carries the steps that follow once it is resolved, so
that scripts nest; the same steps are also what an enrolled consumer does when one of its hooks is
called.

The length of a script bounds how deep its calls can nest. -/

namespace Transact.Script

/-! ## Steps -/

/-- A call that hands over a completion. -/
inductive Operation where
  | establish (link : Nat)
  | declare (link transaction : Nat)
  | discharge (link transaction : Nat) (commit : Bool)
  | begin (context transaction : Nat)
  | finish (context : Nat) (ending : Ending) (info : TransactionRef)
  | aggregate (context : Nat) (info : TransactionRef) (pending : Number) (commit : Bool)
      (name : String)
deriving Inhabited

/-- A step that hands over no completion. An endpoint's link is named by its number, where none
stands for the one attached last; a delivery by its number, where none stands for the last one. -/
inductive Action where
  | remoteOpen (link : Option Number)
  | remoteClose (link : Option Number) (error : Option Condition)
  | settle (link delivery : Option Number) (settlement : Settlement)
  | attachFails (failure : Option Failure)
  | sendFails (failure : Option Failure)
  | autoSettle (settlement : Option Settlement)
  | setHint (transaction : Nat) (hint : Option TxnId)
  | raise (failure : Failure)
  | close (link : Nat)
  | opened (link : Nat)
  | closed (link : Nat) (error : Option Condition)
  | settled (link : Nat) (delivery : Number) (settlement : Settlement)
  | settleSend (name : String) (failure : Option Failure)
  | enrol (context : Nat) (member : String)
  | isEnrolled (context : Nat) (member : MemberId)
  | closeCoordinator (context : Nat)
deriving Inhabited

/-- One step of a script. -/
inductive Step where
  | action (a : Action)
  | request (operation : Operation) (label : String) (onSuccess onFailure : List Step)
deriving Inhabited

mutual

/-- The number of steps in a step, with those that follow from it. -/
def Step.length : Step → Nat
  | .action _ => 1
  | .request _ _ onSuccess onFailure => 1 + lengthOf onSuccess + lengthOf onFailure

/-- The number of steps in a script, nested ones included. -/
def lengthOf : List Step → Nat
  | [] => 0
  | s :: rest => s.length + lengthOf rest

end

/-- What a scripted completion does when it is resolved. -/
structure Waiter where
  label : String
  onSuccess : List Step := []
  onFailure : List Step := []
deriving Inhabited

/-- What is to be done when a completion is resolved. -/
def Waiter.script (w : Waiter) : Resolution Unit → List Step
  | .succeeded _ => w.onSuccess
  | .failed _ => w.onFailure

/-! ## What is seen -/

/-- What a step returns. -/
inductive Reply where
  | nothing
  /-- What the step is about is not there. -/
  | absent
  | flag (b : Bool)
  | sends (pending : Number) (commit complete : Bool)
deriving DecidableEq, Inhabited

/-- A glance at the link or the context that a script is about. -/
inductive Glance where
  | link (state : LinkState)
  | context (stage : Stage) (current : Option TransactionId)
deriving DecidableEq, Inhabited

/-- What a script sees. -/
inductive Event where
  | attached (link : Nat) (name : String)
  | sent (link delivery : Nat) (request : Request)
  | detached (link : Nat)
  | resolved (label : String) (r : Resolution Unit) (glance : Glance)
  | hooked (label : String) (hook : Hook) (glance : Glance)
  | returned (step : Step) (reply : Reply)
deriving Inhabited

end Transact.Script
