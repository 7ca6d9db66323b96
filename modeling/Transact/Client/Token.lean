import Transact.Client.Basic

/-! # Resolving tokens

`Token.resolve` tells a token how the thing it waits for ended. It follows the token inwards: what
one step of the protocol settles leads to the next step, or to the completion that the surroundings
hold. -/

namespace Transact

variable {ε κ : Type}

/-! ## Sending a request -/

namespace Link

/-- Sends a request on an open link and keeps the exchange until it is settled. `fail` reports that
the link is not open, or that the endpoint refused the request; it is not called if what the endpoint
has raised cannot be reported. **The exchange is kept before the request is handed over,** so that the
endpoint may settle it at once. -/
def transmit (h : Host ε κ) (l : Nat) (request : Request) (exchange : Exchange κ)
    (fail : Failure → Act ε κ Unit) : Act ε κ Unit := do
  let link ← Act.link l
  match link.state, link.sender with
  | .opened, some sender =>
    let delivery := link.nextDelivery
    Act.modifyLink l fun k => { k with
      nextDelivery := delivery + 1
      pending := k.pending ++ [(delivery, exchange)] }
    match ← Run.attempt (h.send sender delivery request) with
    | .ok () => return
    | .error f =>
      Act.modifyLink l fun k => { k with pending := k.pending.filter (·.1 ≠ delivery) }
      fail ((Problem.transmitFailed request link.name).toFailure (← Run.convert f))
  | state, _ => fail (Problem.linkNotOpen link.name state).toFailure

end Link

/-! ## The state of a context -/

namespace Context

/-- Forgets the transaction. -/
def reset (c : Nat) : Act ε κ Unit :=
  Act.modifyContext c fun x => { x with
    stage := .idle, current := none, accepted := none, enrolled := none }

/-- Takes up a declared transaction, with the delivery states that name it. -/
def bind (c t : Nat) (txnId : TxnId) : Act ε κ Unit :=
  Act.modifyContext c fun x => { x with
    stage := .active
    current := some t
    accepted := some (.acknowledging txnId)
    enrolled := some (.enrolling txnId) }

/-- Calls one hook on the given consumers, in order. One that raises does not stop the others, unless it
is the first to raise and what it raises cannot be reported; the first failure is returned. -/
def notifyEach (h : Host ε κ) (hook : Hook) (failure : Option Failure) :
    List Nat → Act ε κ (Option Failure)
  | [] => return failure
  | consumer :: rest => do
    match ← Run.attempt (h.hook consumer hook) with
    | .ok () => notifyEach h hook failure rest
    | .error f => notifyEach h hook (some (← Run.first failure f)) rest

/-- Calls one hook on the consumers that are enrolled now. -/
def notify (h : Host ε κ) (c : Nat) (hook : Hook) : Act ε κ (Option Failure) := do
  notifyEach h hook none (← Act.context c).registry.consumers.values

/-- The end of a discharge: the transaction is forgotten first, and the enrolment last. -/
def conclude (h : Host ε κ) (c : Nat) (commit : Bool) : Act ε κ Unit := do
  reset c
  discard (notify h c (if commit then .postCommit else .postRollback))
  Act.modifyContext c fun x => { x with registry := {} }

end Context

/-! ## Resolution -/

namespace Token

/-- Tells a token how the thing it waits for ended.

* A discharge ends the transaction, whatever the outcome.
* A declare binds the transaction, if the coordinator named it.
* A link that opened becomes the context's coordinator and carries the declare. -/
def resolve (h : Host ε κ) : Token κ → Resolution Unit → Act ε κ Unit
  | .client id continuation, r => do
    Act.settle id r
    h.resume continuation r
  | .instead id failure request, r => do
    Act.settle id r
    resolve h request (.failed (r.cause?.getD failure))
  | .discharging id c commit request, r => do
    Act.settle id r
    Context.conclude h c commit
    resolve h request r
  | .declaring id c t request, r => do
    Act.settle id r
    match r with
    | .failed f =>
      Context.reset c
      resolve h request (.failed f)
    | .succeeded () =>
      let transaction ← Act.transaction t
      match transaction.hint with
      | none =>
        Context.reset c
        resolve h request (.failed (Problem.declaredWithoutId transaction.id).toFailure)
      | some txnId =>
        Context.bind c t txnId
        resolve h request (.succeeded ())
  | .opening id c t l next request, r => do
    Act.settle id r
    match r with
    | .failed f =>
      Context.reset c
      resolve h request (.failed f)
    | .succeeded () =>
      Act.modifyContext c fun x => { x with coordinator := some l }
      Link.transmit h l .declare ⟨none, t, next⟩ fun f => resolve h next (.failed f)

end Token

end Transact
