import Transact.Client.Token

/-! # The coordinator link

What a client does with a link, and the events that the endpoint raises on it. A declare and a
discharge are sent as deliveries and answered by their settlement. A closure may come at any time;
it fails whatever is outstanding. -/

namespace Transact.Link

variable {ε κ : Type}

/-! ## Operations -/

/-- Attaches a link. The token is resolved once the remote opens it, or at once if the endpoint raises
what can be reported. -/
def establish (h : Host ε κ) (l : Nat) (request : Token κ) : Act ε κ Unit := do
  let link ← Act.link l
  if link.sender.isSome || link.state ≠ .building then
    request.resolve h (.failed (Problem.alreadyAttached link.name).toFailure)
  else
    Act.modifyLink l fun k => { k with opening := some request }
    match ← Run.attempt (h.attach link.name l) with
    | .ok sender => Act.modifyLink l fun k => { k with sender := some sender }
    | .error f =>
      Act.modifyLink l fun k => { k with opening := none, state := .closed }
      request.resolve h (.failed ((Problem.attachFailed link.name).toFailure (← Run.convert f)))

/-- Asks the coordinator for a new transaction. -/
def declare (h : Host ε κ) (l t : Nat) (request : Token κ) : Act ε κ Unit :=
  transmit h l .declare ⟨none, t, request⟩ fun f => request.resolve h (.failed f)

/-- Asks the coordinator to end a declared transaction. -/
def discharge (h : Host ε κ) (l t : Nat) (request : Token κ) (commit : Bool) : Act ε κ Unit := do
  let transaction ← Act.transaction t
  match transaction.hint with
  | none => request.resolve h (.failed (Problem.notDeclared transaction.id).toFailure)
  | some txnId =>
    transmit h l (.discharge txnId (!commit)) ⟨some commit, t, request⟩ fun f =>
      request.resolve h (.failed f)

/-! ## Closure -/

/-- Fails the exchanges of a link that has closed, in order. -/
def failAll (h : Host ε κ) (cause : Failure) : List (Nat × Exchange κ) → Act ε κ Unit
  | [] => return
  | (_, exchange) :: rest => do
    exchange.request.resolve h (.failed cause)
    failAll h cause rest

/-- Closes a link: first whoever waits for it to open is told, then every outstanding exchange. -/
def shut (h : Host ε κ) (l : Nat) (cause : Failure) : Act ε κ Unit := do
  let opening := (← Act.link l).opening
  Act.modifyLink l fun k => { k with state := .closed, opening := none }
  match opening with
  | none => pure ()
  | some request => request.resolve h (.failed cause)
  let outstanding := (← Act.link l).pending
  Act.modifyLink l fun k => { k with pending := [] }
  failAll h cause outstanding

/-- Closes a link from the client's side. -/
def close (h : Host ε κ) (l : Nat) : Act ε κ Unit := do
  let link ← Act.link l
  if link.state = .closed then return
  match link.sender with
  | none => pure ()
  | some sender => h.detach sender
  shut h l (Problem.closedLocally link.name).toFailure

/-! ## Events -/

/-- The remote opened the link. -/
def opened (h : Host ε κ) (l : Nat) : Act ε κ Unit := do
  let link ← Act.link l
  if link.state ≠ .building then return
  Act.modifyLink l fun k => { k with state := .opened, opening := none }
  match link.opening with
  | none => return
  | some request => request.resolve h (.succeeded ())

/-- The remote closed the link. -/
def closed (h : Host ε κ) (l : Nat) (error : Option Condition) : Act ε κ Unit := do
  let link ← Act.link l
  if link.state = .closed then return
  Act.modifyLink l fun k => { k with closeError := error }
  shut h l (Problem.closedByRemote link.name error).toFailure

/-- How a settlement ends a declare. -/
def declareResolution (tx : TransactionId) : Settlement → Resolution Unit
  | .declared _ => .succeeded ()
  | .rejected error => .failed (Problem.declareRejected tx error).toFailure
  | other => .failed (Problem.unexpectedSettlement other.word "declare" tx).toFailure

/-- How a settlement ends a discharge: a rejected commit is a rollback. -/
def dischargeResolution (tx : TransactionId) (commit : Bool) : Settlement → Resolution Unit
  | .accepted => .succeeded ()
  | .rejected error =>
    if commit then .failed (Problem.commitRejected tx error).toFailure
    else .failed (Problem.rollbackRejected tx error).toFailure
  | other => .failed (Problem.unexpectedSettlement other.word "discharge" tx).toFailure

/-- The remote settled a delivery. A settlement of no outstanding exchange is ignored. -/
def settled (h : Host ε κ) (l delivery : Nat) (settlement : Settlement) : Act ε κ Unit := do
  match (← Act.link l).pending.find? (·.1 = delivery) with
  | none => return
  | some (_, exchange) =>
    Act.modifyLink l fun k => { k with pending := k.pending.filter (·.1 ≠ delivery) }
    let tx := (← Act.transaction exchange.transaction).id
    match exchange.discharge with
    | none =>
      match settlement with
      | .declared txnId => Act.setHint exchange.transaction txnId
      | _ => pure ()
      exchange.request.resolve h (declareResolution tx settlement)
    | some commit => exchange.request.resolve h (dischargeResolution tx commit settlement)

end Transact.Link
