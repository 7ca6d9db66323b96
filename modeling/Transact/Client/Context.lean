import Transact.Client.Link

/-! # The transaction context

Transaction control for one session. A transaction is bound while a declared transaction is open,
and forgotten when its discharge completes, whatever the outcome. The coordinator link is built by
the first begin, and built anew by a later one once it has closed. -/

namespace Transact.Context

variable {ε κ : Type}

/-! ## Queries -/

/-- Whether a coordinator link has been there and has closed: a bound transaction is in doubt. -/
def isFailed (c : Nat) : Act ε κ Bool := do
  match (← Act.context c).coordinator with
  | none => return false
  | some l => return (← Act.link l).state = .closed

/-- The name of the bound transaction. -/
def currentId (c : Nat) : Act ε κ (Option TransactionId) := do
  match (← Act.context c).current with
  | none => return none
  | some t => return some (← Act.transaction t).id

/-- The coordinator's name for the bound transaction. -/
def protocolId (c : Nat) : Act ε κ (Option TxnId) := do
  match (← Act.context c).current with
  | none => return none
  | some t => return (← Act.transaction t).hint

/-- How a context is shown. -/
def text (c : Context) : String := s!"{c.session.text}: txContext"

/-! ## Enrolment -/

/-- Enrols a consumer in the current transaction. -/
def enrolConsumer (c : Nat) (id : MemberId) (consumer : Nat) : Act ε κ Unit :=
  Act.modifyContext c fun x => { x with registry := x.registry.enrolConsumer id consumer }

/-- Enrols a producer in the current transaction. -/
def enrolProducer (c : Nat) (id : MemberId) (producer : Nat) : Act ε κ Unit :=
  Act.modifyContext c fun x => { x with registry := x.registry.enrolProducer id producer }

/-! ## Begin -/

/-- The open link of a context, if it has one that has not closed. -/
def usableLink (c : Nat) : Act ε κ (Option Nat) := do
  match (← Act.context c).coordinator with
  | none => return none
  | some l => return if (← Act.link l).state = .closed then none else some l

/-- Begins a transaction: declares it on the link of the context, or on a new link. -/
def begin (h : Host ε κ) (c t : Nat) (request : Token κ) : Act ε κ Unit := do
  let stage := (← Act.context c).stage
  if stage ≠ .idle then
    request.resolve h (.failed (Problem.beginDuring stage).toFailure)
  else
    Act.modifyContext c fun x => { x with stage := .declaring }
    let declared := .declaring (← Act.newCompletion) c t request
    match ← usableLink c with
    | some l => Link.declare h l t declared
    | none =>
      Act.modifyContext c fun x => { x with linksBuilt := x.linksBuilt + 1 }
      let context ← Act.context c
      let l ← Act.newLink s!"{context.session.text}:coordinator:{context.linksBuilt}"
      Link.establish h l (.opening (← Act.newCompletion) c t l declared request)

/-! ## Discharge -/

/-- Hands a discharge to the coordinator link. -/
def handOver (h : Host ε κ) (c t l : Nat) (commit : Bool) (request : Token κ) :
    Act ε κ Unit := do
  Act.modifyContext c fun x => { x with stage := .discharging }
  Link.discharge h l t (.discharging (← Act.newCompletion) c commit request) commit

/-- Ends the bound transaction. **A consumer that fails to prepare for a commit** turns it into a
rollback, which is reported as a failure also if it succeeds. -/
def discharge (h : Host ε κ) (c : Nat) (ending : Ending) (request : Token κ) : Act ε κ Unit := do
  let context ← Act.context c
  match context.current, context.coordinator with
  | some t, some l =>
    match ending with
    | .rollback =>
      discard (notify h c .preRollback)
      handOver h c t l false request
    | .commit =>
      match ← notify h c .preCommit with
      | none => handOver h c t l true request
      | some f =>
        discard (notify h c .preRollback)
        handOver h c t l false (.instead (← Act.newCompletion)
          (Problem.prepareFailed.toFailure f) request)
  | _, _ => request.resolve h (.failed Problem.nothingBound.toFailure)

/-- Ends an in-doubt transaction locally; the coordinator has dropped it already. -/
def abandon (h : Host ε κ) (c : Nat) : Act ε κ Unit := do
  discard (notify h c .preRollback)
  conclude h c false

/-- The answer to a commit or rollback that does not name the bound transaction. One that the caller
knows to be in doubt is gone: it cannot be committed, and need not be rolled back. -/
def answerUnbound (ending : Ending) (inDoubt bound : Bool) : Resolution Unit :=
  if inDoubt then
    match ending with
    | .commit => .failed Problem.lostInDoubt.toFailure
    | .rollback => .succeeded ()
  else if bound then .failed (Problem.otherTransaction ending).toFailure
  else .failed (Problem.nothingToEnd ending).toFailure

/-- Commits or rolls back the transaction that the caller names. -/
def finish (h : Host ε κ) (c : Nat) (ending : Ending) (info : TransactionRef)
    (request : Token κ) : Act ε κ Unit := do
  let named := (← Act.transaction info.transaction).id
  let current ← currentId c
  if current ≠ some named then
    request.resolve h (answerUnbound ending info.inDoubt current.isSome)
  else if (← Act.context c).stage = .discharging then
    request.resolve h (.failed (Problem.endedTwice ending named).toFailure)
  else if ← isFailed c then
    match ending with
    | .rollback =>
      abandon h c
      request.resolve h (.succeeded ())
    | .commit =>
      if info.inDoubt then
        abandon h c
        request.resolve h (.failed Problem.lostInDoubt.toFailure)
      else request.resolve h (.failed (Problem.commitInDoubt named).toFailure)
  else discharge h c ending request

/-! ## Aggregated sends -/

/-- How a transaction ends, by whether it is to commit. -/
def endingFor (commit : Bool) : Ending := if commit then .commit else .rollback

/-- Acts on the decision of an aggregate. A link that closed while sends were outstanding leaves the
transaction in doubt; a failed send turns a commit into a rollback, reported as a failure also if it
succeeds. -/
def decide (h : Host ε κ) (a : Aggregate κ) (decision : Decision) : Act ε κ Unit := do
  let info := { a.info with inDoubt := a.info.inDoubt || (← isFailed a.context) }
  if a.commit && !decision.commit then
    finish h a.context .rollback info (.instead (← Act.newCompletion)
      (Problem.sendFailed.toFailure decision.earliestFailure) a.request)
  else finish h a.context (endingFor decision.commit) info a.request

/-- Ends a transaction once so many outstanding sends are settled, at once if there are none. The
number of the new aggregate is returned. -/
def finishAfter (h : Host ε κ) (c : Nat) (info : TransactionRef) (pending : Number)
    (request : Token κ) (commit : Bool) : Act ε κ Nat := do
  match Aggregation.ofSends pending commit with
  | .error p => Run.refuse p
  | .ok sends =>
    let a ← Act.newAggregate { sends, context := c, info, commit, request }
    if sends.isComplete then finish h c (endingFor commit) info request
    return a

/-- Settles one send of an aggregate. -/
def settleSend (h : Host ε κ) (a : Nat) (failure : Option Failure) : Act ε κ Unit := do
  match (← Act.client).aggregates[a]? with
  | none => return
  | some aggregate =>
    let (sends, result) := aggregate.sends.settle failure
    Act.modifyClient fun x => { x with
      aggregates := x.aggregates.modify a fun entry => { entry with sends } }
    match result with
    | .error p => Run.refuse p
    | .ok none => return
    | .ok (some decision) => decide h aggregate decision

end Transact.Context
