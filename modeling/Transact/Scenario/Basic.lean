import Transact.Peer.Session

/-! # The scenario

One transaction of one session: it sends messages to a queue and then commits or rolls back, perhaps
with a fault on the way. The report tells what became of it. -/

namespace Transact.Scenario

/-- What can be chosen about the scenario. -/
structure Options where
  address : String := "orders"
  /-- How many messages are sent: one for each natural number below this one. -/
  sends : Number := .ofNat 3
  /-- The index of a message that the broker rejects. -/
  failSend : Option Number := none
  /-- Whether the link is closed before the transaction ends. -/
  dropLink : Bool := false
  /-- Whether the coordinator rejects the discharge. -/
  rejectDischarge : Bool := false
  rollback : Bool := false
deriving Inhabited

/-- How the scenario may end. -/
inductive Outcome where
  | committed
  | rolledBack
  | failed
deriving DecidableEq, Inhabited

/-- The word for an outcome. -/
def Outcome.word : Outcome → String
  | committed => "committed"
  | rolledBack => "rolled-back"
  | failed => "failed"

/-- What is told of the scenario in the end. -/
structure Report where
  outcome : Outcome
  /-- The messages that can be read from the queue afterwards. -/
  published : List String := []
  /-- For every discharge that the coordinator was sent, whether it was a rollback. -/
  discharges : List Bool := []
  /-- The transaction that the session went on to, if it has begun. -/
  nextTransaction : Option TransactionId := none
  failure : Option Failure := none
deriving Inhabited

/-- The fail flags of the discharges among the requests. -/
def dischargesOf (requests : List Request) : List Bool :=
  requests.filterMap fun
    | .declare => none
    | .discharge _ fail => some fail

/-- How a transaction ended whose completion holds this failure, or none. -/
def outcomeOf (rollback : Bool) : Option Failure → Outcome
  | some f => if f.kind? = some .rolledBack then .rolledBack else .failed
  | none => if rollback then .rolledBack else .committed

open Peer

/-- The failure that a completion holds. -/
def failureOf (completion : Nat) : Peering (Option Failure) := do
  return (← Act.status completion).resolution?.bind (·.cause?)

/-- Runs the loop until nothing is left to do. -/
def settle : Peering Unit := discard (Loop.drain (exec peer) Loop.defaultLimit)

/-- Sends the message of one index, which the broker is told to reject if it is the one to fail. -/
def sendMessage (o : Options) (producer : Nat) (i : Nat) : Peering Unit := do
  if o.failSend = some (.ofNat i) then
    modifyBroker fun b => { b with transfersToFail := b.transfersToFail ++ [.ofNat i] }
  discard (Session.sendFrom producer s!"message-{i + 1}" none)

/-- The natural numbers below a number, counted. -/
def countBelow (n : Number) : Nat := n.value.ceil.toNat

/-- Plays the scenario. -/
def play (o : Options) : Peering Report := do
  let s ← newSession defaultSession {}
  let started ← Session.start peer s
  settle
  match ← failureOf started with
  | some f => return { outcome := .failed, failure := some f }
  | none =>
    let producer ← newProducer s (some { name := o.address })
    (List.range (countBelow o.sends)).forM (sendMessage o producer)
    if o.dropLink then
      closeAll (some ⟨"amqp:connection:forced", none⟩)
      settle
    if o.rejectDischarge then
      modifyBroker fun b => { b with dischargesToReject := b.dischargesToReject + 1 }
    let completed ← Session.finish peer s (if o.rollback then .rollback else .commit)
    settle
    let failure ← failureOf completed
    let next ← match (← sessionAt s).current with
      | none => pure none
      | some t => pure (some (← Act.transaction t).id)
    let outside ← Act.outside
    return {
      outcome := outcomeOf o.rollback failure
      published := outside.broker.queued o.address
      discharges := dischargesOf outside.requests.toList
      nextTransaction := next
      failure }

/-- The report of a scenario, unless there is too much to do for one run of the loop. -/
def run (o : Options) : Except Halt Report := ((play o).observe initial).1

/-- A report as a record: what is absent is left out. -/
def Report.toValue (r : Report) : Value :=
  .record <|
    [("outcome", .text r.outcome.word), ("published", .list (r.published.map .text)),
      ("discharges", .list (r.discharges.map .bool))] ++
    (r.nextTransaction.map fun t => ("nextTransaction", Value.text t.text)).toList ++
    (r.failure.bind fun f => f.kind?.map fun k =>
      ("error", Value.record [("kind", .text k.word), ("message", .text f.message)])).toList

end Transact.Scenario
