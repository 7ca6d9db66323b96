import Transact.Peer.Basic

/-! # Transacted sessions

Commit and rollback wait for the outstanding sends of the session; a send that failed turns a
commit into a rollback. Consumers acknowledge what they received as part of the commit, and give it
back when the transaction is rolled back. -/

namespace Transact.Peer

/-! ## Consumers -/

namespace Consumer

/-- Acknowledges deliveries in the given transaction, in order, or releases them outside one. -/
def hand (state : Option DeliveryState) (deliveries : List Delivery) : Peering Unit :=
  deliveries.forM fun d => match state with
    | some s => askBroker (·.acknowledge (.ofNat d.tag) s)
    | none => askBroker (·.release (.ofNat d.tag))

/-- Acknowledges what was received as part of the transaction. -/
def preCommit (c : Nat) : Peering Unit := do
  let state := (← Act.context (← sessionAt (← consumerAt c).session).context).accepted
  hand state (← consumerAt c).received
  modifyConsumer c fun x => { x with
    acknowledged := if state.isSome then x.acknowledged ++ x.received else x.acknowledged
    received := [] }

/-- Counts what was acknowledged as consumed. -/
def postCommit (c : Nat) : Peering Unit :=
  modifyConsumer c fun x => { x with
    consumed := x.consumed + x.acknowledged.length, acknowledged := [] }

/-- Gives back what was received. -/
def preRollback (c : Nat) : Peering Unit := do
  hand none (← consumerAt c).received
  modifyConsumer c fun x => { x with received := [] }

/-- Forgets what was acknowledged; the broker has returned it already. -/
def postRollback (c : Nat) : Peering Unit :=
  modifyConsumer c fun x => { x with acknowledged := [] }

/-- What a consumer does when one of its hooks is called. -/
def hook (c : Nat) : Hook → Peering Unit
  | .preCommit => preCommit c
  | .postCommit => postCommit c
  | .preRollback => preRollback c
  | .postRollback => postRollback c

/-- Receives the next message, which makes the consumer part of the transaction. -/
def receive (c : Nat) : Peering (Option String) := do
  let me ← consumerAt c
  let context := (← sessionAt me.session).context
  if (← Act.context context).stage ≠ .active || (← Context.isFailed context) then
    Run.refuse (.receiveOutside me.id)
  match ← withBroker (·.fetch me.destination.name) with
  | none => return none
  | some d =>
    Context.enrolConsumer context me.id c
    modifyConsumer c fun x => { x with received := x.received ++ [d] }
    return some d.body

end Consumer

namespace Session

/-! ## Transactions -/

/-- A completion that is settled from the start. -/
def settledCompletion (r : Resolution Unit) : Peering Nat := do
  let completion ← Act.newCompletion
  Act.settle completion r
  return completion

/-- A completion that has failed from the start. -/
def refusal (p : Problem) : Peering Nat := settledCompletion (.failed p.toFailure)

/-- Begins the next transaction. -/
def enterNext (h : Surroundings) (s : Nat) : Peering Nat := do
  modifySession s fun x => { x with sequence := x.sequence + 1 }
  let me ← sessionAt s
  let t ← Act.newTransaction ⟨me.id, .ofNat me.sequence⟩
  let begun ← Act.newCompletion
  modifySession s fun x => { x with beginning := some begun }
  Context.begin h me.context t (.client begun (.begun s t))
  return begun

/-- Begins the first transaction, or tries again after a begin that failed. -/
def start (h : Surroundings) (s : Nat) : Peering Nat := do
  let me ← sessionAt s
  let beginning ← match me.beginning with
    | none => pure false
    | some completion => pure !(← Act.status completion).isSettled
  if me.current.isSome || beginning then refusal (.sessionStarted me.id)
  else enterNext h s

/-- A transaction has ended: the caller is told, and the next one begins. -/
def moveOn (h : Surroundings) (s completion : Nat) (r : Resolution Unit) : Peering Unit := do
  modifySession s fun x => { x with
    discharging := false, aggregate := none, failedSend := none, current := none }
  Act.settle completion r
  discard (enterNext h s)

/-- Ends the current transaction once all its sends are settled. A send that has failed already
counts as one more, which fails. -/
def finish (h : Surroundings) (s : Nat) (ending : Ending) : Peering Nat := do
  let me ← sessionAt s
  match me.current, me.discharging with
  | some t, false =>
    let completion ← Act.newCompletion
    modifySession s fun x => { x with discharging := true }
    let info := { transaction := t, inDoubt := ← Context.isFailed me.context }
    let pending := me.outstanding + if me.failedSend.isSome then 1 else 0
    let outcome := .client (← Act.newCompletion) (.ended s completion)
    let a ← Context.finishAfter h me.context info (.ofNat pending) outcome (ending = .commit)
    modifySession s fun x => if x.discharging then { x with aggregate := some a } else x
    if me.failedSend.isSome then Context.settleSend h a me.failedSend
    return completion
  | _, true => refusal (.endDuringDischarge ending)
  | none, false => refusal (.nothingToEnd ending)

/-! ## Sends -/

/-- A send was settled: the aggregate is told, or a failure is kept until there is one. -/
def countSettled (h : Surroundings) (s : Nat) (failure : Option Failure) : Peering Unit := do
  modifySession s fun x => { x with outstanding := x.outstanding - 1 }
  match (← sessionAt s).aggregate with
  | some a => Context.settleSend h a failure
  | none => modifySession s fun x => { x with failedSend := x.failedSend <|> failure }

/-- Sends a message from a producer of the session, as part of the transaction. -/
def send (s p : Nat) (destination : Destination) (body : String) : Peering Nat := do
  let me ← sessionAt s
  if me.discharging then refusal .sendDuringDischarge
  else if ← Context.isFailed me.context then refusal .sendInDoubt
  else match (← Act.context me.context).enrolled with
    | none => refusal .sendOutside
    | some state =>
      Context.enrolProducer me.context (← producerAt p).id p
      if me.policy.forProducer (some destination) true then
        transfer destination.name body (some state) none
        settledCompletion (.succeeded ())
      else
        let completion ← Act.newCompletion
        modifySession s fun x => { x with outstanding := x.outstanding + 1 }
        let sent := .client (← Act.newCompletion) (.sent s completion)
        transfer destination.name body (some state) (some sent)
        return completion

/-- Sends a message to the destination of a producer, unless another one is named. -/
def sendFrom (p : Nat) (body : String) (destination : Option Destination) : Peering Nat := do
  let me ← producerAt p
  match destination <|> me.destination with
  | none => refusal (.noDestination me.id)
  | some d => send me.session p d body

end Session

/-! ## Surroundings -/

/-- What a session does when one of its completions is resolved. -/
def resume (inner : Surroundings) : Waiting → Resolution Unit → Peering Unit
  | .plain, _ => return
  | .begun s t, .succeeded () => modifySession s fun x => { x with current := some t }
  | .begun _ _, .failed _ => return
  | .ended s completion, r => Session.moveOn inner s completion r
  | .sent s completion, r => do
    Session.countSettled inner s r.cause?
    Act.settle completion r

/-- The surroundings of the client, with leave to nest so many continuations. -/
def surroundings : (depth : Nat) → Surroundings
  | 0 => {
    attach := fun _ _ => Run.exhausted
    send := fun _ _ _ => Run.exhausted
    detach := fun _ => Run.exhausted
    hook := fun _ _ => Run.exhausted
    resume := fun _ _ => Run.exhausted }
  | depth + 1 => {
    attach := fun name l => attach name (.link l)
    send := fun e delivery request => send e (.ofIndex delivery) request
    detach := detach
    hook := Consumer.hook
    resume := resume (surroundings depth) }

/-- Three levels of continuations are enough: a settled send may end a transaction, the end begins
the next one, and a begin may fail at once, which leads no further. -/
def peer : Surroundings := surroundings 3

/-! ## Setting up -/

/-- Makes a session, with a context of its own. -/
def newSession (id : SessionId) (policy : Presettling) : Peering Nat := do
  let context ← Act.newContext id
  modifyGet fun w => (w.outside.sessions.size, { w with
    outside := { w.outside with sessions := w.outside.sessions.push { id, context, policy } } })

/-- The name of a session that is given none. -/
def defaultSession : SessionId := ⟨"loopback", .ofNat 1⟩

/-- Makes a producer of a session. -/
def newProducer (s : Nat) (destination : Option Destination) : Peering Nat := do
  let me ← sessionAt s
  modifySession s fun x => { x with producerNumber := x.producerNumber + 1 }
  modifyGet fun w => (w.outside.producers.size, { w with
    outside := { w.outside with
      producers := w.outside.producers.push
        { session := s, id := ⟨.producer, me.id, .ofNat me.producerNumber⟩, destination } } })

/-- Makes a consumer of a session. -/
def newConsumer (s : Nat) (destination : Destination) : Peering Nat := do
  let me ← sessionAt s
  modifySession s fun x => { x with consumerNumber := x.consumerNumber + 1 }
  modifyGet fun w => (w.outside.consumers.size, { w with
    outside := { w.outside with
      consumers := w.outside.consumers.push
        { session := s, id := ⟨.consumer, me.id, .ofNat me.consumerNumber⟩, destination } } })

/-- A client and a peer that know nothing of each other yet. -/
def initial (refusesLinks : Bool := false) : State := { outside := { refusesLinks } }

end Transact.Peer
