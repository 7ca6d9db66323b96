import Transact.Peer.Session

/-! # The bench

A client and its peer under test: commands that name sessions by number and everything else by
label, and views of what each command has left behind. Completions are kept until they are resolved
and reported once. -/

namespace Transact.Peer

/-! ## Commands -/

/-- What can be asked of the bench. A completion is kept under the label that its command gives. -/
inductive Command where
  | start (session : Nat) (label : String)
  | finish (session : Nat) (ending : Ending) (label : String)
  | newProducer (session : Nat) (name : String) (destination : Option Destination)
  | newConsumer (session : Nat) (name : String) (destination : Destination)
  | send (producer body : String) (destination : Option Destination) (label : String)
  | receive (consumer : String)
  | inTransaction (session : Nat) (member : String)
  | isTransacted (session : Nat)
  | hook (consumer : String) (hook : Hook)
  | run
  | drain (limit : Option Number)
  | closeAll (error : Option Condition)
  | rejectDeclare
  | rejectDischarge
  | rejectTransfer (index : Number)
  | transfer (address body : String) (txnId : Option TxnId) (label : Option String)
  | fetch (address : String)
  | acknowledge (tag : Number) (txnId : TxnId) (accepted : Bool)
  | release (tag : Number)
  | newLink (name text : String)
  | establish (link label : String)
  | declare (link transaction label : String)
  | discharge (link transaction : String) (commit : Bool) (label : String)
  | close (link : String)
  | setHint (transaction : String) (hint : Option TxnId)
  | attach (observer text : String)
  | rawSend (observer : String) (delivery : Number) (request : Request)
  | rawDetach (observer : String)
  | rawOpen (observer : String)
  | rawClose (observer : String) (error : Option Condition)
  | rawIsActive (observer : String)
  | contextBegin (session : Nat) (transaction label : String)
  | contextFinish (session : Nat) (ending : Ending) (transaction : Option String)
      (inDoubt : Bool) (label : String)
deriving Inhabited

/-- What a command returns. -/
inductive Reply where
  | nothing
  /-- What the command is about is not there. -/
  | absent
  | flag (b : Bool)
  | count (n : Nat)
  | text (s : String)
  | delivery (d : Delivery)
deriving DecidableEq, Inhabited

/-! ## State -/

/-- The bench: the world, and what its labels stand for. -/
structure Bench where
  world : State
  transactions : Roll String Nat := {}
  producers : Roll String Nat := {}
  consumers : Roll String Nat := {}
  links : Roll String Nat := {}
  /-- All links made here, in order. -/
  linkList : Array Nat := #[]
  observers : Roll String Nat := {}
  /-- The completions not reported yet, in the order in which they came. -/
  kept : List (String × Nat) := []

namespace Bench

/-- What is done at the bench. -/
abbrev Work := Run Bench

/-- Does something in the world of the bench. -/
def inWorld {α : Type} (x : Peering α) : Work α := fun b =>
  match x b.world with
  | .ok a world => .ok a { b with world }
  | .error halt world => .error halt { b with world }

/-- Keeps a completion under a label until it is reported. -/
def keep (label : String) (completion : Nat) : Work Unit :=
  modify fun b => { b with kept := b.kept ++ [(label, completion)] }

/-- A new completion that is kept, with the token for it. -/
def newToken (label : String) : Work (Token Waiting) := do
  let completion ← inWorld Act.newCompletion
  keep label completion
  return .client completion .plain

/-- Goes on with what a label stands for, if it stands for anything. -/
def named (roll : Bench → Roll String Nat) (label : String) (go : Nat → Work Reply) :
    Work Reply := do
  match (roll (← get)).get? label with
  | none => return .absent
  | some n => go n

/-- Does something in the world that returns nothing. -/
def does (x : Peering Unit) : Work Reply := do
  inWorld x
  return .nothing

/-! ## Carrying out commands -/

/-- Whether the producer or consumer of this label is enrolled in the context of a session. -/
def isEnrolled (s : Nat) (member : String) : Work Reply := do
  let b ← get
  let id := match b.consumers.get? member, b.producers.get? member with
    | some c, _ => b.world.outside.consumers[c]?.map (·.id)
    | none, some p => b.world.outside.producers[p]?.map (·.id)
    | none, none => none
  match id with
  | none => return .absent
  | some id =>
    let context ← inWorld do Act.context (← sessionAt s).context
    return .flag (context.registry.has id)

/-- Ends a transaction straight on the context of a session: the named one, or the session's own. -/
def finishContext (s : Nat) (ending : Ending) (transaction : Option String) (inDoubt : Bool)
    (label : String) : Work Reply := do
  let me ← inWorld (sessionAt s)
  let names := (← get).transactions
  let t := match transaction with
    | some name => names.get? name
    | none => me.current
  match t with
  | none => return .absent
  | some t =>
    let token ← newToken label
    does (Context.finish peer me.context ending ⟨t, inDoubt⟩ token)

/-- Carries out a command. -/
def perform : Command → Work Reply
  | .start s label => do
    keep label (← inWorld (Session.start peer s))
    return .nothing
  | .finish s ending label => do
    keep label (← inWorld (Session.finish peer s ending))
    return .nothing
  | .newProducer s name destination => do
    let p ← inWorld (Peer.newProducer s destination)
    modify fun b => { b with producers := b.producers.put name p }
    return .text (← inWorld (producerAt p)).id.text
  | .newConsumer s name destination => do
    let c ← inWorld (Peer.newConsumer s destination)
    modify fun b => { b with consumers := b.consumers.put name c }
    return .text (← inWorld (consumerAt c)).id.text
  | .send name body destination label => named producers name fun p => do
    keep label (← inWorld (Session.sendFrom p body destination))
    return .nothing
  | .receive name => named consumers name fun c => do
    match ← inWorld (Consumer.receive c) with
    | none => return .nothing
    | some body => return .text body
  | .inTransaction s member => isEnrolled s member
  | .isTransacted _ => return .flag true
  | .hook name hook => named consumers name fun c => does (Consumer.hook c hook)
  | .run => do return .flag (← inWorld (Loop.runOne (exec peer)))
  | .drain limit => do
    return .count (← inWorld (Loop.drain (exec peer) (limit.getD Loop.defaultLimit)))
  | .closeAll error => does (Peer.closeAll error)
  | .rejectDeclare => does <| modifyBroker fun b =>
    { b with declaresToReject := b.declaresToReject + 1 }
  | .rejectDischarge => does <| modifyBroker fun b =>
    { b with dischargesToReject := b.dischargesToReject + 1 }
  | .rejectTransfer index => does <| modifyBroker fun b =>
    { b with transfersToFail := b.transfersToFail ++ [index] }
  | .transfer address body txnId label => do
    let sender ← match label with
      | none => pure none
      | some label => pure (some (← newToken label))
    does (Peer.transfer address body (txnId.map .enrolling) sender)
  | .fetch address => do
    match ← inWorld (withBroker (·.fetch address)) with
    | none => return .nothing
    | some d => return .delivery d
  | .acknowledge tag txnId accepted =>
    let state := if accepted then DeliveryState.acknowledging txnId else .enrolling txnId
    does (askBroker (·.acknowledge tag state))
  | .release tag => does (askBroker (·.release tag))
  | .newLink name text => do
    let l ← inWorld (Act.newLink text)
    modify fun b => { b with links := b.links.put name l, linkList := b.linkList.push l }
    return .nothing
  | .establish name label => named links name fun l => do
    does (Link.establish peer l (← newToken label))
  | .declare name transaction label => named links name fun l =>
    named transactions transaction fun t => do
      does (Link.declare peer l t (← newToken label))
  | .discharge name transaction commit label => named links name fun l =>
    named transactions transaction fun t => do
      does (Link.discharge peer l t (← newToken label) commit)
  | .close name => named links name fun l => does (Link.close peer l)
  | .setHint transaction hint => named transactions transaction fun t =>
    does (Act.setHint t hint)
  | .attach name text => do
    let e ← inWorld (Peer.attach text (.observer name))
    modify fun b => { b with observers := b.observers.put name e }
    return .nothing
  | .rawSend name delivery request => named observers name fun e =>
    does (Peer.send e delivery request)
  | .rawDetach name => named observers name fun e => does (detach e)
  | .rawOpen name => named observers name fun e => does (openEndpoint peer e)
  | .rawClose name error => named observers name fun e => does (closeEndpoint peer e error)
  | .rawIsActive name => named observers name fun e => do
    return .flag (← inWorld (endpointAt e)).isActive
  | .contextBegin s transaction label => named transactions transaction fun t => do
    let me ← inWorld (sessionAt s)
    does (Context.begin peer me.context t (← newToken label))
  | .contextFinish s ending transaction inDoubt label =>
    finishContext s ending transaction inDoubt label

/-- A command from outside. What observers are told, and which requests arrive, is noted afresh. -/
def command (c : Command) (b : Bench) : Except Halt Reply × Bench :=
  (perform c).observe { b with world := { b.world with
    outside := { b.world.outside with observed := #[], requests := #[] } } }

/-- Takes out the completions that are resolved by now, with how they ended. -/
def takeResolved (b : Bench) : List (String × Resolution Unit) × Bench :=
  let resolution (entry : String × Nat) : Option (Resolution Unit) :=
    b.world.client.completions[entry.2]?.bind (·.resolution?)
  (b.kept.filterMap fun entry => (resolution entry).map ((entry.1, ·)),
    { b with kept := b.kept.filter fun entry => (resolution entry).isNone })

/-- The answer to a command, with the completions that are resolved by then. -/
structure Answer where
  reply : Except Halt Reply
  resolved : List (String × Resolution Unit)

/-- Carries out a command from outside and reports the completions that were resolved. -/
def turn (c : Command) (b : Bench) : Answer × Bench :=
  let (reply, b) := b.command c
  let (resolved, b) := b.takeResolved
  ({ reply, resolved }, b)

/-! ## Setting up -/

/-- A bench with these sessions and these transactions. -/
def build (refusesLinks : Bool) (sessions : List (SessionId × Presettling))
    (transactions : List (String × TransactionId)) : Work Unit := do
  sessions.forM fun (id, policy) => discard (inWorld (newSession id policy))
  transactions.forM fun (label, id) => do
    let t ← inWorld (Act.newTransaction id)
    modify fun b => { b with transactions := b.transactions.put label t }
  modify fun b => { b with world := { b.world with
    outside := { b.world.outside with refusesLinks } } }

/-- A bench with these sessions. -/
def ofSessions (refusesLinks : Bool) (sessions : List (SessionId × Presettling))
    (transactions : List (String × TransactionId)) : Bench :=
  ((build refusesLinks sessions transactions).observe { world := initial }).2

end Bench

/-! ## Views -/

/-- What can be seen of a session. -/
structure SessionView where
  stage : Stage
  /-- The transaction bound in the context. -/
  bound : Option TransactionId
  /-- The transaction that the session is in. -/
  current : Option TransactionId
  protocolId : Option TxnId
  failed : Bool
  /-- The status of the latest begin. -/
  ready : Option String
  coordinator : Option String
deriving DecidableEq, Inhabited

/-- The name of a transaction, if there is one. -/
def transactionName (t : Option Nat) : Peering (Option TransactionId) := do
  match t with
  | none => return none
  | some t => return some (← Act.transaction t).id

/-- What can be seen of a session. -/
def viewSession (s : Nat) : Peering SessionView := do
  let me ← sessionAt s
  let context ← Act.context me.context
  let ready ← match me.beginning with
    | none => pure none
    | some completion => pure (some (← Act.status completion).word)
  let coordinator ← match context.coordinator with
    | none => pure none
    | some l => pure (some (← Act.link l).name)
  return {
    stage := context.stage
    bound := ← Context.currentId me.context
    current := ← transactionName me.current
    protocolId := ← Context.protocolId me.context
    failed := ← Context.isFailed me.context
    ready
    coordinator }

end Transact.Peer
