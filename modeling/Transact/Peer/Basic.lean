import Transact.Client.Context
import Transact.Loop.Basic
import Transact.Peer.Broker
import Transact.Presettling

/-! # A client and its peer

A client whose surroundings are a broker in the same process, the loop that carries everything the
broker does, and transacted sessions with their producers and consumers. Every answer of the broker
is a task of the loop, so nothing settles until the loop runs. -/

namespace Transact.Peer

/-! ## State -/

/-- What the surroundings do when one of their completions is resolved.

* `plain`: nothing; it is only looked at.
* `begun`: the session takes up the transaction.
* `ended`: the session moves on to its next transaction, after telling its caller.
* `sent`: the session counts the send as settled, and tells its caller. -/
inductive Waiting where
  | plain
  | begun (session transaction : Nat)
  | ended (session completion : Nat)
  | sent (session completion : Nat)
deriving DecidableEq, Inhabited

/-- Who is told about the events of a link: a link of the client, or an observer by name. -/
inductive Listener where
  | link (l : Nat)
  | observer (name : String)
deriving DecidableEq, Inhabited

/-- The broker's side of a link. -/
structure Endpoint where
  name : String
  listener : Listener
  opened : Bool := false
  closed : Bool := false
deriving DecidableEq, Inhabited

/-- Whether the link is open on the broker's side. -/
def Endpoint.isActive (e : Endpoint) : Bool := e.opened && !e.closed

/-- What waits in the loop: links to be opened, refused or closed, requests to be answered, and
transfers to be taken in. -/
inductive Task where
  | openLink (endpoint : Nat)
  | refuseLink (endpoint : Nat)
  | closeLink (endpoint : Nat) (error : Option Condition)
  | answer (endpoint : Nat) (delivery : Number) (request : Request)
  | transfer (index : Nat) (address body : String) (state : Option DeliveryState)
      (sender : Option (Token Waiting))
deriving Inhabited

/-- **A transacted session:** always in a transaction, beginning the next one as soon as the
previous one has ended. -/
structure Session where
  id : SessionId
  context : Nat
  policy : Presettling := {}
  /-- The number of transactions begun. -/
  sequence : Nat := 0
  current : Option Nat := none
  /-- The completion of the latest begin. -/
  beginning : Option Nat := none
  outstanding : Nat := 0
  failedSend : Option Failure := none
  discharging : Bool := false
  aggregate : Option Nat := none
  producerNumber : Nat := 1
  consumerNumber : Nat := 1
deriving Inhabited

/-- A producer of a session. -/
structure Producer where
  session : Nat
  id : MemberId
  destination : Option Destination := none
deriving Inhabited

/-- A consumer keeps what it received until the transaction ends. -/
structure Consumer where
  session : Nat
  id : MemberId
  destination : Destination
  /-- Received in the transaction, and not yet acknowledged. -/
  received : List Delivery := []
  /-- Acknowledged in the transaction that is being committed. -/
  acknowledged : List Delivery := []
  /-- How many deliveries were consumed by committed transactions. -/
  consumed : Nat := 0
deriving Inhabited

/-- An event that an observer was told. -/
inductive Observed where
  | opened (name : String)
  | closed (name : String) (error : Option Condition)
  | settled (name : String) (delivery : Number) (settlement : Settlement)
deriving DecidableEq, Inhabited

/-- What is outside of the client: the loop, the broker with its links, and the sessions with their
members. -/
structure Outside where
  loop : Loop Task := {}
  broker : Broker := {}
  /-- Whether the broker closes every link instead of opening it. -/
  refusesLinks : Bool := false
  endpoints : Array Endpoint := #[]
  /-- All requests that arrived, in order. -/
  requests : Array Request := #[]
  /-- The number of transfers so far. -/
  transfers : Nat := 0
  sessions : Array Session := #[]
  producers : Array Producer := #[]
  consumers : Array Consumer := #[]
  observed : Array Observed := #[]
deriving Inhabited

/-- A client and its peer. -/
abbrev State := World Outside Waiting

/-- What happens between a client and its peer. -/
abbrev Peering := Act Outside Waiting

/-- What a client finds around it here. -/
abbrev Surroundings := Host Outside Waiting

instance : HasLoop State Task where
  loop w := w.outside.loop
  setLoop l w := { w with outside := { w.outside with loop := l } }

/-- Looks up a session. -/
def sessionAt (s : Nat) : Peering Session := do return (← Act.outside).sessions[s]?.getD default

/-- Changes a session. -/
def modifySession (s : Nat) (f : Session → Session) : Peering Unit :=
  Act.modifyOutside fun o => { o with sessions := o.sessions.modify s f }

/-- Looks up a producer. -/
def producerAt (p : Nat) : Peering Producer := do return (← Act.outside).producers[p]?.getD default

/-- Looks up a consumer. -/
def consumerAt (c : Nat) : Peering Consumer := do return (← Act.outside).consumers[c]?.getD default

/-- Changes a consumer. -/
def modifyConsumer (c : Nat) (f : Consumer → Consumer) : Peering Unit :=
  Act.modifyOutside fun o => { o with consumers := o.consumers.modify c f }

/-- Looks up the broker's side of a link. -/
def endpointAt (e : Nat) : Peering Endpoint := do return (← Act.outside).endpoints[e]?.getD default

/-- Changes the broker's side of a link. -/
def modifyEndpoint (e : Nat) (f : Endpoint → Endpoint) : Peering Unit :=
  Act.modifyOutside fun o => { o with endpoints := o.endpoints.modify e f }

/-- What the broker answers, leaving it as that answer does. -/
def withBroker {α : Type} (f : Broker → α × Broker) : Peering α := modifyGet fun w =>
  let (a, broker) := f w.outside.broker
  (a, { w with outside := { w.outside with broker } })

/-- Does something to the broker. -/
def modifyBroker (f : Broker → Broker) : Peering Unit :=
  Act.modifyOutside fun o => { o with broker := f o.broker }

/-- Asks the broker for something that it may refuse. -/
def askBroker (f : Broker → Except Problem Broker) : Peering Unit := do
  match f (← Act.outside).broker with
  | .error p => Run.refuse p
  | .ok broker => Act.modifyOutside fun o => { o with broker }

/-- Tells the observers of an event. -/
def observe (e : Observed) : Peering Unit :=
  Act.modifyOutside fun o => { o with observed := o.observed.push e }

/-! ## The broker's side of a link -/

/-- Attaches a link; that it opens, or is refused, comes later. -/
def attach (name : String) (listener : Listener) : Peering Nat := do
  let o ← Act.outside
  let e := o.endpoints.size
  Act.modifyOutside fun o => { o with endpoints := o.endpoints.push { name, listener } }
  if o.refusesLinks then Loop.add s!"refuse {name}" (Task.refuseLink e)
  else Loop.add s!"open {name}" (Task.openLink e)
  return e

/-- Takes in a request; the answer comes later. -/
def receive (e : Nat) (delivery : Number) (request : Request) : Peering Unit := do
  let side ← endpointAt e
  Act.modifyOutside fun o => { o with requests := o.requests.push request }
  Loop.add s!"{request.word} {side.name}#{delivery.text}" (Task.answer e delivery request)

/-- Sends a request on a link, if it is active. -/
def send (e : Nat) (delivery : Number) (request : Request) : Peering Unit := do
  let side ← endpointAt e
  if side.isActive then receive e delivery request
  else Run.refuse (.endpointNotOpen side.name)

/-- The client closes a link: its transactions are rolled back. -/
def detach (e : Nat) : Peering Unit := do
  if (← endpointAt e).closed then return
  modifyEndpoint e fun x => { x with closed := true }
  modifyBroker (·.forgetLink e)

/-- The broker opens a link, unless it is closed. -/
def openEndpoint (h : Surroundings) (e : Nat) : Peering Unit := do
  let side ← endpointAt e
  if side.closed then return
  modifyEndpoint e fun x => { x with opened := true }
  match side.listener with
  | .link l => Link.opened h l
  | .observer name => observe (.opened name)

/-- The broker closes a link: its transactions are rolled back before anyone is told. -/
def closeEndpoint (h : Surroundings) (e : Nat) (error : Option Condition) : Peering Unit := do
  let side ← endpointAt e
  if side.closed then return
  modifyEndpoint e fun x => { x with closed := true }
  modifyBroker (·.forgetLink e)
  match side.listener with
  | .link l => Link.closed h l error
  | .observer name => observe (.closed name error)

/-- Why a link is refused. -/
def linkRefused : Condition := ⟨"amqp:not-allowed", some "coordinator unavailable"⟩

/-- Answers a request, unless the link has closed meanwhile. -/
def answer (h : Surroundings) (e : Nat) (delivery : Number) (request : Request) :
    Peering Unit := do
  let side ← endpointAt e
  if !side.isActive then return
  let settlement ← withBroker (·.answer e request)
  match side.listener with
  | .observer name => observe (.settled name delivery settlement)
  | .link l =>
    match delivery.toNat? with
    | none => return
    | some d => Link.settled h l d settlement

/-- Schedules a transfer. Its sender is told once it is taken in. -/
def transfer (address body : String) (state : Option DeliveryState)
    (sender : Option (Token Waiting)) : Peering Unit := do
  let index := (← Act.outside).transfers
  Act.modifyOutside fun o => { o with transfers := index + 1 }
  Loop.add s!"transfer {address}#{index}" (Task.transfer index address body state sender)

/-- Runs one task of the loop. -/
def exec (h : Surroundings) (_label : String) : Task → Peering Unit
  | .openLink e => openEndpoint h e
  | .refuseLink e => closeEndpoint h e (some linkRefused)
  | .closeLink e error => closeEndpoint h e error
  | .answer e delivery request => answer h e delivery request
  | .transfer index address body state sender => do
    let r ← withBroker (·.transfer index address body state)
    match sender with
    | none => return
    | some token => token.resolve h r

/-- Schedules the closing of every link that is active now. -/
def closeAll (error : Option Condition) : Peering Unit := do
  ((← Act.outside).endpoints.toList.zipIdx.filter (·.1.isActive)).forM fun (side, e) =>
    Loop.add s!"close {side.name}" (Task.closeLink e error)

end Transact.Peer
