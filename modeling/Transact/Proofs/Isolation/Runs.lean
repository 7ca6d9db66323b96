import Transact.Proofs.Peer.Tables

/-! # Sessions that share a peer

Several sessions share one loop and one broker. `Event` is what happens: a session is made, a session
is called, or the loop runs its oldest task. Whoever made a session has its producers, consumers and
links in hand and names them by their place there, and the only fault is that it closes one of these
links. `Venue` is the state of such a run. It also notes for each task that waits which session caused
it; what a task schedules is caused by the session that caused the task.

* `alone`: what is left of a run when everything is deleted that the other sessions did or caused.
* `views`: what the owner of a session sees after each step of its own.
* `Apart`, `Roomy`: no queue is used by two sessions, and names and tags have not run out. -/

namespace Transact.Peer.Isolation

/-! ### What happens -/

/-- What a session is asked for. -/
inductive Call where
  | newProducer (destination : Option Destination)
  | newConsumer (destination : Destination)
  | start
  | send (producer : Nat) (body : String) (destination : Option Destination)
  | receive (consumer : Nat)
  | finish (ending : Ending)
  | closeLink (link : Nat)
deriving DecidableEq

/-- The queues that a call names. -/
def Call.addresses : Call → List String
  | newProducer destination | send _ _ destination => (destination.map (·.name)).toList
  | newConsumer destination => [destination.name]
  | _ => []

/-- What happens next in a shared run. -/
inductive Event where
  | newSession (id : SessionId) (policy : Presettling)
  | call (session : Nat) (call : Call)
  | runOne

/-- What the owner of a session has in hand. -/
structure Held where
  /-- The session, once it was made. -/
  session : Option Nat := none
  producers : List Nat := []
  consumers : List Nat := []
  /-- The links of the session, also those that were closed or never opened. -/
  links : List Nat := []
  /-- The completions that calls have returned. -/
  completions : List Nat := []
deriving Inhabited

/-- Takes a completion in hand. -/
def Held.await (held : Held) (completion : Nat) : Held :=
  { held with completions := held.completions ++ [completion] }

/-- Carries out a call. What is in hand afterwards is returned, with the body that was received. -/
def Call.perform (s : Nat) (held : Held) : Call → Peering (Held × Option String)
  | newProducer destination => do
    let p ← Peer.newProducer s destination
    return ({ held with producers := held.producers ++ [p] }, none)
  | newConsumer destination => do
    let c ← Peer.newConsumer s destination
    return ({ held with consumers := held.consumers ++ [c] }, none)
  | start => do return (held.await (← Session.start peer s), none)
  | send producer body destination => do
    match held.producers[producer]? with
    | none => return (held, none)
    | some p => return (held.await (← Session.sendFrom p body destination), none)
  | receive consumer => do
    match held.consumers[consumer]? with
    | none => return (held, none)
    | some c => return (held, ← Consumer.receive c)
  | finish ending => do return (held.await (← Session.finish peer s ending), none)
  | closeLink link => do
    match held.links[link]? with
    | none => return (held, none)
    | some l =>
      Link.close peer l
      return (held, none)

/-- The call of an owner, who may have no session yet. -/
def Held.call (held : Held) (call : Call) : Peering (Held × Option String) :=
  match held.session with
  | none => return (held, none)
  | some s => call.perform s held

/-! ### The state of a run -/

/-- The client and its peer, with what is known of who does what. -/
structure Venue where
  world : State := initial
  /-- For each task that waits, the session that caused it. -/
  causes : List Nat := []
  /-- For each session what its owner has in hand. -/
  held : List Held := []

/-- How a call, or a task of the loop, has ended. -/
inductive Reply where
  | returned (body : Option String)
  | raised (kind : Option FailureKind)
  | exhausted
deriving DecidableEq

/-- How a computation has ended. -/
def Reply.of : Except Halt (Option String) → Reply
  | .ok body => returned body
  | .error (.raised f) => raised f.kind?
  | .error .exhausted => exhausted

namespace Venue

/-- What the owner of a session has in hand. -/
def hand (V : Venue) (s : Nat) : Held := V.held.getD s default

/-- A session does something, while tasks with these causes wait on. Its owner takes the new links in
hand, and the new tasks are noted as caused by it. -/
def act (V : Venue) (s : Nat) (waiting : List Nat) (x : Held → Peering (Held × Option String)) :
    Reply × Venue :=
  let (result, world) := (x (V.hand s)).observe V.world
  let held := (result.map (·.1)).toOption.getD (V.hand s)
  let links := List.range' V.world.client.links.size
    (world.client.links.size - V.world.client.links.size)
  (.of (result.map (·.2)), {
    world
    causes := waiting ++ List.replicate ((tasks world).length - waiting.length) s
    held := V.held.set s { held with links := held.links ++ links } })

/-- Lets one event happen. -/
def step (V : Venue) : Event → Reply × Venue
  | .newSession id policy =>
    { V with held := V.held ++ [default] }.act V.held.length V.causes fun _ => do
      return ({ session := ← Peer.newSession id policy }, none)
  | .call s call => V.act s V.causes fun held => held.call call
  | .runOne =>
    match V.causes with
    | [] => (.returned none, V)
    | s :: rest => V.act s rest fun held => do
      discard (Loop.runOne (exec peer))
      return (held, none)

/-- The states in which the events of a run find things. -/
def course (V : Venue) : List Event → List Venue
  | [] => []
  | e :: rest => V :: (V.step e).2.course rest

/-! ### One session of many -/

/-- The session of which an event is a step. -/
def doer? (V : Venue) : Event → Option Nat
  | .newSession .. => some V.held.length
  | .call s _ => some s
  | .runOne => V.causes.head?

end Venue

/-- The same event, of the only session there is. -/
def Event.single : Event → Event
  | .call _ c => .call 0 c
  | e => e

/-- What is left of a run without the steps of all other sessions. -/
def alone (s : Nat) : List Event → Venue → List Event
  | [], _ => []
  | e :: rest, V =>
    if V.doer? e = some s then e.single :: alone s rest (V.step e).2
    else alone s rest (V.step e).2

/-! ### What is seen -/

/-- What is known of a completion: of a failure the kind. -/
inductive Verdict where
  | pending
  | succeeded
  | failed (kind : Option FailureKind)
deriving DecidableEq

/-- What shows of a completion. -/
def Verdict.of : Status Unit → Verdict
  | .pending => pending
  | .settled (.succeeded ()) => succeeded
  | .settled (.failed f) => failed f.kind?

/-- What the owner of a session sees: the reply to its latest step, the completions that it was given
and the one of the latest begin, and what is in some queues. -/
structure View where
  reply : Reply
  completions : List (Option Verdict)
  ready : Option Verdict
  queues : List (List String)
deriving DecidableEq

/-- What shows of the completion of this number. -/
def Venue.verdict (V : Venue) (completion : Nat) : Option Verdict :=
  V.world.client.completions[completion]?.map .of

/-- What the owner of a session sees after this reply. -/
def Venue.view (V : Venue) (s : Nat) (addresses : List String) (reply : Reply) : View where
  reply
  completions := (V.hand s).completions.map V.verdict
  ready := (V.hand s).session.bind fun n => (V.world.outside.session n).beginning.bind V.verdict
  queues := addresses.map V.world.outside.broker.queued

/-- What the owner of a session sees after each of its steps. -/
def views (s : Nat) (addresses : List String) : List Event → Venue → List View
  | [], _ => []
  | e :: rest, V =>
    let (reply, next) := V.step e
    if V.doer? e = some s then next.view s addresses reply :: views s addresses rest next
    else views s addresses rest next

/-! ### Queues of their own -/

/-- The queues that an event names, each with the session that names it. -/
def Event.uses : Event → List (Nat × String)
  | .call s c => c.addresses.map fun address => (s, address)
  | _ => []

/-- A session names this queue at some time. -/
def Uses (events : List Event) (s : Nat) (address : String) : Prop :=
  (s, address) ∈ events.flatMap Event.uses

/-- No two sessions name the same queue. -/
def Apart (events : List Event) : Prop :=
  ∀ u ∈ events.flatMap Event.uses, ∀ v ∈ events.flatMap Event.uses, u.2 = v.2 → u.1 = v.1

instance {events : List Event} {s : Nat} {address : String} : Decidable (Uses events s address) :=
  inferInstanceAs (Decidable (_ ∈ _))

instance {events : List Event} : Decidable (Apart events) :=
  inferInstanceAs (Decidable (∀ _ ∈ _, _))

/-- Names and tags have not run out. Fewer than `2 ^ 32` transactions were declared; their counter
starts at one, and after four bytes the names come again. Tags are numbers, which count exactly only
up to `countLimit`: beyond it two deliveries may have the same one. -/
structure Roomy (w : State) : Prop where
  names : w.outside.broker.txnCounter ≤ 0x100000000
  tags : w.outside.broker.tagCounter ≤ Number.countLimit

instance {w : State} : Decidable (Roomy w) :=
  decidable_of_iff (_ ∧ _) ⟨fun h => ⟨h.1, h.2⟩, fun h => ⟨h.names, h.tags⟩⟩

end Transact.Peer.Isolation
