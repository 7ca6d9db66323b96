import Transact.Peer.Session
import Transact.Proofs.Client.Tables
import Transact.Proofs.Loop

/-! # The surroundings, one change at a time

As for the tables of a client, every change that sessions, endpoints and the broker make to what is
outside the client has a name here, and a rule that says what holds after it. -/

namespace Transact

variable {ε κ : Type}

/-- Does something to the surroundings that a world remembers. -/
def World.out (w : World ε κ) (f : ε → ε) : World ε κ :=
  { w with outside := f w.outside }

namespace Peer

/-! ### Changes -/

namespace Outside

variable (o : Outside)

/-- The session of this number. -/
def session (s : Nat) : Session := o.sessions[s]?.getD default

/-- The producer of this number. -/
def producer (p : Nat) : Producer := o.producers[p]?.getD default

/-- The consumer of this number. -/
def consumer (c : Nat) : Consumer := o.consumers[c]?.getD default

/-- The broker's side of the link of this number. -/
def endpoint (e : Nat) : Endpoint := o.endpoints[e]?.getD default

/-- A session is changed. -/
def changeSession (s : Nat) (f : Session → Session) : Outside :=
  { o with sessions := o.sessions.modify s f }

/-- A consumer is changed. -/
def changeConsumer (c : Nat) (f : Consumer → Consumer) : Outside :=
  { o with consumers := o.consumers.modify c f }

/-- The broker's side of a link is changed. -/
def changeEndpoint (e : Nat) (f : Endpoint → Endpoint) : Outside :=
  { o with endpoints := o.endpoints.modify e f }

/-- A link is attached. -/
def addEndpoint (name : String) (listener : Listener) : Outside :=
  { o with endpoints := o.endpoints.push { name, listener } }

/-- A request arrives. -/
def addRequest (request : Request) : Outside := { o with requests := o.requests.push request }

/-- One more transfer is numbered. -/
def addTransfer : Outside := { o with transfers := o.transfers + 1 }

/-- The broker does something. -/
def changeBroker (f : Broker → Broker) : Outside := { o with broker := f o.broker }

/-- A task is scheduled. -/
def schedule (label : String) (task : Task) : Outside :=
  { o with loop := o.loop.schedule label task }

/-- The surroundings with another loop. -/
def withLoop (loop : Loop Task) : Outside := { o with loop }

variable {o}

theorem session_eq {s : Nat} {k : Session} (h : o.sessions[s]? = some k) : o.session s = k := by
  simp [session, h]

theorem consumer_eq {c : Nat} {k : Consumer} (h : o.consumers[c]? = some k) : o.consumer c = k := by
  simp [consumer, h]

theorem producer_eq {p : Nat} {k : Producer} (h : o.producers[p]? = some k) : o.producer p = k := by
  simp [producer, h]

theorem endpoint_eq {e : Nat} {k : Endpoint} (h : o.endpoints[e]? = some k) : o.endpoint e = k := by
  simp [endpoint, h]

theorem changeSession_same {s : Nat} {f : Session → Session} {k : Session}
    (h : o.sessions[s]? = some k) : (o.changeSession s f).sessions[s]? = some (f k) := by
  simp [changeSession, Array.getElem?_modify, h]

theorem changeSession_other {s i : Nat} {f : Session → Session} (h : i ≠ s) :
    (o.changeSession s f).sessions[i]? = o.sessions[i]? := by
  simp [changeSession, Array.getElem?_modify, Ne.symm h]

/-- A change that leaves the one session as it is changes nothing. -/
theorem changeSession_self {s : Nat} {f : Session → Session} {k : Session}
    (h : o.sessions[s]? = some k) (same : f k = k) : o.changeSession s f = o := by
  have e : o.sessions.modify s f = o.sessions := by
    refine Array.ext_getElem? fun i => ?_
    rw [Array.getElem?_modify]
    by_cases hi : s = i
    · subst hi
      simp [h, same]
    · simp [hi]
  simp [changeSession, e]

end Outside

theorem out_changeBroker {w : State} {a b : Broker → Broker}
    (h : a w.outside.broker = b w.outside.broker) :
    w.out (·.changeBroker a) = w.out (·.changeBroker b) :=
  congrArg (fun x => World.mk w.client { w.outside with broker := x }) h

/-! ### Tasks -/

/-- What waits in the loop, the oldest first. -/
def tasks (w : State) : List Task := w.outside.loop.tasks.toList.map (·.2)

@[simp]
theorem tasks_on {w : State} {f : Client Waiting → Client Waiting} : tasks (w.on f) = tasks w := rfl

@[simp]
theorem tasks_schedule {w : State} {label : String} {task : Task} :
    tasks (w.out (·.schedule label task)) = tasks w ++ [task] := by
  simp [tasks, World.out, Outside.schedule, Loop.schedule]

theorem length_tasks {w : State} : (tasks w).length = w.outside.loop.pending := by
  simp [tasks, Loop.pending, Queue.size_eq]

/-! ### Rules -/

open Run

variable {w : State} {R : Halt → State → Prop} {Q : Unit → State → Prop}

@[simp]
theorem after_modifyOutside {f : Outside → Outside} :
    After (Act.modifyOutside f : Peering Unit) w Q R ↔ Q () (w.out f) := Iff.rfl

@[simp]
theorem after_sessionAt {s : Nat} {Q : Session → State → Prop} :
    After (sessionAt s) w Q R ↔ Q (w.outside.session s) w := Iff.rfl

@[simp]
theorem after_producerAt {p : Nat} {Q : Producer → State → Prop} :
    After (producerAt p) w Q R ↔ Q (w.outside.producer p) w := Iff.rfl

@[simp]
theorem after_consumerAt {c : Nat} {Q : Consumer → State → Prop} :
    After (consumerAt c) w Q R ↔ Q (w.outside.consumer c) w := Iff.rfl

@[simp]
theorem after_endpointAt {e : Nat} {Q : Endpoint → State → Prop} :
    After (endpointAt e) w Q R ↔ Q (w.outside.endpoint e) w := Iff.rfl

@[simp]
theorem after_modifySession {s : Nat} {f : Session → Session} :
    After (modifySession s f) w Q R ↔ Q () (w.out (·.changeSession s f)) := Iff.rfl

@[simp]
theorem after_modifyConsumer {c : Nat} {f : Consumer → Consumer} :
    After (modifyConsumer c f) w Q R ↔ Q () (w.out (·.changeConsumer c f)) := Iff.rfl

@[simp]
theorem after_modifyEndpoint {e : Nat} {f : Endpoint → Endpoint} :
    After (modifyEndpoint e f) w Q R ↔ Q () (w.out (·.changeEndpoint e f)) := Iff.rfl

@[simp]
theorem after_modifyBroker {f : Broker → Broker} :
    After (modifyBroker f) w Q R ↔ Q () (w.out (·.changeBroker f)) := Iff.rfl

@[simp]
theorem after_withBroker {α : Type} {f : Broker → α × Broker} {Q : α → State → Prop} :
    After (withBroker f) w Q R ↔
      Q (f w.outside.broker).1 (w.out (·.changeBroker fun b => (f b).2)) := Iff.rfl

theorem askBroker_error {f : Broker → Except Problem Broker} {p : Problem}
    (h : f w.outside.broker = .error p) : askBroker f w = Run.refuse p w := by
  rw [← after_eq]
  unfold askBroker
  rw [after_bind, Act.after_outside, h]
  exact after_refuse.2 rfl

theorem askBroker_ok {f : Broker → Except Problem Broker} {broker : Broker}
    (h : f w.outside.broker = .ok broker) :
    askBroker f w = .ok () (w.out (·.changeBroker fun _ => broker)) := by
  rw [← after_eq]
  unfold askBroker
  rw [after_bind, Act.after_outside, h]
  exact after_modifyOutside.2 rfl

@[simp]
theorem after_add {label : String} {task : Task} :
    After (Loop.add label task : Peering Unit) w Q R ↔ Q () (w.out (·.schedule label task)) :=
  Iff.rfl

/-! ### Starting a task -/

theorem after_runOne {h : Surroundings} {Q : Bool → State → Prop}
    (hnone : tasks w = [] → Q false w)
    (hsome : ∀ label job loop, w.outside.loop.tasks.head? = some (label, job) →
      tasks w = job :: tasks (w.out (·.withLoop loop)) →
      After (exec h label job) (w.out (·.withLoop loop)) (fun _ w' => Q true w') R) :
    After (Loop.runOne (exec h)) w Q R := by
  rw [Loop.after_runOne]
  cases e : (HasLoop.loop w : Loop Task).start? with
  | none => exact hnone (by rw [tasks]; exact congrArg _ (Loop.start?_eq_none e))
  | some x =>
    obtain ⟨⟨label, job⟩, loop⟩ := x
    have first : w.outside.loop.tasks.toList = (label, job) :: loop.tasks.toList :=
      (Loop.start?_eq_some e).1
    refine hsome label job loop ?_ ?_
    · rw [Queue.head?_eq, first]
      rfl
    · rw [tasks, first]
      rfl

end Peer

end Transact
