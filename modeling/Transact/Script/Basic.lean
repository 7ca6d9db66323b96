import Transact.Script.Step

/-! # Scripted surroundings

The surroundings of a client whose endpoint, hooks and continuations all follow a script. The
endpoint can be told to refuse links or requests, or to settle every request as soon as it is sent.

`host n` lets foreign code nest `n` deep: below that, a call exhausts the nesting. -/

namespace Transact.Script

/-! ## State -/

/-- A consumer known to a script. The `k`-th call of a hook follows the `k`-th script. -/
structure Consumer where
  label : String
  id : MemberId
  scripts : Hook → List (List Step) := fun _ => []

instance : Inhabited Consumer := ⟨{ label := default, id := default }⟩

/-- All steps that the hooks of a consumer may follow. -/
def Consumer.steps (c : Consumer) : List Step := (Hook.list.flatMap c.scripts).flatten

/-- A producer, which has only a name. -/
structure Producer where
  label : String
  id : MemberId
deriving Inhabited

/-- The endpoint's side of a link. -/
structure Attachment where
  link : Nat
  lastDelivery : Option Nat := none
deriving Inhabited

/-- The link or context that a script is about. -/
inductive Subject where
  | link (l : Nat)
  | context (c : Nat)
deriving Inhabited

/-- What a script has around it, and what it has seen. -/
structure Outside where
  subject : Subject
  attachFailure : Option Failure := none
  sendFailure : Option Failure := none
  autoSettlement : Option Settlement := none
  attachments : Array Attachment := #[]
  consumers : Array Consumer := #[]
  producers : Array Producer := #[]
  /-- The aggregates by name; the newest one of a name comes first. -/
  aggregates : List (String × Nat) := []
  log : Array Event := #[]

/-- What happens in a scripted world. -/
abbrev Scripted := Act Outside Waiter

/-- Notes an event. -/
def note (e : Event) : Scripted Unit :=
  Act.modifyOutside fun o => { o with log := o.log.push e }

/-- What shows of the context now. -/
def glance : Scripted Glance := do
  match (← Act.outside).subject with
  | .link l => return .link (← Act.link l).state
  | .context c => return .context (← Act.context c).stage (← Context.currentId c)

/-! ## Steps -/

/-- The endpoint's link of this number, or the one attached last. -/
def attachment? (number : Option Number) : Scripted (Option Attachment) := do
  let attachments := (← Act.outside).attachments
  match number with
  | none => return attachments.back?
  | some n => return n.toNat?.bind (attachments[·]?)

/-- Settles a delivery on a link. A number that names no delivery settles nothing. -/
def settleDelivery (h : Host Outside Waiter) (link : Nat) (delivery : Number)
    (settlement : Settlement) : Scripted Unit := do
  match delivery.toNat? with
  | none => return
  | some d => Link.settled h link d settlement

/-- The present count of an aggregate. -/
def sendsReply (a : Nat) : Scripted Reply := do
  match (← Act.client).aggregates[a]? with
  | none => return .absent
  | some { sends, .. } => return .sends sends.pending sends.commit sends.isComplete

/-- Enrols every consumer and producer of this label. -/
def enrol (c : Nat) (member : String) : Scripted Unit := do
  let o ← Act.outside
  (o.consumers.toList.zipIdx.filter (·.1.label = member)).forM fun (consumer, i) =>
    Context.enrolConsumer c consumer.id i
  (o.producers.toList.zipIdx.filter (·.1.label = member)).forM fun (producer, i) =>
    Context.enrolProducer c producer.id i

/-- Carries out an action. -/
def act (h : Host Outside Waiter) : Action → Scripted Reply
  | .remoteOpen number => do
    match ← attachment? number with
    | none => return .absent
    | some a => Link.opened h a.link; return .nothing
  | .remoteClose number error => do
    match ← attachment? number with
    | none => return .absent
    | some a => Link.closed h a.link error; return .nothing
  | .settle number delivery settlement => do
    match ← attachment? number with
    | none => return .absent
    | some a =>
      match delivery <|> a.lastDelivery.map .ofNat with
      | none => return .absent
      | some d => settleDelivery h a.link d settlement; return .nothing
  | .attachFails failure => do
    Act.modifyOutside fun o => { o with attachFailure := failure }
    return .nothing
  | .sendFails failure => do
    Act.modifyOutside fun o => { o with sendFailure := failure }
    return .nothing
  | .autoSettle settlement => do
    Act.modifyOutside fun o => { o with autoSettlement := settlement }
    return .nothing
  | .setHint t hint => do Act.setHint t hint; return .nothing
  | .raise failure => Run.raise failure
  | .close l => do Link.close h l; return .nothing
  | .opened l => do Link.opened h l; return .nothing
  | .closed l error => do Link.closed h l error; return .nothing
  | .settled l delivery settlement => do settleDelivery h l delivery settlement; return .nothing
  | .settleSend name failure => do
    match (← Act.outside).aggregates.lookup name with
    | none => return .absent
    | some a =>
      Context.settleSend h a failure
      sendsReply a
  | .enrol c member => do enrol c member; return .nothing
  | .isEnrolled c member => do return .flag ((← Act.context c).registry.has member)
  | .closeCoordinator c => do
    match (← Act.context c).coordinator with
    | none => return .absent
    | some l => Link.close h l; return .nothing

/-- Makes a request with this token. -/
def request (h : Host Outside Waiter) (token : Token Waiter) : Operation → Scripted Reply
  | .establish l => do Link.establish h l token; return .nothing
  | .declare l t => do Link.declare h l t token; return .nothing
  | .discharge l t commit => do Link.discharge h l t token commit; return .nothing
  | .begin c t => do Context.begin h c t token; return .nothing
  | .finish c ending info => do Context.finish h c ending info token; return .nothing
  | .aggregate c info pending commit name => do
    let a ← Context.finishAfter h c info pending token commit
    Act.modifyOutside fun o => { o with aggregates := (name, a) :: o.aggregates }
    sendsReply a

/-- One step of a script. -/
def perform (h : Host Outside Waiter) : Step → Scripted Reply
  | .action a => act h a
  | .request operation label onSuccess onFailure => do
    request h (.client (← Act.newCompletion) { label, onSuccess, onFailure }) operation

/-- A script that foreign code follows; each return is noted. -/
def follow (h : Host Outside Waiter) (script : List Step) : Scripted Unit :=
  script.forM fun step => do note (.returned step (← perform h step))

/-! ## The endpoint and the hooks -/

/-- The endpoint of a script attaches a link, or raises what it was told to. -/
def attach (name : String) (link : Nat) : Scripted Nat := do
  let o ← Act.outside
  match o.attachFailure with
  | some f => Run.raise f
  | none =>
    let number := o.attachments.size
    Act.modifyOutside fun o => { o with attachments := o.attachments.push { link } }
    note (.attached number name)
    return number

/-- The endpoint notes a request before refusing it, and knows its delivery before settling it. -/
def send (inner : Host Outside Waiter) (sender delivery : Nat) (request : Request) :
    Scripted Unit := do
  note (.sent sender delivery request)
  let o ← Act.outside
  match o.sendFailure with
  | some f => Run.raise f
  | none =>
    Act.modifyOutside fun o => { o with attachments := o.attachments.modify sender fun a => { a with
      lastDelivery := some delivery } }
    match o.autoSettlement, o.attachments[sender]? with
    | some settlement, some a => Link.settled inner a.link delivery settlement
    | _, _ => return

/-- The next script of a hook, which is then used up. -/
def takeScript (consumer : Nat) (hook : Hook) : Scripted (List Step) := do
  match ((← Act.outside).consumers[consumer]?.map (·.scripts hook)) with
  | some (script :: rest) =>
    Act.modifyOutside fun o => { o with consumers := o.consumers.modify consumer fun x => { x with
      scripts := fun k => if k = hook then rest else x.scripts k } }
    return script
  | _ => return []

/-- Does what the script has for a hook. -/
def callHook (inner : Host Outside Waiter) (consumer : Nat) (hook : Hook) : Scripted Unit := do
  let label := ((← Act.outside).consumers[consumer]?.getD default).label
  note (.hooked label hook (← glance))
  follow inner (← takeScript consumer hook)

/-- Does what the script has for a completion. -/
def resume (inner : Host Outside Waiter) (waiter : Waiter) (r : Resolution Unit) :
    Scripted Unit := do
  note (.resolved waiter.label r (← glance))
  follow inner (waiter.script r)

/-- The scripted surroundings, with leave to nest so many levels of foreign code. -/
def host : (depth : Nat) → Host Outside Waiter
  | 0 => {
    attach := fun _ _ => Run.exhausted
    send := fun _ _ _ => Run.exhausted
    detach := fun _ => Run.exhausted
    hook := fun _ _ => Run.exhausted
    resume := fun _ _ => Run.exhausted }
  | depth + 1 => {
    attach := attach
    send := send (host depth)
    detach := fun sender => note (.detached sender)
    hook := callHook (host depth)
    resume := resume (host depth) }

/-! ## Running a script -/

/-- The depth to which a script of this length can nest: each of its steps may be reached through a
request that is settled at once, a hook and a continuation. -/
def depthFor (length : Nat) : Nat := 3 * length + 3

/-- A client under a script. -/
abbrev State := World Outside Waiter

/-- A world with one link and these transactions. -/
def linkWorld (name : String) (transactions : List TransactionId) : State where
  client := {
    links := #[{ name }]
    transactions := (transactions.map fun id => { id : Transaction }).toArray }
  outside := { subject := .link 0 }

/-- A world with one context, these transactions and these members. -/
def contextWorld (session : SessionId) (transactions : List TransactionId)
    (consumers : List Consumer) (producers : List Producer) : State where
  client := {
    contexts := #[{ session }]
    transactions := (transactions.map fun id => { id : Transaction }).toArray }
  outside := {
    subject := .context 0
    consumers := consumers.toArray
    producers := producers.toArray }

/-- One step from outside, with a log of its own. -/
def step (depth : Nat) (s : Step) (w : State) : Except Halt Reply × State :=
  (perform (host depth) s).observe { w with outside := { w.outside with log := #[] } }

/-- Follows a script from outside. The nesting of foreign code is limited by the number of steps
that there are, in the script and in the hooks of the consumers. -/
def play (script : List Step) (w : State) : List (Except Halt Reply × State) :=
  let steps := script ++ w.outside.consumers.toList.flatMap Consumer.steps
  Run.trace (step (depthFor (lengthOf steps))) script w

/-- The labels of the members that are enrolled in a context: consumers first. -/
def enrolledMembers (c : Nat) (w : State) : List String :=
  let registry := (w.client.contexts[c]?.getD default).registry
  ((w.outside.consumers.toList.filter (registry.has ·.id)).map (·.label)) ++
    (w.outside.producers.toList.filter (registry.has ·.id)).map (·.label)

end Transact.Script
