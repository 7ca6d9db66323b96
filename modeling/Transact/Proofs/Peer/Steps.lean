import Transact.Peer.Session

/-! # Runs of sessions against a broker

Whatever sessions, their producers and consumers, the loop and the broker are asked to do, one step
after the other and in any order: `history` is what was asked and what came of it. From a history one
reads which messages a session has taken on in a transaction, what became of each of them when its
transfer was taken in, and what can be seen of the transaction in the queues.

* `Committed`: the completion of a commit of the transaction has succeeded.
* `Published`: one task of the loop has put the messages of the transaction at the tails of their
  queues, in the order in which they were sent.
* `Withheld`: no message of the transaction was ever seen in a queue. -/

namespace Transact.Peer

/-! ### Steps -/

/-- One step of a run. Sessions, producers, consumers and links are named by their numbers; a step
about one that is not there does nothing. A `deposit` is a message from elsewhere, sent outside any
transaction. -/
inductive Step where
  | newSession (id : SessionId) (policy : Presettling)
  | newProducer (session : Nat) (destination : Option Destination)
  | newConsumer (session : Nat) (destination : Destination)
  | start (session : Nat)
  | send (producer : Nat) (body : String) (destination : Option Destination)
  | receive (consumer : Nat)
  | deposit (address body : String)
  | finish (session : Nat) (ending : Ending)
  | runOne
  | closeAll (error : Option Condition)
  | closeRemotely (link : Nat) (error : Option Condition)
  | closeLocally (link : Nat)
  | refuseLinks (refused : Bool)
  | rejectDeclare
  | rejectDischarge
  | rejectTransfer (index : Number)

/-- Does something about an entry of a table, if the entry is there. -/
def about {α : Type} (table : Outside → Array α) (i : Nat) (x : Peering (Option Nat)) :
    Peering (Option Nat) := do
  if i < (table (← Act.outside)).size then x else return none

/-- Takes a step; what is returned is the completion to be waited for, if there is one. -/
def Step.perform : Step → Peering (Option Nat)
  | .newSession id policy => do
    discard (Peer.newSession id policy)
    return none
  | .newProducer s destination => about (·.sessions) s do
    discard (Peer.newProducer s destination)
    return none
  | .newConsumer s destination => about (·.sessions) s do
    discard (Peer.newConsumer s destination)
    return none
  | .start s => about (·.sessions) s do return some (← Session.start peer s)
  | .send p body destination => about (·.producers) p do
    return some (← Session.sendFrom p body destination)
  | .receive c => about (·.consumers) c do
    discard (Consumer.receive c)
    return none
  | .deposit address body => do
    transfer address body none none
    return none
  | .finish s ending => about (·.sessions) s do return some (← Session.finish peer s ending)
  | .runOne => do
    discard (Loop.runOne (exec peer))
    return none
  | .closeAll error => do
    Peer.closeAll error
    return none
  | .closeRemotely l error => about (·.endpoints) l do
    closeEndpoint peer l error
    return none
  | .closeLocally l => about (·.endpoints) l do
    Link.close peer l
    return none
  | .refuseLinks refused => do
    Act.modifyOutside fun o => { o with refusesLinks := refused }
    return none
  | .rejectDeclare => do
    modifyBroker fun b => { b with declaresToReject := b.declaresToReject + 1 }
    return none
  | .rejectDischarge => do
    modifyBroker fun b => { b with dischargesToReject := b.dischargesToReject + 1 }
    return none
  | .rejectTransfer index => do
    modifyBroker fun b => { b with transfersToFail := b.transfersToFail ++ [index] }
    return none

/-! ### Histories -/

/-- A step, with the states before and after it. What it raised is caught. -/
structure Moment where
  step : Step
  before : State
  reply : Except Halt (Option Nat)
  after : State

/-- What comes of a step that is taken now. -/
def Step.moment (step : Step) (w : State) : Moment :=
  let outcome := step.perform.observe w
  ⟨step, w, outcome.1, outcome.2⟩

/-- What comes of these steps, one after the other. -/
def play : List Step → State → List Moment
  | [], _ => []
  | step :: rest, w => step.moment w :: play rest (step.moment w).after

/-- The state that these steps lead to. -/
def reach : List Step → State → State
  | [], w => w
  | step :: rest, w => reach rest (step.moment w).after

/-- What holds in the beginning and after every step holds before every step and in the end. -/
theorem play_before {P : State → Prop} {steps : List Step} {w : State} (h : P w)
    (hs : ∀ m ∈ play steps w, P m.after) : (∀ m ∈ play steps w, P m.before) ∧ P (reach steps w) := by
  induction steps generalizing w with
  | nil => exact ⟨fun m hm => absurd hm List.not_mem_nil, h⟩
  | cons step rest ih =>
    have next : P (step.moment w).after := hs _ List.mem_cons_self
    obtain ⟨before, last⟩ := ih next fun m hm => hs m (List.mem_cons_of_mem _ hm)
    refine ⟨fun m hm => ?_, last⟩
    rcases List.mem_cons.1 hm with rfl | hm
    · exact h
    · exact before m hm

/-- What comes of these steps, from the beginning on. -/
def history (refusesLinks : Bool) (steps : List Step) : List Moment :=
  play steps (initial refusesLinks)

/-- How many declares were sent to the broker. -/
def declares (w : State) : Nat := w.outside.requests.toList.countP (· = .declare)

/-- The names of the transactions have not run out: none was given twice. -/
def Distinct (w : State) : Prop := declares w < 0x100000000

/-- The tasks that wait can be counted exactly. (A list of tasks in memory is shorter than that: its
length is below `2 ^ 32`.) -/
def Countable (w : State) : Prop := w.outside.loop.pending < Number.countLimit

/-- The names have not run out, and no more tasks wait than can be counted. -/
structure Bounded (w : State) : Prop where
  distinct : Distinct w
  countable : Countable w

/-- Nothing has run out: besides the names, the tags of the messages and the numbers of the consumers
are exact. (Above `Number.countLimit`, two of them may be the same number.) -/
def Exact (w : State) : Prop :=
  Distinct w ∧ w.outside.broker.tagCounter ≤ Number.countLimit ∧
    w.outside.consumers.size < Number.countLimit

instance {w : State} : Decidable (Distinct w) := inferInstanceAs (Decidable (_ < _))

instance {w : State} : Decidable (Countable w) := inferInstanceAs (Decidable (_ < _))

instance {w : State} : Decidable (Exact w) := inferInstanceAs (Decidable (_ ∧ _ ∧ _))

instance {w : State} : Decidable (Bounded w) :=
  decidable_of_iff (Distinct w ∧ Countable w) ⟨fun h => ⟨h.1, h.2⟩, fun h => ⟨h.distinct, h.countable⟩⟩

/-! ### Messages -/

/-- A message that a session has taken on. It is named by the number of its transfer. -/
structure Message where
  index : Nat
  transaction : Nat
  address : String
  body : String
  presettled : Bool
deriving DecidableEq

/-- The message that was taken on at this moment: the send was not refused, so that a transfer was
scheduled, and it belongs to the transaction that its session is in. -/
def Moment.message? (m : Moment) : Option Message :=
  match m.step with
  | .send p body destination => do
    let producer ← m.before.outside.producers[p]?
    let session ← m.before.outside.sessions[producer.session]?
    let transaction ← session.current
    let d ← destination <|> producer.destination
    if m.after.outside.transfers = m.before.outside.transfers then none
    else some {
      index := m.before.outside.transfers
      transaction
      address := d.name
      body
      presettled := session.policy.forProducer (some d) true }
  | _ => none

/-- The transfer that was taken in at this moment, and the delivery that it became, unless it was
made to fail. -/
def Moment.intake? (m : Moment) : Option (Nat × Option Delivery) :=
  match m.step, m.before.outside.loop.tasks.head? with
  | .runOne, some (_, .transfer index address body _ _) =>
    let broker := m.before.outside.broker
    some (index, if broker.transfersToFail.contains (.ofNat index) then none
      else some ⟨broker.tagCounter, address, body⟩)
  | _, _ => none

/-- What a task consumes: what was acknowledged in a transaction, if the task is a discharge on an open
link that the broker accepts as a commit. -/
def Task.consumes (o : Outside) : Task → List Delivery
  | .answer l _ (.discharge y false) =>
    if o.endpoints[l]?.any (·.isActive) ∧ (o.broker.discharge y false).1 = .accepted then
      (o.broker.transactions.get? y).elim [] (·.acknowledged)
    else []
  | _ => []

/-- What the oldest task of the loop consumes. -/
def consumed (w : State) : List Delivery :=
  match w.outside.loop.tasks.head? with
  | some (_, job) => job.consumes w.outside
  | none => []

/-- The messages that were consumed at this moment. -/
def Moment.consumed (m : Moment) : List Delivery :=
  match m.step with
  | .runOne => Peer.consumed m.before
  | _ => []

/-- The messages of a transaction, in the order in which they were sent. -/
def messages (history : List Moment) (t : Nat) : List Message :=
  (history.filterMap Moment.message?).filter (·.transaction = t)

/-- The transfer of a message was taken in and became this delivery, or was made to fail. -/
def TakenIn (history : List Moment) (x : Message) (result : Option Delivery) : Prop :=
  ∃ m ∈ history, m.intake? = some (x.index, result)

/-! ### What becomes of a transaction -/

/-- At this moment a session was asked for the end of the transaction that it is in, and the caller
was given a completion to wait for. -/
def Moment.Asks (m : Moment) (ending : Ending) (t completion : Nat) : Prop :=
  ∃ s, m.step = .finish s ending ∧ m.before.outside.sessions[s]?.bind (·.current) = some t ∧
    m.reply = .ok (some completion)

/-- The session that is asked for the end of its transaction. -/
def Step.finisher? (ending : Ending) : Step → Option Nat
  | .finish s asked => if asked = ending then some s else none
  | _ => none

theorem Step.finisher?_eq_some {step : Step} {ending : Ending} {s : Nat} :
    step.finisher? ending = some s ↔ step = .finish s ending := by
  cases step with
  | finish s' asked => simp [finisher?, and_comm]
  | _ => simp [finisher?]

instance {m : Moment} {ending : Ending} {t c : Nat} : Decidable (m.Asks ending t c) :=
  decidable_of_iff (∃ s ∈ m.step.finisher? ending,
      m.before.outside.sessions[s]?.bind (·.current) = some t ∧ m.reply.toOption = some (some c)) <| by
    have reply : m.reply.toOption = some (some c) ↔ m.reply = .ok (some c) := by
      cases m.reply <;> simp [Except.toOption]
    simp only [Moment.Asks, Option.mem_def, Step.finisher?_eq_some, reply]

/-- A commit was asked for in the transaction, and its completion has succeeded. -/
def Committed (history : List Moment) (t : Nat) : Prop :=
  ∃ m ∈ history, ∃ completion, m.Asks .commit t completion ∧ ∃ m' ∈ history,
    m'.after.client.completions[completion]? = some (.settled (.succeeded ()))

/-- One task of the loop has put the messages of the transaction at the tails of their queues, in
the order in which they were sent. None is left out but a presettled one that was made to fail. -/
def Published (history : List Moment) (t : Nat) : Prop :=
  ∃ m ∈ history, m.step = .runOne ∧ ∃ result : Message → Option Delivery,
    (∀ x ∈ messages history t, TakenIn history x (result x) ∧
      (∀ d, result x = some d → d.address = x.address ∧ d.body = x.body) ∧
      (result x = none → x.presettled)) ∧
    ∀ address, (m.after.outside.broker.queue address).toList =
      (m.before.outside.broker.queue address).toList ++
        ((messages history t).filterMap result).filter (·.address = address)

/-- No message of the transaction was ever in a queue. -/
def Withheld (history : List Moment) (t : Nat) : Prop :=
  ∀ x ∈ messages history t, ∀ d, TakenIn history x (some d) →
    ∀ m ∈ history, ∀ address, ∀ d' ∈ (m.after.outside.broker.queue address).toList, d'.tag ≠ d.tag

end Transact.Peer
