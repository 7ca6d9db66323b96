import Mathlib.Data.List.Forall2
import Transact.Proofs.Isolation.Runs

/-! # Pairings

A session that shares its peer with others, and the same session alone: whatever the two runs number,
name or tag has different numbers, names and tags in them. A `Pairing` says which of them are the same
thing. It is lifted to everything that is made of such numbers, and it only ever grows.

Failures are paired by their kinds alone: their messages show names that the broker has given. -/

namespace Option.Rel

variable {α β : Type} {R S : α → β → Prop} {a : Option α} {b : Option β}

theorem imp (h : Rel R a b) (hi : ∀ x y, R x y → S x y) : Rel S a b := by
  cases h with
  | some h => exact .some (hi _ _ h)
  | none => exact .none

theorem none_or_some (h : Rel R a b) :
    (a = Option.none ∧ b = Option.none) ∨ ∃ x y, a = Option.some x ∧ b = Option.some y ∧ R x y := by
  cases h with
  | some h => exact .inr ⟨_, _, rfl, rfl, h⟩
  | none => exact .inl ⟨rfl, rfl⟩

theorem isSome_eq (h : Rel R a b) : a.isSome = b.isSome := by
  cases h <;> rfl

theorem orElse (h : Rel R a b) {a' : Option α} {b' : Option β} (h' : Rel R a' b') :
    Rel R (a <|> a') (b <|> b') := by
  cases h with
  | some h => exact .some h
  | none => exact h'

end Option.Rel

namespace List.Forall₂

variable {α β : Type} {R : α → β → Prop} {xs : List α} {ys : List β}

theorem find? (h : Forall₂ R xs ys) {p : α → Bool} {q : β → Bool} (hpq : ∀ x y, R x y → p x = q y) :
    Option.Rel R (xs.find? p) (ys.find? q) := by
  induction h with
  | nil => exact .none
  | @cons x y _ _ hxy _ ih =>
    rw [List.find?_cons, List.find?_cons, hpq x y hxy]
    cases q y with
    | true => exact .some hxy
    | false => exact ih

theorem getElem? (h : Forall₂ R xs ys) (i : Nat) : Option.Rel R xs[i]? ys[i]? := by
  induction h generalizing i with
  | nil => exact .none
  | cons hxy _ ih =>
    cases i with
    | zero => exact .some hxy
    | succ i => exact ih i

/-- What is put under keys that are the same thing takes the same place. -/
theorem putInto {κ κ' α β : Type} [DecidableEq κ] [DecidableEq κ'] {R : κ × α → κ' × β → Prop}
    {xs : List (κ × α)} {ys : List (κ' × β)} (h : Forall₂ R xs ys) {k : κ} {l : κ'} {a : α} {b : β}
    (hkl : ∀ x y, R x y → (x.1 = k ↔ y.1 = l)) (hab : R (k, a) (l, b)) :
    Forall₂ R (Transact.Roll.putInto k a xs) (Transact.Roll.putInto l b ys) := by
  induction h with
  | nil => exact .cons hab .nil
  | @cons x y _ _ hxy rest ih =>
    unfold Transact.Roll.putInto
    by_cases hx : x.1 = k
    · rw [if_pos hx, if_pos ((hkl x y hxy).1 hx)]
      exact .cons hab rest
    · rw [if_neg hx, if_neg fun hy => hx ((hkl x y hxy).2 hy)]
      exact .cons hxy ih

end List.Forall₂

namespace Transact

/-! ### Failures -/

/-- Two reports of the same kind. -/
inductive Failure.Akin : Failure → Failure → Prop
  | report (kind : FailureKind) {message message' : String} {cause cause' : Option Failure} :
    Akin (.report kind message cause) (.report kind message' cause')

/-- Both succeed, or both fail alike. -/
inductive Resolution.Akin : Resolution Unit → Resolution Unit → Prop
  | succeeded : Akin (.succeeded ()) (.succeeded ())
  | failed {f g : Failure} : f.Akin g → Akin (.failed f) (.failed g)

/-- Both are pending, or both were settled alike. -/
inductive Status.Akin : Status Unit → Status Unit → Prop
  | pending : Akin .pending .pending
  | settled {r r' : Resolution Unit} : r.Akin r' → Akin (.settled r) (.settled r')

namespace Failure.Akin

variable {f g : Failure}

theorem kind_eq (h : f.Akin g) : f.kind? = g.kind? := by
  cases h
  rfl

theorem of_kind {p q : Problem} (h : p.kind = q.kind) {f g : Option Failure} :
    (p.toFailure f).Akin (q.toFailure g) := by
  unfold Problem.toFailure
  rw [h]
  exact .report _

end Failure.Akin

theorem Resolution.Akin.instead {r r' : Resolution Unit} {f g : Failure} (h : r.Akin r')
    (hf : f.Akin g) : Resolution.Akin (.failed (r.cause?.getD f)) (.failed (r'.cause?.getD g)) := by
  cases h with
  | succeeded => exact .failed hf
  | failed h => exact .failed h

theorem Resolution.Akin.cause {r r' : Resolution Unit} (h : r.Akin r') :
    Option.Rel Failure.Akin r.cause? r'.cause? := by
  cases h with
  | succeeded => exact .none
  | failed h => exact .some h

namespace Peer.Isolation

/-! ### Tables -/

/-- The tables of the client and of its surroundings. -/
inductive Kind where
  | completion
  | transaction
  | link
  | context
  | aggregate
  | endpoint
  | session
  | producer
  | consumer

namespace Kind

/-- What a table holds. -/
@[reducible]
def Entry : Kind → Type
  | completion => Status Unit
  | transaction => Transaction
  | link => Link Waiting
  | context => Context
  | aggregate => Aggregate Waiting
  | endpoint => Endpoint
  | session => Session
  | producer => Producer
  | consumer => Consumer

/-- The entries of a kind. -/
def table : (k : Kind) → State → Array k.Entry
  | completion, w => w.client.completions
  | transaction, w => w.client.transactions
  | link, w => w.client.links
  | context, w => w.client.contexts
  | aggregate, w => w.client.aggregates
  | endpoint, w => w.outside.endpoints
  | session, w => w.outside.sessions
  | producer, w => w.outside.producers
  | consumer, w => w.outside.consumers

/-- A state with another table in the place of one that it has. -/
def withTable : (k : Kind) → Array k.Entry → State → State
  | completion, completions, w => w.on ({ · with completions })
  | transaction, transactions, w => w.on ({ · with transactions })
  | link, links, w => w.on ({ · with links })
  | context, contexts, w => w.on ({ · with contexts })
  | aggregate, aggregates, w => w.on ({ · with aggregates })
  | endpoint, endpoints, w => w.out ({ · with endpoints })
  | session, sessions, w => w.out ({ · with sessions })
  | producer, producers, w => w.out ({ · with producers })
  | consumer, consumers, w => w.out ({ · with consumers })

variable {k k' : Kind} {xs : Array k.Entry} {w : State}

theorem table_withTable : k.table (k.withTable xs w) = xs := by
  cases k <;> rfl

theorem table_withTable_other (h : k' ≠ k) : k'.table (k.withTable xs w) = k'.table w := by
  cases k <;> cases k' <;> first | rfl | exact absurd rfl h

theorem broker_withTable : (k.withTable xs w).outside.broker = w.outside.broker := by
  cases k <;> rfl

theorem tasks_withTable : tasks (k.withTable xs w) = tasks w := by
  cases k <;> rfl

theorem refusesLinks_withTable : (k.withTable xs w).outside.refusesLinks = w.outside.refusesLinks := by
  cases k <;> rfl

/-- A new entry in a table. -/
def extend (k : Kind) (x : k.Entry) (w : State) : State := k.withTable ((k.table w).push x) w

/-- A change of one entry of a table. -/
def alter (k : Kind) (a : Nat) (f : k.Entry → k.Entry) (w : State) : State :=
  k.withTable ((k.table w).modify a f) w

end Kind

/-! ### Pairings -/

/-- Which numbers, names and tags stand for the same thing in a run with others, on the left, and in a
run alone, on the right, and which queues the session has for its own. -/
structure Pairing where
  numbers : Kind → Nat → Nat → Prop
  names : TxnId → TxnId → Prop
  tags : Nat → Nat → Prop
  mine : String → Prop

namespace Pairing

/-- More is paired. -/
structure Grows (ρ ρ' : Pairing) : Prop where
  numbers : ∀ {k a b}, ρ.numbers k a b → ρ'.numbers k a b
  names : ∀ {t u}, ρ.names t u → ρ'.names t u
  tags : ∀ {m n}, ρ.tags m n → ρ'.tags m n
  mine : ρ'.mine = ρ.mine

/-- Nothing is paired twice. -/
structure Faithful (ρ : Pairing) : Prop where
  numbers : ∀ k, Relator.BiUnique (ρ.numbers k)
  names : Relator.BiUnique ρ.names
  tags : Relator.BiUnique ρ.tags

theorem Grows.refl (ρ : Pairing) : ρ.Grows ρ := ⟨id, id, id, rfl⟩

theorem Grows.trans {ρ ρ' ρ'' : Pairing} (h : ρ.Grows ρ') (h' : ρ'.Grows ρ'') : ρ.Grows ρ'' :=
  ⟨fun x => h'.numbers (h.numbers x), fun x => h'.names (h.names x), fun x => h'.tags (h.tags x),
    h'.mine.trans h.mine⟩

variable (ρ : Pairing)

/-! ### What is made of numbers -/

/-- The same is done when the completion is resolved. -/
inductive Waits : Waiting → Waiting → Prop
  | plain : Waits .plain .plain
  | begun {s s' t t' : Nat} : ρ.numbers .session s s' → ρ.numbers .transaction t t' →
    Waits (.begun s t) (.begun s' t')
  | ended {s s' c c' : Nat} : ρ.numbers .session s s' → ρ.numbers .completion c c' →
    Waits (.ended s c) (.ended s' c')
  | sent {s s' c c' : Nat} : ρ.numbers .session s s' → ρ.numbers .completion c c' →
    Waits (.sent s c) (.sent s' c')

/-- The same is waited for, by the same completions. -/
inductive Tokens : Token Waiting → Token Waiting → Prop
  | client {c c' : Nat} {x x' : Waiting} : ρ.numbers .completion c c' → ρ.Waits x x' →
    Tokens (.client c x) (.client c' x')
  | instead {c c' : Nat} {f g : Failure} {t t' : Token Waiting} : ρ.numbers .completion c c' →
    f.Akin g → Tokens t t' → Tokens (.instead c f t) (.instead c' g t')
  | discharging {c c' x x' : Nat} {commit : Bool} {t t' : Token Waiting} :
    ρ.numbers .completion c c' → ρ.numbers .context x x' → Tokens t t' →
    Tokens (.discharging c x commit t) (.discharging c' x' commit t')
  | declaring {c c' x x' n n' : Nat} {t t' : Token Waiting} : ρ.numbers .completion c c' →
    ρ.numbers .context x x' → ρ.numbers .transaction n n' → Tokens t t' →
    Tokens (.declaring c x n t) (.declaring c' x' n' t')
  | opening {c c' x x' n n' l l' : Nat} {next next' t t' : Token Waiting} :
    ρ.numbers .completion c c' → ρ.numbers .context x x' → ρ.numbers .transaction n n' →
    ρ.numbers .link l l' → Tokens next next' → Tokens t t' →
    Tokens (.opening c x n l next t) (.opening c' x' n' l' next' t')

/-- The same request is outstanding. -/
structure Exchanges (x y : Exchange Waiting) : Prop where
  discharge : x.discharge = y.discharge
  transaction : ρ.numbers .transaction x.transaction y.transaction
  request : ρ.Tokens x.request y.request

/-- The two links are in the same state, with the same outstanding. -/
structure Links (x y : Link Waiting) : Prop where
  name : x.name = y.name
  state : x.state = y.state
  sender : Option.Rel (ρ.numbers .endpoint) x.sender y.sender
  opening : Option.Rel ρ.Tokens x.opening y.opening
  nextDelivery : x.nextDelivery = y.nextDelivery
  pending : List.Forall₂ (fun p q => p.1 = q.1 ∧ ρ.Exchanges p.2 q.2) x.pending y.pending

/-- The two transactions have the same name, here and at the coordinator. -/
structure Transactions (x y : Transaction) : Prop where
  id : x.id = y.id
  hint : Option.Rel ρ.names x.hint y.hint

/-- The two states name the same transaction, with the same outcome. -/
structure DeliveryStates (x y : DeliveryState) : Prop where
  txnId : ρ.names x.txnId y.txnId
  outcome : x.outcome = y.outcome

/-- The two contexts are in the same state. -/
structure Contexts (x y : Context) : Prop where
  session : x.session = y.session
  stage : x.stage = y.stage
  current : Option.Rel (ρ.numbers .transaction) x.current y.current
  accepted : Option.Rel ρ.DeliveryStates x.accepted y.accepted
  enrolled : Option.Rel ρ.DeliveryStates x.enrolled y.enrolled
  coordinator : Option.Rel (ρ.numbers .link) x.coordinator y.coordinator
  linksBuilt : x.linksBuilt = y.linksBuilt
  consumers : List.Forall₂ (fun p q => p.1 = q.1 ∧ ρ.numbers .consumer p.2 q.2)
    x.registry.consumers.entries y.registry.consumers.entries

/-- The earliest failure does not matter: it is only shown as the cause of another one. -/
structure Aggregations (x y : Aggregation) : Prop where
  pending : x.pending = y.pending
  commit : x.commit = y.commit

/-- The same transaction is referred to. -/
structure References (x y : TransactionRef) : Prop where
  transaction : ρ.numbers .transaction x.transaction y.transaction
  inDoubt : x.inDoubt = y.inDoubt

/-- The two aggregates wait for the same. -/
structure Aggregates (x y : Aggregate Waiting) : Prop where
  sends : Aggregations x.sends y.sends
  context : ρ.numbers .context x.context y.context
  info : ρ.References x.info y.info
  commit : x.commit = y.commit
  request : ρ.Tokens x.request y.request

/-- The broker's sides of the two links are in the same state. -/
structure Endpoints (x y : Endpoint) : Prop where
  name : x.name = y.name
  listener : ∃ l m, x.listener = .link l ∧ y.listener = .link m ∧ ρ.numbers .link l m
  opened : x.opened = y.opened
  closed : x.closed = y.closed

/-- The two sessions remember the same. -/
structure Sessions (x y : Session) : Prop where
  id : x.id = y.id
  context : ρ.numbers .context x.context y.context
  policy : x.policy = y.policy
  sequence : x.sequence = y.sequence
  current : Option.Rel (ρ.numbers .transaction) x.current y.current
  beginning : Option.Rel (ρ.numbers .completion) x.beginning y.beginning
  outstanding : x.outstanding = y.outstanding
  failedSend : Option.Rel Failure.Akin x.failedSend y.failedSend
  discharging : x.discharging = y.discharging
  aggregate : Option.Rel (ρ.numbers .aggregate) x.aggregate y.aggregate
  producerNumber : x.producerNumber = y.producerNumber
  consumerNumber : x.consumerNumber = y.consumerNumber

/-- The two producers send to the same destination, which nobody else uses. -/
structure Producers (x y : Producer) : Prop where
  session : ρ.numbers .session x.session y.session
  id : x.id = y.id
  destination : x.destination = y.destination
  mine : ∀ d, x.destination = some d → ρ.mine d.name

/-- The two deliveries are the same message, from a queue that nobody else uses. -/
structure Deliveries (x y : Delivery) : Prop where
  tag : ρ.tags x.tag y.tag
  address : x.address = y.address
  body : x.body = y.body
  mine : ρ.mine x.address

/-- The two consumers hold the same, from a queue that nobody else uses. -/
structure Consumers (x y : Consumer) : Prop where
  session : ρ.numbers .session x.session y.session
  id : x.id = y.id
  destination : x.destination = y.destination
  mine : ρ.mine x.destination.name
  received : List.Forall₂ ρ.Deliveries x.received y.received

/-- Two entries of a table are the same thing. -/
def Entries : (k : Kind) → k.Entry → k.Entry → Prop
  | .completion => Status.Akin
  | .transaction => ρ.Transactions
  | .link => ρ.Links
  | .context => ρ.Contexts
  | .aggregate => ρ.Aggregates
  | .endpoint => ρ.Endpoints
  | .session => ρ.Sessions
  | .producer => ρ.Producers
  | .consumer => ρ.Consumers

/-! ### What travels -/

/-- The same is asked. -/
inductive Requests : Request → Request → Prop
  | declare : Requests .declare .declare
  | discharge {t u : TxnId} {fail : Bool} : ρ.names t u →
    Requests (.discharge t fail) (.discharge u fail)

/-- The same is answered, whatever the reason given. -/
inductive Settlements : Settlement → Settlement → Prop
  | declared {t u : TxnId} : ρ.names t u → Settlements (.declared t) (.declared u)
  | accepted : Settlements .accepted .accepted
  | rejected {e f : Option Condition} : Settlements (.rejected e) (.rejected f)

/-- The two tasks do the same. -/
inductive Tasks : Task → Task → Prop
  | openLink {e f : Nat} : ρ.numbers .endpoint e f → Tasks (.openLink e) (.openLink f)
  | answer {e f : Nat} {delivery : Number} {r r' : Request} : ρ.numbers .endpoint e f →
    ρ.Requests r r' → Tasks (.answer e delivery r) (.answer f delivery r')
  | transfer {i j : Nat} {address body : String} {x y : DeliveryState}
      {t u : Option (Token Waiting)} : ρ.mine address → ρ.DeliveryStates x y →
    Option.Rel ρ.Tokens t u → Tasks (.transfer i address body x t) (.transfer j address body y u)

/-- The two live transactions hold the same messages. -/
structure Records (x y : Record) : Prop where
  link : ρ.numbers .endpoint x.link y.link
  staged : List.Forall₂ ρ.Deliveries x.staged.toList y.staged.toList
  acknowledged : List.Forall₂ ρ.Deliveries x.acknowledged y.acknowledged

/-! ### What is paired stays paired -/

variable {ρ} {ρ' : Pairing}

theorem Waits.mono (hg : ρ.Grows ρ') {x y : Waiting} (h : ρ.Waits x y) : ρ'.Waits x y := by
  cases h with
  | plain => exact .plain
  | begun hs ht => exact .begun (hg.numbers hs) (hg.numbers ht)
  | ended hs hc => exact .ended (hg.numbers hs) (hg.numbers hc)
  | sent hs hc => exact .sent (hg.numbers hs) (hg.numbers hc)

theorem Tokens.mono (hg : ρ.Grows ρ') {x y : Token Waiting} (h : ρ.Tokens x y) :
    ρ'.Tokens x y := by
  induction h with
  | client hc hx => exact .client (hg.numbers hc) (hx.mono hg)
  | instead hc hf _ ih => exact .instead (hg.numbers hc) hf ih
  | discharging hc hx _ ih => exact .discharging (hg.numbers hc) (hg.numbers hx) ih
  | declaring hc hx hn _ ih => exact .declaring (hg.numbers hc) (hg.numbers hx) (hg.numbers hn) ih
  | opening hc hx hn hl _ _ ih ih' =>
    exact .opening (hg.numbers hc) (hg.numbers hx) (hg.numbers hn) (hg.numbers hl) ih ih'

theorem Exchanges.mono (hg : ρ.Grows ρ') {x y : Exchange Waiting} (h : ρ.Exchanges x y) :
    ρ'.Exchanges x y :=
  ⟨h.discharge, hg.numbers h.transaction, h.request.mono hg⟩

theorem Links.mono (hg : ρ.Grows ρ') {x y : Link Waiting} (h : ρ.Links x y) : ρ'.Links x y where
  name := h.name
  state := h.state
  sender := h.sender.imp fun _ _ => hg.numbers
  opening := h.opening.imp fun _ _ => Tokens.mono hg
  nextDelivery := h.nextDelivery
  pending := h.pending.imp fun _ _ x => ⟨x.1, x.2.mono hg⟩

theorem Transactions.mono (hg : ρ.Grows ρ') {x y : Transaction} (h : ρ.Transactions x y) :
    ρ'.Transactions x y :=
  ⟨h.id, h.hint.imp fun _ _ => hg.names⟩

theorem DeliveryStates.mono (hg : ρ.Grows ρ') {x y : DeliveryState} (h : ρ.DeliveryStates x y) :
    ρ'.DeliveryStates x y :=
  ⟨hg.names h.txnId, h.outcome⟩

theorem Contexts.mono (hg : ρ.Grows ρ') {x y : Context} (h : ρ.Contexts x y) : ρ'.Contexts x y where
  session := h.session
  stage := h.stage
  current := h.current.imp fun _ _ => hg.numbers
  accepted := h.accepted.imp fun _ _ => DeliveryStates.mono hg
  enrolled := h.enrolled.imp fun _ _ => DeliveryStates.mono hg
  coordinator := h.coordinator.imp fun _ _ => hg.numbers
  linksBuilt := h.linksBuilt
  consumers := h.consumers.imp fun _ _ x => ⟨x.1, hg.numbers x.2⟩

theorem References.mono (hg : ρ.Grows ρ') {x y : TransactionRef} (h : ρ.References x y) :
    ρ'.References x y :=
  ⟨hg.numbers h.transaction, h.inDoubt⟩

theorem Aggregates.mono (hg : ρ.Grows ρ') {x y : Aggregate Waiting} (h : ρ.Aggregates x y) :
    ρ'.Aggregates x y :=
  ⟨h.sends, hg.numbers h.context, h.info.mono hg, h.commit, h.request.mono hg⟩

theorem Endpoints.mono (hg : ρ.Grows ρ') {x y : Endpoint} (h : ρ.Endpoints x y) :
    ρ'.Endpoints x y := by
  obtain ⟨l, m, hl, hm, paired⟩ := h.listener
  exact ⟨h.name, ⟨l, m, hl, hm, hg.numbers paired⟩, h.opened, h.closed⟩

theorem Sessions.mono (hg : ρ.Grows ρ') {x y : Session} (h : ρ.Sessions x y) : ρ'.Sessions x y where
  id := h.id
  context := hg.numbers h.context
  policy := h.policy
  sequence := h.sequence
  current := h.current.imp fun _ _ => hg.numbers
  beginning := h.beginning.imp fun _ _ => hg.numbers
  outstanding := h.outstanding
  failedSend := h.failedSend
  discharging := h.discharging
  aggregate := h.aggregate.imp fun _ _ => hg.numbers
  producerNumber := h.producerNumber
  consumerNumber := h.consumerNumber

theorem Producers.mono (hg : ρ.Grows ρ') {x y : Producer} (h : ρ.Producers x y) :
    ρ'.Producers x y :=
  ⟨hg.numbers h.session, h.id, h.destination, fun d hd => hg.mine ▸ h.mine d hd⟩

theorem Deliveries.mono (hg : ρ.Grows ρ') {x y : Delivery} (h : ρ.Deliveries x y) :
    ρ'.Deliveries x y :=
  ⟨hg.tags h.tag, h.address, h.body, hg.mine ▸ h.mine⟩

theorem Consumers.mono (hg : ρ.Grows ρ') {x y : Consumer} (h : ρ.Consumers x y) :
    ρ'.Consumers x y :=
  ⟨hg.numbers h.session, h.id, h.destination, hg.mine ▸ h.mine,
    h.received.imp fun _ _ => Deliveries.mono hg⟩

theorem Entries.mono (hg : ρ.Grows ρ') {k : Kind} {x y : k.Entry} (h : ρ.Entries k x y) :
    ρ'.Entries k x y := by
  cases k with
  | completion => exact h
  | transaction => exact Transactions.mono hg h
  | link => exact Links.mono hg h
  | context => exact Contexts.mono hg h
  | aggregate => exact Aggregates.mono hg h
  | endpoint => exact Endpoints.mono hg h
  | session => exact Sessions.mono hg h
  | producer => exact Producers.mono hg h
  | consumer => exact Consumers.mono hg h

theorem Requests.mono (hg : ρ.Grows ρ') {x y : Request} (h : ρ.Requests x y) :
    ρ'.Requests x y := by
  cases h with
  | declare => exact .declare
  | discharge h => exact .discharge (hg.names h)

theorem Tasks.mono (hg : ρ.Grows ρ') {x y : Task} (h : ρ.Tasks x y) : ρ'.Tasks x y := by
  cases h with
  | openLink h => exact .openLink (hg.numbers h)
  | answer h hr => exact .answer (hg.numbers h) (hr.mono hg)
  | transfer h hx ht =>
    exact .transfer (hg.mine ▸ h) (hx.mono hg) (ht.imp fun _ _ => Tokens.mono hg)

theorem Records.mono (hg : ρ.Grows ρ') {x y : Record} (h : ρ.Records x y) : ρ'.Records x y :=
  ⟨hg.numbers h.link, h.staged.imp fun _ _ => Deliveries.mono hg,
    h.acknowledged.imp fun _ _ => Deliveries.mono hg⟩

end Pairing

end Peer.Isolation

end Transact
