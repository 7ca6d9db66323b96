import Transact.Proofs.Adversary.Basic
import Transact.Proofs.Client.Phase
import Transact.Proofs.History

/-! # What a history tells

Reading the history of a run backwards: the requests that were handed to the endpoint, with their
answers; the begin that is in progress or has bound a transaction; the completions that were told
how something ended. Then the three things that are to be seen of every history.

* `Coherent`: the bound transaction, the cached delivery states and the stage agree.
* `InProgress`: what is outstanding belongs to the one operation in progress.
* `HandedOver`: what holds whenever a request is handed to the endpoint. -/

namespace Transact.Adversary

/-! ### Requests -/

/-- What became of a request: its settlement, or that it could not be sent. -/
inductive Answer where
  | settled (s : Settlement)
  | refused

/-- A request that was handed to the endpoint. -/
structure Sent where
  link : Nat
  delivery : Nat
  request : Request
  answer : Option Answer := none

/-- The first answer to a request is the one that counts. -/
def Sent.answered (l d : Nat) (a : Answer) (q : Sent) : Sent :=
  if q.link = l ∧ q.delivery = d ∧ q.answer.isNone then { q with answer := some a } else q

/-- The requests handed to the endpoint, the latest first. -/
def requests : List Entry → List Sent
  | [] => []
  | ⟨.sent l d r, _⟩ :: past => ⟨l, d, r, none⟩ :: requests past
  | ⟨.signalled (.settled l d s), _⟩ :: past => (requests past).map (·.answered l d (.settled s))
  | ⟨.refused l d _, _⟩ :: past => (requests past).map (·.answered l d .refused)
  | _ :: past => requests past

/-- The requests handed to the sender of one link, the earliest first. -/
def requestsOn (l : Nat) (past : List Entry) : List Request :=
  (((requests past).filter (·.link = l)).map (·.request)).reverse

/-- The words of declares, each perhaps followed by one discharge. -/
inductive Paired : List Request → Prop
  | nil : Paired []
  | declare {w : List Request} : Paired w → Paired (w ++ [.declare])
  | discharge {w : List Request} {y : TxnId} {fail : Bool} : Paired w →
      Paired (w ++ [.declare, .discharge y fail])

/-! ### Begins -/

/-- A begin that found the context idle: its declare, once handed over, and how that was settled. -/
structure Begun where
  transaction : Nat
  declare : Option (Nat × Nat) := none
  answer : Option Settlement := none

/-- The first settlement of its declare is the one that counts. -/
def Begun.answered (l d : Nat) (s : Settlement) (b : Begun) : Begun :=
  if b.declare = some (l, d) ∧ b.answer.isNone then { b with answer := some s } else b

/-- The latest begin that found the context idle. -/
def begun : List Entry → Option Begun
  | [] => none
  | ⟨.requested (.begin t) _, x⟩ :: past =>
    if (x.context 0).stage = .idle then some ⟨t, none, none⟩ else begun past
  | ⟨.sent l d .declare, _⟩ :: past => (begun past).map fun b => ⟨b.transaction, some (l, d), none⟩
  | ⟨.signalled (.settled l d s), _⟩ :: past => (begun past).map (·.answered l d s)
  | _ :: past => begun past

/-! ### Completions -/

/-- The completions that were told how something ended, the latest first. -/
def resolved : List Entry → List Nat
  | [] => []
  | ⟨.resolved id _, _⟩ :: past => id :: resolved past
  | _ :: past => resolved past

/-- Something that a context waits for: a link that builds, or an exchange on a link. -/
inductive Outstanding where
  | building (link : Nat)
  | exchange (link delivery : Nat) (e : Exchange Nat)

/-- Everything outstanding on any link. -/
def outstanding (x : Client Nat) : List Outstanding :=
  (List.range x.links.size).flatMap fun l =>
    (if (x.link l).state = .building then [.building l] else []) ++
      (x.link l).pending.map fun e => .exchange l e.1 e.2

/-- The completion that is told how something outstanding ended. -/
def Outstanding.completion (x : Client Nat) : Outstanding → Option Nat
  | building l => (x.link l).opening.map (·.completion)
  | exchange _ _ e => some e.request.completion

/-! ### What is to be seen -/

/-- Whether foreign code sees the context: a call is over, or a handler is called. -/
def Event.isOutlook : Event → Bool
  | returned _ | resolved .. => true
  | _ => false

/-- **The bound transaction, the cached delivery states and the stage agree.** They all name what
the coordinator answered to the declare of the begin that bound the transaction, and members are
enrolled only while one is bound. -/
structure Coherent (x : Client Nat) (past : List Entry) : Prop where
  accepted : (x.context 0).current.isSome ↔ (x.context 0).accepted.isSome
  enrolled : (x.context 0).current.isSome ↔ (x.context 0).enrolled.isSome
  stage : (x.context 0).current.isSome ↔
    (x.context 0).stage = .active ∨ (x.context 0).stage = .discharging
  registry : (x.context 0).registry.isEmpty = false → (x.context 0).current.isSome
  named : ∀ t, (x.context 0).current = some t → ∃ declare y,
    begun past = some ⟨t, some declare, some (.declared (some y))⟩ ∧
    (x.context 0).accepted = some (.acknowledging y) ∧
    (x.context 0).enrolled = some (.enrolling y) ∧
    ∀ outside, Context.protocolId 0 ⟨x, outside⟩ = .ok (some y) (⟨x, outside⟩ : State)

/-- **What is outstanding belongs to the one operation in progress**, and so does a completion that
was handed over and is still pending. -/
structure InProgress (x : Client Nat) (past : List Entry) : Prop where
  declaring : (x.context 0).stage = .declaring →
    (∃ l, outstanding x = [.building l] ∧ (x.link l).sender.isSome) ∨
    (∃ l d e, outstanding x = [.exchange l d e] ∧ e.discharge = none ∧
      (x.context 0).coordinator = some l ∧ (x.link l).state = .opened)
  discharging : (x.context 0).stage = .discharging →
    ∃ l d e, outstanding x = [.exchange l d e] ∧ e.discharge.isSome ∧
      (x.context 0).current = some e.transaction ∧
      (x.context 0).coordinator = some l ∧ (x.link l).state = .opened
  resting : (x.context 0).stage = .idle ∨ (x.context 0).stage = .active →
    outstanding x = [] ∧ ∀ id ∈ handed past, x.Settled id
  pending : ∀ id ∈ handed past, x.Pending id →
    ∃ o, outstanding x = [o] ∧ o.completion x = some id

/-- What commits: a commit, or an aggregate that is still to commit once its sends are settled. -/
def Commits : Entry → Prop
  | ⟨.requested (.finish ending _) _, _⟩ => ending = .commit
  | ⟨.requested (.aggregate _ _ commit) _, _⟩ => commit = true
  | ⟨.signalled (.settleSend a failure), x⟩ => failure.isNone ∧
    ∃ aggregate, x.aggregates[a]? = some aggregate ∧ aggregate.commit = true ∧
      aggregate.sends.commit = true
  | _ => False

/-- A commit was asked for, and since then only preparations were made, none of which raised. -/
inductive Prepared : List Entry → Prop
  | asked {e : Entry} {past : List Entry} : Commits e → Prepared (e :: past)
  | hooked {consumer : Nat} {x : Client Nat} {past : List Entry} : Prepared past →
      Prepared (⟨.hooked consumer .preCommit none, x⟩ :: past)

/-- **What holds whenever a request is handed over:** its link is open and everything before it on
that link was answered; a discharge follows a declare on the same link and carries the name that it
was answered with; and it commits only if it was asked to and everyone is prepared. -/
structure HandedOver (l : Nat) (r : Request) (x : Client Nat) (past : List Entry) : Prop where
  opened : ∃ k, x.links[l]? = some k ∧ k.state = .opened
  answered : ∀ q ∈ requests past, q.link = l → q.answer.isSome
  declared : ∀ y fail, r = .discharge y fail → ∃ d,
    ((requests past).filter (·.link = l)).head? =
      some ⟨l, d, .declare, some (.settled (.declared (some y)))⟩
  prepared : ∀ y, r = .discharge y false → Prepared past

/-! ### Calls that are refused -/

/-- The transaction that is named is bound. -/
def Bound (info : TransactionRef) (x : Client Nat) : Prop :=
  ∃ t, (x.context 0).current = some t ∧ (x.transaction t).id = (x.transaction info.transaction).id

/-- Whether the coordinator of the context has closed. -/
def failed (x : Client Nat) : Bool :=
  (x.context 0).coordinator.any fun l => (x.link l).state = .closed

/-- The clients differ at most in their completions and their aggregates. -/
structure Untouched (x x' : Client Nat) : Prop where
  contexts : x'.contexts = x.contexts
  links : x'.links = x.links
  transactions : x'.transactions = x.transactions

namespace Untouched

variable {x x' : Client Nat} {info : TransactionRef} {c t l : Nat}

theorem trans {x'' : Client Nat} (h : Untouched x x') (h' : Untouched x' x'') : Untouched x x'' :=
  ⟨h'.contexts.trans h.contexts, h'.links.trans h.links, h'.transactions.trans h.transactions⟩

theorem context (h : Untouched x x') : x'.context c = x.context c := by
  rw [Client.context, h.contexts]
  rfl

theorem link (h : Untouched x x') : x'.link l = x.link l := by
  rw [Client.link, h.links]
  rfl

theorem transaction (h : Untouched x x') : x'.transaction t = x.transaction t := by
  rw [Client.transaction, h.transactions]
  rfl

theorem bound_iff (h : Untouched x x') {doubt : Bool} :
    Bound { info with inDoubt := doubt } x' ↔ Bound info x := by
  simp only [Bound, h.context, h.transaction]

theorem failed (h : Untouched x x') : failed x' = Adversary.failed x := by
  simp only [Adversary.failed, h.context, h.link]

end Untouched

/-- **What is asked for is refused as illegal.**

* `unbound`: the transaction is not bound, and not known to be in doubt.
* `twice`: it is being discharged already.
* `doubted`: its link has closed, and whoever asks for a commit does not know that. -/
inductive Refused (ending : Ending) (info : TransactionRef) (x : Client Nat) : Prop
  | unbound (hb : ¬ Bound info x) (hd : info.inDoubt = false)
  | twice (hb : Bound info x) (hs : (x.context 0).stage = .discharging)
  | doubted (hb : Bound info x) (hs : (x.context 0).stage ≠ .discharging) (hf : failed x = true)
      (he : ending = .commit) (hd : info.inDoubt = false)

/-- At this entry a call was made that is refused as illegal, for whoever waits with this completion. -/
def Entry.Refuses (id : Nat) : Entry → Prop
  | ⟨.requested (.begin _) id', x⟩ => id' = id ∧ (x.context 0).stage ≠ .idle
  | ⟨.requested (.finish ending info) id', x⟩ => id' = id ∧ Refused ending info x
  | ⟨.requested (.aggregate info _ commit) id', x⟩ =>
    id' = id ∧ Refused (Context.endingFor commit) info x
  | ⟨.signalled (.settleSend a _), x⟩ => ∃ A ending, x.aggregates[a]? = some A ∧
    A.request.completion = id ∧
    Refused ending { A.info with inDoubt := A.info.inDoubt || failed x } x
  | _ => False

/-- Whoever is told of an illegal state has just made a call that is refused. -/
def Blamed (id : Nat) (r : Resolution Unit) (past : List Entry) : Prop :=
  r.Legal ∨ ∃ e earlier, past = e :: earlier ∧ e.Refuses id

/-- At most one link has not closed. -/
def Alone (x : Client Nat) : Prop :=
  ∀ (l l' : Nat) (k k' : Link Nat), x.links[l]? = some k → x.links[l']? = some k' →
    k.state ≠ .closed → k'.state ≠ .closed → l = l'

/-- What is to be seen at an entry, with all that went before, of foreign code with these manners. -/
def Entry.Good (how : Manners) (e : Entry) (past : List Entry) : Prop :=
  Alone e.client ∧ match e.event with
    | .sent l _ r => HandedOver l r e.client past
    | .resolved .. => (how.Civil → Coherent e.client past) ∧ (how.Tame → InProgress e.client past)
    | .returned failure => (how.Civil → Coherent e.client past) ∧
      (how.Tame → failure = none ∧ InProgress e.client past)
    | _ => True

end Transact.Adversary
