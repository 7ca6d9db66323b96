import Transact.Proofs.Client.Phase
import Transact.Proofs.Peer.Consumers
import Transact.Proofs.Peer.Ledger

/-! # The invariant

Every session has a phase. It says what the tables of the client hold for the session, which of its
requests wait in the loop, what the broker has on record, and what the session itself remembers.
`Settled` says that all of this fits together for one session, `Common` what holds of the whole, and
`Calm` is both, with every session at rest.

While a session is at work, `Turn` keeps hold of the phase it has reached, of everything else, and by
`Since` of what has changed since the work began. -/

namespace Transact

/-! ### What a phase asks of the broker -/

namespace Phase

variable {κ : Type}

/-- The requests on the link `l` that wait in the loop. -/
def asks (l : Nat) : Phase κ → List (Number × Request)
  | declaring (some (l', d)) .. => if l' = l then [(.ofIndex d, .declare)] else []
  | discharging (some (l', d)) _ y _ commit _ =>
    if l' = l then [(.ofIndex d, .discharge y (!commit))] else []
  | _ => []

/-- The transaction that the broker has on record. -/
def recorded : Phase κ → Option (Nat × TxnId)
  | active t y | discharging (some _) t y .. => some (t, y)
  | _ => none

/-- Consumers may hold what they have received. -/
def Holding : Phase κ → Prop
  | active .. => True
  | _ => False

/-- The link and the name of a transaction that is being discharged: it takes no more messages. -/
def sealing : Phase κ → Option (Nat × TxnId)
  | discharging (some (l, _)) _ y .. => some (l, y)
  | _ => none

/-- The transaction that the phase is about. -/
def transaction : Phase κ → Option Nat
  | idle => none
  | opening _ t .. | declaring _ t .. | active t _ | discharging _ t .. => some t

variable {p : Phase κ} {t l : Nat} {y : TxnId}

theorem transaction_of_bound (h : p.bound = some (t, y)) : p.transaction = some t := by
  cases p <;> simp_all [bound, transaction]

theorem bound_of_recorded (h : p.recorded = some (t, y)) : p.bound = some (t, y) := by
  unfold recorded at h
  split at h <;> simp_all [bound]

/-- What is not bound is not recorded, and nobody holds anything. -/
theorem recorded_eq_none (h : p.bound = none) : p.recorded = none := by
  refine Option.eq_none_iff_forall_ne_some.2 fun ⟨t, y⟩ e => ?_
  cases h.symm.trans (bound_of_recorded e)

theorem not_holding (h : p.bound = none) : ¬ p.Holding := by
  cases p with
  | active => cases h
  | _ => exact id

theorem asks_of_slot (h : ∀ d, p.slot ≠ some (l, d)) : p.asks l = [] := by
  unfold Phase.asks
  split <;> simp_all [slot]

theorem asks_slot {d : Nat} (h : p.slot = some (l, d)) :
    ∃ request, p.asks l = [(.ofIndex d, request)] := by
  cases p with
  | declaring =>
    cases h
    exact ⟨_, if_pos rfl⟩
  | discharging =>
    cases h
    exact ⟨_, if_pos rfl⟩
  | _ => cases h

theorem recorded_loose {a : Nat × Nat} (h : p.slot = some a) : p.loose.recorded = none := by
  cases p <;> first | rfl | cases h

theorem Still.asks (h : p.Still) : p.asks l = [] := by
  exact asks_of_slot (by simp [h.2])

theorem Still.sealing (h : p.Still) : p.sealing = none := by
  obtain ⟨-, h⟩ := h
  unfold Phase.sealing
  split <;> simp_all [slot]

theorem loose_transaction : p.loose.transaction = p.transaction := by
  cases p <;> rfl

theorem holding_loose (h : p.Holding) : p.loose.Holding := by
  cases p with
  | active => exact h
  | _ => exact h.elim

theorem Still.loose (h : p.Still) : p.loose = p := by
  obtain ⟨hb, hs⟩ := h
  cases p <;> simp_all [Phase.loose, Phase.building, Phase.slot]

/-- What is being discharged is bound, and its request is the outstanding one. -/
theorem sealing_eq_some (h : p.sealing = some (l, y)) :
    ∃ d t, p.slot = some (l, d) ∧ p.bound = some (t, y) := by
  unfold sealing at h
  split at h
  · next l' d t y' _ _ _ =>
    obtain ⟨rfl, rfl⟩ : l' = l ∧ y' = y := by simpa using h
    exact ⟨d, t, rfl, rfl⟩
  · cases h

end Phase

namespace Peer

/-! ### What holds of a session -/

/-- The session is not in a transaction. -/
structure Session.Free (S : Session) : Prop where
  current : S.current = none
  discharging : S.discharging = false
  aggregate : S.aggregate = none
  failedSend : S.failedSend = none
  outstanding : S.outstanding = 0

/-- The endpoint is as the link has it. -/
def Endpoint.Follows (e : Endpoint) : LinkState → Prop
  | .building => e.opened = false ∧ e.closed = false
  | .opened => e.opened = true ∧ e.closed = false
  | .closed => e.closed = true

theorem Endpoint.Follows.closed {e : Endpoint} {state : LinkState} (h : e.Follows state)
    (hs : state ≠ .closed) : e.closed = false := by
  cases state with
  | closed => exact absurd rfl hs
  | _ => exact h.2

namespace Ledger

variable (G : Ledger)

/-- The part of the client's tables that is a session's own. -/
def frame (s : Nat) : Frame := ⟨s, fun l => G.owners[l]? = some s, fun l e => e = l⟩

/-- The token that is told how a begin ended. -/
def Begins (x : Client Waiting) (s t : Nat) (S : Session) (q : Token Waiting) : Prop :=
  ∃ b, q = .client b (.begun s t) ∧ S.beginning = some b ∧ G.Live x b .begun t

/-- The token that is told how a discharge ended. A success means that the transaction has ended as
the caller wanted; where a rollback takes the place of a commit, there is only failure. -/
inductive Ends (x : Client Waiting) (s t : Nat) : Bool → Token Waiting → Prop
  | plain {commit : Bool} {outcome report : Nat} (h : G.Live x outcome .outcome t)
    (h' : G.Live x report (.report (Context.endingFor commit)) t) :
    Ends x s t commit (.client outcome (.ended s report))
  | swapped {ending : Ending} {id outcome report : Nat} {f : Failure} (hf : f.Legal)
    (hi : G.Live x id .swapped t) (h : G.Live x outcome .outcome t)
    (h' : G.Live x report (.report ending) t) :
    Ends x s t false (.instead id f (.client outcome (.ended s report)))

/-- The aggregate waits for so many sends of the session, at least one. -/
structure Awaits (x : Client Waiting) (s t k : Nat) (A : Aggregate Waiting) : Prop where
  context : A.context = s
  info : A.info.transaction = t
  pending : A.sends.pending = .ofNat k
  positive : 0 < k
  countable : k ≤ Number.countLimit
  commit : A.sends.commit → A.commit
  request : ∃ outcome report, A.request = .client outcome (.ended s report) ∧
    G.Live x outcome .outcome t ∧ G.Live x report (.report (Context.endingFor A.commit)) t

/-- The aggregate of the session waits for no send any more. -/
def Counted (x : Client Waiting) (s i : Nat) : Prop :=
  ∃ A : Aggregate Waiting, x.aggregates[i]? = some A ∧ A.context = s ∧ A.sends.pending = .ofNat 0

/-- What a session remembers in a phase. One that is idle has begun nothing yet, or its latest begin has
failed. -/
def Stance (x : Client Waiting) (s : Nat) (S : Session) : Phase Waiting → Prop
  | .idle => S.Free ∧ ∀ b : Nat, S.beginning = some b →
    ∃ f, x.completions[b]? = some (.settled (.failed f))
  | .opening _ t openId declareId q =>
    S.Free ∧ G.Live x openId .opened t ∧ G.Live x declareId .declared t ∧ G.Begins x s t S q
  | .declaring _ t declareId q => S.Free ∧ G.Live x declareId .declared t ∧ G.Begins x s t S q
  | .active t _ => S.current = some t ∧
    (S.discharging = false ∧ S.aggregate = none ∧ (S.failedSend = none → G.Clean t) ∨
      S.discharging = true ∧ ∃ a A, S.aggregate = some a ∧ x.aggregates[a]? = some A ∧
        G.Awaits x s t S.outstanding A ∧ (A.sends.commit → G.Clean t))
  | .discharging _ t _ id commit q => S.current = some t ∧ S.discharging = true ∧
    S.outstanding = 0 ∧ G.Live x id .discharged t ∧ G.Ends x s t commit q ∧ (commit → G.Clean t) ∧
    ∀ i : Nat, S.aggregate = some i → Counted x s i

/-- **What the callers of a session wait for:** the latest begin, while it is in no transaction, and the
end of the transaction that it is in. A failure that it keeps for the end is that of a send in this
transaction. -/
structure Dues (x : Client Waiting) (s : Nat) (S : Session) : Prop where
  started : S.current.isSome → S.beginning.isSome
  begun : ∀ c t : Nat, G.homes[t]? = some s → G.Live x c .begun t →
    S.beginning = some c ∧ S.current = none
  report : ∀ (c : Nat) (ending : Ending) (t : Nat), G.homes[t]? = some s →
    G.Live x c (.report ending) t → S.current = some t ∧ S.discharging = true
  alone : ∀ (c c' : Nat) (ending ending' : Ending) (t : Nat), G.homes[t]? = some s →
    G.Live x c (.report ending) t → G.Live x c' (.report ending') t → c = c'
  failed : ∀ f, S.failedSend = some f → ∃ t : Nat, S.current = some t ∧ G.homes[t]? = some s ∧ G.Fails t f

end Ledger

/-- What the tables, the loop and the broker hold for a session in a phase. What the broker holds is
known as long as no name was given twice. -/
structure Seat (G : Ledger) (s : Nat) (p : Phase Waiting) (co : Option Nat) (w : State) :
    Prop where
  tables : At (G.frame s) p co w.client
  asked : ∀ l k, G.owners[l]? = some s → w.client.links[l]? = some k → k.state ≠ .closed →
    asked l (tasks w) = p.asks l
  closing : Distinct w → ∀ l y, p.sealing = some (l, y) → Sealed l y (tasks w)
  record : Distinct w → ∀ t y l k, p.recorded = some (t, y) → co = some l → w.client.links[l]? = some k →
    k.state ≠ .closed → G.Known t ∧ ∃ r, w.outside.broker.transactions.get? y = some r ∧
      r.link = l ∧ r.staged.toList = G.staged t
  home : ∀ t, p.transaction = some t → G.homes[t]? = some s ∧ ¬ G.Concluded w.client t
  unnamed : ∀ t, p.transaction = some t → p.bound = none → (w.client.transaction t).hint = none
  alone : ∀ y r, w.outside.broker.transactions.get? y = some r → G.owners[r.link]? = some s →
    ∃ t, p.recorded = some (t, y)
  enrolled : ∀ (C : Context), w.client.contexts[s]? = some C → ∀ e ∈ C.registry.consumers.entries,
    ∃ k, w.outside.consumers[e.2]? = some k ∧ k.session = s ∧ k.id.text = e.1
  holding : Exact w → ∀ (c : Nat) (k : Consumer), w.outside.consumers[c]? = some k →
    k.session = s → k.received ≠ [] → p.Holding ∧ ∃ C, w.client.contexts[s]? = some C ∧
      (k.id.text, c) ∈ C.registry.consumers.entries

/-- A session has done its work for the time being: what it waits for waits in the loop. -/
structure Stands (G : Ledger) (s : Nat) (p : Phase Waiting) (S : Session) (w : State) : Prop where
  firm : p.Firm
  stance : G.Stance w.client s S p
  opens : ∀ l, p.building = some l → ∃ job ∈ tasks w, job.opens? = some l

/-- **A session at rest.** -/
structure Rest (G : Ledger) (s : Nat) (p : Phase Waiting) (co : Option Nat) (S : Session)
    (w : State) : Prop extends Stands G s p S w where
  seat : Seat G s p co w
  dues : G.Dues w.client s S
  session : w.outside.sessions[s]? = some S
  context : S.context = s
  count : S.outstanding = G.unsettled s
  current : ∀ x ∈ G.waiting, x.session = s → x.receipt.isSome → S.current = some x.transaction

/-- The session is at rest, wherever it stands. -/
def Settled (G : Ledger) (s : Nat) (w : State) : Prop := ∃ p co S, Rest G s p co S w

/-! ### What holds of the whole -/

/-- What holds at any time. `due` is a transaction that was committed while its caller has not been
told yet. What depends on the names of transactions holds as long as no name was given twice. -/
structure Common (G : Ledger) (due : Option Nat) (w : State) : Prop where
  contexts : w.client.contexts.size = w.outside.sessions.size
  endpoints : w.outside.endpoints.size = w.client.links.size
  owners : G.owners.length = w.client.links.size
  purposes : G.purposes.length = w.client.completions.size
  homes : G.homes.length = w.client.transactions.size
  owner : ∀ (l s : Nat), G.owners[l]? = some s → s < w.outside.sessions.size
  home : ∀ (t s : Nat), G.homes[t]? = some s → s < w.outside.sessions.size
  producer : ∀ (i : Nat) (k : Producer), w.outside.producers[i]? = some k →
    k.session < w.outside.sessions.size
  consumer : ∀ (i : Nat) (k : Consumer), w.outside.consumers[i]? = some k →
    k.session < w.outside.sessions.size
  called : ∀ (c : Nat) (a : Purpose) (t : Nat),
    G.purposes[c]? = some (a, t) → a.ofCaller → t < G.homes.length
  sync : ∀ (l : Nat) (k : Link Waiting), w.client.links[l]? = some k →
    ∃ e, w.outside.endpoints[l]? = some e ∧ e.listener = .link l ∧ e.Follows k.state
  placed : ∀ job ∈ tasks w, ∀ l, job.link? = some l → l < w.client.links.size
  transfers : (tasks w).filter (·.isTransfer) = G.waiting.map (·.task)
  indices : (G.parcels.map (·.index)).Pairwise (· < ·)
  numbered : ∀ x ∈ G.parcels, x.index < w.outside.transfers
  deposits : ∀ job ∈ tasks w, ∀ i, job.deposit? = some i → G.Stray w.outside.transfers i
  parcel : ∀ x ∈ G.parcels, G.homes[x.transaction]? = some x.session ∧
    (w.client.transaction x.transaction).hint = some x.txnId
  receipt : ∀ x ∈ G.waiting, ∀ r, x.receipt = some r →
    G.Live w.client r.1 .sent x.index ∧ G.Live w.client r.2 .told x.index
  names : ∀ t y, (w.client.transaction t).hint = some y →
    ∃ n, n < w.outside.broker.txnCounter ∧ y = .ofCounter n
  named : Distinct w → ∀ t t' y, (w.client.transaction t).hint = some y →
    (w.client.transaction t').hint = some y → t = t'
  counter : w.outside.broker.txnCounter + (tasks w).countP (·.isDeclare) ≤ declares w + 1
  held : Distinct w → ∀ d, w.outside.broker.Holds d → ∀ t, G.Tagged d.tag t →
    G.Concluded w.client t ∨ due = some t
  tags : (G.taken.filterMap (·.2.delivery?)).Pairwise (·.tag < ·.tag)
  fresh : ∀ e ∈ G.taken, ∀ d, e.2.delivery? = some d →
    d.tag < w.outside.broker.tagCounter ∧ d.address = e.1.address ∧ d.body = e.1.body
  sound : w.outside.broker.Sound
  opened : ∀ y r, w.outside.broker.transactions.get? y = some r →
    ∃ k, w.client.links[r.link]? = some k ∧ k.state = .opened
  roster : Roster w.outside.sessions w.outside.consumers
  custody : Exact w → w.outside.broker.lent = buffered w.outside.consumers

theorem Common.stray {G : Ledger} {due : Option Nat} {w : State} {l : Nat} (h : Common G due w)
    (hl : w.client.links.size ≤ l) : asked l (tasks w) = [] := by
  refine List.filterMap_eq_nil_iff.2 fun job hj => Task.asks_eq_none fun e => ?_
  have := h.placed job hj l e
  omega

/-- **All sessions are at rest.** -/
structure Calm (G : Ledger) (w : State) : Prop where
  common : Common G none w
  settled : ∀ s, s < w.outside.sessions.size → Settled G s w

/-! ### A session at work -/

/-- From `w` to `w'` the run goes on: what was settled stays so, what was sent is sent, what was counted
is counted, and a session that was started stays started. -/
structure Onward (w w' : State) : Prop where
  kept : Keeps w.client w'.client
  declares : declares w ≤ declares w'
  tagCounter : w.outside.broker.tagCounter ≤ w'.outside.broker.tagCounter
  consumers : w.outside.consumers.size ≤ w'.outside.consumers.size
  transfers : w.outside.transfers ≤ w'.outside.transfers
  started : ∀ (s : Nat) (S : Session), w.outside.sessions[s]? = some S → S.beginning.isSome →
    ∃ S', w'.outside.sessions[s]? = some S' ∧ S'.beginning.isSome

namespace Onward

variable {v w w' : State}

theorem trans (h : Onward v w) (h' : Onward w w') : Onward v w' where
  kept := h.kept.trans h'.kept
  declares := Nat.le_trans h.declares h'.declares
  tagCounter := Nat.le_trans h.tagCounter h'.tagCounter
  consumers := Nat.le_trans h.consumers h'.consumers
  transfers := Nat.le_trans h.transfers h'.transfers
  started s S hS hb := by
    obtain ⟨S', hS', hb'⟩ := h.started s S hS hb
    exact h'.started s S' hS' hb'

theorem of_same (hc : w'.client.completions = w.client.completions)
    (hr : w'.outside.requests = w.outside.requests)
    (hs : w'.outside.sessions = w.outside.sessions)
    (ht : w.outside.broker.tagCounter ≤ w'.outside.broker.tagCounter)
    (hn : w.outside.consumers.size ≤ w'.outside.consumers.size)
    (hi : w.outside.transfers ≤ w'.outside.transfers) : Onward w w' where
  kept := .of_eq hc
  declares := Nat.le_of_eq (by rw [Peer.declares, Peer.declares, hr])
  tagCounter := ht
  consumers := hn
  transfers := hi
  started s S hS hb := ⟨S, by rw [hs, hS], hb⟩

theorem refl (w : State) : Onward w w := .of_same rfl rfl rfl le_rfl le_rfl le_rfl

theorem distinct (h : Onward w w') (hd : Distinct w') : Distinct w := Nat.lt_of_le_of_lt h.declares hd

theorem changeSession {s : Nat} {f : Session → Session} (hb : ∀ S, w.outside.sessions[s]? = some S →
    S.beginning.isSome → (f S).beginning.isSome) : Onward w (w.out (·.changeSession s f)) where
  __ := Onward.refl w
  started i S hS h := by
    by_cases e : i = s
    · subst e
      exact ⟨f S, Outside.changeSession_same hS, hb S hS h⟩
    · exact ⟨S, (Outside.changeSession_other e).trans hS, h⟩

theorem of_keeps {f : Client Waiting → Client Waiting} (h : Keeps w.client (f w.client)) :
    Onward w (w.on f) := { Onward.refl w with kept := h }

end Onward

/-- Where the work of a session began. If it is `quiet`, the broker stays as it is. -/
structure Origin where
  ledger : Ledger
  state : State
  due : Option Nat
  quiet : Prop

/-- What is still as it was at the origin, and what may have changed. -/
structure Since (o : Origin) (G : Ledger) (w : State) : Prop where
  taken : G.taken = o.ledger.taken
  waiting : G.waiting = o.ledger.waiting
  told : ∀ id n, o.ledger.Live o.state.client id .told n → G.Live w.client id .told n
  concluded : ∀ t, G.Concluded w.client t →
    o.ledger.Concluded o.state.client t ∨ o.due = some t
  onward : Onward o.state w
  purposes : ∀ (c : Nat) (a : Purpose) (n : Nat), o.ledger.purposes[c]? = some (a, n) →
    G.purposes[c]? = some (a, n)
  reports : ∀ (c : Nat) (ending : Ending) (t : Nat), G.purposes[c]? = some (.report ending, t) ↔
    o.ledger.purposes[c]? = some (.report ending, t)
  homes : ∀ (t s : Nat), o.ledger.homes[t]? = some s → G.homes[t]? = some s
  transfers : w.outside.transfers = o.state.outside.transfers
  broker : o.quiet → w.outside.broker = o.state.outside.broker
  lawful : Lawful o.state.client w.client
  counted : ∀ s i, Ledger.Counted o.state.client s i → Ledger.Counted w.client s i
  shift : Shift o.state.outside.broker w.outside.broker

/-- **A session at work,** which has reached this phase. -/
structure Turn (o : Origin) (G : Ledger) (due : Option Nat) (s : Nat) (p : Phase Waiting)
    (co : Option Nat) (S : Session) (w : State) : Prop where
  common : Common G due w
  others : ∀ i, i < w.outside.sessions.size → i ≠ s → Settled G i w
  seat : Seat G s p co w
  dues : G.Dues w.client s S
  session : w.outside.sessions[s]? = some S
  context : S.context = s
  count : S.outstanding = G.unsettled s
  current : ∀ x ∈ G.waiting, x.session = s → x.receipt.isSome → S.current = some x.transaction
  due : ∀ t, due = some t → o.due = some t
  since : Since o G w

end Peer

end Transact
