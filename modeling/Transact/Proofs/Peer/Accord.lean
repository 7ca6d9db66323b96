import Transact.Proofs.Peer.Runs

/-! # The broker and its clients agree

A transaction begins and ends at the broker and at the client at different moments: a request waits in
the loop, and meanwhile either side may close the link. After every step the two agree again on which
transactions are live, under which names, and on which links.

* `Accord`: what is on record is just what sessions are bound to.
* `Calm.accord`: so it is whenever all sessions are at rest.
* `history_accord`: so it is after every step of a run, and no discharge names a transaction that the
  broker does not know. -/

namespace Transact

namespace Phase

variable {κ : Type} {p : Phase κ} {t l : Nat} {y : TxnId} {fail : Bool} {n : Number}

theorem Firm.recorded (h : p.Firm) (hb : p.bound = some (t, y)) : p.recorded = some (t, y) := by
  cases p with
  | active => exact hb
  | discharging slot => cases slot with
    | none => exact h.elim
    | some => exact hb
  | _ => cases hb

theorem recorded_of_asks (h : (n, .discharge y fail) ∈ p.asks l) :
    ∃ t d, p.recorded = some (t, y) ∧ p.slot = some (l, d) := by
  unfold asks at h
  split at h
  · split at h
    · cases List.mem_singleton.1 h
    · cases h
  · next t _ _ _ _ =>
    split at h
    · next e =>
      obtain ⟨-, rfl, -⟩ : _ ∧ y = _ ∧ _ := by simpa using h
      subst e
      exact ⟨_, _, rfl, rfl⟩
    · cases h
  · cases h

end Phase

namespace Peer

open Run

variable {G : Ledger} {s l t : Nat} {w : State} {p : Phase Waiting} {co : Option Nat} {S : Session}
  {m : Moment} {steps : List Step}

/-! ### Live transactions -/

/-- What the context of a session is bound to: the name of its transaction, with its coordinator link if
that is open. -/
def binding? (w : State) (s : Nat) : Option (Option TxnId × Nat) := do
  let session ← w.outside.sessions[s]?
  let context ← w.client.contexts[session.context]?
  let transaction ← context.current
  let l ← context.coordinator
  let link ← w.client.links[l]?
  if link.state = .opened then some (w.client.transactions[transaction]?.bind (·.hint), l) else none

/-- The live transactions as the clients have them. -/
def bindings (w : State) : List (Option TxnId × Nat) :=
  (List.range w.outside.sessions.size).filterMap (binding? w)

/-- The live transactions as the broker has them, each with the link that declared it. -/
def recordings (w : State) : List (Option TxnId × Nat) :=
  w.outside.broker.transactions.entries.map fun e => (some e.1, e.2.link)

/-- **The broker and its clients agree:** the live transactions of the broker are those that sessions are
bound to, one for each session whose coordinator link is open. No two have the same name or the same
link. -/
structure Accord (w : State) : Prop where
  perm : (recordings w).Perm (bindings w)
  names : ((recordings w).map (·.1)).Nodup
  links : ((recordings w).map (·.2)).Nodup

/-- What the broker answers at this moment, if the oldest task asks for an answer on an open link. -/
def Moment.settlement? (m : Moment) : Option Settlement :=
  match m.step, m.before.outside.loop.tasks.head? with
  | .runOne, some (_, .answer l _ request) =>
    if m.before.outside.endpoints[l]?.any (·.isActive) then
      some (m.before.outside.broker.answer l request).1
    else none
  | _, _ => none

/-! ### Agreement at rest -/

theorem hint_eq : w.client.transactions[t]?.bind (·.hint) = (w.client.transaction t).hint := by
  unfold Client.transaction
  cases w.client.transactions[t]? <;> rfl

theorem binding?_eq_some {y : Option TxnId} : binding? w s = some (y, l) ↔
    ∃ S C t k, w.outside.sessions[s]? = some S ∧ w.client.contexts[S.context]? = some C ∧
      C.current = some t ∧ C.coordinator = some l ∧ w.client.links[l]? = some k ∧
      k.state = .opened ∧ (w.client.transaction t).hint = y := by
  simp only [binding?, hint_eq, Option.bind_eq_bind, Option.bind_eq_some_iff]
  constructor
  · rintro ⟨S, hS, C, hC, t, ht, l', hl, k, hk, e⟩
    split at e
    · next ho =>
      obtain ⟨rfl, rfl⟩ := Prod.mk.inj (Option.some.inj e)
      exact ⟨S, C, t, k, hS, hC, ht, hl, hk, ho, rfl⟩
    · cases e
  · rintro ⟨S, C, t, k, hS, hC, ht, hl, hk, ho, rfl⟩
    exact ⟨S, hS, C, hC, t, ht, l, hl, k, hk, if_pos ho⟩

theorem Rest.binding (hr : Rest G s p co S w) {y : Option TxnId} : binding? w s = some (y, l) ↔
    ∃ t z k, p.recorded = some (t, z) ∧ y = some z ∧ co = some l ∧ w.client.links[l]? = some k ∧
      k.state = .opened := by
  obtain ⟨C, hC, at_⟩ := hr.seat.tables.context
  have hC : w.client.contexts[s]? = some C := hC
  rw [binding?_eq_some]
  constructor
  · rintro ⟨S', C', t, k, hS, hC', ht, hl, hk, ho, hy⟩
    obtain rfl := Option.some.inj (hr.session.symm.trans hS)
    rw [hr.context] at hC'
    obtain rfl := Option.some.inj (hC.symm.trans hC')
    obtain ⟨⟨t', z⟩, bound, rfl⟩ := Option.map_eq_some_iff.1 (at_.current.symm.trans ht)
    refine ⟨t', z, k, hr.firm.recorded bound, ?_, at_.coordinator.symm.trans hl, hk, ho⟩
    rw [← hy]
    exact hr.seat.tables.hint t' z bound
  · rintro ⟨t, z, k, recorded, rfl, rfl, hk, ho⟩
    have bound := Phase.bound_of_recorded recorded
    refine ⟨S, C, t, k, hr.session, by rw [hr.context, hC], ?_, at_.coordinator, hk, ho,
      hr.seat.tables.hint t z bound⟩
    rw [at_.current, bound]
    rfl

theorem Calm.holder (h : Calm G w) {y : TxnId} {r : Record}
    (hr : w.outside.broker.transactions.get? y = some r) :
    ∃ s p co S t k, G.owners[r.link]? = some s ∧ Rest G s p co S w ∧ p.recorded = some (t, y) ∧
      co = some r.link ∧ w.client.links[r.link]? = some k ∧ k.state = .opened := by
  obtain ⟨k, hk, ho⟩ := h.common.opened y r hr
  obtain ⟨s, p, co, S, hl, rest⟩ := h.owner hk
  obtain ⟨t, recorded⟩ := rest.seat.alone y r hr hl
  exact ⟨s, p, co, S, t, k, hl, rest, recorded, (rest.seat.tables.link r.link k hl hk).opened ho, hk, ho⟩

theorem Calm.mem_bindings (h : Calm G w) (hx : Distinct w) {e : Option TxnId × Nat} :
    e ∈ bindings w ↔ e ∈ recordings w := by
  obtain ⟨y, l⟩ := e
  simp only [bindings, recordings, List.mem_filterMap, List.mem_range, List.mem_map]
  constructor
  · rintro ⟨s, hs, e⟩
    obtain ⟨p, co, S, hr⟩ := h.settled s hs
    obtain ⟨t, z, k, recorded, rfl, hl, hk, ho⟩ := hr.binding.1 e
    obtain ⟨-, r, hz, rfl, -⟩ := hr.seat.record hx t z l k recorded hl hk (by simp [ho])
    exact ⟨(z, r), Roll.mem_of_get? hz, rfl⟩
  · rintro ⟨⟨z, r⟩, hz, e⟩
    obtain ⟨rfl, rfl⟩ := Prod.mk.inj e
    obtain ⟨s, p, co, S, t, k, hl, hr, recorded, hco, hk, ho⟩ :=
      h.holder (Roll.get?_of_mem h.common.sound.transactions hz)
    exact ⟨s, h.common.owner r.link s hl, hr.binding.2 ⟨t, z, k, recorded, rfl, hco, hk, ho⟩⟩

theorem Calm.nodup_bindings (h : Calm G w) : (bindings w).Nodup := by
  refine List.nodup_range.filterMap fun s s' e hs hs' => ?_
  obtain ⟨y, l⟩ := e
  have owner {s : Nat} (e : binding? w s = some (y, l)) : G.owners[l]? = some s := by
    obtain ⟨S, -, -, -, hS, -⟩ := binding?_eq_some.1 e
    obtain ⟨p, co, S, hr⟩ := h.settled s (Array.getElem?_eq_some_iff.1 hS).1
    obtain ⟨-, -, -, -, -, hl, -⟩ := hr.binding.1 e
    exact (hr.seat.tables.coordinator l hl).1
  exact Option.some.inj ((owner hs).symm.trans (owner hs'))

/-- **At rest, the broker and its clients agree.** -/
theorem Calm.accord (h : Calm G w) (hx : Distinct w) : Accord w := by
  have keys := h.common.sound.transactions
  have names : ((recordings w).map (·.1)).Nodup := by
    rw [recordings, List.map_map, show ((·.1) ∘ fun e : TxnId × Record => (some e.1, e.2.link)) =
      some ∘ (·.1) from rfl, ← List.map_map]
    exact keys.map fun _ _ => Option.some.inj
  refine ⟨(List.perm_ext_iff_of_nodup names.of_map h.nodup_bindings).2 fun e => (h.mem_bindings hx).symm,
    names, ?_⟩
  rw [recordings, List.map_map]
  refine List.Nodup.map_on (fun e he e' he' (same : e.2.link = e'.2.link) => ?_) keys.of_map
  -- Both belong to the owner of the link, which has one transaction on record.
  have got := Roll.get?_of_mem keys (k := e.1) (a := e.2) he
  have got' := Roll.get?_of_mem keys (k := e'.1) (a := e'.2) he'
  obtain ⟨s, p, co, S, t, k, hl, hr, recorded, -⟩ := h.holder got
  obtain ⟨t', recorded'⟩ := hr.seat.alone e'.1 e'.2 got' (same ▸ hl)
  have name : e.1 = e'.1 := (Prod.mk.inj (Option.some.inj (recorded.symm.trans recorded'))).2
  exact Prod.ext name (Option.some.inj (got.symm.trans (name ▸ got')))

/-- **A discharge that is answered next** names a transaction that is on record. -/
theorem Calm.known (h : Calm G w) (hx : Distinct w) {n : Number} {y : TxnId} {fail : Bool}
    {ts : List Task} (ht : tasks w = .answer l n (.discharge y fail) :: ts) {e : Endpoint}
    (he : w.outside.endpoints[l]? = some e) (ha : e.isActive = true) :
    ∃ r, w.outside.broker.transactions.get? y = some r := by
  have placed := h.common.placed _ (ht ▸ List.mem_cons_self) l rfl
  obtain ⟨k, hk⟩ : ∃ k, w.client.links[l]? = some k := ⟨_, Array.getElem?_eq_getElem placed⟩
  obtain ⟨s, p, co, S, hl, hr⟩ := h.owner hk
  have open_ : k.state ≠ .closed := by
    intro closed
    obtain ⟨e', he', -, follows⟩ := h.common.sync l k hk
    obtain rfl := Option.some.inj (he.symm.trans he')
    rw [closed] at follows
    rw [Endpoint.isActive, show e.closed = true from follows, Bool.not_true, Bool.and_false] at ha
    cases ha
  have asks : (n, .discharge y fail) ∈ p.asks l := by
    rw [← hr.seat.asked l k hl hk open_, ht]
    exact List.mem_filterMap.2 ⟨_, List.mem_cons_self, if_pos rfl⟩
  obtain ⟨t, d, recorded, slot⟩ := Phase.recorded_of_asks asks
  obtain ⟨hco, -⟩ := hr.seat.tables.slot l d slot
  obtain ⟨-, r, hy, -⟩ := hr.seat.record hx t y l k recorded hco hk open_
  exact ⟨r, hy⟩

theorem Broker.get?_of_unknown {b : Broker} {request : Request} {y : TxnId}
    (h : (b.answer l request).1 = .rejected (some (unknownTransaction y))) :
    ∃ z fail, request = .discharge z fail ∧ b.transactions.get? z = none := by
  cases request with
  | declare =>
    simp only [answer, declare] at h
    split at h <;> simp [declareRefused, unknownTransaction] at h
  | discharge z fail =>
    refine ⟨z, fail, rfl, ?_⟩
    cases hr : b.transactions.get? z with
    | none => rfl
    | some r =>
      simp only [answer, discharge, hr] at h
      split at h
      · simp [dischargeRefused, unknownTransaction] at h
      · split at h <;> cases h

theorem Calm.settlement_ne (h : Calm G m.before) (hx : Distinct m.before) (y : TxnId) :
    m.settlement? ≠ some (.rejected (some (Broker.unknownTransaction y))) := by
  intro e
  unfold Moment.settlement? at e
  split at e
  · next l n request _ head =>
    split at e
    · next active =>
      obtain ⟨z, fail, rfl, none⟩ := Broker.get?_of_unknown (Option.some.inj e)
      cases side : m.before.outside.endpoints[l]? with
      | none => simp [side] at active
      | some x =>
        rw [side] at active
        obtain ⟨ts, ht⟩ := tasks_of_head head
        obtain ⟨r, hr⟩ := h.known hx ht side active
        cases none.symm.trans hr
    · cases e
  · cases e

/-! ### What a history shows -/

/-- **The broker and its clients agree** after every step of a run, and no discharge is answered by saying
that the transaction is unknown. -/
theorem history_accord {refusesLinks : Bool} {steps : List Step}
    (hb : ∀ m ∈ history refusesLinks steps, Bounded m.after) :
    ∀ m ∈ history refusesLinks steps, Accord m.after ∧
      ∀ y, m.settlement? ≠ some (.rejected (some (Broker.unknownTransaction y))) := by
  obtain ⟨before, -⟩ := play_before (bounded_initial refusesLinks) hb
  intro m hm
  obtain ⟨⟨G, h⟩, G', h'⟩ := calm_initial.play (fun m hm => (before m hm).countable) hm
  exact ⟨h'.accord (hb m hm).distinct, h.settlement_ne (before m hm).distinct⟩

/-- Two sessions begin. The link of one of them is closed, and the other one commits. -/
def accordSteps : List Step :=
  [.newSession ⟨"c", .ofNat 1⟩ {}, .newSession ⟨"c", .ofNat 2⟩ {}, .start 0, .start 1, .runOne, .runOne,
    .runOne, .runOne, .closeRemotely 1 none, .runOne, .finish 0 .commit, .runOne]

theorem history_accord_two :
    (∀ m ∈ history false accordSteps, Bounded m.after) ∧
    (∃ m ∈ history false accordSteps, (recordings m.after).length = 2 ∧
      (bindings m.after).length = 2) ∧
    ∃ m ∈ history false accordSteps, (recordings m.before).map (·.2) = [0] ∧
      m.settlement? = some .accepted ∧ bindings m.after = [] := by
  have bounded : ∀ m ∈ history false accordSteps, Bounded m.after := by decide +kernel
  have accord := history_accord bounded
  have two : ∃ m ∈ history false accordSteps, (recordings m.after).length = 2 := by decide +kernel
  have last : ∃ m ∈ history false accordSteps, (recordings m.before).map (·.2) = [0] ∧
      m.settlement? = some .accepted ∧ recordings m.after = [] := by decide +kernel
  obtain ⟨m, hm, both⟩ := two
  obtain ⟨m', hm', one, accepted, gone⟩ := last
  refine ⟨bounded, ⟨m, hm, both, (accord m hm).1.perm.length_eq ▸ both⟩, m', hm', one, accepted, ?_⟩
  exact List.nil_perm.1 (gone ▸ (accord m' hm').1.perm)

end Peer

end Transact
