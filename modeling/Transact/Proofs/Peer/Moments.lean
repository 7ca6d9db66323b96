import Transact.Proofs.Peer.Control

/-! # One step of a run

Every step of a run begins with all sessions at rest and ends so. It may add a message, take one in,
or ask for the end of a transaction, and what it adds can be read off the moment of the run.

* `Calm.runOne`: a task of the loop.
* `Calm.moment`: every step. -/

namespace Transact.Peer

open Run

variable {G G' : Ledger} {w w' : State} {m : Moment} {step : Step}

/-! ### What is seen of a step -/

/-- A consumer was asked to receive, and raised that its session is in no active transaction. -/
def Misses (step : Step) (e : Halt) : Prop :=
  ∃ c id, step = .receive c ∧ e = .raised (Problem.receiveOutside id).toFailure

/-- What a step adds is what is seen of it, and who calls is answered.

* `refused`: a caller who asked for the end of a transaction and was refused is given a completion
  that has failed.
* `intake`: what is taken in is a message of the ledger, or one from elsewhere.
* `sent`: who sends a message is given the completion that is told of it.
* `told`: who has sent a message that is taken in is told what became of it.
* `returned`: whoever was given a completion can be told of it.
* `new`: the completion that is returned is the next one.
* `declined`: of a call that was refused nothing comes but a completion that has failed.
* `raised`: nothing is raised but by a receive outside a transaction, which changes nothing. -/
structure Shows (m : Moment) (g : Gain) (G' : Ledger) : Prop where
  message : g.parcel?.map (·.message) = m.message?
  intake : g.intake?.map (fun e => (e.1.index, e.2.delivery?)) = m.intake? ∨
    g.intake? = none ∧ ∃ e, m.intake? = some e ∧ G'.Stray m.after.outside.transfers e.1
  asks : ∀ c ending t, g = .asked c ending t → m.Asks ending t c
  refused : ∀ c ending t, m.Asks ending t c → g = .asked c ending t ∨
    ∃ f, m.after.client.completions[c]? = some (.settled (.failed f))
  ran : ∀ t, g = .committed t → m.step = .runOne
  consumed : m.consumed = g.lost m.before
  sent : ∀ x, g = .sent x → ∀ sent c, x.receipt = some (sent, c) → m.reply = .ok (some c) := by simp
  told : ∀ x fate, g = .taken x fate → ∀ sent c, x.receipt = some (sent, c) →
    m.after.client.completions[c]? = some (.settled (fate.resolution x))
  returned : ∀ c, m.reply = .ok (some c) → G'.Promised m.after.client c
  started : ∀ s, m.step = .start s → s < m.before.outside.sessions.size →
    ∃ S, m.after.outside.sessions[s]? = some S ∧ S.beginning.isSome
  done : m.step = .runOne → m.reply = .ok none
  new : ∀ c, m.reply = .ok (some c) → c = m.before.client.completions.size := by simp
  declined : ∀ c, g = .refused c →
    Refuses m.before m.step ∧ m.reply = .ok (some c) ∧ Declines m.before c m.after := by simp
  raised : ∀ e, m.reply = .error e → Misses m.step e ∧ m.after = m.before := by simp

/-- At this moment all sessions stay at rest, and what is added is seen. -/
def Follows (G : Ledger) (m : Moment) : Prop :=
  ∃ g G', Advance G m.before g G' m.after ∧ Shows m g G'

theorem Steady.follows (h : Steady G m.before m.after) (hm : m.message? = none)
    (hi : m.intake? = none) (ha : ∀ ending t c, ¬ m.Asks ending t c)
    (hc : m.consumed = []) (hr : ∀ c, m.reply ≠ .ok (some c))
    (hs : ∀ s, m.step = .start s → m.before.outside.sessions.size ≤ s)
    (hd : m.step = .runOne → m.reply = .ok none)
    (he : ∀ e, m.reply = .error e → Misses m.step e ∧ m.after = m.before) :
    Follows G m := by
  obtain ⟨G', hG⟩ := h
  exact ⟨.nothing, G', hG, {
    message := hm.symm
    intake := .inl hi.symm
    asks := nofun
    refused := fun c ending t e => absurd e (ha ending t c)
    ran := nofun
    consumed := hc
    told := nofun
    returned := fun c e => absurd e (hr c)
    started := fun s e lt => absurd lt (Nat.not_lt.2 (hs s e))
    done := hd
    new := fun c e => absurd e (hr c)
    raised := he }⟩

/-- Steps that are neither a start, nor a send, nor a task, nor the end of a transaction. -/
def Step.Plain : Step → Prop
  | .start .. | .send .. | .finish .. | .runOne => False
  | _ => True

theorem Steady.plain (h : Steady G w w') {reply : Except Halt (Option Nat)} (hp : step.Plain)
    (hr : ∀ c, reply ≠ .ok (some c))
    (he : ∀ e, reply = .error e → Misses step e ∧ w' = w) :
    Follows G ⟨step, w, reply, w'⟩ := by
  cases step with
  | start => cases hp
  | send => cases hp
  | finish => cases hp
  | runOne => cases hp
  | _ =>
    refine Steady.follows h rfl rfl ?_ rfl hr nofun nofun he
    rintro ending t c ⟨s, e, -⟩
    cases e

theorem after_about {α : Type} {table : Outside → Array α} {i : Nat} {x : Peering (Option Nat)}
    {Q : Option Nat → State → Prop} {R : Halt → State → Prop}
    (hnone : (table w.outside).size ≤ i → Q none w)
    (hsome : i < (table w.outside).size → After x w Q R) : After (about table i x) w Q R := by
  unfold about
  rw [after_bind, Act.after_outside]
  split
  · next hi => exact hsome hi
  · next hi => exact hnone (Nat.le_of_not_lt hi)

/-! ### Steps in which something is seen -/

/-- **A task of the loop is run.** It raises nothing. -/
theorem Calm.runOne (h : Calm G w) :
    After (Loop.runOne (exec peer)) w (fun _ w' => Follows G ⟨.runOne, w, .ok none, w'⟩)
      fun _ _ => False := by
  have unasked {w' : State} (ending : Ending) (t c : Nat) :
      ¬ (Moment.mk .runOne w (.ok none) w').Asks ending t c := by
    rintro ⟨s, e, -⟩
    cases e
  refine after_runOne (fun empty => ?_) fun label job loop head first => ?_
  · rw [tasks, List.map_eq_nil_iff] at empty
    have none : w.outside.loop.tasks.head? = none := by
      rw [Queue.head?_eq, empty]
      rfl
    refine h.unmoved.follows rfl ?_ unasked ?_ (by simp) (by simp) (fun _ => rfl) (by simp)
    · rw [Moment.intake?, none]
    · show Peer.consumed w = []
      rw [Peer.consumed, none]
  · have quiet (hj : ∀ i a b st q, job ≠ .transfer i a b st q) {x : Peering Unit} {v : State}
        (hx : After x v (fun _ w' => Steady G w w' ∧ Peer.consumed w = [] ∨ Commits G w w')
          fun _ _ => False) :
        After x v (fun _ w' => Follows G ⟨.runOne, w, .ok none, w'⟩) fun _ _ => False := by
      have unseen {w' : State} : (Moment.mk .runOne w (.ok none) w').intake? = none := by
        unfold Moment.intake?
        split
        · next e =>
          obtain ⟨-, rfl⟩ := Prod.mk.inj (Option.some.inj (head.symm.trans e))
          exact (hj _ _ _ _ _ rfl).elim
        · rfl
      refine hx.mono (fun _ w' hw => ?_) fun _ _ => id
      rcases hw with ⟨hw, kept⟩ | ⟨t, G', hG⟩
      · exact hw.follows rfl unseen unasked kept (by simp) (by simp) (fun _ => rfl) (by simp)
      · exact ⟨.committed t, G', hG, {
          message := rfl
          intake := .inl unseen.symm
          asks := by simp
          refused := fun c ending t e => absurd e (unasked ending t c)
          ran := fun _ _ => rfl
          consumed := rfl
          told := by simp
          returned := by simp
          started := by simp
          done := fun _ => rfl }⟩
    cases job with
    | openLink l =>
      exact quiet (by simp) ((h.decideLink first (.inl rfl)).mono
        (fun _ _ hw => .inl ⟨hw, consumed_eq first⟩)
        fun _ _ => id)
    | refuseLink l =>
      exact quiet (by simp) ((h.decideLink first (.inr rfl)).mono
        (fun _ _ hw => .inl ⟨hw, consumed_eq first⟩)
        fun _ _ => id)
    | closeLink l error =>
      have placed := h.common.placed _ (first ▸ List.mem_cons_self) l rfl
      exact quiet (by simp) (((h.start first rfl (fun _ _ _ _ => rfl) rfl).closeLink placed).mono
        (fun _ _ hw => .inl ⟨hw.started, consumed_eq first⟩) fun _ _ => id)
    | answer l delivery request => exact quiet (by simp) (h.answer first)
    | transfer index address body state sender =>
      by_cases mine : (Task.transfer index address body state sender).isTransfer
      case neg =>
        -- The message belongs to no session.
        obtain ⟨rfl, rfl⟩ : state = none ∧ sender = none := by
          cases state with
          | none => cases sender with
            | none => exact ⟨rfl, rfl⟩
            | some => exact absurd rfl mine
          | some => exact absurd rfl mine
        refine (h.takeDeposit first).mono (fun _ w' hw => ?_) fun _ _ => id
        exact ⟨.nothing, G, hw.1, {
          message := rfl
          intake := .inr ⟨rfl, (index, _), by rw [Moment.intake?, head], hw.2⟩
          asks := by simp
          refused := fun c ending t e => absurd e (unasked ending t c)
          ran := by simp
          consumed := consumed_eq first
          told := by simp
          returned := by simp
          started := by simp
          done := fun _ => rfl }⟩
      refine (h.transfer first mine).mono (fun _ w' hw => ?_) fun _ _ => id
      obtain ⟨x, fate, G', hG, hx, told, hd⟩ := hw
      exact ⟨.taken x fate, G', hG, {
        message := rfl
        intake := .inl (by simp [Moment.intake?, Gain.intake?, head, hx, hd])
        asks := by simp
        refused := fun c ending t e => absurd e (unasked ending t c)
        ran := by simp
        consumed := consumed_eq first
        told := fun x' fate' e sent c hr => by
          cases e
          exact told sent c hr
        returned := by simp
        started := by simp
        done := fun _ => rfl }⟩

/-- **A session is started,** or refuses to start again. -/
theorem Calm.starts (h : Calm G w) {s : Nat} :
    After (Step.start s).perform w (fun c w' => Follows G ⟨.start s, w, .ok c, w'⟩)
      fun _ _ => False := by
  refine after_about (fun hs => ?_) fun hs => ?_
  · refine h.unmoved.follows rfl rfl ?_ rfl (by simp) (fun s' e => ?_) (by simp) (by simp)
    · rintro ending t c ⟨s', e, -⟩
      cases e
    · cases e
      exact hs
  · simp only [after_bind, after_pure]
    refine (h.enter hs).mono (fun c w' hw => ?_) fun _ _ => id
    obtain ⟨g, G', hG, promised, starts, new⟩ := hw
    have new (c' : Nat) (e : (.ok (some c) : Except Halt (Option Nat)) = .ok (some c')) :
        c' = w.client.completions.size := by
      cases e
      exact new
    have unasked (ending : Ending) (t c' : Nat) :
        ¬ (Moment.mk (.start s) w (.ok (some c)) w').Asks ending t c' := by
      rintro ⟨s', e, -⟩
      cases e
    have returned (c' : Nat) (e : (.ok (some c) : Except Halt (Option Nat)) = .ok (some c')) :
        G'.Promised w'.client c' := by
      cases e
      exact promised
    cases starts with
    | @refused S declines hS hc hb =>
      refine ⟨_, G', hG, {
        message := rfl
        intake := .inl rfl
        asks := by simp
        refused := fun c ending t e => absurd e (unasked ending t c)
        ran := by simp
        consumed := rfl
        told := by simp
        returned
        started := fun s' e _ => ?_
        done := by simp
        new
        declined := fun c' e => ?_ }⟩
      · cases e
        exact ⟨S, declines.outside ▸ hS, hb⟩
      · cases e
        exact ⟨.start hS hc, rfl, declines⟩
    | @begun S S' _ hS' hb _ =>
      refine ⟨_, G', hG, {
        message := rfl
        intake := .inl rfl
        asks := by simp
        refused := fun c ending t e => absurd e (unasked ending t c)
        ran := by simp
        consumed := rfl
        told := by simp
        returned
        started := fun s' e _ => ?_
        done := by simp
        new }⟩
      cases e
      exact ⟨S', hS', by rw [hb, Option.isSome_some]⟩

/-- **A message is sent,** or refused. -/
theorem Calm.sends (h : Calm G w) {i : Nat} {body : String} {destination : Option Destination} :
    After (Step.send i body destination).perform w
      (fun c w' => Follows G ⟨.send i body destination, w, .ok c, w'⟩) fun _ _ => False := by
  have unasked {reply : Except Halt (Option Nat)} {w' : State} (ending : Ending) (t c : Nat) :
      ¬ (Moment.mk (.send i body destination) w reply w').Asks ending t c := by
    rintro ⟨s, e, -⟩
    cases e
  refine after_about (fun hi => ?_) fun hi => ?_
  · refine h.unmoved.follows ?_ rfl unasked rfl (by simp) (by simp) (by simp) (by simp)
    simp [Moment.message?, Array.getElem?_eq_none hi]
  · obtain ⟨k, hk⟩ : ∃ k, w.outside.producers[i]? = some k := ⟨_, Array.getElem?_eq_getElem hi⟩
    simp only [after_bind, after_pure]
    refine (h.sendFrom hk).mono (fun c w' hw => ?_) fun _ _ => id
    obtain ⟨g, G', hG, promised, new, hg⟩ := hw
    have or_eq : (destination <|> k.destination) = destination.or k.destination := by
      cases destination <;> rfl
    rw [or_eq] at hg
    have shown (hm : g.parcel?.map (·.message) =
          (Moment.mk (.send i body destination) w (.ok (some c)) w').message?)
        (hi : g.intake? = none) (hl : g.lost w = []) (ha : ∀ c ending t, g ≠ .asked c ending t)
        (hc : ∀ t, g ≠ .committed t) (hx : ∀ x fate, g ≠ .taken x fate)
        (hs : ∀ x, g = .sent x → ∀ sent told, x.receipt = some (sent, told) → c = told)
        (hr : ∀ c', g = .refused c' →
          Refuses w (.send i body destination) ∧ c = c' ∧ Declines w c' w') :
        Follows G ⟨.send i body destination, w, .ok (some c), w'⟩ :=
      ⟨g, G', hG, {
        message := hm
        intake := .inl (by rw [hi]; rfl)
        asks := fun c ending t e => absurd e (ha c ending t)
        refused := fun c ending t e => absurd e (unasked ending t c)
        ran := fun t e => absurd e (hc t)
        consumed := hl.symm
        told := fun x fate e => absurd e (hx x fate)
        sent := fun x e sent told he => by rw [hs x e sent told he]
        returned := fun c' e => by
          cases e
          exact promised
        started := by simp
        done := by simp
        new := fun c' e => by
          cases e
          exact new
        declined := fun c' e => by
          obtain ⟨refuses, rfl, declines⟩ := hr c' e
          exact ⟨refuses, rfl, declines⟩ }⟩
    obtain ⟨S, hS⟩ : ∃ S, w.outside.sessions[k.session]? = some S :=
      ⟨_, Array.getElem?_eq_getElem (h.common.producer i k hk)⟩
    cases hd : destination.or k.destination with
    | none =>
      rw [hd] at hg
      obtain ⟨rfl, declines⟩ : g = .refused c ∧ Declines w c w' := hg
      refine shown ?_ rfl rfl (by simp) (by simp) (by simp) (by simp) fun c' e => ?_
      swap
      · cases e
        exact ⟨.send hk hS (.inr (.inr (.inr hd))), rfl, declines⟩
      cases hs : w.outside.sessions[k.session]? with
      | none => simp [Moment.message?, hk, hs, Gain.parcel?]
      | some S =>
        cases S.current <;> simp [Moment.message?, hk, hs, hd, Gain.parcel?, -Option.or_eq_none_iff]
    | some d =>
      rw [hd] at hg
      cases hg with
      | refused declines hS hc =>
        have same : w'.outside.transfers = w.outside.transfers := by rw [declines.outside]
        refine shown (by simp [Moment.message?, hk, same, Gain.parcel?]) rfl rfl (by simp) (by simp)
          (by simp) (by simp) fun c' e => ?_
        cases e
        exact ⟨.send hk hS (hc.imp_right fun hc => hc.imp_right .inl), rfl, declines⟩
      | accepted more hS hc hx ht =>
        refine shown ?_ rfl rfl (by simp) (by simp) (by simp) (fun x' e => ?_) (by simp)
        swap
        · cases e
          exact ht
        simp [Moment.message?, hk, hS, hc, hd, more, hx, Gain.parcel?]

/-- **The end of a transaction is asked for,** or refused. -/
theorem Calm.finishes (h : Calm G w) {s : Nat} {ending : Ending}
    (hb : w.outside.loop.pending < Number.countLimit) :
    After (Step.finish s ending).perform w
      (fun c w' => Follows G ⟨.finish s ending, w, .ok c, w'⟩) fun _ _ => False := by
  refine after_about (fun hs => ?_) fun hs => ?_
  · refine h.unmoved.follows rfl rfl ?_ rfl (by simp) (by simp) (by simp) (by simp)
    rintro ending t c ⟨_, -, -, e⟩
    cases e
  · simp only [after_bind, after_pure]
    refine (h.finish hs hb).mono (fun c w' hw => ?_) fun _ _ => id
    obtain ⟨g, G', hG, hg, promised, new⟩ := hw
    have new (c' : Nat) (e : (.ok (some c) : Except Halt (Option Nat)) = .ok (some c')) :
        c' = w.client.completions.size := by
      cases e
      exact new
    have returned (c' : Nat) (e : (.ok (some c) : Except Halt (Option Nat)) = .ok (some c')) :
        G'.Promised w'.client c' := by
      cases e
      exact promised
    cases hg with
    | refused declines hS hc =>
      refine ⟨_, G', hG, {
        message := rfl
        intake := .inl rfl
        asks := by simp
        refused := fun c' ending' t e => .inr ?_
        ran := by simp
        consumed := rfl
        told := by simp
        returned
        started := by simp
        done := by simp
        new
        declined := fun c' e => ?_ }⟩
      · obtain ⟨s', -, -, e⟩ := e
        cases e
        exact declines.failed
      · cases e
        exact ⟨.finish hS hc, rfl, declines⟩
    | accepted hS hc =>
      refine ⟨_, G', hG, {
        message := rfl
        intake := .inl rfl
        asks := fun c' ending' t e => ?_
        refused := fun c' ending' t e => .inl ?_
        ran := by simp
        consumed := rfl
        told := by simp
        returned
        started := by simp
        done := by simp
        new }⟩
      · cases e
        exact ⟨s, rfl, by simp [hS, hc], rfl⟩
      · obtain ⟨s', e₁, e₂, e₃⟩ := e
        cases e₁
        cases e₃
        rw [hS, Option.bind_some, hc] at e₂
        rw [Option.some.inj e₂]

/-- **Every step** leaves all sessions at rest, and what it adds is seen. -/
theorem Calm.moment (h : Calm G w) (step : Step) (hb : Countable w) : Follows G (step.moment w) := by
  have seen {step : Step} (hs : After step.perform w
      (fun c w' => Follows G ⟨step, w, .ok c, w'⟩) fun _ _ => False) : Follows G (step.moment w) :=
    (hs.mono (fun _ _ => id) fun _ _ => False.elim).observed
      (P := fun reply w' => Follows G ⟨step, w, reply, w'⟩)
  have plain {step : Step} (hp : step.Plain) (hs : After step.perform w
      (fun c w' => c = none ∧ Steady G w w') fun e w' => Misses step e ∧ w' = w) :
      Follows G (step.moment w) := by
    refine (hs.mono (fun c w' hw => ?_) fun e w' hw => ?_).observed
      (P := fun reply w' => Follows G ⟨step, w, reply, w'⟩)
    · exact hw.2.plain hp (fun _ e => by rw [hw.1] at e; cases e) fun _ e => by cases e
    · obtain ⟨misses, rfl⟩ := hw
      refine h.unmoved.plain hp (fun _ e => by cases e) fun e' same => ⟨?_, rfl⟩
      cases same
      exact misses
  have unchanged : Steady G w w := h.unmoved
  have always {α : Type} {x : Peering α} {R : Halt → State → Prop}
      (hx : After x w (fun _ w' => Steady G w w') fun _ _ => False) :
      After (x >>= fun _ => pure (none : Option Nat)) w (fun c w' => c = none ∧ Steady G w w') R := by
    simp only [after_bind, after_pure]
    exact hx.mono (fun _ _ hw => ⟨trivial, hw⟩) fun _ _ => False.elim
  have rejects {f : Broker → Broker}
      (hr : (f w.outside.broker).transactions = w.outside.broker.transactions)
      (hq : (f w.outside.broker).queues = w.outside.broker.queues)
      (hi : (f w.outside.broker).inflight = w.outside.broker.inflight)
      (ht : (f w.outside.broker).tagCounter = w.outside.broker.tagCounter)
      (hc : (f w.outside.broker).txnCounter = w.outside.broker.txnCounter) :
      After (modifyBroker f) w (fun _ w' => Steady G w w') fun _ _ => False := by
    have shift : Shift w.outside.broker (f w.outside.broker) :=
      ⟨fun hb => Broker.trade_same hb.toShaped hr hq hi ht, Broker.moves_same hc ht hr hq hi⟩
    exact (h.changeBroker shift hi).steady rfl
      (.of_same rfl rfl rfl ht.ge le_rfl le_rfl) fun _ => .of_trade shift.trade
  cases step with
  | newSession id policy =>
    exact plain trivial (always (after_discard.2 (h.newSession.steady rfl (.addSession rfl)
      fun _ => .refl _)))
  | newProducer s destination =>
    exact plain trivial (after_about (fun _ => ⟨rfl, unchanged⟩) fun hs =>
      always (after_discard.2 (h.newProducer hs)))
  | newConsumer s destination =>
    exact plain trivial (after_about (fun _ => ⟨rfl, unchanged⟩) fun hs =>
      always (after_discard.2 (h.newConsumer hs)))
  | start s => exact seen h.starts
  | send p body destination => exact seen h.sends
  | receive c =>
    refine plain trivial (after_about (fun _ => ⟨rfl, unchanged⟩) fun hc => ?_)
    simp only [after_bind, after_discard, after_pure]
    refine (h.receive hc).mono (fun _ _ hw => ⟨trivial, hw⟩) fun _ _ hw => ?_
    obtain ⟨same, id, raised⟩ := hw
    exact ⟨⟨c, id, rfl, raised⟩, same⟩
  | deposit address body => exact plain trivial (always h.deposit)
  | finish s ending => exact seen (h.finishes hb)
  | runOne =>
    refine seen ?_
    simp only [Step.perform, after_bind, after_discard, after_pure]
    exact h.runOne
  | closeAll error => exact plain trivial (always h.closeAll)
  | closeRemotely l error =>
    exact plain trivial (after_about (fun _ => ⟨rfl, unchanged⟩) fun hl =>
      always (h.closeLink (h.common.endpoints ▸ hl)))
  | closeLocally l =>
    exact plain trivial (after_about (fun _ => ⟨rfl, unchanged⟩) fun hl =>
      always (h.close (h.common.endpoints ▸ hl)))
  | refuseLinks refused =>
    exact plain trivial (always (after_modifyOutside.2
      ((h.refuseLinks refused).steady rfl
        (.of_same rfl rfl rfl le_rfl le_rfl le_rfl) fun _ => .refl _)))
  | rejectDeclare =>
    exact plain trivial (always (rejects rfl rfl rfl rfl rfl))
  | rejectDischarge =>
    exact plain trivial (always (rejects rfl rfl rfl rfl rfl))
  | rejectTransfer index =>
    exact plain trivial (always (rejects rfl rfl rfl rfl rfl))

/-- **All sessions are at rest** before and after every moment of a run. -/
theorem Calm.play {steps : List Step} (h : Calm G w) (hb : ∀ m ∈ play steps w, Countable m.before)
    (hm : m ∈ play steps w) : (∃ G, Calm G m.before) ∧ ∃ G, Calm G m.after := by
  induction steps generalizing G w with
  | nil => cases hm
  | cons step rest ih =>
    obtain ⟨g, G', ha, -⟩ := h.moment step (hb (step.moment w) List.mem_cons_self)
    rcases List.mem_cons.1 hm with rfl | hm
    · exact ⟨⟨G, h⟩, G', ha.calm⟩
    · exact ih ha.calm (fun m hm => hb m (List.mem_cons_of_mem _ hm)) hm

end Transact.Peer
