import Transact.Proofs.Peer.Calm

/-! # Setting up

New sessions, and new producers and consumers of a session, leave all others at rest. A new session
has no transaction, and nothing is known of it yet.

* `calm_initial`: all is at rest in the beginning.
* `Calm.newSession`, `Calm.newProducer`, `Calm.newConsumer`: all stays at rest.
* `Calm.refuseLinks`: whether links are refused matters to those only that are still to be attached. -/

namespace Transact.Peer

open Run

variable {G : Ledger} {s n : Nat} {w : State}

theorem calm_initial {refusesLinks : Bool} : Calm {} (initial refusesLinks) where
  common := {
    contexts := rfl
    endpoints := rfl
    owners := rfl
    purposes := rfl
    homes := rfl
    owner := nofun
    home := nofun
    producer := by simp [initial]
    consumer := by simp [initial]
    called := nofun
    sync := by simp [initial]
    placed := nofun
    transfers := rfl
    indices := .nil
    numbered := nofun
    deposits := nofun
    parcel := nofun
    receipt := nofun
    names := by
      intro t y e
      simp [initial, Client.transaction, default, instInhabitedTransaction.default] at e
    named := by
      intro _ t t' y e
      simp [initial, Client.transaction, default, instInhabitedTransaction.default] at e
    counter := Nat.le_refl _
    held := fun _ _ _ _ ⟨_, he, _⟩ => by cases he
    tags := .nil
    fresh := nofun
    sound := Broker.sound_initial
    opened := by simp [initial, Roll.get?]
    roster := ⟨by simp [initial], by simp [initial], by simp [initial]⟩
    custody := fun _ => rfl }
  settled i hi := by simp [initial] at hi

theorem Calm.refuseLinks (h : Calm G w) (refused : Bool) :
    Calm G (w.out fun o => { o with refusesLinks := refused }) :=
  ⟨{ h.common with }, fun i hi => (h.settled i hi).spared { Spares.refl i G w with }⟩

/-! ### Sessions -/

/-- One more session. -/
def Outside.addSession (o : Outside) (S : Session) : Outside :=
  { o with sessions := o.sessions.push S }

theorem Common.unknown {due : Option Nat} (h : Common G due w) (hs : w.outside.sessions.size ≤ s) :
    (∀ l : Nat, G.owners[l]? ≠ some s) ∧ ∀ x ∈ G.waiting, x.session ≠ s := by
  refine ⟨fun l hl => ?_, fun x hx e => ?_⟩
  · have := h.owner l s hl
    omega
  · have := h.home _ _ (h.parcel x (List.mem_append_right _ hx)).1
    omega

theorem Calm.newSession (h : Calm G w) {id : SessionId} {policy : Presettling} :
    Calm G ((w.on (·.addContext id)).out
      (·.addSession { id, context := w.client.contexts.size, policy })) := by
  obtain ⟨w', hw⟩ : ∃ w', w' = (w.on (·.addContext id)).out
    (·.addSession { id, context := w.client.contexts.size, policy }) := ⟨_, rfl⟩
  rw [← hw]
  obtain ⟨unowned, unsent⟩ := h.common.unknown (Nat.le_refl w.outside.sessions.size)
  have context : w'.client.contexts[w.outside.sessions.size]? = some { session := id } := by
    rw [hw, ← h.common.contexts]
    simp [World.on, World.out, Client.addContext]
  have session : w'.outside.sessions[w.outside.sessions.size]? =
      some { id, context := w.client.contexts.size, policy } := by
    rw [hw]
    simp [World.on, World.out, Outside.addSession]
  have size : w'.outside.sessions.size = w.outside.sessions.size + 1 := by
    rw [hw]
    simp [World.on, World.out, Outside.addSession]
  refine ⟨?_, fun i hi => ?_⟩
  · have grown {i : Nat} (hi : i < w.outside.sessions.size) : i < w'.outside.sessions.size := by
      omega
    subst hw
    exact { h.common with
      contexts := by simp [World.on, World.out, Client.addContext, Outside.addSession, h.common.contexts]
      owner := fun l s e => grown (h.common.owner l s e)
      home := fun t s e => grown (h.common.home t s e)
      producer := fun i k e => grown (h.common.producer i k e)
      consumer := fun i k e => grown (h.common.consumer i k e)
      roster := h.common.roster.addSession rfl }
  · by_cases new : i = w.outside.sessions.size
    · subst new
      have none (t : Nat) : G.homes[t]? ≠ some w.outside.sessions.size := fun ht =>
        Nat.lt_irrefl _ (h.common.home t _ ht)
      refine ⟨.idle, .none, _, ⟨trivial, ⟨⟨rfl, rfl, rfl, rfl, rfl⟩, fun _ e => by cases e⟩,
        fun _ e => by cases e⟩,
        ⟨⟨⟨_, context, rfl, rfl, rfl, rfl, rfl⟩, (fun _ _ e => by cases e),
        fun l _ hl => absurd hl (unowned l), (fun _ e => by cases e), (fun _ _ e => by cases e),
        (fun _ e => by cases e), fun e => absurd rfl e⟩,
        fun l _ hl => absurd hl (unowned l), (fun _ _ _ e => by cases e), (fun _ _ _ _ _ e => by cases e),
        (fun _ e => by cases e), (fun _ e => by cases e),
        fun _ r _ hl => absurd hl (unowned r.link), fun C hC e he => ?_, fun _ c k hk e => ?_⟩,
        ⟨(fun e => by cases e), fun _ t ht => absurd ht (none t), fun _ _ t ht => absurd ht (none t),
        fun _ _ _ _ t ht => absurd ht (none t), fun _ e => by cases e⟩, session, h.common.contexts, ?_,
        fun x hx e => absurd e (unsent x hx)⟩
      · obtain rfl := Option.some.inj (context.symm.trans hC)
        cases he
      · subst hw
        have := h.common.consumer c k hk
        omega
      · refine (List.countP_eq_zero.2 fun x hx => ?_).symm
        simp [unsent x hx]
    · have old := h.settled i (by omega)
      subst hw
      exact old.spared { Spares.refl i G w with
        session := Array.getElem?_push.trans (if_neg new)
        context := Array.getElem?_push.trans (if_neg (h.common.contexts ▸ new)) }

theorem Onward.addSession {f : Client Waiting → Client Waiting} {S : Session}
    (hc : (f w.client).completions = w.client.completions) :
    Onward w ((w.on f).out (·.addSession S)) where
  __ := Onward.refl w
  kept := .of_eq hc
  started s S' hS hb := by
    refine ⟨S', ?_, hb⟩
    have lt := (Array.getElem?_eq_some_iff.1 hS).1
    simpa [World.on, World.out, Outside.addSession, Array.getElem?_push, Nat.ne_of_lt lt] using hS

/-! ### Members -/

/-- The session `f S` is the session `S`, but for the numbers that its next members get. -/
def Renumbers (f : Session → Session) : Prop :=
  ∀ S, ∃ m n, f S = { S with producerNumber := m, consumerNumber := n }

theorem Settled.renumber {i : Nat} {f : Session → Session} (h : Settled G i w) (hf : Renumbers f) :
    Settled G i (w.out (·.changeSession s f)) := by
  by_cases e : i = s
  · subst e
    obtain ⟨p, co, S, hr⟩ := h
    obtain ⟨m, n, same⟩ := hf S
    have session := Outside.changeSession_same (f := f) hr.session
    rw [same] at session
    exact ⟨p, co, { S with producerNumber := m, consumerNumber := n },
      ⟨hr.firm, hr.stance.congr rfl rfl rfl (fun _ => id) rfl rfl rfl rfl rfl rfl, hr.opens⟩,
      { hr.seat with }, hr.dues.congr rfl rfl rfl rfl, session, hr.context, hr.count, hr.current⟩
  · exact h.spared { Spares.refl i G w with session := Outside.changeSession_other e }

theorem onward_renumber {f : Session → Session} (hf : Renumbers f) :
    Onward w (w.out (·.changeSession s f)) := by
  refine .changeSession fun S _ hb => ?_
  obtain ⟨m, n, same⟩ := hf S
  rwa [same]

/-- One more producer. -/
def Outside.addProducer (o : Outside) (k : Producer) : Outside :=
  { o with producers := o.producers.push k }

/-- One more consumer. -/
def Outside.addConsumer (o : Outside) (k : Consumer) : Outside :=
  { o with consumers := o.consumers.push k }

theorem Calm.addProducer (h : Calm G w) {k : Producer} (hk : k.session < w.outside.sessions.size) :
    Calm G (w.out (·.addProducer k)) where
  common := { h.common with
    producer := by
      intro i m hm
      rw [World.out, Outside.addProducer, Array.getElem?_push] at hm
      split at hm
      · exact Option.some.inj hm ▸ hk
      · exact h.common.producer i m hm }
  settled i hi := (h.settled i hi).spared { Spares.refl i G w with }

theorem Calm.newProducer (h : Calm G w) (hs : s < w.outside.sessions.size)
    {destination : Option Destination} :
    After (Peer.newProducer s destination) w (fun _ w' => Steady G w w') fun _ _ => False := by
  have numbers : Renumbers fun x => { x with producerNumber := x.producerNumber + 1 } :=
    fun _ => ⟨_, _, rfl⟩
  have size {f : Session → Session} :
      (w.out (·.changeSession s f)).outside.sessions.size = w.outside.sessions.size :=
    Array.size_modify ..
  have renumbered : Calm G (w.out (·.changeSession s fun x =>
      { x with producerNumber := x.producerNumber + 1 })) :=
    ⟨h.common.changeSession fun _ => ⟨rfl, rfl⟩, fun i hi => (h.settled i (size ▸ hi)).renumber numbers⟩
  unfold Peer.newProducer
  simp only [after_bind, after_sessionAt, after_modifySession]
  exact (renumbered.addProducer (size ▸ hs)).steady rfl
    ((onward_renumber numbers).trans (.of_same rfl rfl rfl le_rfl le_rfl le_rfl)) fun _ => .refl _

/-- **A new consumer** takes the next number of its session, and has received nothing. -/
theorem Calm.newConsumer (h : Calm G w) (hs : s < w.outside.sessions.size)
    {destination : Destination} :
    After (Peer.newConsumer s destination) w (fun _ w' => Steady G w w') fun _ _ => False := by
  obtain ⟨S, hS⟩ : ∃ S, w.outside.sessions[s]? = some S := ⟨_, Array.getElem?_eq_getElem hs⟩
  have numbers : Renumbers fun x => { x with consumerNumber := x.consumerNumber + 1 } :=
    fun _ => ⟨_, _, rfl⟩
  unfold Peer.newConsumer
  simp only [after_bind, after_sessionAt, after_modifySession, Outside.session_eq hS]
  obtain ⟨k, hk⟩ : ∃ k : Consumer, k =
    { session := s, id := ⟨.consumer, S.id, .ofNat S.consumerNumber⟩, destination } := ⟨_, rfl⟩
  have size {f : Session → Session} :
      (w.out (·.changeSession s f)).outside.sessions.size = w.outside.sessions.size :=
    Array.size_modify ..
  have grown : w.outside.consumers.size ≤ (w.outside.consumers.push k).size := by
    rw [Array.size_push]
    exact Nat.le_succ _
  have exact_before (hx : Exact ((w.out (·.changeSession s fun x =>
      { x with consumerNumber := x.consumerNumber + 1 })).out (·.addConsumer k))) : Exact w :=
    ⟨hx.1, hx.2.1, Nat.lt_of_le_of_lt grown hx.2.2⟩
  have consumer {c : Nat} {x : Consumer} (hx : (w.outside.consumers.push k)[c]? = some x) :
      w.outside.consumers[c]? = some x ∨ x = k := by
    rw [Array.getElem?_push] at hx
    split at hx
    · exact .inr (Option.some.inj hx).symm
    · exact .inl hx
  have empty : k.received = [] := by rw [hk]
  show Steady G w ((w.out (·.changeSession s _)).out (·.addConsumer _))
  rw [← hk]
  have calm : Calm G ((w.out (·.changeSession s fun x =>
      { x with consumerNumber := x.consumerNumber + 1 })).out (·.addConsumer k)) := {
    common := { h.common with
      contexts := h.common.contexts.trans size.symm
      owner := fun l i hl => Nat.lt_of_lt_of_eq (h.common.owner l i hl) size.symm
      home := fun t i ht => Nat.lt_of_lt_of_eq (h.common.home t i ht) size.symm
      producer := fun i x hx => Nat.lt_of_lt_of_eq (h.common.producer i x hx) size.symm
      consumer := fun i x hx => by
        refine Nat.lt_of_lt_of_eq ?_ size.symm
        rcases consumer hx with hx | rfl
        · exact h.common.consumer i x hx
        · rw [hk]
          exact hs
      roster := hk ▸ h.common.roster.addConsumer hS
      custody := fun hx => by
        show _ = buffered (w.outside.consumers.push k)
        rw [buffered_push, empty]
        exact (h.common.custody (exact_before hx)).trans (add_zero _).symm }
    settled := fun i hi => ((h.settled i (size ▸ hi)).renumber numbers).spared {
      Spares.refl i G _ with
      exact_before
      consumer := fun c x _ hx => by
        have lt := (Array.getElem?_eq_some_iff.1 hx).1
        exact (Array.getElem?_push_lt lt).trans ((Array.getElem?_eq_getElem lt).symm.trans hx)
      received := fun c x _ hx => (consumer hx).imp_right fun (e : x = k) => e ▸ empty } }
  exact calm.steady rfl ((onward_renumber numbers).trans (.of_same rfl rfl rfl le_rfl grown le_rfl))
    fun _ => .refl _

/-! ### Links that are to be closed -/

theorem Calm.closeAll (h : Calm G w) {error : Option Condition} :
    After (Peer.closeAll error) w (fun _ w' => Steady G w w') fun _ _ => False := by
  have all : ∀ (links : List (Endpoint × Nat)) (v : State), Calm G v → v.client = w.client →
      Onward w v → v.outside.broker = w.outside.broker →
      (∀ x ∈ links, x.2 < v.client.links.size) →
      After (links.forM fun x => (Loop.add s!"close {x.1.name}" (Task.closeLink x.2 error) :
        Peering Unit)) v (fun _ w' => Steady G w w') fun _ _ => False := by
    intro links
    induction links with
    | nil => exact fun v hv e ho hb _ => hv.steady (by rw [e]) ho fun _ => hb ▸ .refl _
    | cons link links ih =>
      intro v hv e ho hb hl
      simp only [List.forM, after_bind, after_add]
      refine ih _ (hv.schedule idle_closeLink (fun l hj => ?_) fun _ e => by cases e) e
        (ho.trans (.of_same rfl rfl rfl le_rfl le_rfl le_rfl)) hb
        fun x hx => hl x (List.mem_cons_of_mem _ hx)
      obtain rfl := Option.some.inj hj
      exact hl link List.mem_cons_self
  unfold Peer.closeAll
  rw [after_bind, Act.after_outside]
  refine all _ w h rfl (.refl w) rfl fun x hx => ?_
  have := List.mem_zipIdx (List.mem_filter.1 hx).1
  have := h.common.endpoints
  simp only [Array.length_toList] at *
  omega

end Transact.Peer
