import Transact.Proofs.Peer.Outward

/-! # Beginning a transaction

A session begins a transaction as soon as the previous one has ended. The transaction is declared on
the coordinator link, or a link is attached first; either way something waits in the loop then. None
of this concerns the broker.

* `Turn.begin`, `Turn.enterNext`: where a session stands after it has begun a transaction.
* `Turn.moveOn`: the same after it has told its caller how the previous one ended. -/

namespace Transact

/-- Keeps an exchange under its delivery number. -/
def Link.keep {κ : Type} (d : Nat) (e : Exchange κ) (k : Link κ) : Link κ :=
  { k with nextDelivery := d + 1, pending := k.pending ++ [(d, e)] }

namespace Peer

open Run

variable {o : Origin} {G : Ledger} {due : Option Nat} {s n t l : Nat} {p p' : Phase Waiting}
  {co : Option Nat} {S : Session} {w v : State} {r : Resolution Unit} {request : Request}

/-! ### Sending a request -/

/-- From `w` to `v` the link `l` has become, or has been, an open link with nothing outstanding, and
nothing else has changed but the context `s`. -/
structure Ready (w v : State) (s l : Nat) (k : Link Waiting) : Prop where
  before : ∃ m, w.client.links[l]? = some m ∧ m.state ≠ .closed ∧ k.sender = m.sender
  client : Client.Touches w.client v.client s l
  link : v.client.links[l]? = some k
  opened : k.state = .opened
  opening : k.opening = none
  pending : k.pending = []
  outside : v.outside = { w.outside with endpoints := v.outside.endpoints }
  endpoints : v.outside.endpoints.size = w.outside.endpoints.size
  endpoint : ∃ e, v.outside.endpoints[l]? = some e ∧ e.listener = .link l ∧ e.Follows .opened
  others : ∀ i, i ≠ l → v.outside.endpoints[i]? = w.outside.endpoints[i]?

theorem Ready.active {k : Link Waiting} (hr : Ready w v s l k) :
    (v.outside.endpoint l).isActive = true := by
  obtain ⟨side, hs, -, ho, hc⟩ := hr.endpoint
  rw [Outside.endpoint_eq hs, Endpoint.isActive, ho, hc]
  rfl

theorem after_transmit {k : Link Waiting} {e : Exchange Waiting} {fail : Failure → Peering Unit}
    {Q : Unit → State → Prop} {R : Halt → State → Prop} (hl : v.client.links[l]? = some k)
    (ho : k.state = .opened) (hk : k.sender = some l)
    (active : (v.outside.endpoint l).isActive = true)
    (hQ : ∀ label, Q () ((v.on (·.changeLink l (Link.keep k.nextDelivery e))).out
      (·.request label l (.ofIndex k.nextDelivery) request))) :
    After (Link.transmit (surroundings (n + 1)) l request e fail) v Q R := by
  unfold Link.transmit
  simp only [after_bind, Act.after_link, Client.link_eq hl, ho, hk, Act.after_modifyLink,
    after_attempt]
  show After (Peer.send l _ request) _ _ _
  unfold Peer.send
  simp only [after_bind, after_endpointAt]
  rw [if_pos (by exact active)]
  unfold receive
  simp only [after_bind, after_endpointAt, after_modifyOutside, after_add, after_pure]
  exact hQ _

/-- **A session sends a request,** and by that goes on to the phase `p'`. -/
theorem Turn.transmit (h : Turn o G due s p co S w) (p' : Phase Waiting) (label : String)
    (request : Request) {k : Link Waiting} {e : Exchange Waiting} {c : Context} (hr : Ready w v s l k)
    (hl : G.owners[l]? = some s)
    (hp : p.slot = none) (hb : ∀ i, p.building = some i → i = l)
    (hco : ∀ i, co = some i → i = l ∨ w.client.Closed i)
    (hs : p'.slot = some (l, k.nextDelivery)) (he : p'.exchange s = some e)
    (ha : p'.asks l = [(.ofIndex k.nextDelivery, request)])
    (hc : v.client.contexts[s]? = some c) (hc' : ContextAt p' (some l) c)
    (hy : ∀ t y, p'.bound = some (t, y) → (w.client.transaction t).hint = some y)
    (hrec : p'.recorded ≠ none → p'.recorded = p.recorded ∧ co = some l)
    (hh : ∀ t, p'.transaction = some t → G.homes[t]? = some s ∧ ¬ G.Concluded w.client t)
    (hu : ∀ t, p'.transaction = some t → p'.bound = none → (w.client.transaction t).hint = none)
    (hsame : p'.recorded = p.recorded) (hbare : Exact w → Bare s w) :
    Turn o G due s p' (some l) S ((v.on (·.changeLink l (Link.keep k.nextDelivery e))).out
      (·.request label l (.ofIndex k.nextDelivery) request)) := by
  obtain ⟨m, hm, hmn, hms⟩ := hr.before
  obtain ⟨side, hside, hlis, hf⟩ := hr.endpoint
  obtain ⟨e', he', hpe⟩ := Phase.pendingAt_slot (c := s) hs
  obtain rfl : e = e' := Option.some.inj (he.symm.trans he')
  have link' := Client.changeLink_same (f := Link.keep k.nextDelivery e) hr.link
  have other' {i : Nat} (hi : i ≠ l) :
      (v.client.changeLink l (Link.keep k.nextDelivery e)).links[i]? = w.client.links[i]? :=
    (Client.changeLink_other hi).trans (hr.client.link i hi)
  have touches : Client.Touches w.client (v.client.changeLink l (Link.keep k.nextDelivery e)) s l :=
    { hr.client with
      links := by simpa only [Client.changeLink, Array.size_modify] using hr.client.links
      link := fun i hi => other' hi }
  have final := congrArg (fun a : Outside => World.mk (v.client.changeLink l
    (Link.keep k.nextDelivery e)) (a.request label l (.ofIndex k.nextDelivery) request)) hr.outside
  refine h.request touches hm link' hr.opened hmn hl hr.endpoints hside hr.others ⟨hlis, hf⟩ hp ?_
    ha hs hrec hh hu hsame hbare final
  refine h.seat.tables.handOver hp hb hco hs hl ⟨hm, link', fun i hi => other' hi⟩ hmn hr.opened
    hr.opening ?_ (Nat.lt_succ_self _) hms hc hc' fun t y e => ?_
  · show k.pending ++ [_] = _
    rw [hr.pending]
    exact hpe.symm
  · rw [Client.transaction, touches.transactions]
    exact hy t y e

/-- The coordinator link of a session with nothing outstanding is ready, unless it has closed. -/
theorem Turn.ready (h : Turn o G due s p co S w) (hco : co = some l) (hp : p.Still)
    {m : Link Waiting} (hm : w.client.links[l]? = some m) (hn : m.state ≠ .closed)
    {g : Context → Context} (hg : ∀ k, (g k).registry.consumers = k.registry.consumers) :
    Ready w (w.on (·.changeContext s g)) s l m ∧ m.sender = some l := by
  obtain ⟨hl, m', hm', hb⟩ := h.seat.tables.coordinator l hco
  obtain rfl : m = m' := Option.some.inj (hm.symm.trans hm')
  have own := h.seat.tables.link l m hl hm
  have opened : m.state = .opened := by
    cases hs : m.state with
    | building => exact absurd hs hb
    | opened => rfl
    | closed => exact absurd hs hn
  obtain ⟨e, he, hel, hf⟩ := h.common.sync l m hm
  obtain ⟨_, hsender, rfl⟩ := own.sender hn
  refine ⟨⟨⟨m, hm, hn, rfl⟩, ?_, hm, opened, own.opening.trans hp.openingAt,
    own.pending.trans hp.pendingAt, rfl, rfl, ⟨e, he, hel, opened ▸ hf⟩, fun _ _ => rfl⟩, hsender⟩
  refine ⟨rfl, rfl, rfl, ?_, fun i hi => ?_, fun k hk => ?_, rfl, fun _ _ => rfl⟩
  · simp [World.on, Client.changeContext]
  · simp [World.on, Client.changeContext, Array.getElem?_modify, Ne.symm hi]
  · exact Client.members_changeContext hg hk

/-! ### The end of the work -/

/-- **All sessions are at rest again.** -/
def Back (o : Origin) (w : State) : Prop := ∃ G, Calm G w ∧ Since o G w

theorem Turn.calm (h : Turn o G none s p co S w) (hs : Stands G s p S w) : Calm G w := by
  refine ⟨h.common, fun i hi => ?_⟩
  by_cases e : i = s
  · subst e
    exact ⟨p, co, S, hs, h.seat, h.dues, h.session, h.context, h.count, h.current⟩
  · exact h.others i hi e

theorem Turn.back (h : Turn o G none s p co S w) (hs : Stands G s p S w) : Back o w :=
  ⟨G, h.calm hs, h.since⟩

/-- All sessions are at rest again, and the session `s` has left its transaction behind, or waits for
its end. -/
def Past (o : Origin) (s : Nat) (w : State) : Prop :=
  ∃ G p co S, Turn o G none s p co S w ∧ Stands G s p S w ∧ ∀ t y, p ≠ .active t y

theorem Past.back (h : Past o s w) : Back o w := by
  obtain ⟨G, p, co, S, h, hs, -⟩ := h
  exact h.back hs

/-- All sessions are at rest again, and the session `s` has begun the transaction `t`. -/
def Begun (o : Origin) (s t : Nat) (S : Session) (w : State) : Prop :=
  ∃ G p co, Turn o G none s p co S w ∧ Stands G s p S w ∧ p.transaction = some t ∧ p.bound = none

theorem Begun.past (h : Begun o s t S w) : Past o s w := by
  obtain ⟨G, p, co, turn, hs, -, hb⟩ := h
  refine ⟨G, p, co, S, turn, hs, ?_⟩
  rintro t y rfl
  cases hb

theorem Begun.live (h : Begun o s t S w) : ∃ G, Calm G w ∧ Since o G w ∧
    w.outside.sessions[s]? = some S ∧ ∃ b, S.beginning = some b ∧ G.Live w.client b .begun t := by
  obtain ⟨G, p, co, turn, hs, ht, hb⟩ := h
  refine ⟨G, turn.calm hs, turn.since, turn.session, ?_⟩
  have begins {t' : Nat} {q : Token Waiting} (e : t' = t) (hq : G.Begins w.client s t' S q) :
      ∃ b, S.beginning = some b ∧ G.Live w.client b .begun t := by
    obtain ⟨b, -, hbeg, hl⟩ := hq
    exact ⟨b, hbeg, e ▸ hl⟩
  cases p with
  | opening => exact begins (Option.some.inj ht) hs.stance.2.2.2
  | declaring => exact begins (Option.some.inj ht) hs.stance.2.2
  | idle => cases ht
  | active => cases hb
  | discharging => cases hb

/-! ### Beginning -/

/-- What a session holds that begins the transaction `t`: the completion of the begin is pending, and
it is not in a transaction. -/
structure Beginning (G : Ledger) (s t b : Nat) (S : Session) (w : State) : Prop where
  live : G.Live w.client b .begun t
  home : G.homes[t]? = some s
  open_ : ¬ G.Concluded w.client t
  unnamed : (w.client.transaction t).hint = none
  free : S.Free
  beginning : S.beginning = some b

theorem Beginning.addCompletion {b : Nat} {a : Purpose} (h : Beginning G s t b S w)
    (hp : G.purposes.length = w.client.completions.size) :
    Beginning (G.addPurpose a n) s t b S (w.on (·.addCompletion)) :=
  ⟨h.live.addCompletion, h.home, fun hc => h.open_ ((Ledger.concluded_addCompletion hp).1 hc),
    h.unnamed, h.free, h.beginning⟩

theorem Beginning.begins {b : Nat} (h : Beginning G s t b S w) :
    G.Begins w.client s t S (.client b (.begun s t)) :=
  ⟨b, rfl, h.beginning, h.live⟩

theorem Turn.declare (h : Turn o G none s .idle co S w) {b d : Nat} (hb : Beginning G s t b S w)
    (hd : G.Live w.client d .declared t) {m : Link Waiting} (hco : co = some l)
    (hm : w.client.links[l]? = some m) (hn : m.state ≠ .closed) :
    After (Link.declare (surroundings (n + 1)) l t (.declaring d s t (.client b (.begun s t))))
      (w.on (·.changeContext s fun x => { x with stage := .declaring }))
      (fun _ w' => Begun o s t S w') fun _ _ => False := by
  obtain ⟨ready, sender⟩ := h.ready hco ⟨rfl, rfl⟩ hm hn
    (g := fun x => { x with stage := .declaring }) fun _ => rfl
  obtain ⟨k, hk, hkc⟩ := h.seat.tables.context
  have hl := (h.seat.tables.coordinator l hco).1
  refine after_transmit ready.link ready.opened sender ready.active fun label => ?_
  have turn := h.transmit (.declaring (some (l, m.nextDelivery)) t d (.client b (.begun s t)))
    label .declare (e := ⟨none, t, .declaring d s t (.client b (.begun s t))⟩)
    ready hl rfl (fun _ e => by cases e) (fun i e => .inl (Option.some.inj (e.symm.trans hco))) rfl rfl
    (if_pos rfl) (Client.changeContext_same hk) ⟨rfl, hkc.current, hkc.accepted, hkc.enrolled,
      hkc.coordinator.trans hco⟩ (fun _ _ e => by cases e)
    (fun e => absurd rfl e) (fun t' e => ?_) (fun t' e _ => ?_) rfl (h.seat.bare id)
  · exact ⟨_, _, _, turn, ⟨trivial, ⟨hb.free, hd, hb.begins⟩, nofun⟩, rfl, rfl⟩
  · obtain rfl := Option.some.inj e
    exact ⟨hb.home, hb.open_⟩
  · obtain rfl := Option.some.inj e
    exact hb.unnamed

theorem tasks_attach {name label : String} {listener : Listener} {job : Task} :
    tasks (w.out fun o => (o.addEndpoint name listener).schedule label job) = tasks w ++ [job] :=
  tasks_schedule

/-- What is to happen to a link that is attached. -/
def Outside.attached (o : Outside) (l : Nat) : Task :=
  if o.refusesLinks then .refuseLink l else .openLink l

theorem Outside.attached_cases {o : Outside} :
    o.attached l = .openLink l ∨ o.attached l = .refuseLink l := by
  unfold attached
  split
  · exact .inr rfl
  · exact .inl rfl

theorem after_attach {name : String} {listener : Listener} {Q : Nat → State → Prop}
    {R : Halt → State → Prop} (hQ : ∀ label, Q v.outside.endpoints.size
      (v.out fun o => (o.addEndpoint name listener).schedule label
        (v.outside.attached v.outside.endpoints.size))) :
    After (attach name listener) v Q R := by
  unfold attach
  simp only [after_bind, Act.after_outside, after_modifyOutside]
  unfold Outside.attached at hQ
  split
  · next refuses =>
    rw [if_pos refuses] at hQ
    exact hQ _
  · next accepts =>
    rw [if_neg accepts] at hQ
    exact hQ _

theorem after_establish {name : String} {token : Token Waiting} {Q : Unit → State → Prop}
    {R : Halt → State → Prop} (fresh : v.client.links[l]? = some { name })
    (side : v.outside.endpoints.size = l)
    (hQ : ∀ label, Q () (((v.on (·.changeLink l fun k => { k with opening := some token })).out fun o =>
      (o.addEndpoint name (.link l)).schedule label (v.outside.attached l)).on
        (·.changeLink l fun k => { k with sender := some l }))) :
    After (Link.establish (surroundings (n + 1)) l token) v Q R := by
  have listed : v.client.link l = { name } := Client.link_eq fresh
  unfold Link.establish
  simp only [after_bind, Act.after_link, listed]
  rw [if_neg (by simp)]
  simp only [after_bind, Act.after_modifyLink, after_attempt]
  refine after_attach fun label => ?_
  have side' : (v.on (·.changeLink l fun k => { k with
      opening := some token })).outside.endpoints.size = l := side
  rw [side']
  exact hQ label

theorem Turn.establish (h : Turn o G none s .idle co S w) {b d openId : Nat}
    (hb : Beginning G s t b S w) (hd : G.Live w.client d .declared t)
    (ho : G.Live w.client openId .opened t) (hco : ∀ i, co = some i → w.client.Closed i)
    {g : Context → Context} (hg : ∀ k, ContextAt (.idle : Phase Waiting) co k →
      ContextAt (.opening (some w.client.links.size) t openId d (.client b (.begun s t)) :
        Phase Waiting) co (g k))
    (hm : ∀ k, (g k).registry.consumers = k.registry.consumers)
    (hv : ∃ name, v = (w.on (·.changeContext s g)).on (·.addLink name)) :
    After (Link.establish (surroundings (n + 1)) w.client.links.size
      (.opening openId s t w.client.links.size (.declaring d s t (.client b (.begun s t)))
        (.client b (.begun s t)))) v (fun _ w' => Begun o s t S w') fun _ _ => False := by
  obtain ⟨l, hl⟩ : ∃ l, l = w.client.links.size := ⟨_, rfl⟩
  obtain ⟨token, htok⟩ : ∃ token : Token Waiting, token = .opening openId s t l
    (.declaring d s t (.client b (.begun s t))) (.client b (.begun s t)) := ⟨_, rfl⟩
  rw [← hl, ← htok]
  obtain ⟨name, hv⟩ := hv
  obtain ⟨k, hk, hkc⟩ := h.seat.tables.context
  have fresh : v.client.links[l]? = some { name } := by
    rw [hv, hl]
    exact Client.addLink_new
  have old {i : Nat} (hi : i ≠ l) : v.client.links[i]? = w.client.links[i]? := by
    rw [hv]
    exact Client.addLink_old (hl ▸ hi)
  have side : v.outside.endpoints.size = l := by
    rw [hv, hl]
    exact h.common.endpoints
  -- What the link is in the end.
  let m : Link Waiting := { name, opening := some token, sender := some l }
  have turn (label : String) (job : Task) (hj : job = .openLink l ∨ job = .refuseLink l) :
      Begun o s t S (((v.on (·.changeLink l fun k => { k with opening := some token })).out fun o =>
        (o.addEndpoint name (.link l)).schedule label job).on
        (·.changeLink l fun k => { k with sender := some l })) := by
    have adds : Client.Adds w.client ((v.client.changeLink l fun k =>
        { k with opening := some token }).changeLink l fun k => { k with sender := some l }) s m := by
      have new := Client.changeLink_same (f := fun k : Link Waiting => { k with sender := some l })
        (Client.changeLink_same (f := fun k : Link Waiting => { k with opening := some token }) fresh)
      subst hv hl
      refine ⟨rfl, rfl, rfl, ?_, fun i hi => ?_, fun k hk => ?_, ?_, fun i hi => ?_, new⟩
      · simp [World.on, Client.changeLink, Client.addLink, Client.changeContext]
      · simp [World.on, Client.changeLink, Client.addLink, Client.changeContext,
          Array.getElem?_modify, Ne.symm hi]
      · exact Client.members_changeContext hm hk
      · simp [World.on, Client.changeLink, Client.addLink, Client.changeContext]
      · rw [Client.changeLink_other hi, Client.changeLink_other hi]
        exact old hi
    subst hv hl
    refine ⟨_, _, _, h.attach (.opening (some w.client.links.size) t openId d
      (.client b (.begun s t))) name label adds rfl hj ⟨rfl, rfl⟩ ?_ rfl rfl
      (fun t' e => ?_) (fun t' e => ?_) rfl (h.seat.bare fun e => e) rfl,
      ⟨trivial, ⟨hb.free, ho, hd, hb.begins⟩, fun i e => ?_⟩,
      rfl, rfl⟩
    · refine h.seat.tables.build ⟨rfl, rfl⟩ hco ⟨rfl, fun i => ?_⟩ rfl (fun i e => ?_) rfl adds.new
        adds.old ⟨?_, rfl, fun _ => rfl, fun e => ?_, fun _ => ⟨_, rfl, rfl⟩⟩ (fun e => ?_)
        (Client.changeContext_same hk) (hg k hkc)
      · refine ⟨fun e => (Ledger.owners_cases e).imp_right fun e => e.1.trans h.common.owners, ?_⟩
        rintro (e | rfl)
        · exact Ledger.owners_old e
        · exact Ledger.owners_new h.common.owners
      · exact ⟨(Option.some.inj e).symm, rfl⟩
      · rw [show m.opening = some token from rfl, htok]
        exact (if_pos rfl).symm
      · cases e
      · obtain ⟨_, e, -⟩ := hco _ e
        exact Nat.lt_irrefl _ (Array.getElem?_eq_some_iff.1 e).1
    · obtain rfl := Option.some.inj e
      exact ⟨hb.home, hb.open_⟩
    · obtain rfl := Option.some.inj e
      exact hb.unnamed
    · refine ⟨job, ?_, ?_⟩
      · rw [tasks_on, tasks_attach]
        exact List.mem_append_right _ List.mem_cons_self
      · rcases hj with rfl | rfl <;> exact e
  exact after_establish fresh side fun label => turn label _ Outside.attached_cases

theorem on_addLink {f g : Context → Context} {name : String} :
    ((((w.on (·.changeContext s f)).on (·.addCompletion)).on (·.changeContext s g)).on
      (·.addLink name)).on (·.addCompletion) =
    (((w.on (·.addCompletion)).on (·.addCompletion)).on (·.changeContext s fun x => g (f x))).on
      (·.addLink name) :=
  congrArg (fun c : Client Waiting => World.mk (c.addCompletion.addCompletion.addLink name) w.outside)
    Client.changeContext_changeContext

/-- **A transaction begins.** -/
theorem Turn.begin (h : Turn o G none s .idle co S w) {b : Nat} (hb : Beginning G s t b S w) :
    After (Context.begin (surroundings (n + 1)) s t (.client b (.begun s t))) w
      (fun _ w' => Begun o s t S w') fun _ _ => False := by
  obtain ⟨k, hk, hkc⟩ := h.seat.tables.context
  have hk : w.client.contexts[s]? = some k := hk
  have idle : ¬ (w.client.context s).stage ≠ .idle := by
    rw [Client.context_eq hk]
    exact fun e => e hkc.stage
  unfold Context.begin
  simp only [after_bind, Act.after_context]
  rw [if_neg idle]
  simp only [after_bind, Act.after_modifyContext, Act.after_newCompletion, Act.after_usableLink]
  have turn := h.addCompletion (n := t) (a := .declared) rfl
  have hb := hb.addCompletion (a := .declared) (n := t) h.common.purposes
  have hd : (G.addPurpose .declared t).Live (w.on (·.addCompletion)).client
    w.client.completions.size .declared t := Ledger.live_new h.common.purposes
  obtain ⟨v, hv⟩ : ∃ v, v = (w.on (·.changeContext s fun x => { x with
    stage := .declaring })).on (·.addCompletion) := ⟨_, rfl⟩
  have hv' : v.client.contexts[s]? = some { k with stage := .declaring } := by
    rw [hv]
    exact Client.changeContext_same hk
  rw [← hv, Client.context_eq hv', show ({ k with stage := .declaring } : Context).coordinator = co
    from hkc.coordinator]
  by_cases closed : ∀ l, co = some l → w.client.Closed l
  · have unusable : (co.bind fun l => if (v.client.link l).state = .closed then none else some l) =
        none := by
      refine Option.bind_eq_none_iff.2 fun l e => if_pos ?_
      obtain ⟨m, hm, hc⟩ := closed l e
      have hm : v.client.links[l]? = some m := by
        rw [hv]
        exact hm
      rw [Client.link_eq hm, hc]
    rw [unusable]
    simp only [after_bind, Act.after_modifyContext, Act.after_context, Act.after_newLink,
      Act.after_newCompletion]
    have turn' := turn.addCompletion (n := t) (a := .opened) rfl
    have ho := Ledger.live_new (b := .opened) (m := t) turn.common.purposes
    have hb' := hb.addCompletion (a := .opened) (n := t) turn.common.purposes
    subst hv
    refine turn'.establish hb' hd.addCompletion ho closed
      (g := fun x => { x with stage := .declaring, linksBuilt := x.linksBuilt + 1 })
      (fun c hc => ⟨rfl, hc.current, hc.accepted, hc.enrolled, hc.coordinator⟩)
      (fun _ => rfl) ?_
    exact ⟨_, on_addLink⟩
  · obtain ⟨l, hl⟩ := Classical.not_forall.1 closed
    obtain ⟨hco, hcl⟩ := Classical.not_imp.1 hl
    obtain ⟨-, m, hm, -⟩ := h.seat.tables.coordinator l hco
    have hn : m.state ≠ .closed := fun e => hcl ⟨m, hm, e⟩
    have hm' : v.client.links[l]? = some m := by
      rw [hv]
      exact hm
    rw [hco]
    simp only [Option.bind_some, Client.link_eq hm', hn, if_false]
    subst hv
    exact turn.declare hb hd hco hm hn

/-- **The next transaction begins** in a session that is not in one. -/
theorem Turn.enterNext (h : Turn o G none s .idle co S w) (hS : S.Free)
    (hn : ∀ c t : Nat, G.homes[t]? = some s → ¬ G.Live w.client c .begun t) :
    After (Session.enterNext (surroundings (n + 1)) s) w
      (fun c w' => ∃ t S', Begun o s t S' w' ∧ S'.beginning = some c ∧ S'.sequence = S.sequence + 1 ∧
        c = w.client.completions.size)
      fun _ _ => False := by
  have numbered := h.changeSession (f := fun x => { x with sequence := x.sequence + 1 }) rfl rfl
    (.inl rfl) (h.dues.congr rfl rfl rfl rfl) id fun _ => ⟨rfl, rfl⟩
  have named := numbered.addTransaction ⟨S.id, .ofNat (S.sequence + 1)⟩
  have home : (G.addHome s).homes[w.client.transactions.size]? = some s := by
    show (G.homes ++ [s])[w.client.transactions.size]? = _
    rw [← h.common.homes, List.getElem?_concat_length]
  have unbegun (c t : Nat) (ht : (G.addHome s).homes[t]? = some s) :
      ¬ (G.addHome s).Live w.client c .begun t := by
    intro hl
    have lt : t < G.homes.length := h.common.called c .begun t hl.1 rfl
    rw [Ledger.addHome, List.getElem?_append_left lt] at ht
    exact hn c t ht hl
  have waiting := named.changeSession (f := fun x => { x with
    beginning := some w.client.completions.size }) rfl rfl (.inl rfl)
    ⟨fun _ => rfl, fun c t ht hl => absurd hl (unbegun c t ht), named.dues.report, named.dues.alone,
      named.dues.failed⟩
    (fun _ => rfl) fun _ => ⟨rfl, rfl⟩
  have begun := waiting.addCall home
    (waiting.dues.addBegin h.common.purposes unbegun rfl hS.current)
    (waiting.since.addCompletion h.common.purposes (by simp))
  unfold Session.enterNext
  simp only [after_bind, after_modifySession, after_sessionAt, Act.after_newTransaction,
    Act.after_newCompletion, after_pure, Outside.session_eq numbered.session]
  rw [show ({ S with sequence := S.sequence + 1 } : Session).context = s from h.context]
  refine (begun.begin ⟨Ledger.live_new named.common.purposes, home, ?_, ?_, ?_, rfl⟩).mono
    (fun _ w' hw => ⟨_, _, hw, rfl, rfl, rfl⟩) fun _ _ => id
  · rintro ⟨c, hc, -⟩
    have old := (Ledger.purposes_cases hc).resolve_right fun e => by cases e.2.1
    have : w.client.transactions.size < G.homes.length := h.common.called c (.report .commit) _ old rfl
    exact Nat.lt_irrefl _ (h.common.homes ▸ this)
  · simp [World.on, World.out, Client.addTransaction, Client.addCompletion, Client.transaction]
  · exact ⟨hS.current, hS.discharging, hS.aggregate, hS.failedSend, hS.outstanding⟩

/-! ### Moving on -/

/-- **The caller is told how the transaction ended, and the next one begins.** The caller of a commit
is told of a success just if the transaction has been committed. -/
theorem Turn.moveOn (h : Turn o G due s .idle co S w) {id : Nat} {ending : Ending}
    (hl : G.Live w.client id (.report ending) t) (ht : G.homes[t]? = some s)
    (hS : S.outstanding = 0) (legal : r.Legal)
    (hr : ending = .commit → r = .succeeded () → due = some t)
    (hd : ∀ t', due = some t' → t' = t ∧ ending = .commit ∧ r = .succeeded ()) :
    After (Session.moveOn (surroundings (n + 1)) s id r) w (fun _ w' => Past o s w')
      fun _ _ => False := by
  have told : Turn o G none s .idle co S (w.on (·.write id (.settled r))) := by
    cases hdue : due with
    | none =>
      subst hdue
      exact h.write hl rfl ht legal fun e e' => by cases hr (Purpose.report.inj e) e'
    | some t' =>
      obtain ⟨rfl, rfl, rfl⟩ := hd t' hdue
      exact h.report hdue hl ht (by simp [Phase.transaction])
  have reset := told.changeSession (f := fun x => { x with
    discharging := false, aggregate := none, failedSend := none, current := none }) rfl rfl (.inr hS)
    (h.dues.leave hl ht rfl rfl) (fun b => b) fun _ => ⟨rfl, rfl⟩
  unfold Session.moveOn
  simp only [after_bind, after_modifySession, after_discard]
  rw [Act.after_settle (by exact hl.2)]
  refine (reset.enterNext ⟨rfl, rfl, rfl, rfl, hS⟩ fun c t' ht' hb => ?_).mono (fun _ w' hw => ?_)
    fun _ _ => False.elim
  · have current := (h.dues.report id ending t ht hl).1
    rw [(h.dues.begun c t' ht' hb.before).2] at current
    cases current
  · obtain ⟨_, _, begun, -⟩ := hw
    exact begun.past

theorem Turn.tellClient (h : Turn o G due s .idle co S w) {outcome id : Nat} {ending : Ending}
    (ho : G.Live w.client outcome .outcome t) (hl : G.Live w.client id (.report ending) t)
    (ht : G.homes[t]? = some s) (hS : S.outstanding = 0) (legal : r.Legal)
    (hr : ending = .commit → r = .succeeded () → due = some t)
    (hd : ∀ t', due = some t' → t' = t ∧ ending = .commit ∧ r = .succeeded ()) :
    After ((Token.client outcome (.ended s id)).resolve (surroundings (n + 2)) r) w
      (fun _ w' => Past o s w') fun _ _ => False := by
  have told := h.write (r := r) ho rfl ht legal fun e => by cases e
  unfold Token.resolve
  rw [after_bind, Act.after_settle ho.2]
  exact told.moveOn (hl.write ho.1 (by rintro ⟨⟩)) ht hS legal hr hd

/-- **Whoever waits for the end of a transaction is told,** and the session moves on. -/
theorem Turn.tell (h : Turn o G due s .idle co S w) {commit : Bool} {q : Token Waiting}
    (hq : G.Ends w.client s t commit q) (ht : G.homes[t]? = some s) (hS : S.outstanding = 0)
    (legal : r.Legal) (hr : commit → r = .succeeded () → due = some t)
    (hd : ∀ t', due = some t' → t' = t ∧ commit ∧ r = .succeeded ()) :
    After (q.resolve (surroundings (n + 2)) r) w (fun _ w' => Past o s w') fun _ _ => False := by
  cases hq with
  | plain ho hl =>
    refine h.tellClient ho hl ht hS legal (fun e => hr ?_) fun t' e => ?_
    · cases commit with
      | true => rfl
      | false => cases e
    · obtain ⟨rfl, rfl, rfl⟩ := hd t' e
      exact ⟨rfl, rfl, rfl⟩
  | @swapped _ id _ _ f hf hi ho hl =>
    have none : due = none := by
      cases hdue : due with
      | none => rfl
      | some t' => cases (hd t' hdue).2.1
    subst none
    have told := h.write (r := r) hi rfl ht legal fun e => by cases e
    unfold Token.resolve
    rw [after_bind, Act.after_settle hi.2]
    exact told.tellClient (ho.write hi.1 (by rintro ⟨⟩)) (hl.write hi.1 (by rintro ⟨⟩)) ht hS
      (legal.instead hf)
      (fun _ e => by cases e) fun _ e => by cases e

end Peer

end Transact
