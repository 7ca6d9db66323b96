import Transact.Proofs.Peer.Setup

/-! # Links that open and close

When a link opens, the declare that has waited for it is sent. When a link closes, whatever is
outstanding on it has failed: a begin, or the end of a transaction. A link that closes with nothing
outstanding leaves an active transaction in doubt; the broker has dropped it.

* `Calm.decideLink`, `Calm.closeLink`, `Calm.close`: all is at rest afterwards. -/

namespace Transact.Peer

open Run

variable {o : Origin} {G : Ledger} {due : Option Nat} {s n i t l : Nat} {p : Phase Waiting}
  {co : Option Nat} {S : Session} {w v : State} {m : Link Waiting} {q : Token Waiting}
  {commit : Bool} {r : Resolution Unit} {f : Failure} {error : Option Condition}

/-! ### How exchanges end -/

/-- **A begin has failed.** The session is in no transaction and may try again. -/
theorem Turn.unbegun (h : Turn o G none s p co S w) (legal : f.Legal) (hp : p.Still)
    (hb : p.bound = none)
    (hS : S.Free) (hq : G.Begins w.client s t S q) (ht : G.homes[t]? = some s) :
    After (q.resolve (surroundings (n + 1)) (.failed f)) (w.on (·.changeContext s (·.cleared)))
      (fun _ w' => Turn o G none s .idle co S w' ∧ Stands G s .idle S w') fun _ _ => False := by
  obtain ⟨b, rfl, hbeg, hl⟩ := hq
  have idle := h.forget (g := (·.cleared)) hp (fun k hk => hk.cleared)
    (h.seat.unrecorded (Phase.recorded_eq_none hb)) (h.seat.bare (Phase.not_holding hb)) fun _ _ => id
  have told := idle.write (r := .failed f) hl rfl ht legal.failed (by simp)
  unfold Token.resolve
  rw [after_bind, Act.after_settle (by exact hl.2)]
  refine ⟨told, trivial, ⟨hS, fun b' e => ⟨f, ?_⟩⟩, fun _ e => by cases e⟩
  obtain rfl := Option.some.inj (hbeg.symm.trans e)
  simp [World.on, Client.write, Client.changeContext, hl.2.lt]

theorem Turn.undeclared (h : Turn o G none s p co S w) (legal : f.Legal) (hp : p.Still)
    (hb : p.bound = none) {id : Nat}
    (hS : S.Free) (hd : G.Live w.client id .declared t) (hq : G.Begins w.client s t S q)
    (ht : G.homes[t]? = some s) :
    After ((Token.declaring id s t q).resolve (surroundings (n + 1)) (.failed f)) w
      (fun _ w' => Turn o G none s .idle co S w' ∧ Stands G s .idle S w') fun _ _ => False := by
  obtain ⟨b, e, hb', hl⟩ := hq
  have told := h.write (r := .failed f) hd rfl ht legal.failed nofun
  unfold Token.resolve
  simp only [after_bind]
  rw [Act.after_settle hd.2]
  exact told.unbegun legal hp hb hS ⟨b, e, hb', hl.write hd.1 (by rintro ⟨⟩)⟩ ht

theorem Turn.unopened (h : Turn o G none s p co S w) (legal : f.Legal) (hp : p.Still)
    (hb : p.bound = none) {id l : Nat}
    {next : Token Waiting} (hS : S.Free) (ha : G.Live w.client id .opened t)
    (hq : G.Begins w.client s t S q) (ht : G.homes[t]? = some s) :
    After ((Token.opening id s t l next q).resolve (surroundings (n + 1)) (.failed f)) w
      (fun _ w' => Turn o G none s .idle co S w' ∧ Stands G s .idle S w') fun _ _ => False := by
  obtain ⟨b, e, hb', hl⟩ := hq
  have told := h.write (r := .failed f) ha rfl ht legal.failed nofun
  unfold Token.resolve
  simp only [after_bind]
  rw [Act.after_settle ha.2]
  exact told.unbegun legal hp hb hS ⟨b, e, hb', hl.write ha.1 (by rintro ⟨⟩)⟩ ht

/-- **A discharge has ended,** whatever the outcome. -/
theorem Turn.ended (h : Turn o G due s p co S w) (hp : p.Still) (hn : p.recorded = none)
    (hw : ¬ p.Holding) {id : Nat}
    (hl : G.Live w.client id .discharged t) (ht : G.homes[t]? = some s) (hS : S.outstanding = 0)
    (hq : G.Ends w.client s t commit q) (legal : r.Legal)
    (hr : commit → r = .succeeded () → due = some t)
    (hd : ∀ t', due = some t' → t' = t ∧ commit ∧ r = .succeeded ()) :
    After ((Token.discharging id s commit q).resolve (surroundings (n + 2)) r) w
      (fun _ w' => Past o s w') fun _ _ => False := by
  have told := h.write (r := r) hl rfl ht legal nofun
  unfold Token.resolve
  simp only [after_bind]
  rw [Act.after_settle hl.2]
  refine (told.conclude hp (told.seat.unrecorded hn) (told.seat.bare hw)).mono (fun _ w' hw => ?_)
    fun _ _ => False.elim
  exact hw.1.tell ((hq.write hl).congr rfl hw.2.1) ht hS legal hr hd

/-! ### Opening -/

theorem Turn.opened {a d : Nat} (h : Turn o G none s (.opening (some l) t a d q) co S w)
    (hs : G.Stance w.client s S (.opening (some l) t a d q)) (hm : w.client.links[l]? = some m)
    (hb : m.state = .building) :
    After (Link.opened (surroundings (n + 1)) l)
      (w.out (·.changeEndpoint l fun x => { x with opened := true }))
      (fun _ w' => Past o s w') fun _ _ => False := by
  obtain ⟨hf, ha, hd, b, rfl, hb', hl⟩ := hs
  obtain ⟨hown, -, hco⟩ := h.seat.tables.building l rfl
  obtain ⟨k, hk, hkc⟩ := h.seat.tables.context
  obtain ⟨e, he, hel, hef⟩ := h.common.sync l m hm
  have own := h.seat.tables.link l m hown hm
  have opening : m.opening = some (.opening a s t l (.declaring d s t (.client b (.begun s t)))
      (.client b (.begun s t))) := own.opening.trans (if_pos rfl)
  have told := h.write (r := .succeeded ()) ha rfl (h.seat.home t rfl).1 nofun (by simp)
  have hm' : (w.out (·.changeEndpoint l fun x => { x with opened := true })).client.link l = m :=
    Client.link_eq hm
  unfold Link.opened
  simp only [after_bind, Act.after_link, hm', hb, Act.after_modifyLink, opening, ne_eq,
    not_true_eq_false, if_false]
  unfold Token.resolve
  simp only [after_bind]
  rw [Act.after_settle (by exact ha.2)]
  simp only [Act.after_modifyContext]
  obtain ⟨v, hv⟩ : ∃ v, v = (((w.out (·.changeEndpoint l fun x => { x with opened := true })).on
      (·.changeLink l fun k => { k with state := .opened, opening := none })).on
      (·.write a (.settled (.succeeded ())))).on
      (·.changeContext s fun x => { x with coordinator := some l }) := ⟨_, rfl⟩
  rw [← hv]
  have ready : Ready (w.on (·.write a (.settled (.succeeded ())))) v s l
      { m with state := .opened, opening := none } := by
    rw [hb] at hef
    subst hv
    refine ⟨⟨m, hm, by simp [hb], rfl⟩,
      ⟨rfl, rfl, rfl, ?_, fun i hi => ?_, fun k hk => ?_, ?_, fun i hi => ?_⟩,
      Client.changeLink_same hm, rfl, rfl, ?_, rfl, ?_, ⟨{ e with opened := true }, ?_, hel, rfl, hef.2⟩,
      fun i hi => ?_⟩
    · simp [World.on, World.out, Client.changeContext, Client.changeLink, Client.write]
    · simp [World.on, World.out, Client.changeContext, Client.changeLink, Client.write,
        Array.getElem?_modify, Ne.symm hi]
    · exact Client.members_changeContext (g := fun x => { x with coordinator := some l })
        (fun _ => rfl) hk
    · simp [World.on, World.out, Client.changeContext, Client.changeLink, Client.write]
    · exact Client.changeLink_other hi
    · exact own.pending
    · simp [World.on, World.out, Outside.changeEndpoint]
    · simp [World.on, World.out, Outside.changeEndpoint, Array.getElem?_modify, he]
    · simp [World.on, World.out, Outside.changeEndpoint, Array.getElem?_modify, Ne.symm hi]
  have sender : m.sender = some l := by
    obtain ⟨_, hs, rfl⟩ := own.sender (by simp [hb])
    exact hs
  refine after_transmit ready.link ready.opened sender ready.active fun label => ?_
  have turn := told.transmit (.declaring (some (l, m.nextDelivery)) t d (.client b (.begun s t))) label
    .declare
    (e := ⟨none, t, .declaring d s t (.client b (.begun s t))⟩) ready hown rfl
    (fun i e => (Option.some.inj e).symm) (fun i e => .inr (hco i e)) rfl rfl (if_pos rfl)
    (c := { k with coordinator := some l }) ?_
    ⟨hkc.stage, hkc.current, hkc.accepted, hkc.enrolled, rfl⟩
    (fun _ _ e => by cases e) (fun e => absurd rfl e) (fun t' e => ?_) (fun t' e _ => ?_) rfl
    (told.seat.bare id)
  · have hd' := (hd.write (r := .succeeded ()) ha.1 (by rintro ⟨⟩)).congr rfl ready.client.completions
    have hl' := (hl.write (r := .succeeded ()) ha.1 (by rintro ⟨⟩)).congr rfl ready.client.completions
    exact ⟨_, _, _, _, turn, ⟨trivial, ⟨hf, hd', b, rfl, hb', hl'⟩, fun _ e => by cases e⟩,
      fun _ _ e => by cases e⟩
  · rw [hv]
    exact Client.changeContext_same hk
  · exact told.seat.home t' e
  · exact told.seat.unnamed t' e rfl

theorem Calm.owner (h : Calm G w) (hm : w.client.links[l]? = some m) :
    ∃ s p co S, G.owners[l]? = some s ∧ Rest G s p co S w := by
  have lt : l < G.owners.length := by
    rw [h.common.owners]
    exact (Array.getElem?_eq_some_iff.1 hm).1
  have hl : G.owners[l]? = some G.owners[l] := List.getElem?_eq_getElem lt
  obtain ⟨p, co, S, hr⟩ := h.settled _ (h.common.owner l _ hl)
  exact ⟨_, p, co, S, hl, hr⟩

theorem Outside.changeEndpoint_self {x : Outside} {e : Endpoint} {f : Endpoint → Endpoint}
    (he : x.endpoints[l]? = some e) (hf : f e = e) : x.changeEndpoint l f = x := by
  have : x.endpoints.modify l f = x.endpoints := by
    refine Array.ext_getElem? fun i => ?_
    rw [Array.getElem?_modify]
    by_cases hi : l = i
    · subst hi
      simp [he, hf]
    · simp [hi]
  simp [changeEndpoint, this]

/-- Another link than the one that is building is opened or closed: the session stands as before. -/
theorem Turn.stands (h : Turn o G none s p co S w) (hf : p.Firm) (hs : G.Stance w.client s S p)
    (ho : ∀ i, p.building = some i → i ≠ l → ∃ job ∈ tasks w, job.opens? = some i)
    (hm : w.client.links[l]? = some m) (hb : m.state ≠ .building) : Stands G s p S w := by
  refine ⟨hf, hs, fun i e => ho i e ?_⟩
  rintro rfl
  obtain ⟨-, ⟨k, hk, hkb⟩, -⟩ := h.seat.tables.building i e
  obtain rfl : m = k := Option.some.inj (hm.symm.trans hk)
  exact hb hkb

/-- **The broker opens a link.** -/
theorem Turn.openLink (h : Turn o G none s p co S w) (hf : p.Firm) (hst : G.Stance w.client s S p)
    (ho : ∀ i, p.building = some i → i ≠ l → ∃ job ∈ tasks w, job.opens? = some i)
    (hown : G.owners[l]? = some s) (hm : w.client.links[l]? = some m) :
    After (openEndpoint (surroundings (n + 1)) l) w (fun _ w' => Back o w') fun _ _ => False := by
  obtain ⟨e, he, hel, hef⟩ := h.common.sync l m hm
  have own := h.seat.tables.link l m hown hm
  unfold openEndpoint
  simp only [after_bind, after_endpointAt, Outside.endpoint_eq he]
  cases hs : m.state with
  | closed =>
    rw [hs] at hef
    rw [if_pos (by exact hef)]
    exact h.back (h.stands hf hst ho hm (by simp [hs]))
  | opened =>
    rw [hs] at hef
    rw [if_neg (by simp [hef.2])]
    simp only [after_bind, after_modifyEndpoint, hel]
    have same : w.out (·.changeEndpoint l fun x => { x with opened := true }) = w := by
      refine congrArg (World.mk w.client) (Outside.changeEndpoint_self he ?_)
      rw [← hef.1]
    rw [same]
    unfold Link.opened
    simp only [after_bind, Act.after_link, Client.link_eq hm, hs]
    exact h.back (h.stands hf hst ho hm (by simp [hs]))
  | building =>
    rw [hs] at hef
    rw [if_neg (by simp [hef.2])]
    simp only [after_bind, after_modifyEndpoint, hel]
    have building := own.building hs
    cases p with
    | opening link t a d q =>
      obtain rfl : link = some l := building
      exact (h.opened hst hm hs).mono (fun _ _ h' => h'.back) fun _ _ => id
    | _ => cases building

/-! ### Closing -/

/-- The broker's side of a link is gone, and with it the transactions of the link. -/
def Outside.detach (o : Outside) (l : Nat) : Outside :=
  (o.changeEndpoint l fun x => { x with closed := true }).changeBroker (·.forgetLink l)

theorem Common.closing (h : Common G due w) {g : Link Waiting → Link Waiting}
    (hm : w.client.links[l]? = some m) (hc : (g m).state = .closed) :
    Common G due ((w.on (·.changeLink l g)).out (·.detach l)) := by
  obtain ⟨e, he, hel, -⟩ := h.sync l m hm
  obtain ⟨trade, inflight, gone⟩ := Broker.trade_forgetLink (l := l) h.sound.toShaped
  have forgets := Broker.moves_forgetLink (b := w.outside.broker) (l := l) []
  have forgot : Common G due (w.out (·.changeBroker (·.forgetLink l))) :=
    h.changeBroker forgets.txnCounter (trade.takes inflight)
      (fun _ d hd => .inl ((forgets.held d hd).resolve_right List.not_mem_nil)) fun _ => id
  exact { forgot with
    endpoints := by
      simpa [World.on, World.out, Client.changeLink, Outside.detach, Outside.changeEndpoint,
        Outside.changeBroker] using h.endpoints
    owners := by simpa [World.on, World.out, Client.changeLink] using h.owners
    placed := fun job hj i hi => by
      have := h.placed job hj i hi
      simpa [World.on, World.out, Client.changeLink] using this
    sync := by
      intro i k hk
      by_cases hi : i = l
      · subst hi
        obtain rfl : g m = k := Option.some.inj ((Client.changeLink_same hm).symm.trans hk)
        refine ⟨{ e with closed := true }, ?_, hel, by rw [hc]; rfl⟩
        simp [World.on, World.out, Outside.detach, Outside.changeEndpoint, Outside.changeBroker,
          Array.getElem?_modify, he]
      · obtain ⟨e', he', hf⟩ := h.sync i k ((Client.changeLink_other hi).symm.trans hk)
        refine ⟨e', ?_, hf⟩
        simpa [World.on, World.out, Outside.detach, Outside.changeEndpoint, Outside.changeBroker,
          Array.getElem?_modify, Ne.symm hi] using he'
    opened := fun y r hr => by
      obtain ⟨k, hk, ho⟩ := forgot.opened y r hr
      exact ⟨k, (Client.changeLink_other (gone y r hr)).trans hk, ho⟩ }

/-- **A link closes:** what was outstanding on it is loose. -/
theorem Turn.closing (h : Turn o G none s p co S w) (hl : G.owners[l]? = some s)
    {g : Link Waiting → Link Waiting} (hm : w.client.links[l]? = some m) (hn : m.state ≠ .closed)
    (hc : (g m).state = .closed) (ho : (g m).opening = none) (hp : (g m).pending = [])
    (quiet : Prop) :
    Turn ⟨G, (w.on (·.changeLink l g)).out (·.detach l), none, quiet⟩ G none s p.loose co S
      ((w.on (·.changeLink l g)).out (·.detach l)) := by
  have tables := h.seat.tables
  obtain ⟨trade, -, gone⟩ := Broker.trade_forgetLink (l := l) h.common.sound.toShaped
  have exact_before (hx : Exact ((w.on (·.changeLink l g)).out (·.detach l))) : Exact w :=
    ⟨hx.1, trade.tagCounter ▸ hx.2.1, hx.2.2⟩
  -- The link is the only one of the session that has not closed.
  have only {i : Nat} {k : Link Waiting} (hi : G.owners[i]? = some s)
      (hk : w.client.links[i]? = some k) (hkn : k.state ≠ .closed) : i = l :=
    tables.alone hi hl hk hm hkn hn
  have after {i : Nat} {k : Link Waiting} (hi : G.owners[i]? = some s)
      (hk : (w.client.changeLink l g).links[i]? = some k) : k.state = .closed := by
    by_cases e : i = l
    · subst e
      exact (Option.some.inj ((Client.changeLink_same hm).symm.trans hk)) ▸ hc
    · refine Decidable.byContradiction fun hkn => e (only hi ?_ hkn)
      exact (Client.changeLink_other e).symm.trans hk
  refine {
    common := h.common.closing hm hc
    others := fun i hi hne => (h.others i hi hne).spared ?_
    seat := ⟨?_, fun i k hi hk hkn => absurd (after hi hk) hkn, ?_, ?_, ?_, ?_, fun y r hr hi => ?_,
      h.seat.enrolled, fun hx c k hk hks hne => ?_⟩
    dues := h.dues.of_same rfl rfl rfl rfl
    session := h.session
    context := h.context
    count := h.count
    current := h.current
    due := nofun
    since := .refl ⟨G, _, none, quiet⟩ }
  · have other {i' : Nat} (hi' : G.owners[i']? = some i) : i' ≠ l := by
      rintro rfl
      exact hne (Option.some.inj (hi'.symm.trans hl))
    exact { Spares.refl i G w with
      link := fun i' hi' => Client.changeLink_other (other hi')
      record := fun _ t y r _ _ ho hr => (Broker.moves_forgetLink []).record y r hr (other ho)
      alone := fun y r hr _ => trade.links y r hr
      exact_before }
  · refine tables.shut ⟨hm, Client.changeLink_same hm, fun i hi => Client.changeLink_other hi⟩
      (fun i e => ?_) (fun i d e => ?_) hc ho hp rfl rfl
    · obtain ⟨hi, ⟨k, hk, hb⟩, -⟩ := tables.building i e
      exact only hi hk (by simp [hb])
    · obtain ⟨hco, k, hk, hb, -⟩ := tables.slot i d e
      exact only (tables.coordinator i hco).1 hk (by simp [hb])
  · intro _ l y e
    rw [Phase.loose_still.sealing] at e
    cases e
  · intro _ t y i k _ hco hk hkn
    exact absurd (after (tables.coordinator i hco).1 hk) hkn
  · intro t e
    exact h.seat.home t (Phase.loose_transaction ▸ e)
  · intro t e hb
    exact h.seat.unnamed t (Phase.loose_transaction ▸ e) (Phase.loose_bound ▸ hb)
  · obtain ⟨r', hr', e⟩ := trade.links y r hr
    obtain ⟨k, hk, ho⟩ := h.common.opened y r' hr'
    exact absurd (only hi (e ▸ hk) (by simp [ho])) (gone y r hr)
  · exact (h.seat.holding (exact_before hx) c k hk hks hne).imp_left Phase.holding_loose

theorem Client.changeLink_congr {x : Client Waiting} {g g' : Link Waiting → Link Waiting}
    (h : ∀ k, x.links[l]? = some k → g k = g' k) : x.changeLink l g = x.changeLink l g' := by
  have e : x.links.modify l g = x.links.modify l g' := by
    refine Array.ext_getElem? fun i => ?_
    rw [Array.getElem?_modify, Array.getElem?_modify]
    by_cases hi : l = i
    · subst hi
      cases hk : x.links[l]? with
      | none => rfl
      | some k => simp [h k hk]
    · simp [hi]
  simp [Client.changeLink, e]

theorem on_detach {a b : Link Waiting → Link Waiting} (c : Link Waiting → Link Waiting)
    (h : ∀ k, w.client.links[l]? = some k → b (a k) = c k) :
    ((w.on (·.changeLink l a)).out (·.detach l)).on (·.changeLink l b) =
      (w.on (·.changeLink l c)).out (·.detach l) := by
  refine congrArg (World.mk · (w.outside.detach l)) ?_
  show (w.client.changeLink l a).changeLink l b = w.client.changeLink l c
  rw [Client.changeLink_changeLink]
  exact Client.changeLink_congr h

/-- What is left of a link that has closed. -/
def shutDown (error : Option Condition) (k : Link Waiting) : Link Waiting :=
  { k with state := .closed, opening := none, pending := [], closeError := error }

/-- Nothing is outstanding on the links of a session at work. -/
theorem Turn.drained (h : Turn o G due s p co S w) (hp : p.Still) (hl : G.owners[l]? = some s) :
    (w.client.link l).pending = [] ∧
      w.on (·.changeLink l fun k => { k with pending := [] }) = w := by
  have none {k : Link Waiting} (hk : w.client.links[l]? = some k) : k.pending = [] :=
    (h.seat.tables.link l k hl hk).pending.trans hp.pendingAt
  refine ⟨?_, World.on_self (Client.changeLink_self fun k hk => by rw [← none hk])⟩
  cases hk : w.client.links[l]? with
  | none => rw [Client.link_absent hk]; rfl
  | some k => rw [Client.link_eq hk, none hk]

/-- Whoever waits for an answer is told, after the link has closed. -/
theorem Turn.failAll (h : Turn o G none s p.loose co S w) {d : Nat} {f : Failure}
    (legal : f.Legal) (hst : G.Stance w.client s S p) (hp : p.slot = some (l, d)) :
    After (Link.failAll (surroundings (n + 2)) f (p.pendingAt s l)) w (fun _ w' => Back o w')
      fun _ _ => False := by
  obtain ⟨e, he, hpe⟩ := Phase.pendingAt_slot (c := s) hp
  rw [hpe]
  simp only [Link.failAll, after_bind, after_pure]
  cases p with
  | declaring slot t id q =>
    obtain ⟨hS, hd, hb⟩ := hst
    obtain rfl := Option.some.inj he
    exact (h.undeclared legal ⟨rfl, rfl⟩ rfl hS hd hb (h.seat.home t rfl).1).mono
      (fun _ w' hw => hw.1.back hw.2) fun _ _ => False.elim
  | discharging slot t y id commit q =>
    obtain ⟨-, -, hS, hd, hq, -⟩ := hst
    obtain rfl := Option.some.inj he
    exact (h.ended ⟨rfl, rfl⟩ rfl (fun e => e) hd (h.seat.home t rfl).1 hS hq legal.failed
      (fun _ e => by cases e) fun _ e => by cases e).mono (fun _ w' hw => hw.back) fun _ _ => False.elim
  | _ => cases hp

/-- A phase in which nothing is outstanding on the only link that has not closed. -/
theorem Seat.still (h : Seat G s p co w) (hl : G.owners[l]? = some s)
    (hm : w.client.links[l]? = some m) (hn : m.state ≠ .closed) (hb : p.building ≠ some l)
    (hs : ¬ ∃ d, p.slot = some (l, d)) : p.Still := by
  have only {i : Nat} {k : Link Waiting} (hi : G.owners[i]? = some s)
      (hk : w.client.links[i]? = some k) (hkn : k.state ≠ .closed) : i = l :=
    h.tables.alone hi hl hk hm hkn hn
  refine ⟨Option.eq_none_iff_forall_ne_some.2 fun i e => hb ?_,
    Option.eq_none_iff_forall_ne_some.2 fun x e => hs ⟨x.2, ?_⟩⟩
  · obtain ⟨hi, ⟨k, hk, hb⟩, -⟩ := h.tables.building i e
    rw [← only hi hk (by simp [hb]), e]
  · obtain ⟨hco, k, hk, hb, -⟩ := h.tables.slot x.1 x.2 e
    rw [← only (h.tables.coordinator x.1 hco).1 hk (by simp [hb]), e]

/-- **A link closes, and whoever waits for something on it is told.** -/
theorem Turn.shut (h : Turn o G none s p co S w) (error : Option Condition) (hf : p.Firm)
    (hst : G.Stance w.client s S p) (legal : f.Legal) (hl : G.owners[l]? = some s)
    (hm : w.client.links[l]? = some m) (hn : m.state ≠ .closed) :
    After (Link.shut (surroundings (n + 2)) l f)
      ((w.on (·.changeLink l fun k => { k with closeError := error })).out (·.detach l))
      (fun _ w' => Steady G w w') fun _ _ => False := by
  obtain ⟨v, hv⟩ : ∃ v, v = (w.on (·.changeLink l (shutDown error))).out (·.detach l) := ⟨_, rfl⟩
  have turn : Turn ⟨G, v, none, False⟩ G none s p.loose co S v := by
    rw [hv]
    exact h.closing hl hm hn rfl rfl rfl False
  have stance : G.Stance v.client s S p :=
    hst.congr rfl (by rw [hv]; rfl) (by rw [hv]; rfl) (fun _ => id) rfl rfl rfl rfl rfl rfl
  have own := h.seat.tables.link l m hl hm
  have trade := (Broker.trade_forgetLink (l := l) h.common.sound.toShaped).1
  have steady {w' : State} (hw : Back ⟨G, v, none, False⟩ w') : Steady G w w' := by
    refine hw.steady (by rw [hv]; rfl) ?_ fun _ => ?_
    · rw [hv]
      exact .of_same rfl rfl rfl trade.tagCounter.ge le_rfl le_rfl
    · rw [hv]
      exact .of_trade fun _ => trade
  have listed : (((w.on (·.changeLink l fun k => { k with closeError := error })).out
      (·.detach l)).client.link l) = { m with closeError := error } :=
    Client.link_eq (Client.changeLink_same hm)
  unfold Link.shut
  simp only [after_bind, Act.after_link, listed, Act.after_modifyLink]
  by_cases opening : p.building = some l
  · cases p with
    | opening link t a d q =>
      obtain rfl : link = some l := opening
      obtain ⟨hS, ha, hd, hb⟩ := stance
      have waiting : m.opening = some (.opening a s t l (.declaring d s t q) q) :=
        own.opening.trans (if_pos rfl)
      have empty : m.pending = [] := own.pending
      rw [waiting, on_detach (shutDown error), ← hv]
      · simp only [after_bind]
        refine (turn.unopened legal ⟨rfl, rfl⟩ rfl hS ha hb (h.seat.home t rfl).1).mono
          (fun _ w' hw => ?_) fun _ _ => id
        obtain ⟨hp, hs⟩ := hw.1.drained ⟨rfl, rfl⟩ hl
        simp only [Act.after_link, hp, Act.after_modifyLink, hs]
        exact steady (hw.1.back hw.2)
      · intro k hk
        obtain rfl := Option.some.inj (hm.symm.trans hk)
        rw [shutDown, ← empty]
    | _ => cases opening
  · have silent : m.opening = none := own.opening.trans (Phase.openingAt_of_ne opening)
    obtain ⟨g, hg⟩ : ∃ g : Link Waiting → Link Waiting, g = fun k =>
      { k with closeError := error, state := .closed, opening := none } := ⟨_, rfl⟩
    have state : (((w.on (·.changeLink l fun k => { k with closeError := error })).out
        (·.detach l)).on (·.changeLink l fun k => { k with state := .closed, opening := none })) =
        (w.on (·.changeLink l g)).out (·.detach l) :=
      on_detach g fun k _ => by rw [hg]
    have listed : ((w.on (·.changeLink l g)).out (·.detach l)).client.link l = g m :=
      Client.link_eq (Client.changeLink_same hm)
    simp only [silent, state, after_bind, Act.after_link, listed, Act.after_modifyLink]
    rw [on_detach (shutDown error) fun k _ => by rw [hg, shutDown], ← hv,
      show (g m).pending = m.pending by rw [hg], own.pending]
    by_cases outstanding : ∃ d, p.slot = some (l, d)
    · obtain ⟨d, hs⟩ := outstanding
      exact (turn.failAll legal stance hs).mono (fun _ _ hw => steady hw) fun _ _ => id
    · have still := h.seat.still hl hm hn opening outstanding
      rw [show p.pendingAt (G.frame s).context l = [] from still.pendingAt]
      rw [still.loose] at turn
      refine steady (turn.back ⟨hf, stance, fun i e => ?_⟩)
      cases still.1.symm.trans e

/-- **The broker closes a link.** -/
theorem Turn.closeLink (h : Turn o G none s p co S w) (hf : p.Firm) (hst : G.Stance w.client s S p)
    (ho : ∀ i, p.building = some i → i ≠ l → ∃ job ∈ tasks w, job.opens? = some i)
    (hown : G.owners[l]? = some s) (hm : w.client.links[l]? = some m) :
    After (closeEndpoint (surroundings (n + 2)) l error) w (fun _ w' => Steady G w w')
      fun _ _ => False := by
  obtain ⟨e, he, hel, hef⟩ := h.common.sync l m hm
  unfold closeEndpoint
  simp only [after_bind, after_endpointAt, Outside.endpoint_eq he]
  by_cases hs : m.state = .closed
  · rw [hs] at hef
    rw [if_pos (by exact hef)]
    exact (h.calm (h.stands hf hst ho hm (by simp [hs]))).unmoved
  · rw [if_neg (by simp [hef.closed hs])]
    simp only [after_bind, after_modifyEndpoint, after_modifyBroker, hel]
    unfold Link.closed
    have listed : ((w.out (·.changeEndpoint l fun x => { x with closed := true })).out
        (·.changeBroker (·.forgetLink l))).client.link l = m := Client.link_eq hm
    simp only [after_bind, Act.after_link, listed, hs, if_false, Act.after_modifyLink]
    exact h.shut error hf hst (fun e => by cases e) hown hm hs

theorem Calm.closeLink (h : Calm G w) (hl : l < w.client.links.size) :
    After (closeEndpoint (surroundings (n + 2)) l error) w (fun _ w' => Steady G w w')
      fun _ _ => False := by
  obtain ⟨m, hm⟩ : ∃ m, w.client.links[l]? = some m := ⟨_, Array.getElem?_eq_getElem hl⟩
  obtain ⟨s, p, co, S, hown, hr⟩ := h.owner hm
  exact (h.turn False hr).closeLink hr.firm hr.stance (fun i e _ => hr.opens i e) hown hm

/-- **A link that waits to be opened is opened or refused.** The task that does it is the oldest one. -/
theorem Calm.decideLink (h : Calm G w) {job : Task} {loop : Loop Task} {label : String}
    (ht : tasks w = job :: tasks (w.out (·.withLoop loop)))
    (hj : job = .openLink l ∨ job = .refuseLink l) :
    After (exec (surroundings (n + 2)) label job) (w.out (·.withLoop loop))
      (fun _ w' => Steady G w w') fun _ _ => False := by
  have link : job.link? = some l := by
    rcases hj with rfl | rfl <;> rfl
  have opens : job.opens? = some l := by
    rcases hj with rfl | rfl <;> rfl
  have hl := h.common.placed job (ht ▸ List.mem_cons_self) l link
  obtain ⟨m, hm⟩ : ∃ m, w.client.links[l]? = some m := ⟨_, Array.getElem?_eq_getElem hl⟩
  obtain ⟨s, p, co, S, hown, hr⟩ := h.owner hm
  have turn := h.startOpening False hr ht hj hown
  have waits (i : Nat) (e : p.building = some i) (hi : i ≠ l) :
      ∃ job ∈ tasks (w.out (·.withLoop loop)), job.opens? = some i :=
    opens_tail ht (fun e' => hi (Option.some.inj (e'.symm.trans opens))) (hr.opens i e)
  rcases hj with rfl | rfl
  · exact (turn.openLink hr.firm hr.stance waits hown hm).mono
      (fun _ _ back => back.steady rfl (.of_same rfl rfl rfl le_rfl le_rfl le_rfl) fun _ => .refl _)
      fun _ _ => id
  · exact (turn.closeLink hr.firm hr.stance waits hown hm).mono
      (fun _ _ steady => steady.started) fun _ _ => id

/-- **The client closes a link.** -/
theorem Calm.close (h : Calm G w) (hl : l < w.client.links.size) :
    After (Link.close (surroundings (n + 2)) l) w (fun _ w' => Steady G w w')
      fun _ _ => False := by
  obtain ⟨m, hm⟩ : ∃ m, w.client.links[l]? = some m := ⟨_, Array.getElem?_eq_getElem hl⟩
  obtain ⟨e, he, -, hef⟩ := h.common.sync l m hm
  obtain ⟨s, p, co, S, hown, hr⟩ := h.owner hm
  unfold Link.close
  simp only [after_bind, Act.after_link, Client.link_eq hm]
  by_cases hs : m.state = .closed
  · rw [if_pos hs]
    exact h.unmoved
  · obtain ⟨side, hsender, hside⟩ := (hr.seat.tables.link l m hown hm).sender hs
    rw [show side = l from hside] at hsender
    have closing := (h.turn False hr).shut (n := n) (f := (Problem.closedLocally m.name).toFailure)
      m.closeError hr.firm hr.stance (fun e => by cases e) hown hm hs
    have same : w.on (·.changeLink l fun k => { k with closeError := m.closeError }) = w := by
      refine World.on_self (Client.changeLink_self fun k hk => ?_)
      rw [← Option.some.inj (hm.symm.trans hk)]
    rw [same] at closing
    rw [if_neg hs]
    simp only [hsender]
    show After (detach l >>= _) _ _ _
    unfold detach
    simp only [after_bind, after_endpointAt, Outside.endpoint_eq he]
    rw [if_neg (by simp [hef.closed hs])]
    exact closing

end Transact.Peer
