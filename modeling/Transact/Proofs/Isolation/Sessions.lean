import Transact.Proofs.Isolation.Clients

/-! # Sessions side by side

What a session does with its endpoints, its consumers and the broker, it does alike when it shares
them. From this follows that the surroundings of the client are fair, however deep they nest
(`fair_surroundings`), and so that every task of the loop and every call is carried out alike. -/

namespace Transact.Peer.Isolation.Pairing

open Run

variable {ρ : Pairing} {h : Surroundings} {w v : State} {f f' : Failure} {r r' : Resolution Unit}
  {l l' c c' e e' s s' : Nat}

/-! ### Tables -/

theorem alike_sessionAt (hs : ρ.numbers .session s s') :
    ρ.Alike Sessions (sessionAt s) (sessionAt s') :=
  alike_read (f := fun w => w.outside.session s) (g := fun v => v.outside.session s') fun _ _ hm =>
    hm.found (k := .session) hs

theorem alike_producerAt {p p' : Nat} (hp : ρ.numbers .producer p p') :
    ρ.Alike Producers (producerAt p) (producerAt p') :=
  alike_read (f := fun w => w.outside.producer p) (g := fun v => v.outside.producer p') fun _ _ hm =>
    hm.found (k := .producer) hp

theorem alike_consumerAt (hc : ρ.numbers .consumer c c') :
    ρ.Alike Consumers (consumerAt c) (consumerAt c') :=
  alike_read (f := fun w => w.outside.consumer c) (g := fun v => v.outside.consumer c') fun _ _ hm =>
    hm.found (k := .consumer) hc

theorem alike_endpointAt (he : ρ.numbers .endpoint e e') :
    ρ.Alike Endpoints (endpointAt e) (endpointAt e') :=
  alike_read (f := fun w => w.outside.endpoint e) (g := fun v => v.outside.endpoint e') fun _ _ hm =>
    hm.found (k := .endpoint) he

theorem alike_modifySession {f g : Session → Session} (hs : ρ.numbers .session s s')
    (hfg : ∀ x y, ρ.Sessions x y → ρ.Sessions (f x) (g y)) :
    ρ.Alike Same (modifySession s f) (modifySession s' g) :=
  fun _ _ hm => .returned (hm.alter (k := .session) hs hfg) rfl

theorem alike_modifyConsumer {f g : Consumer → Consumer} (hc : ρ.numbers .consumer c c')
    (hfg : ∀ x y, ρ.Consumers x y → ρ.Consumers (f x) (g y)) :
    ρ.Alike Same (modifyConsumer c f) (modifyConsumer c' g) :=
  fun _ _ hm => .returned (hm.alter (k := .consumer) hc hfg) rfl

theorem alike_modifyEndpoint {f g : Endpoint → Endpoint} (he : ρ.numbers .endpoint e e')
    (hfg : ∀ x y, ρ.Endpoints x y → ρ.Endpoints (f x) (g y)) :
    ρ.Alike Same (modifyEndpoint e f) (modifyEndpoint e' g) :=
  fun _ _ hm => .returned (hm.alter (k := .endpoint) he hfg) rfl

/-! ### The broker and the loop -/

section

variable {α β : Type} {R : Pairing → α → β → Prop}

theorem alike_withBroker {f : Broker → α × Broker} {g : Broker → β × Broker}
    (hfg : ∀ b c, ρ.Brokers b c → R ρ (f b).1 (g c).1 ∧ ρ.Serves b c (f b).2 (g c).2) :
    ρ.Alike R (withBroker f) (withBroker g) := fun _ _ hm =>
  have ⟨ret, serves⟩ := hfg _ _ hm.broker
  .returned (hm.changeBroker (f := fun b => (f b).2) (g := fun c => (g c).2) (.refl ρ) .refl rfl serves)
    ret

end

theorem alike_modifyBroker {f g : Broker → Broker}
    (hfg : ∀ b c, ρ.Brokers b c → ρ.Serves b c (f b) (g c)) :
    ρ.Alike Same (modifyBroker f) (modifyBroker g) :=
  fun _ _ hm => .returned (hm.changeBroker (.refl ρ) .refl rfl (hfg _ _ hm.broker)) rfl

theorem alike_askBroker {f g : Broker → Except Problem Broker}
    (hfg : ∀ b c, ρ.Brokers b c → ρ.Asked b c (f b) (g c)) :
    ρ.Alike Same (askBroker f) (askBroker g) := by
  intro w v hm
  have asked := hfg _ _ hm.broker
  generalize hx : f w.outside.broker = x, hy : g v.outside.broker = y at asked
  cases asked with
  | refused same =>
    rw [askBroker_error hx, askBroker_error hy]
    exact alike_refuse same w v hm
  | @done b c serves =>
    rw [askBroker_ok hx, askBroker_ok hy]
    exact .returned (hm.changeBroker (f := fun _ => b) (g := fun _ => c) (.refl ρ) .refl rfl serves) rfl

theorem alike_add {label label' : String} {x y : Task} (hxy : ρ.Tasks x y) :
    ρ.Alike Same (Loop.add label x : Peering Unit) (Loop.add label' y) := by
  have kept (w : State) (label : String) (x : Task) : Kept w (w.out (·.schedule label x)) :=
    ⟨fun k => by cases k <;> rfl, rfl, rfl⟩
  exact fun w v hm => .returned (hm.schedules (kept w label x) (kept v label' y) tasks_schedule
    tasks_schedule (.cons hxy .nil)) rfl

theorem alike_modifyOutside {f g : Outside → Outside}
    (hf : ∀ w : State, Kept w (w.out f) ∧ tasks (w.out f) = tasks w)
    (hg : ∀ w : State, Kept w (w.out g) ∧ tasks (w.out g) = tasks w) :
    ρ.Alike Same (Act.modifyOutside f : Peering Unit) (Act.modifyOutside g) :=
  fun w v hm => .returned (.of_same (.refl ρ) .refl (hm.kept (hf w).1 (hg v).1) (hf w).1.spares
    (congrArg Array.size ((hf w).1.tables .link)) (congrArg Array.size ((hg v).1.tables .link))
    (hf w).2 (hg v).2) rfl

/-! ### Endpoints -/

theorem alike_attach {name : String} (hl : ρ.numbers .link l l') :
    ρ.Alike (Both .endpoint) (attach name (.link l)) (attach name (.link l')) := by
  intro w v hm
  have pushed := hm.extend (k := .endpoint) (x := { name, listener := .link l })
    (y := { name, listener := .link l' }) ⟨rfl, ⟨l, l', rfl, rfl, hl⟩, rfl, rfl⟩
  unfold attach
  refine .look rfl rfl ?_
  rw [hm.opens.1, hm.opens.2]
  refine Ends.bind (R := fun ρ' _ _ => ρ'.numbers .endpoint w.outside.endpoints.size
    v.outside.endpoints.size) (.returned pushed (.inr ⟨rfl, rfl, rfl⟩)) fun ρ' w' v' _ _ hf new => ?_
  exact (alike_add (.openLink new)).next (fun _ hg => alike_pure (R := Both .endpoint) (hg.numbers new)) _ _
    hf.mirrors

theorem alike_receiveRequest {d : Number} {r r' : Request} (he : ρ.numbers .endpoint e e')
    (hr : ρ.Requests r r') : ρ.Alike Same (receive e d r) (receive e' d r') := by
  unfold receive
  refine (alike_endpointAt he).bind fun ρ₁ hg₁ x y hxy => ?_
  have kept (r : Request) (w : State) : Kept w (w.out (·.addRequest r)) ∧
      tasks (w.out (·.addRequest r)) = tasks w := ⟨⟨fun k => by cases k <;> rfl, rfl, rfl⟩, rfl⟩
  refine (alike_modifyOutside (kept r) (kept r')).next fun ρ₂ hg₂ => ?_
  exact alike_add (.answer (hg₂.numbers (hg₁.numbers he)) ((hr.mono hg₁).mono hg₂))

theorem alike_send {d : Number} {r r' : Request} (he : ρ.numbers .endpoint e e')
    (hr : ρ.Requests r r') : ρ.Alike Same (send e d r) (send e' d r') := by
  unfold send
  refine (alike_endpointAt he).bind fun ρ₁ hg₁ x y hxy => ?_
  refine .ite (by rw [Endpoint.isActive, Endpoint.isActive, hxy.opened, hxy.closed]) (fun _ => ?_)
    fun _ => alike_refuse rfl
  exact alike_receiveRequest (hg₁.numbers he) (hr.mono hg₁)

theorem alike_detach (he : ρ.numbers .endpoint e e') : ρ.Alike Same (detach e) (detach e') := by
  unfold detach
  refine (alike_endpointAt he).bind fun ρ₁ hg₁ x y hxy => ?_
  refine .ite (by rw [hxy.closed]) (fun _ => alike_pure rfl) fun _ => ?_
  have closes : ∀ x y, ρ₁.Endpoints x y → ρ₁.Endpoints { x with closed := true } { y with closed := true } :=
    fun _ _ hxy => { hxy with closed := rfl }
  refine (alike_modifyEndpoint (hg₁.numbers he) closes).next fun ρ₂ hg₂ => ?_
  exact alike_modifyBroker fun _ _ hb => hb.forgetLink (hg₂.numbers (hg₁.numbers he))

theorem alike_openEndpoint (fair : Fair h) (he : ρ.numbers .endpoint e e') :
    ρ.Alike Same (openEndpoint h e) (openEndpoint h e') := by
  unfold openEndpoint
  refine (alike_endpointAt he).bind fun ρ₁ hg₁ x y hxy => ?_
  refine .ite (by rw [hxy.closed]) (fun _ => alike_pure rfl) fun _ => ?_
  have opens : ∀ x y, ρ₁.Endpoints x y → ρ₁.Endpoints { x with opened := true } { y with opened := true } :=
    fun _ _ hxy => { hxy with opened := rfl }
  refine (alike_modifyEndpoint (hg₁.numbers he) opens).next fun ρ₂ hg₂ => ?_
  obtain ⟨l, l', hl, hl', paired⟩ := hxy.listener
  rw [hl, hl']
  exact alike_opened fair (hg₂.numbers paired)

/-! ### Tasks -/

/-- **The broker answers alike,** as long as it has names to give. -/
theorem ends_withAnswer {r r' : Request} (hm : ρ.Mirrors w v) (room : Roomy w)
    (he : ρ.numbers .endpoint e e') (hr : ρ.Requests r r') :
    ρ.Ends Settlements w v (withBroker (·.answer e r) w) (withBroker (·.answer e' r') v) := by
  cases hr with
  | discharge ht => exact alike_withBroker (fun _ _ hb => hb.discharge ht _) w v hm
  | declare =>
    obtain ⟨settled, serves⟩ := hm.broker.declare room.names he
    refine .returned (hm.changeBroker (f := fun b => (b.declare e).2) (g := fun b => (b.declare e').2)
      grows_withName ⟨fun _ _ _ => .inl, fun t u ht => ?_, fun _ _ => .inl⟩ rfl serves) settled
    rcases ht with ht | ⟨rfl, -⟩
    · exact .inl ht
    · exact .inr (not_given room.names)

theorem ends_withTransfer {i j : Nat} {address body : String} {x y : DeliveryState}
    (hm : ρ.Mirrors w v) (room : Roomy w) (ha : ρ.mine address) (hx : ρ.DeliveryStates x y) :
    ρ.Ends (fun _ => Resolution.Akin) w v (withBroker (·.transfer i address body (some x)) w)
      (withBroker (·.transfer j address body (some y)) v) := by
  obtain ⟨akin, serves⟩ := hm.broker.transfer room.tags ha hx i j body
  refine .returned (hm.changeBroker (f := fun b => (b.transfer i address body (some x)).2)
    (g := fun b => (b.transfer j address body (some y)).2) grows_withTag
    ⟨fun _ _ _ => .inl, fun _ _ => .inl, fun m n hm => ?_⟩ rfl serves) akin
  rcases hm with hm | ⟨rfl, -⟩
  · exact .inl hm
  · exact .inr (Nat.le_refl _)

theorem ends_answer {d : Number} {r r' : Request} (fair : Fair h) (hm : ρ.Mirrors w v)
    (room : Roomy w) (he : ρ.numbers .endpoint e e') (hr : ρ.Requests r r') :
    ρ.Ends Same w v (answer h e d r w) (answer h e' d r' v) := by
  have side : ρ.Endpoints (w.outside.endpoint e) (v.outside.endpoint e') :=
    hm.found (k := .endpoint) he
  unfold answer
  refine .look (a := w.outside.endpoint e) (b := v.outside.endpoint e') rfl rfl ?_
  rw [Endpoint.isActive, Endpoint.isActive, side.opened, side.closed]
  split
  · exact alike_pure rfl w v hm
  refine (ends_withAnswer hm room he hr).bind fun ρ₁ w₁ v₁ t t' hf settled => ?_
  obtain ⟨l, l', hl, hl', paired⟩ := side.listener
  rw [hl, hl']
  dsimp only
  cases d.toNat? with
  | none => exact alike_pure rfl _ _ hf.mirrors
  | some d => exact alike_settled fair (hf.grows.numbers paired) settled _ _ hf.mirrors

/-- **A task is carried out alike.** -/
theorem ends_exec {label label' : String} {x y : Task} (fair : Fair h) (hm : ρ.Mirrors w v)
    (room : Roomy w) (hxy : ρ.Tasks x y) :
    ρ.Ends Same w v (exec h label x w) (exec h label' y v) := by
  cases hxy with
  | openLink he => exact alike_openEndpoint fair he w v hm
  | answer he hr => exact ends_answer fair hm room he hr
  | transfer ha hx ht =>
    refine (ends_withTransfer hm room ha hx).bind fun ρ₁ w₁ v₁ r r' hf akin => ?_
    cases ht with
    | none => exact alike_pure rfl _ _ hf.mirrors
    | some hq => exact alike_resolve fair (hq.mono hf.grows) akin _ _ hf.mirrors

/-! ### Consumers -/

theorem alike_hand {state state' : Option DeliveryState} {ds ds' : List Delivery}
    (hs : Option.Rel ρ.DeliveryStates state state') (hd : List.Forall₂ ρ.Deliveries ds ds') :
    ρ.Alike Same (Consumer.hand state ds) (Consumer.hand state' ds') := by
  unfold Consumer.hand
  induction ds generalizing ds' ρ with
  | nil =>
    cases hd
    exact alike_pure rfl
  | cons d ds ih =>
    obtain _ | ⟨hd, rest⟩ := hd
    simp only [List.forM]
    refine Alike.next (R := Same) ?_ fun ρ₁ hg₁ => ?_
    · cases hs with
      | none => exact alike_askBroker fun _ _ hb => hb.release hd.tag
      | some hs => exact alike_askBroker fun _ _ hb => hb.acknowledge hd.tag hs
    · exact ih (hs.imp fun _ _ => DeliveryStates.mono hg₁) (rest.imp fun _ _ => Deliveries.mono hg₁)

theorem alike_preCommit (hc : ρ.numbers .consumer c c') :
    ρ.Alike Same (Consumer.preCommit c) (Consumer.preCommit c') := by
  unfold Consumer.preCommit
  refine (alike_consumerAt hc).bind fun ρ₁ hg₁ x x' hx => ?_
  refine (alike_sessionAt hx.session).bind fun ρ₂ hg₂ y y' hy => ?_
  refine (alike_context hy.context).bind fun ρ₃ hg₃ z z' hz => ?_
  have hg := (hg₁.trans hg₂).trans hg₃
  refine (alike_consumerAt (hg.numbers hc)).bind fun ρ₄ hg₄ x x' hx => ?_
  refine (alike_hand (hz.accepted.imp fun _ _ => DeliveryStates.mono hg₄) hx.received).next
    fun ρ₅ hg₅ => ?_
  exact alike_modifyConsumer (((hg.trans hg₄).trans hg₅).numbers hc) fun _ _ hxy =>
    ⟨hxy.session, hxy.id, hxy.destination, hxy.mine, .nil⟩

theorem alike_preRollback (hc : ρ.numbers .consumer c c') :
    ρ.Alike Same (Consumer.preRollback c) (Consumer.preRollback c') := by
  unfold Consumer.preRollback
  refine (alike_consumerAt hc).bind fun ρ₁ hg₁ x x' hx => ?_
  refine (alike_hand .none hx.received).next fun ρ₂ hg₂ => ?_
  exact alike_modifyConsumer (hg₂.numbers (hg₁.numbers hc)) fun _ _ hxy => { hxy with received := .nil }

theorem alike_hook {k : Hook} (hc : ρ.numbers .consumer c c') :
    ρ.Alike Same (Consumer.hook c k) (Consumer.hook c' k) := by
  cases k with
  | preCommit => exact alike_preCommit hc
  | preRollback => exact alike_preRollback hc
  | postCommit | postRollback => exact alike_modifyConsumer hc fun _ _ hxy => { hxy with }

theorem alike_receive (hc : ρ.numbers .consumer c c') :
    ρ.Alike Same (Consumer.receive c) (Consumer.receive c') := by
  unfold Consumer.receive
  refine (alike_consumerAt hc).bind fun ρ₁ hg₁ x x' hx => ?_
  refine (alike_sessionAt hx.session).bind fun ρ₂ hg₂ y y' hy => ?_
  refine (alike_context hy.context).bind fun ρ₃ hg₃ z z' hz => ?_
  have hcontext := hg₃.numbers hy.context
  refine (alike_isFailed hcontext).bind fun ρ₄ hg₄ failed failed' same => ?_
  obtain rfl := same
  have since := hg₂.trans (hg₃.trans hg₄)
  rw [hz.stage]
  refine .ite Iff.rfl (fun _ => alike_refuse rfl) fun _ => ?_
  rw [hx.destination]
  have hmine : ρ₄.mine x'.destination.name := since.mine ▸ hx.destination ▸ hx.mine
  refine (alike_withBroker (R := Perhaps Deliveries) fun _ _ hb => hb.fetch hmine).bind
    fun ρ₅ hg₅ d d' hd => ?_
  have hg := hg₁.trans (since.trans hg₅)
  cases hd with
  | none => exact alike_pure rfl
  | @some d d' hd =>
    rw [hx.id]
    refine (alike_enrolConsumer ((hg₄.trans hg₅).numbers hcontext) (hg.numbers hc)).next
      fun ρ₆ hg₆ => ?_
    have takes : ∀ x y, ρ₆.Consumers x y →
        ρ₆.Consumers { x with received := x.received ++ [d] } { y with received := y.received ++ [d'] } :=
      fun _ _ hxy => { hxy with received := List.rel_append hxy.received (.cons (hd.mono hg₆) .nil) }
    refine (alike_modifyConsumer (hg₆.numbers (hg.numbers hc)) takes).next fun ρ₇ hg₇ => ?_
    exact alike_pure (congrArg some hd.body)

/-! ### Transactions -/

theorem alike_settledCompletion (hr : r.Akin r') :
    ρ.Alike (Both .completion) (Session.settledCompletion r) (Session.settledCompletion r') :=
  alike_newCompletion.bind fun _ _ _ _ hi =>
    (alike_settle hi hr).next fun _ hg => alike_pure (hg.numbers hi)

theorem alike_refusal {p q : Problem} (hpq : p.kind = q.kind) :
    ρ.Alike (Both .completion) (Session.refusal p) (Session.refusal q) :=
  alike_settledCompletion (.failed (.of_kind hpq))

theorem alike_enterNext (fair : Fair h) (hs : ρ.numbers .session s s') :
    ρ.Alike (Both .completion) (Session.enterNext h s) (Session.enterNext h s') := by
  unfold Session.enterNext
  have counts : ∀ x y, ρ.Sessions x y →
      ρ.Sessions { x with sequence := x.sequence + 1 } { y with sequence := y.sequence + 1 } :=
    fun _ _ hxy => { hxy with sequence := congrArg (· + 1) hxy.sequence }
  refine (alike_modifySession hs counts).next fun ρ₁ hg₁ => ?_
  refine (alike_sessionAt (hg₁.numbers hs)).bind fun ρ₂ hg₂ x x' hx => ?_
  rw [hx.id, hx.sequence]
  refine alike_newTransaction.bind fun ρ₃ hg₃ t t' ht => ?_
  refine alike_newCompletion.bind fun ρ₄ hg₄ b b' hb => ?_
  have begins : ∀ x y, ρ₄.Sessions x y →
      ρ₄.Sessions { x with beginning := some b } { y with beginning := some b' } :=
    fun _ _ hxy => { hxy with beginning := .some hb }
  have hg := ((hg₁.trans hg₂).trans hg₃).trans hg₄
  refine (alike_modifySession (hg.numbers hs) begins).next fun ρ₅ hg₅ => ?_
  have hg := hg.trans hg₅
  have request : ρ₅.Tokens (.client b (.begun s t)) (.client b' (.begun s' t')) :=
    .client (hg₅.numbers hb) (.begun (hg.numbers hs) ((hg₄.trans hg₅).numbers ht))
  have hcontext := (hg₃.trans (hg₄.trans hg₅)).numbers hx.context
  exact (alike_begin fair hcontext ((hg₄.trans hg₅).numbers ht) request).next fun ρ₆ hg₆ =>
    alike_pure (hg₆.numbers (hg₅.numbers hb))

theorem alike_start (fair : Fair h) (hs : ρ.numbers .session s s') :
    ρ.Alike (Both .completion) (Session.start h s) (Session.start h s') := by
  unfold Session.start
  refine (alike_sessionAt hs).bind fun ρ₁ hg₁ x x' hx => ?_
  have decided {ρ₂ : Pairing} (hg₂ : ρ₁.Grows ρ₂) (beginning : Bool) : ρ₂.Alike (Both .completion)
      (if x.current.isSome || beginning then Session.refusal (.sessionStarted x.id)
        else Session.enterNext h s)
      (if x'.current.isSome || beginning then Session.refusal (.sessionStarted x'.id)
        else Session.enterNext h s') :=
    .ite (by rw [hx.current.isSome_eq]) (fun _ => alike_refusal rfl)
      fun _ => alike_enterNext fair (hg₂.numbers (hg₁.numbers hs))
  rcases hx.beginning.none_or_some with ⟨e, e'⟩ | ⟨b, b', e, e', hb⟩
  · simp only [e, e']
    exact decided (.refl ρ₁) false
  · simp only [e, e']
    refine (alike_status hb).bind fun ρ₂ hg₂ y y' hy => ?_
    have same : y.isSettled = y'.isSettled := by cases hy <;> rfl
    rw [same]
    exact decided hg₂ _

theorem alike_moveOn (fair : Fair h) (hs : ρ.numbers .session s s') (hc : ρ.numbers .completion c c')
    (hr : r.Akin r') : ρ.Alike Same (Session.moveOn h s c r) (Session.moveOn h s' c' r') := by
  unfold Session.moveOn
  refine (alike_modifySession hs fun _ _ hxy => ?_).next fun ρ₁ hg₁ => ?_
  · exact { hxy with discharging := rfl, aggregate := .none, failedSend := .none, current := .none }
  refine (alike_settle (hg₁.numbers hc) hr).next fun ρ₂ hg₂ => ?_
  exact (alike_enterNext fair (hg₂.numbers (hg₁.numbers hs))).discard

theorem alike_finishSession {ending : Ending} (fair : Fair h) (hs : ρ.numbers .session s s') :
    ρ.Alike (Both .completion) (Session.finish h s ending) (Session.finish h s' ending) := by
  unfold Session.finish
  refine (alike_sessionAt hs).bind fun ρ₁ hg₁ x x' hx => ?_
  rw [hx.discharging, hx.outstanding, hx.failedSend.isSome_eq]
  rcases hx.current.none_or_some with ⟨e, e'⟩ | ⟨t, t', e, e', ht⟩
  · simp only [e, e']
    cases x'.discharging <;> exact alike_refusal rfl
  simp only [e, e']
  cases x'.discharging with
  | true => exact alike_refusal rfl
  | false =>
    refine alike_newCompletion.bind fun ρ₂ hg₂ d d' hd => ?_
    have hs := hg₂.numbers (hg₁.numbers hs)
    have closes : ∀ x y, ρ₂.Sessions x y →
        ρ₂.Sessions { x with discharging := true } { y with discharging := true } :=
      fun _ _ hxy => { hxy with discharging := rfl }
    refine (alike_modifySession hs closes).next fun ρ₃ hg₃ => ?_
    have hg := hg₂.trans hg₃
    refine (alike_isFailed (hg.numbers hx.context)).bind fun ρ₄ hg₄ failed failed' same => ?_
    obtain rfl := same
    refine alike_newCompletion.bind fun ρ₅ hg₅ o o' ho => ?_
    have since := (hg₃.trans hg₄).trans hg₅
    have hg := hg₂.trans since
    have info : ρ₅.References ⟨t, failed⟩ ⟨t', failed⟩ := ⟨hg.numbers ht, rfl⟩
    refine (alike_finishAfter fair (hg.numbers hx.context) info
      (.client ho (.ended (since.numbers hs) (since.numbers hd)))).bind fun ρ₆ hg₆ a a' ha => ?_
    have since := since.trans hg₆
    refine (alike_modifySession (since.numbers hs) fun y y' hy => ?_).next fun ρ₇ hg₇ => ?_
    · rw [hy.discharging]
      split
      · exact { hy with discharging := rfl, aggregate := .some ha }
      · exact hy
    have since := since.trans hg₇
    refine .ite Iff.rfl (fun _ => ?_) fun _ => alike_pure (since.numbers hd)
    exact (alike_settleSend fair (hg₇.numbers ha) hx.failedSend).next fun ρ₈ hg₈ =>
      alike_pure (hg₈.numbers (since.numbers hd))

/-! ### Sends -/

theorem alike_countSettled {f g : Option Failure} (fair : Fair h) (hs : ρ.numbers .session s s')
    (hf : Option.Rel Failure.Akin f g) :
    ρ.Alike Same (Session.countSettled h s f) (Session.countSettled h s' g) := by
  unfold Session.countSettled
  have counts : ∀ x y, ρ.Sessions x y →
      ρ.Sessions { x with outstanding := x.outstanding - 1 } { y with outstanding := y.outstanding - 1 } :=
    fun _ _ hxy => { hxy with outstanding := congrArg (· - 1) hxy.outstanding }
  refine (alike_modifySession hs counts).next fun ρ₁ hg₁ => ?_
  refine (alike_sessionAt (hg₁.numbers hs)).bind fun ρ₂ hg₂ x x' hx => ?_
  rcases hx.aggregate.none_or_some with ⟨e, e'⟩ | ⟨a, a', e, e', ha⟩
  · simp only [e, e']
    exact alike_modifySession (hg₂.numbers (hg₁.numbers hs)) fun _ _ hxy =>
      { hxy with failedSend := hxy.failedSend.orElse hf }
  · simp only [e, e']
    exact alike_settleSend fair ha hf

theorem alike_transfer {address body : String} {x y : DeliveryState} {q q' : Option (Token Waiting)}
    (ha : ρ.mine address) (hx : ρ.DeliveryStates x y) (hq : Option.Rel ρ.Tokens q q') :
    ρ.Alike Same (transfer address body (some x) q) (transfer address body (some y) q') := by
  unfold transfer
  refine (alike_read (f := (·.outside)) (g := (·.outside)) (R := fun _ _ _ => True)
    fun _ _ _ => trivial).bind fun ρ₁ hg₁ o o' _ => ?_
  have kept (n : Nat) (w : State) : Kept w (w.out ({ · with transfers := n })) ∧
      tasks (w.out ({ · with transfers := n })) = tasks w := ⟨⟨fun k => by cases k <;> rfl, rfl, rfl⟩, rfl⟩
  refine (alike_modifyOutside (kept _) (kept _)).next fun ρ₂ hg₂ => ?_
  have hg := hg₁.trans hg₂
  exact alike_add (.transfer (hg.mine ▸ ha) (hx.mono hg) (hq.imp fun _ _ => Tokens.mono hg))

theorem alike_sendSession {p p' : Nat} {destination : Destination} {body : String}
    (hs : ρ.numbers .session s s') (hp : ρ.numbers .producer p p') (hd : ρ.mine destination.name) :
    ρ.Alike (Both .completion) (Session.send s p destination body)
      (Session.send s' p' destination body) := by
  unfold Session.send
  refine (alike_sessionAt hs).bind fun ρ₁ hg₁ x x' hx => ?_
  refine .ite (by rw [hx.discharging]) (fun _ => alike_refusal rfl) fun _ => ?_
  refine (alike_isFailed hx.context).bind fun ρ₂ hg₂ failed failed' same => ?_
  obtain rfl := same
  refine .ite Iff.rfl (fun _ => alike_refusal rfl) fun _ => ?_
  refine (alike_context (hg₂.numbers hx.context)).bind fun ρ₃ hg₃ y y' hy => ?_
  rcases hy.enrolled.none_or_some with ⟨e, e'⟩ | ⟨state, state', e, e', hstate⟩
  · simp only [e, e']
    exact alike_refusal rfl
  simp only [e, e']
  have hg := (hg₁.trans hg₂).trans hg₃
  refine (alike_producerAt (hg.numbers hp)).bind fun ρ₄ hg₄ z z' hz => ?_
  rw [hz.id, hx.policy]
  refine (alike_enrolProducer ((hg₂.trans (hg₃.trans hg₄)).numbers hx.context)).next fun ρ₅ hg₅ => ?_
  have since := hg₄.trans hg₅
  have hg := hg.trans since
  refine .ite Iff.rfl (fun _ => ?_) fun _ => ?_
  · exact (alike_transfer (hg.mine ▸ hd) (hstate.mono since) .none).next fun _ _ =>
      alike_settledCompletion .succeeded
  refine alike_newCompletion.bind fun ρ₆ hg₆ i i' hi => ?_
  have counts : ∀ x y, ρ₆.Sessions x y →
      ρ₆.Sessions { x with outstanding := x.outstanding + 1 } { y with outstanding := y.outstanding + 1 } :=
    fun _ _ hxy => { hxy with outstanding := congrArg (· + 1) hxy.outstanding }
  refine (alike_modifySession ((hg.trans hg₆).numbers hs) counts).next fun ρ₇ hg₇ => ?_
  refine alike_newCompletion.bind fun ρ₈ hg₈ j j' hj => ?_
  have later := hg₇.trans hg₈
  have hg := hg.trans (hg₆.trans later)
  have sent : ρ₈.Tokens (.client j (.sent s i)) (.client j' (.sent s' i')) :=
    .client hj (.sent (hg.numbers hs) (later.numbers hi))
  exact (alike_transfer (hg.mine ▸ hd) (hstate.mono (since.trans (hg₆.trans later))) (.some sent)).next
    fun ρ₉ hg₉ => alike_pure (hg₉.numbers (later.numbers hi))

theorem alike_sendFrom {p p' : Nat} {body : String} {destination : Option Destination}
    (hp : ρ.numbers .producer p p') (hd : ∀ d, destination = some d → ρ.mine d.name) :
    ρ.Alike (Both .completion) (Session.sendFrom p body destination)
      (Session.sendFrom p' body destination) := by
  unfold Session.sendFrom
  refine (alike_producerAt hp).bind fun ρ₁ hg₁ x x' hx => ?_
  rw [hx.destination]
  cases e : destination <|> x'.destination with
  | none => exact alike_refusal rfl
  | some d =>
    refine alike_sendSession hx.session (hg₁.numbers hp) ?_
    cases destination with
    | none => exact hx.mine d (hx.destination.trans e)
    | some d' =>
      obtain rfl := Option.some.inj e
      exact hg₁.mine ▸ hd _ rfl

/-! ### Surroundings -/

theorem alike_resume {x x' : Waiting} (fair : Fair h) (hx : ρ.Waits x x') (hr : r.Akin r') :
    ρ.Alike Same (resume h x r) (resume h x' r') := by
  cases hx with
  | plain => exact alike_pure rfl
  | begun hs ht =>
    cases hr with
    | succeeded => exact alike_modifySession hs fun _ _ hxy => { hxy with current := .some ht }
    | failed => exact alike_pure rfl
  | ended hs hc => exact alike_moveOn fair hs hc hr
  | sent hs hc =>
    exact (alike_countSettled fair hs hr.cause).next fun _ hg => alike_settle (hg.numbers hc) hr

theorem fair_surroundings (n : Nat) : Fair (surroundings n) := by
  induction n with
  | zero =>
    exact ⟨fun _ _ => alike_exhausted, fun _ _ _ => alike_exhausted, fun _ => alike_exhausted,
      fun _ _ => alike_exhausted, fun _ _ => alike_exhausted⟩
  | succ n ih =>
    exact ⟨fun _ hl => alike_attach hl, fun _ he hr => alike_send he hr, fun he => alike_detach he,
      fun _ hc => alike_hook hc, fun hx hr => alike_resume ih hx hr⟩

theorem fair_peer : Fair peer := fair_surroundings 3

/-! ### Calls -/

theorem alike_newSession {id : SessionId} {policy : Presettling} :
    ρ.Alike (Both .session) (newSession id policy) (newSession id policy) :=
  alike_newContext.bind fun _ _ _ _ hc _ _ hm => .returned (hm.extend (k := .session)
    ⟨rfl, hc, rfl, rfl, .none, .none, rfl, .none, rfl, .none, rfl, rfl⟩) (.inr ⟨rfl, rfl, rfl⟩)

theorem alike_newProducer {destination : Option Destination} (hs : ρ.numbers .session s s')
    (hd : ∀ d, destination = some d → ρ.mine d.name) :
    ρ.Alike (Both .producer) (newProducer s destination) (newProducer s' destination) := by
  unfold newProducer
  refine (alike_sessionAt hs).bind fun ρ₁ hg₁ x x' hx => ?_
  have counts : ∀ x y, ρ₁.Sessions x y → ρ₁.Sessions
      { x with producerNumber := x.producerNumber + 1 } { y with producerNumber := y.producerNumber + 1 } :=
    fun _ _ hxy => { hxy with producerNumber := congrArg (· + 1) hxy.producerNumber }
  refine (alike_modifySession (hg₁.numbers hs) counts).next fun ρ₂ hg₂ => ?_
  have hg := hg₁.trans hg₂
  rw [hx.id, hx.producerNumber]
  exact fun _ _ hm => .returned (hm.extend (k := .producer)
    ⟨hg.numbers hs, rfl, rfl, fun d e => hg.mine ▸ hd d e⟩) (.inr ⟨rfl, rfl, rfl⟩)

theorem alike_newConsumer {destination : Destination} (hs : ρ.numbers .session s s')
    (hd : ρ.mine destination.name) :
    ρ.Alike (Both .consumer) (newConsumer s destination) (newConsumer s' destination) := by
  unfold newConsumer
  refine (alike_sessionAt hs).bind fun ρ₁ hg₁ x x' hx => ?_
  have counts : ∀ x y, ρ₁.Sessions x y → ρ₁.Sessions
      { x with consumerNumber := x.consumerNumber + 1 } { y with consumerNumber := y.consumerNumber + 1 } :=
    fun _ _ hxy => { hxy with consumerNumber := congrArg (· + 1) hxy.consumerNumber }
  refine (alike_modifySession (hg₁.numbers hs) counts).next fun ρ₂ hg₂ => ?_
  have hg := hg₁.trans hg₂
  rw [hx.id, hx.consumerNumber]
  exact fun _ _ hm => .returned (hm.extend (k := .consumer)
    ⟨hg.numbers hs, rfl, rfl, hg.mine ▸ hd, .nil⟩) (.inr ⟨rfl, rfl, rfl⟩)

/-- What two owners have in hand is the same. -/
structure Holdings (ρ : Pairing) (x y : Held) : Prop where
  session : Option.Rel (ρ.numbers .session) x.session y.session
  producers : List.Forall₂ (ρ.numbers .producer) x.producers y.producers
  consumers : List.Forall₂ (ρ.numbers .consumer) x.consumers y.consumers
  links : List.Forall₂ (ρ.numbers .link) x.links y.links
  completions : List.Forall₂ (ρ.numbers .completion) x.completions y.completions

theorem Holdings.mono {ρ' : Pairing} {x y : Held} (hg : ρ.Grows ρ') (h : ρ.Holdings x y) :
    ρ'.Holdings x y :=
  ⟨h.session.imp fun _ _ => hg.numbers, h.producers.imp fun _ _ => hg.numbers,
    h.consumers.imp fun _ _ => hg.numbers, h.links.imp fun _ _ => hg.numbers,
    h.completions.imp fun _ _ => hg.numbers⟩

/-- Two calls came to the same. -/
def Performed (ρ : Pairing) (x y : Held × Option String) : Prop := ρ.Holdings x.1 y.1 ∧ x.2 = y.2

theorem alike_await {held held' : Held} {x y : Peering Nat} (hh : ρ.Holdings held held')
    (hxy : ρ.Alike (Both .completion) x y) :
    ρ.Alike Performed (do return (held.await (← x), none)) (do return (held'.await (← y), none)) :=
  hxy.bind fun _ hg _ _ hi => alike_pure ⟨{ hh.mono hg with
    completions := List.rel_append (hh.mono hg).completions (.cons hi .nil) }, rfl⟩

/-- **A call is carried out alike.** -/
theorem alike_perform {held held' : Held} {call : Call} (hs : ρ.numbers .session s s')
    (hh : ρ.Holdings held held') (ha : ∀ a ∈ call.addresses, ρ.mine a) :
    ρ.Alike Performed (call.perform s held) (call.perform s' held') := by
  have nothing {ρ : Pairing} (hh : ρ.Holdings held held') :
      ρ.Alike Performed (pure (held, none)) (pure (held', none)) := alike_pure ⟨hh, rfl⟩
  cases call with
  | newProducer destination =>
    refine (alike_newProducer hs fun d e => ha _ (by simp [Call.addresses, e])).bind
      fun ρ₁ hg p p' hp => ?_
    exact alike_pure ⟨{ hh.mono hg with
      producers := List.rel_append (hh.mono hg).producers (.cons hp .nil) }, rfl⟩
  | newConsumer destination =>
    refine (alike_newConsumer hs (ha _ (by simp [Call.addresses]))).bind fun ρ₁ hg c c' hc => ?_
    exact alike_pure ⟨{ hh.mono hg with
      consumers := List.rel_append (hh.mono hg).consumers (.cons hc .nil) }, rfl⟩
  | start => exact alike_await hh (alike_start fair_peer hs)
  | finish ending => exact alike_await hh (alike_finishSession fair_peer hs)
  | send producer body destination =>
    unfold Call.perform
    rcases (hh.producers.getElem? producer).none_or_some with ⟨e, e'⟩ | ⟨p, p', e, e', hp⟩
    · simp only [e, e']
      exact nothing hh
    · simp only [e, e']
      exact alike_await hh (alike_sendFrom hp fun d e => ha _ (by simp [Call.addresses, e]))
  | receive consumer =>
    unfold Call.perform
    rcases (hh.consumers.getElem? consumer).none_or_some with ⟨e, e'⟩ | ⟨c, c', e, e', hc⟩
    · simp only [e, e']
      exact nothing hh
    · simp only [e, e']
      exact (alike_receive hc).bind fun _ hg _ _ same => alike_pure ⟨hh.mono hg, same⟩
  | closeLink link =>
    unfold Call.perform
    rcases (hh.links.getElem? link).none_or_some with ⟨e, e'⟩ | ⟨l, l', e, e', hl⟩
    · simp only [e, e']
      exact nothing hh
    · simp only [e, e']
      exact (alike_close fair_peer hl).next fun _ hg => nothing (hh.mono hg)

theorem alike_call {held held' : Held} {call : Call} (hh : ρ.Holdings held held')
    (ha : ∀ a ∈ call.addresses, ρ.mine a) :
    ρ.Alike Performed (held.call call) (held'.call call) := by
  unfold Held.call
  rcases hh.session.none_or_some with ⟨e, e'⟩ | ⟨s, s', e, e', hs⟩
  · simp only [e, e']
    exact alike_pure ⟨hh, rfl⟩
  · simp only [e, e']
    exact alike_perform hs hh ha

theorem Holdings.none : ρ.Holdings default default := ⟨.none, .nil, .nil, .nil, .nil⟩

end Transact.Peer.Isolation.Pairing
