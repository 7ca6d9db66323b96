import Transact.Proofs.Isolation.Alike

/-! # The client of many sessions

What the client does for a session that shares it is what it does for the session alone. -/

namespace Transact.Peer.Isolation.Pairing

open Run

variable {ρ : Pairing} {h : Surroundings} {f f' : Failure} {r r' : Resolution Unit}
  {q q' : Token Waiting} {l l' c c' t t' id id' : Nat}

/-! ### Tables -/

theorem alike_link (hl : ρ.numbers .link l l') : ρ.Alike Links (Act.link l) (Act.link l') :=
  alike_read (f := fun w => w.client.link l) (g := fun v => v.client.link l') fun _ _ hm =>
    hm.found (k := .link) hl

theorem alike_context (hc : ρ.numbers .context c c') :
    ρ.Alike Contexts (Act.context c) (Act.context c') :=
  alike_read (f := fun w => w.client.context c) (g := fun v => v.client.context c') fun _ _ hm =>
    hm.found (k := .context) hc

theorem alike_transaction (ht : ρ.numbers .transaction t t') :
    ρ.Alike Transactions (Act.transaction t) (Act.transaction t') :=
  alike_read (f := fun w => w.client.transaction t) (g := fun v => v.client.transaction t')
    fun _ _ hm => hm.found (k := .transaction) ht

theorem alike_status (hi : ρ.numbers .completion id id') :
    ρ.Alike (fun _ => Status.Akin) (Act.status id) (Act.status id') :=
  alike_read (f := fun w => w.client.completions[id]?.getD .pending)
    (g := fun v => v.client.completions[id']?.getD .pending) fun _ _ hm =>
    hm.found (k := .completion) hi

theorem alike_modifyLink {f g : Link Waiting → Link Waiting} (hl : ρ.numbers .link l l')
    (hfg : ∀ x y, ρ.Links x y → ρ.Links (f x) (g y)) :
    ρ.Alike Same (Act.modifyLink l f) (Act.modifyLink l' g) :=
  fun _ _ hm => .returned (hm.alter (k := .link) hl hfg) rfl

theorem alike_modifyContext {f g : Context → Context} (hc : ρ.numbers .context c c')
    (hfg : ∀ x y, ρ.Contexts x y → ρ.Contexts (f x) (g y)) :
    ρ.Alike Same (Act.modifyContext c f) (Act.modifyContext c' g) :=
  fun _ _ hm => .returned (hm.alter (k := .context) hc hfg) rfl

theorem alike_setHint {y y' : TxnId} (ht : ρ.numbers .transaction t t') (hy : ρ.names y y') :
    ρ.Alike Same (Act.setHint t (some y)) (Act.setHint t' (some y')) :=
  fun _ _ hm => .returned (hm.alter (k := .transaction) ht fun _ _ hab => ⟨hab.id, .some hy⟩) rfl

theorem alike_newCompletion : ρ.Alike (Both .completion) Act.newCompletion Act.newCompletion :=
  fun _ _ hm => .returned (hm.extend (k := .completion) .pending) (.inr ⟨rfl, rfl, rfl⟩)

theorem alike_newTransaction {id : TransactionId} :
    ρ.Alike (Both .transaction) (Act.newTransaction id) (Act.newTransaction id) :=
  fun _ _ hm => .returned (hm.extend (k := .transaction) (x := { id }) (y := { id }) ⟨rfl, .none⟩)
    (.inr ⟨rfl, rfl, rfl⟩)

theorem alike_newLink {name : String} : ρ.Alike (Both .link) (Act.newLink name) (Act.newLink name) :=
  fun _ _ hm => .returned (hm.extend (k := .link) (x := { name }) (y := { name })
    ⟨rfl, rfl, .none, .none, rfl, .nil⟩) (.inr ⟨rfl, rfl, rfl⟩)

theorem alike_newContext {session : SessionId} :
    ρ.Alike (Both .context) (Act.newContext session) (Act.newContext session) :=
  fun _ _ hm => .returned (hm.extend (k := .context) (x := { session }) (y := { session })
    ⟨rfl, rfl, .none, .none, .none, .none, rfl, .nil⟩) (.inr ⟨rfl, rfl, rfl⟩)

theorem alike_newAggregate {a a' : Aggregate Waiting} (ha : ρ.Aggregates a a') :
    ρ.Alike (Both .aggregate) (Act.newAggregate a) (Act.newAggregate a') :=
  fun _ _ hm => .returned (hm.extend (k := .aggregate) ha) (.inr ⟨rfl, rfl, rfl⟩)

theorem on_write {w : State} {s : Status Unit} :
    w.on (·.write id s) = Kind.alter .completion id (fun _ => s) w := by
  have same : w.client.completions.setIfInBounds id s = w.client.completions.modify id fun _ => s := by
    refine Array.ext_getElem? fun i => ?_
    rw [Array.getElem?_setIfInBounds, Array.getElem?_modify]
    by_cases hi : id = i
    · subst hi
      by_cases lt : id < w.client.completions.size <;> simp [lt]
    · simp [hi]
  exact congrArg (fun completions => w.on ({ · with completions })) same

/-- A completion is settled on both sides, or has been before. -/
theorem alike_settle (hi : ρ.numbers .completion id id') (hr : r.Akin r') :
    ρ.Alike Same (Act.settle id r) (Act.settle id' r') := by
  refine (alike_status hi).bind fun ρ₁ hg x y hxy => ?_
  cases hxy with
  | pending =>
    intro w v hm
    have written := hm.alter (k := .completion) (hg.numbers hi) (f := fun _ => .settled r)
      (g := fun _ => .settled r') fun _ _ _ => .settled hr
    rw [← on_write, ← on_write] at written
    exact .returned written rfl
  | settled => exact alike_refuse rfl

/-! ### Surroundings -/

/-- Surroundings that do for a session that shares them what they do for the session alone. -/
structure Fair (h : Surroundings) : Prop where
  attach : ∀ {ρ : Pairing} {l l' : Nat} (name : String), ρ.numbers .link l l' →
    ρ.Alike (Both .endpoint) (h.attach name l) (h.attach name l')
  send : ∀ {ρ : Pairing} {e e' : Nat} {r r' : Request} (delivery : Nat), ρ.numbers .endpoint e e' →
    ρ.Requests r r' → ρ.Alike Same (h.send e delivery r) (h.send e' delivery r')
  detach : ∀ {ρ : Pairing} {e e' : Nat}, ρ.numbers .endpoint e e' →
    ρ.Alike Same (h.detach e) (h.detach e')
  hook : ∀ {ρ : Pairing} {c c' : Nat} (k : Hook), ρ.numbers .consumer c c' →
    ρ.Alike Same (h.hook c k) (h.hook c' k)
  resume : ∀ {ρ : Pairing} {x x' : Waiting} {r r' : Resolution Unit}, ρ.Waits x x' → r.Akin r' →
    ρ.Alike Same (h.resume x r) (h.resume x' r')

variable (fair : Fair h)

include fair

/-! ### Tokens -/

theorem alike_transmit {request request' : Request} {e e' : Exchange Waiting}
    {fail fail' : Failure → Peering Unit} (hl : ρ.numbers .link l l') (hr : ρ.Requests request request')
    (he : ρ.Exchanges e e')
    (hf : ∀ ρ', ρ.Grows ρ' → ∀ f f' : Failure, f.Akin f' → ρ'.Alike Same (fail f) (fail' f')) :
    ρ.Alike Same (Link.transmit h l request e fail) (Link.transmit h l' request' e' fail') := by
  unfold Link.transmit
  refine (alike_link hl).bind fun ρ₁ hg₁ k k' hk => ?_
  have closed {s : LinkState} : ρ₁.Alike Same (fail (Problem.linkNotOpen k.name s).toFailure)
      (fail' (Problem.linkNotOpen k'.name s).toFailure) := hf ρ₁ hg₁ _ _ (.of_kind (by rfl))
  rw [hk.state]
  rcases hk.sender.none_or_some with ⟨hs, hs'⟩ | ⟨s, s', hs, hs', sender⟩
  · rw [hs, hs']
    cases k'.state <;> exact closed
  rw [hs, hs']
  cases k'.state with
  | building => exact closed
  | closed => exact closed
  | opened =>
    simp only [hk.nextDelivery]
    have enqueue : ∀ x y, ρ₁.Links x y → ρ₁.Links
        { x with nextDelivery := k'.nextDelivery + 1, pending := x.pending ++ [(k'.nextDelivery, e)] }
        { y with nextDelivery := k'.nextDelivery + 1, pending := y.pending ++ [(k'.nextDelivery, e')] } :=
      fun x y hxy => { hxy with
        nextDelivery := rfl
        pending := List.rel_append hxy.pending (.cons ⟨rfl, he.mono hg₁⟩ .nil) }
    refine (alike_modifyLink (hg₁.numbers hl) enqueue).next fun ρ₂ hg₂ => ?_
    refine (fair.send _ (hg₂.numbers sender) ((hr.mono hg₁).mono hg₂)).attempt.bind
      fun ρ₃ hg₃ a a' ha => ?_
    have hg := (hg₁.trans hg₂).trans hg₃
    cases ha with
    | ok => exact alike_pure rfl
    | error akin =>
      have dequeue : ∀ x y, ρ₃.Links x y → ρ₃.Links
          { x with pending := x.pending.filter (·.1 ≠ k'.nextDelivery) }
          { y with pending := y.pending.filter (·.1 ≠ k'.nextDelivery) } :=
        fun x y hxy => { hxy with
          pending := List.rel_filter (fun p p' hp => by simp [hp.1]) hxy.pending }
      refine (alike_modifyLink (hg.numbers hl) dequeue).next fun ρ₄ hg₄ => ?_
      exact (alike_convert akin).bind fun ρ₅ hg₅ _ _ _ =>
        hf ρ₅ ((hg.trans hg₄).trans hg₅) _ _ (.of_kind (by rfl))

omit fair

theorem alike_reset (hc : ρ.numbers .context c c') :
    ρ.Alike Same (Context.reset c : Peering Unit) (Context.reset c') :=
  alike_modifyContext hc fun _ _ hxy => { hxy with
    stage := rfl, current := .none, accepted := .none, enrolled := .none }

theorem alike_bindTransaction {y y' : TxnId} (hc : ρ.numbers .context c c')
    (ht : ρ.numbers .transaction t t') (hy : ρ.names y y') :
    ρ.Alike Same (Context.bind c t y : Peering Unit) (Context.bind c' t' y') :=
  alike_modifyContext hc fun _ _ hxy => { hxy with
    stage := rfl, current := .some ht, accepted := .some ⟨hy, rfl⟩, enrolled := .some ⟨hy, rfl⟩ }

include fair

theorem alike_notifyEach {k : Hook} {report report' : Option Failure} {cs cs' : List Nat}
    (hr : Option.Rel Failure.Akin report report') (hc : List.Forall₂ (ρ.numbers .consumer) cs cs') :
    ρ.Alike (Perhaps fun _ => Failure.Akin) (Context.notifyEach h k report cs)
      (Context.notifyEach h k report' cs') := by
  induction cs generalizing report report' cs' ρ with
  | nil =>
    cases hc
    exact alike_pure hr
  | cons consumer rest ih =>
    obtain _ | ⟨hc, hrest⟩ := hc
    unfold Context.notifyEach
    refine (fair.hook k hc).attempt.bind fun ρ₁ hg₁ a a' ha => ?_
    have rest {ρ'} (hg : ρ₁.Grows ρ') := hrest.imp fun _ _ => (hg₁.trans hg).numbers
    cases ha with
    | ok => exact ih hr (rest (.refl _))
    | error akin => exact (alike_first akin hr).bind fun ρ₂ hg₂ f f' hf => ih (.some hf) (rest hg₂)

theorem alike_notify {k : Hook} (hc : ρ.numbers .context c c') :
    ρ.Alike (Perhaps fun _ => Failure.Akin) (Context.notify h c k) (Context.notify h c' k) :=
  (alike_context hc).bind fun _ _ _ _ hx =>
    alike_notifyEach fair .none (List.rel_map (fun _ _ hp => hp.2) hx.consumers)

theorem alike_conclude {commit : Bool} (hc : ρ.numbers .context c c') :
    ρ.Alike Same (Context.conclude h c commit) (Context.conclude h c' commit) := by
  unfold Context.conclude
  refine (alike_reset hc).next fun ρ₁ hg₁ => ?_
  refine (alike_notify fair (hg₁.numbers hc)).discard.next fun ρ₂ hg₂ => ?_
  exact alike_modifyContext (hg₂.numbers (hg₁.numbers hc)) fun _ _ hxy => { hxy with consumers := .nil }

/-- **Tokens are told alike.** -/
theorem alike_resolve (hq : ρ.Tokens q q') (hr : r.Akin r') :
    ρ.Alike Same (q.resolve h r) (q'.resolve h r') := by
  induction q generalizing q' ρ r r' with
  | client id x =>
    obtain ⟨hi, hx⟩ := hq
    unfold Token.resolve
    exact (alike_settle hi hr).next fun ρ₁ hg₁ => fair.resume (hx.mono hg₁) hr
  | instead id failure request ih =>
    obtain _ | ⟨hi, hf, hq⟩ := hq
    unfold Token.resolve
    exact (alike_settle hi hr).next fun ρ₁ hg₁ => ih (hq.mono hg₁) (hr.instead hf)
  | discharging id c commit request ih =>
    cases hq with
    | discharging hi hc hq =>
      unfold Token.resolve
      refine (alike_settle hi hr).next fun ρ₁ hg₁ => ?_
      exact (alike_conclude fair (hg₁.numbers hc)).next fun ρ₂ hg₂ => ih ((hq.mono hg₁).mono hg₂) hr
  | declaring id c t request ih =>
    cases hq with
    | declaring hi hc ht hq =>
      unfold Token.resolve
      refine (alike_settle hi hr).next fun ρ₁ hg₁ => ?_
      cases hr with
      | failed hf =>
        exact (alike_reset (hg₁.numbers hc)).next fun ρ₂ hg₂ => ih ((hq.mono hg₁).mono hg₂) (.failed hf)
      | succeeded =>
        refine (alike_transaction (hg₁.numbers ht)).bind fun ρ₂ hg₂ x x' hx => ?_
        have hg := hg₁.trans hg₂
        rcases hx.hint.none_or_some with ⟨hy, hy'⟩ | ⟨y, y', hy, hy', names⟩
        · simp only [hy, hy']
          exact (alike_reset (hg.numbers hc)).next fun ρ₃ hg₃ =>
            ih ((hq.mono hg).mono hg₃) (.failed (.of_kind (by rfl)))
        · simp only [hy, hy']
          exact (alike_bindTransaction (hg.numbers hc) (hg.numbers ht) names).next fun ρ₃ hg₃ =>
            ih ((hq.mono hg).mono hg₃) .succeeded
  | opening id c t l next request ihn ih =>
    cases hq with
    | opening hi hc ht hl hn hq =>
      unfold Token.resolve
      refine (alike_settle hi hr).next fun ρ₁ hg₁ => ?_
      cases hr with
      | failed hf =>
        exact (alike_reset (hg₁.numbers hc)).next fun ρ₂ hg₂ => ih ((hq.mono hg₁).mono hg₂) (.failed hf)
      | succeeded =>
        refine (alike_modifyContext (hg₁.numbers hc) ?_).next fun ρ₂ hg₂ => ?_
        · exact fun _ _ hxy => { hxy with coordinator := .some (hg₁.numbers hl) }
        have hg := hg₁.trans hg₂
        refine alike_transmit fair (hg.numbers hl) .declare ⟨rfl, hg.numbers ht, hn.mono hg⟩
          fun ρ₃ hg₃ f f' akin => ?_
        exact ihn ((hn.mono hg).mono hg₃) (.failed akin)

theorem alike_declare (hl : ρ.numbers .link l l') (ht : ρ.numbers .transaction t t')
    (hq : ρ.Tokens q q') : ρ.Alike Same (Link.declare h l t q) (Link.declare h l' t' q') :=
  alike_transmit fair hl .declare ⟨rfl, ht, hq⟩ fun _ hg _ _ akin =>
    alike_resolve fair (hq.mono hg) (.failed akin)

theorem alike_dischargeOn {commit : Bool} (hl : ρ.numbers .link l l')
    (ht : ρ.numbers .transaction t t') (hq : ρ.Tokens q q') :
    ρ.Alike Same (Link.discharge h l t q commit) (Link.discharge h l' t' q' commit) := by
  unfold Link.discharge
  refine (alike_transaction ht).bind fun ρ₁ hg₁ x x' hx => ?_
  rcases hx.hint.none_or_some with ⟨hy, hy'⟩ | ⟨y, y', hy, hy', names⟩
  · simp only [hy, hy']
    exact alike_resolve fair (hq.mono hg₁) (.failed (.of_kind (by rfl)))
  · simp only [hy, hy']
    refine alike_transmit fair (hg₁.numbers hl) (.discharge names)
      ⟨rfl, hg₁.numbers ht, hq.mono hg₁⟩ fun ρ₂ hg₂ f f' akin => ?_
    exact alike_resolve fair ((hq.mono hg₁).mono hg₂) (.failed akin)

theorem alike_establish (hl : ρ.numbers .link l l') (hq : ρ.Tokens q q') :
    ρ.Alike Same (Link.establish h l q) (Link.establish h l' q') := by
  unfold Link.establish
  refine (alike_link hl).bind fun ρ₁ hg₁ k k' hk => ?_
  refine .ite (by rw [hk.sender.isSome_eq, hk.state]) (fun _ => ?_) fun _ => ?_
  · exact alike_resolve fair (hq.mono hg₁) (.failed (.of_kind (by rfl)))
  have waits : ∀ x y, ρ₁.Links x y →
      ρ₁.Links { x with opening := some q } { y with opening := some q' } :=
    fun x y hxy => { hxy with opening := .some (hq.mono hg₁) }
  refine (alike_modifyLink (hg₁.numbers hl) waits).next fun ρ₂ hg₂ => ?_
  rw [hk.name]
  refine (fair.attach k'.name (hg₂.numbers (hg₁.numbers hl))).attempt.bind fun ρ₃ hg₃ a a' ha => ?_
  have hg := (hg₁.trans hg₂).trans hg₃
  cases ha with
  | ok he => exact alike_modifyLink (hg.numbers hl) fun _ _ hxy => { hxy with sender := .some he }
  | error akin =>
    have gone : ∀ x y, ρ₃.Links x y →
        ρ₃.Links { x with opening := none, state := .closed } { y with opening := none, state := .closed } :=
      fun x y hxy => { hxy with opening := .none, state := rfl }
    refine (alike_modifyLink (hg.numbers hl) gone).next fun ρ₄ hg₄ => ?_
    refine (alike_convert akin).bind fun ρ₅ hg₅ _ _ _ => ?_
    exact alike_resolve fair (((hq.mono hg).mono hg₄).mono hg₅) (.failed (.of_kind (by rfl)))

/-! ### Links that close -/

theorem alike_failAll {xs ys : List (Nat × Exchange Waiting)} (hf : f.Akin f')
    (hx : List.Forall₂ (fun p q => p.1 = q.1 ∧ ρ.Exchanges p.2 q.2) xs ys) :
    ρ.Alike Same (Link.failAll h f xs) (Link.failAll h f' ys) := by
  induction xs generalizing ys ρ with
  | nil =>
    cases hx
    exact alike_pure rfl
  | cons x xs ih =>
    obtain _ | ⟨hxy, rest⟩ := hx
    unfold Link.failAll
    refine (alike_resolve fair hxy.2.request (.failed hf)).next fun ρ₁ hg₁ => ?_
    exact ih (rest.imp fun _ _ hp => ⟨hp.1, hp.2.mono hg₁⟩)

theorem alike_shut (hl : ρ.numbers .link l l') (hf : f.Akin f') :
    ρ.Alike Same (Link.shut h l f) (Link.shut h l' f') := by
  unfold Link.shut
  refine (alike_link hl).bind fun ρ₁ hg₁ k k' hk => ?_
  have gone : ∀ x y, ρ₁.Links x y →
      ρ₁.Links { x with state := .closed, opening := none } { y with state := .closed, opening := none } :=
    fun x y hxy => { hxy with opening := .none, state := rfl }
  refine (alike_modifyLink (hg₁.numbers hl) gone).next fun ρ₂ hg₂ => ?_
  have hg := hg₁.trans hg₂
  have drained {ρ : Pairing} (hl : ρ.numbers .link l l') : ρ.Alike Same
      (do
        let outstanding := (← Act.link l).pending
        Act.modifyLink l fun k => { k with pending := [] }
        Link.failAll h f outstanding)
      (do
        let outstanding := (← Act.link l').pending
        Act.modifyLink l' fun k => { k with pending := [] }
        Link.failAll h f' outstanding) := by
    refine (alike_link hl).bind fun ρ₁ hg₁ k k' hk => ?_
    have none_left : ∀ x y, ρ₁.Links x y → ρ₁.Links { x with pending := [] } { y with pending := [] } :=
      fun x y hxy => { hxy with pending := .nil }
    refine (alike_modifyLink (hg₁.numbers hl) none_left).next fun ρ₂ hg₂ => ?_
    exact alike_failAll fair hf (hk.pending.imp fun _ _ hp => ⟨hp.1, hp.2.mono hg₂⟩)
  rcases hk.opening.none_or_some with ⟨hq, hq'⟩ | ⟨q, q', hq, hq', tokens⟩
  · simp only [hq, hq']
    exact drained (hg.numbers hl)
  · simp only [hq, hq']
    exact (alike_resolve fair (tokens.mono hg₂) (.failed hf)).next fun ρ₃ hg₃ =>
      drained (hg₃.numbers (hg.numbers hl))

theorem alike_close (hl : ρ.numbers .link l l') :
    ρ.Alike Same (Link.close h l) (Link.close h l') := by
  unfold Link.close
  refine (alike_link hl).bind fun ρ₁ hg₁ k k' hk => ?_
  refine .ite (by rw [hk.state]) (fun _ => alike_pure rfl) fun _ => ?_
  have shut {ρ : Pairing} (hl : ρ.numbers .link l l') :
      ρ.Alike Same (Link.shut h l (Problem.closedLocally k.name).toFailure)
        (Link.shut h l' (Problem.closedLocally k'.name).toFailure) :=
    alike_shut fair hl (.of_kind (by rfl))
  rcases hk.sender.none_or_some with ⟨hs, hs'⟩ | ⟨s, s', hs, hs', sender⟩
  · simp only [hs, hs']
    exact shut (hg₁.numbers hl)
  · simp only [hs, hs']
    exact (fair.detach sender).next fun ρ₂ hg₂ => shut (hg₂.numbers (hg₁.numbers hl))

/-! ### Links that open, and deliveries that are settled -/

theorem alike_opened (hl : ρ.numbers .link l l') :
    ρ.Alike Same (Link.opened h l) (Link.opened h l') := by
  unfold Link.opened
  refine (alike_link hl).bind fun ρ₁ hg₁ k k' hk => ?_
  refine .ite (by rw [hk.state]) (fun _ => alike_pure rfl) fun _ => ?_
  have opens : ∀ x y, ρ₁.Links x y →
      ρ₁.Links { x with state := .opened, opening := none } { y with state := .opened, opening := none } :=
    fun x y hxy => { hxy with opening := .none, state := rfl }
  refine (alike_modifyLink (hg₁.numbers hl) opens).next fun ρ₂ hg₂ => ?_
  rcases hk.opening.none_or_some with ⟨hq, hq'⟩ | ⟨q, q', hq, hq', tokens⟩
  · simp only [hq, hq']
    exact alike_pure rfl
  · simp only [hq, hq']
    exact alike_resolve fair (tokens.mono hg₂) .succeeded

omit fair in
theorem Settlements.declareResolution {s s' : Settlement} (hs : ρ.Settlements s s')
    {tx : TransactionId} :
    (Link.declareResolution tx s).Akin (Link.declareResolution tx s') := by
  cases hs with
  | declared => exact .succeeded
  | accepted => exact .failed (.of_kind (by rfl))
  | rejected => exact .failed (.of_kind (by rfl))

omit fair in
theorem Settlements.dischargeResolution {s s' : Settlement} (hs : ρ.Settlements s s')
    {tx : TransactionId} {commit : Bool} :
    (Link.dischargeResolution tx commit s).Akin (Link.dischargeResolution tx commit s') := by
  cases hs with
  | declared => exact .failed (.of_kind (by rfl))
  | accepted => exact .succeeded
  | rejected => cases commit <;> exact .failed (.of_kind (by rfl))

theorem alike_settled {d : Nat} {s s' : Settlement} (hl : ρ.numbers .link l l')
    (hs : ρ.Settlements s s') :
    ρ.Alike Same (Link.settled h l d s) (Link.settled h l' d s') := by
  unfold Link.settled
  refine (alike_link hl).bind fun ρ₁ hg₁ k k' hk => ?_
  have found := hk.pending.find? (p := (·.1 = d)) (q := (·.1 = d)) fun p q hp => by rw [hp.1]
  rcases found.none_or_some with ⟨e, e'⟩ | ⟨⟨n, x⟩, ⟨n', x'⟩, e, e', -, hx⟩
  · simp only [e, e']
    exact alike_pure rfl
  replace hx : ρ₁.Exchanges x x' := hx
  simp only [e, e']
  have dequeue : ∀ x y, ρ₁.Links x y → ρ₁.Links
      { x with pending := x.pending.filter (·.1 ≠ d) } { y with pending := y.pending.filter (·.1 ≠ d) } :=
    fun x y hxy => { hxy with
      pending := List.rel_filter (fun p p' hp => by simp [hp.1]) hxy.pending }
  refine (alike_modifyLink (hg₁.numbers hl) dequeue).next fun ρ₂ hg₂ => ?_
  refine (alike_transaction (hg₂.numbers hx.transaction)).bind fun ρ₃ hg₃ y y' hy => ?_
  have hg := hg₂.trans hg₃
  have transaction := hg.numbers hx.transaction
  have request := hx.request.mono hg
  simp only [hx.discharge, hy.id]
  cases x'.discharge with
  | some commit => exact alike_resolve fair request hs.dischargeResolution
  | none =>
    cases hs with
    | declared names =>
      refine (alike_setHint transaction (hg.names (hg₁.names names))).next fun ρ₄ hg₄ => ?_
      exact alike_resolve fair (request.mono hg₄) .succeeded
    | accepted => exact alike_resolve fair request (Settlements.declareResolution (ρ := ρ) .accepted)
    | rejected => exact alike_resolve fair request (Settlements.declareResolution (ρ := ρ) .rejected)

/-! ### Contexts -/

omit fair

theorem alike_isFailed (hc : ρ.numbers .context c c') :
    ρ.Alike Same (Context.isFailed c : Peering Bool) (Context.isFailed c') := by
  unfold Context.isFailed
  refine (alike_context hc).bind fun ρ₁ hg₁ x y hxy => ?_
  rcases hxy.coordinator.none_or_some with ⟨e, e'⟩ | ⟨l, l', e, e', hl⟩
  · simp only [e, e']
    exact alike_pure rfl
  · simp only [e, e']
    refine (alike_link hl).bind fun ρ₂ hg₂ k k' hk => ?_
    rw [hk.state]
    exact alike_pure rfl

theorem alike_currentId (hc : ρ.numbers .context c c') :
    ρ.Alike Same (Context.currentId c : Peering (Option TransactionId)) (Context.currentId c') := by
  unfold Context.currentId
  refine (alike_context hc).bind fun ρ₁ hg₁ x y hxy => ?_
  rcases hxy.current.none_or_some with ⟨e, e'⟩ | ⟨t, t', e, e', ht⟩
  · simp only [e, e']
    exact alike_pure rfl
  · simp only [e, e']
    refine (alike_transaction ht).bind fun ρ₂ hg₂ k k' hk => ?_
    rw [hk.id]
    exact alike_pure rfl

theorem alike_usableLink (hc : ρ.numbers .context c c') :
    ρ.Alike (Perhaps (Both .link)) (Context.usableLink c : Peering (Option Nat))
      (Context.usableLink c') := by
  unfold Context.usableLink
  refine (alike_context hc).bind fun ρ₁ hg₁ x y hxy => ?_
  rcases hxy.coordinator.none_or_some with ⟨e, e'⟩ | ⟨l, l', e, e', hl⟩
  · simp only [e, e']
    exact alike_pure .none
  · simp only [e, e']
    refine (alike_link hl).bind fun ρ₂ hg₂ k k' hk => ?_
    rw [hk.state]
    split
    · exact alike_pure .none
    · exact alike_pure (.some (hg₂.numbers hl))

theorem alike_enrolConsumer {id : MemberId} {x x' : Nat} (hc : ρ.numbers .context c c')
    (hx : ρ.numbers .consumer x x') :
    ρ.Alike Same (Context.enrolConsumer c id x : Peering Unit) (Context.enrolConsumer c' id x') :=
  alike_modifyContext hc fun _ _ hxy => { hxy with
    consumers := hxy.consumers.putInto (fun _ _ hp => by rw [hp.1]) ⟨rfl, hx⟩ }

theorem alike_enrolProducer {id : MemberId} {x x' : Nat} (hc : ρ.numbers .context c c') :
    ρ.Alike Same (Context.enrolProducer c id x : Peering Unit) (Context.enrolProducer c' id x') :=
  alike_modifyContext hc fun _ _ hxy => { hxy with }

include fair

/-! ### Begin -/

theorem alike_begin (hc : ρ.numbers .context c c') (ht : ρ.numbers .transaction t t')
    (hq : ρ.Tokens q q') :
    ρ.Alike Same (Context.begin h c t q) (Context.begin h c' t' q') := by
  unfold Context.begin
  refine (alike_context hc).bind fun ρ₁ hg₁ x y hxy => ?_
  simp only [hxy.stage]
  refine .ite Iff.rfl (fun _ => ?_) fun _ => ?_
  · exact alike_resolve fair (hq.mono hg₁) (.failed (.of_kind (by rfl)))
  have declares : ∀ x y, ρ₁.Contexts x y →
      ρ₁.Contexts { x with stage := .declaring } { y with stage := .declaring } :=
    fun x y hxy => { hxy with stage := rfl }
  refine (alike_modifyContext (hg₁.numbers hc) declares).next fun ρ₂ hg₂ => ?_
  refine alike_newCompletion.bind fun ρ₃ hg₃ d d' hd => ?_
  have hg := (hg₁.trans hg₂).trans hg₃
  have declared : ρ₃.Tokens (.declaring d c t q) (.declaring d' c' t' q') :=
    .declaring hd (hg.numbers hc) (hg.numbers ht) (hq.mono hg)
  refine (alike_usableLink (hg.numbers hc)).bind fun ρ₄ hg₄ l l' hl => ?_
  have hg := hg.trans hg₄
  cases hl with
  | some hl => exact alike_declare fair hl (hg.numbers ht) (declared.mono hg₄)
  | none =>
    have built : ∀ x y, ρ₄.Contexts x y →
        ρ₄.Contexts { x with linksBuilt := x.linksBuilt + 1 } { y with linksBuilt := y.linksBuilt + 1 } :=
      fun x y hxy => { hxy with linksBuilt := congrArg (· + 1) hxy.linksBuilt }
    refine (alike_modifyContext (hg.numbers hc) built).next fun ρ₅ hg₅ => ?_
    refine (alike_context (hg₅.numbers (hg.numbers hc))).bind fun ρ₆ hg₆ z z' hz => ?_
    rw [hz.session, hz.linksBuilt]
    refine alike_newLink.bind fun ρ₇ hg₇ l l' hl => ?_
    refine alike_newCompletion.bind fun ρ₈ hg₈ o o' ho => ?_
    have since := ((hg₅.trans hg₆).trans hg₇).trans hg₈
    have hg := hg.trans since
    exact alike_establish fair (hg₈.numbers hl) (.opening ho (hg.numbers hc) (hg.numbers ht)
      (hg₈.numbers hl) (declared.mono (hg₄.trans since)) (hq.mono hg))

/-! ### The end of a transaction -/

theorem alike_handOver {commit : Bool} (hc : ρ.numbers .context c c')
    (ht : ρ.numbers .transaction t t') (hl : ρ.numbers .link l l') (hq : ρ.Tokens q q') :
    ρ.Alike Same (Context.handOver h c t l commit q) (Context.handOver h c' t' l' commit q') := by
  unfold Context.handOver
  have ends : ∀ x y, ρ.Contexts x y →
      ρ.Contexts { x with stage := .discharging } { y with stage := .discharging } :=
    fun x y hxy => { hxy with stage := rfl }
  refine (alike_modifyContext hc ends).next fun ρ₁ hg₁ => ?_
  refine alike_newCompletion.bind fun ρ₂ hg₂ d d' hd => ?_
  have hg := hg₁.trans hg₂
  exact alike_dischargeOn fair (hg.numbers hl) (hg.numbers ht)
    (.discharging hd (hg.numbers hc) (hq.mono hg))

theorem alike_discharge {ending : Ending} (hc : ρ.numbers .context c c') (hq : ρ.Tokens q q') :
    ρ.Alike Same (Context.discharge h c ending q) (Context.discharge h c' ending q') := by
  unfold Context.discharge
  refine (alike_context hc).bind fun ρ₁ hg₁ x y hxy => ?_
  have unbound : ρ₁.Alike Same (q.resolve h (.failed Problem.nothingBound.toFailure))
      (q'.resolve h (.failed Problem.nothingBound.toFailure)) :=
    alike_resolve fair (hq.mono hg₁) (.failed (.of_kind (by rfl)))
  rcases hxy.current.none_or_some with ⟨e, e'⟩ | ⟨t, t', e, e', ht⟩
  · simp only [e, e']
    exact unbound
  rcases hxy.coordinator.none_or_some with ⟨k, k'⟩ | ⟨l, l', k, k', hl⟩
  · simp only [e, e', k, k']
    exact unbound
  simp only [e, e', k, k']
  have undone {ρ' : Pairing} (hg : ρ₁.Grows ρ') :
      ρ'.Alike Same (discard (Context.notify h c .preRollback))
        (discard (Context.notify h c' .preRollback)) :=
    (alike_notify fair (hg.numbers (hg₁.numbers hc))).discard
  cases ending with
  | rollback =>
    refine (undone (.refl ρ₁)).next fun ρ₂ hg₂ => ?_
    have hg := hg₁.trans hg₂
    exact alike_handOver fair (hg.numbers hc) (hg₂.numbers ht) (hg₂.numbers hl) (hq.mono hg)
  | commit =>
    refine (alike_notify fair (hg₁.numbers hc)).bind fun ρ₂ hg₂ f f' hf => ?_
    have hg := hg₁.trans hg₂
    cases hf with
    | none => exact alike_handOver fair (hg.numbers hc) (hg₂.numbers ht) (hg₂.numbers hl) (hq.mono hg)
    | some akin =>
      refine (undone hg₂).next fun ρ₃ hg₃ => ?_
      refine alike_newCompletion.bind fun ρ₄ hg₄ d d' hd => ?_
      have since := hg₂.trans (hg₃.trans hg₄)
      have hg := hg₁.trans since
      exact alike_handOver fair (hg.numbers hc) (since.numbers ht) (since.numbers hl)
        (.instead hd (.of_kind (by rfl)) (hq.mono hg))

theorem alike_abandon (hc : ρ.numbers .context c c') :
    ρ.Alike Same (Context.abandon h c) (Context.abandon h c') :=
  (alike_notify fair hc).discard.next fun _ hg => alike_conclude fair (hg.numbers hc)

omit fair in
theorem akin_answerUnbound {ending : Ending} {inDoubt bound : Bool} :
    (Context.answerUnbound ending inDoubt bound).Akin
      (Context.answerUnbound ending inDoubt bound) := by
  unfold Context.answerUnbound
  cases inDoubt <;> cases ending <;> cases bound <;>
    first | exact .succeeded | exact .failed (.of_kind (by rfl))

theorem alike_finish {ending : Ending} {x x' : TransactionRef} (hc : ρ.numbers .context c c')
    (hx : ρ.References x x') (hq : ρ.Tokens q q') :
    ρ.Alike Same (Context.finish h c ending x q) (Context.finish h c' ending x' q') := by
  unfold Context.finish
  refine (alike_transaction hx.transaction).bind fun ρ₁ hg₁ t t' ht => ?_
  refine (alike_currentId (hg₁.numbers hc)).bind fun ρ₂ hg₂ i i' hi => ?_
  have hg := hg₁.trans hg₂
  obtain rfl := hi
  simp only [ht.id, hx.inDoubt]
  refine .ite Iff.rfl (fun _ => alike_resolve fair (hq.mono hg) akin_answerUnbound) fun _ => ?_
  refine (alike_context (hg.numbers hc)).bind fun ρ₃ hg₃ y y' hy => ?_
  have hg := hg.trans hg₃
  rw [hy.stage]
  refine .ite Iff.rfl (fun _ => ?_) fun _ => ?_
  · exact alike_resolve fair (hq.mono hg) (.failed (.of_kind (by rfl)))
  refine (alike_isFailed (hg.numbers hc)).bind fun ρ₄ hg₄ failed failed' same => ?_
  have hg := hg.trans hg₄
  obtain rfl := same
  refine .ite Iff.rfl (fun _ => ?_) fun _ => alike_discharge fair (hg.numbers hc) (hq.mono hg)
  cases ending with
  | rollback =>
    exact (alike_abandon fair (hg.numbers hc)).next fun ρ₅ hg₅ =>
      alike_resolve fair ((hq.mono hg).mono hg₅) .succeeded
  | commit =>
    refine .ite Iff.rfl (fun _ => ?_) fun _ => ?_
    · exact (alike_abandon fair (hg.numbers hc)).next fun ρ₅ hg₅ =>
        alike_resolve fair ((hq.mono hg).mono hg₅) (.failed (.of_kind (by rfl)))
    · exact alike_resolve fair (hq.mono hg) (.failed (.of_kind (by rfl)))

/-! ### Aggregated sends -/

omit fair

/-- Two aggregations came to the same result. -/
inductive Decided : Except Problem (Option Decision) → Except Problem (Option Decision) → Prop
  | refused {p q : Problem} : p.kind = q.kind → Decided (.error p) (.error q)
  | waiting : Decided (.ok none) (.ok none)
  | decided {commit : Bool} {f g : Option Failure} :
    Decided (.ok (some ⟨commit, f⟩)) (.ok (some ⟨commit, g⟩))

theorem Aggregations.settle {x y : Aggregation} (hxy : Aggregations x y) {f g : Option Failure}
    (hf : Option.Rel Failure.Akin f g) :
    Aggregations (x.settle f).1 (y.settle g).1 ∧ Decided (x.settle f).2 (y.settle g).2 := by
  have noted : Aggregations (x.note f) (y.note g) := by
    cases hf with
    | none => exact hxy
    | some => exact ⟨hxy.pending, rfl⟩
  unfold Aggregation.settle Aggregation.isComplete
  generalize x.note f = x, y.note g = y at noted
  simp only [noted.pending, noted.commit]
  split
  · exact ⟨noted, .refused rfl⟩
  · refine ⟨⟨rfl, rfl⟩, ?_⟩
    dsimp only
    split
    · exact .decided
    · exact .waiting

theorem alike_aggregate {a a' : Nat} (ha : ρ.numbers .aggregate a a') :
    ρ.Alike (fun ρ' x y => Option.Rel ρ'.Aggregates x.aggregates[a]? y.aggregates[a']?)
      (Act.client : Peering (Client Waiting)) Act.client :=
  alike_read (f := (·.client)) (g := (·.client)) fun w v hm => by
    obtain ⟨x, y, hx, hy, paired⟩ := hm.entries .aggregate a a' ha
    rw [show w.client.aggregates[a]? = some x from hx, show v.client.aggregates[a']? = some y from hy]
    exact .some paired

include fair

theorem alike_decide {x x' : Aggregate Waiting} {commit : Bool} {f g : Option Failure}
    (hx : ρ.Aggregates x x') :
    ρ.Alike Same (Context.decide h x ⟨commit, f⟩) (Context.decide h x' ⟨commit, g⟩) := by
  unfold Context.decide
  refine (alike_isFailed hx.context).bind fun ρ₁ hg₁ failed failed' same => ?_
  obtain rfl := same
  have hx := hx.mono hg₁
  have info : ρ₁.References { x.info with inDoubt := x.info.inDoubt || failed }
      { x'.info with inDoubt := x'.info.inDoubt || failed } :=
    ⟨hx.info.transaction, by rw [hx.info.inDoubt]⟩
  refine .ite (by rw [hx.commit]) (fun _ => ?_) fun _ => alike_finish fair hx.context info hx.request
  refine alike_newCompletion.bind fun ρ₂ hg₂ d d' hd => ?_
  exact alike_finish fair (hg₂.numbers hx.context) (info.mono hg₂)
    (.instead hd (.of_kind (by rfl)) (hx.request.mono hg₂))

theorem alike_finishAfter {x x' : TransactionRef} {pending : Number} {commit : Bool}
    (hc : ρ.numbers .context c c') (hx : ρ.References x x') (hq : ρ.Tokens q q') :
    ρ.Alike (Both .aggregate) (Context.finishAfter h c x pending q commit)
      (Context.finishAfter h c' x' pending q' commit) := by
  unfold Context.finishAfter
  cases Aggregation.ofSends pending commit with
  | error p => exact alike_refuse rfl
  | ok sends =>
    have entry : ρ.Aggregates { sends, context := c, info := x, commit, request := q }
        { sends, context := c', info := x', commit, request := q' } := ⟨⟨rfl, rfl⟩, hc, hx, rfl, hq⟩
    refine (alike_newAggregate entry).bind fun ρ₁ hg₁ a a' ha => ?_
    refine .ite Iff.rfl (fun _ => ?_) fun _ => alike_pure ha
    exact (alike_finish fair (hg₁.numbers hc) (hx.mono hg₁) (hq.mono hg₁)).next fun ρ₂ hg₂ =>
      alike_pure (hg₂.numbers ha)

theorem alike_settleSend {a a' : Nat} {f g : Option Failure} (ha : ρ.numbers .aggregate a a')
    (hf : Option.Rel Failure.Akin f g) :
    ρ.Alike Same (Context.settleSend h a f) (Context.settleSend h a' g) := by
  unfold Context.settleSend
  refine (alike_aggregate ha).bind fun ρ₁ hg₁ x y found => ?_
  rcases found.none_or_some with ⟨e, e'⟩ | ⟨x, x', e, e', hx⟩
  · simp only [e, e']
    exact alike_pure rfl
  simp only [e, e']
  obtain ⟨sends, results⟩ := hx.sends.settle hf
  have settled : ρ₁.Alike Same
      (Act.modifyClient fun y => { y with
        aggregates := y.aggregates.modify a fun entry => { entry with sends := (x.sends.settle f).1 } })
      (Act.modifyClient fun y => { y with
        aggregates := y.aggregates.modify a' fun entry =>
          { entry with sends := (x'.sends.settle g).1 } }) :=
    fun w v hm => .returned (hm.alter (k := .aggregate) (hg₁.numbers ha) fun _ _ hxy =>
      ⟨sends, hxy.context, hxy.info, hxy.commit, hxy.request⟩) rfl
  refine settled.next fun ρ₂ hg₂ => ?_
  generalize (x.sends.settle f).2 = r, (x'.sends.settle g).2 = r' at results
  cases results with
  | refused same => exact alike_refuse same
  | waiting => exact alike_pure rfl
  | decided => exact alike_decide fair (hx.mono hg₂)

end Transact.Peer.Isolation.Pairing
