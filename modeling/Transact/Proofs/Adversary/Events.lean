import Transact.Proofs.Adversary.Ending

/-! # Events on a link

The endpoint raises events on any link, at any time, with any delivery number and settlement.

* `opened_keeps`, `settled_keeps`, `closed_keeps`, `close_keeps`: the invariant holds after each. -/

namespace Transact.Adversary

open Run Player

variable {how : Manners} {n : Nat} {h : Surroundings} {p : Phase Nat} {co : Option Nat}
  {w w' v : State} {l d : Nat}

/-- A link that is building is the one that somebody waits for. -/
theorem Inv.opening (hi : Inv how p co [] w) {k : Link Nat} (hk : w.client.links[l]? = some k)
    (hs : k.state = .building) : ∃ t openId declareId q, p = .opening (some l) t openId declareId q := by
  have := (hi.tables.link l k trivial hk).building hs
  cases p with
  | opening link =>
    obtain rfl : link = some l := this
    exact ⟨_, _, _, _, rfl⟩
  | _ => cases this

variable (sound : Sound how n h)

include sound

/-! ### The link opens -/

theorem opened_keeps (hf : how.Civil → p.Firm) (hi : Inv how p co [] w)
    (hn : w.outside.moves.length < n) : Keeps how p w (Link.opened h l) w := by
  unfold Keeps Link.opened
  simp only [after_bind, Act.after_link]
  cases hk : w.client.links[l]? with
  | none =>
    have same : w.on (·.changeLink l fun k => { k with state := .opened, opening := none }) = w :=
      World.on_self (Client.changeLink_absent hk)
    rw [Client.link_absent hk,
      if_neg (show ¬ (default : Link Nat).state ≠ .building from not_not_intro rfl)]
    simp only [after_bind, Act.after_modifyLink, same]
    exact ⟨p, co, hf, hi, .refl⟩
  | some k =>
    simp only [Client.link_eq hk]
    by_cases hs : k.state = .building
    · obtain ⟨t, openId, declareId, q, rfl⟩ := hi.opening hk hs
      have hl := hi.tables.link l k trivial hk
      have waiting : k.opening = some (.opening openId 0 t l (.declaring declareId 0 t q) q) :=
        hl.opening.trans (if_pos rfl)
      have closed := (hi.tables.building l rfl).2.2
      have pending := (hi.ids.lead openId (by simp [Phase.lead])).1
      obtain ⟨c, hc, hc'⟩ := hi.context
      have settled : (w.on (·.changeLink l fun k => { k with
          state := .opened, opening := none })).client.Pending openId := pending
      rw [if_neg (not_not_intro hs)]
      simp only [after_bind, Act.after_modifyLink, waiting, Token.resolve]
      rw [Act.after_settle settled]
      simp only [Act.after_modifyContext]
      refine transmit_from sound (.declaring (some (l, k.nextDelivery)) t declareId q)
        (k := { k with state := .opened, opening := none }) (c := { c with coordinator := some l })
        hi.toGround rfl rfl (fun i e => (Option.some.inj e).symm) (fun i e => .inr (closed i e))
        ?_ rfl rfl trivial (Client.changeContext_same hc)
        ⟨hc'.stage, hc'.current, hc'.accepted, hc'.enrolled, rfl⟩
        (fun _ _ e => by cases e) ?_ rfl (fun x => ?_) (fun _ _ e => by cases e)
        (fun _ e => by cases e) (fun civil x hx => ⟨(hi.fits civil).1, ?_⟩) hn
      · exact ⟨⟨k, hk, by simp [hs], rfl, rfl⟩, Client.changeLink_same hk, rfl, rfl, hl.pending,
          fun i => Client.changeLink_other, Client.Grows.write.settled, rfl⟩
      · exact (hi.ids.advance (.declaring none t declareId q) rfl rfl).congr rfl rfl rfl rfl
          rfl rfl
      · show (begun w.outside.history).map _ = _
        have hb : (begun w.outside.history).map (·.transaction) = some t := hi.traffic.underway
        cases e : begun w.outside.history with
        | none => simp [e] at hb
        | some b =>
          obtain rfl : b.transaction = t := by simpa [e] using hb
          rfl
      · have registry := (hi.fits civil).registry rfl
        rw [Client.context_eq hc] at registry
        rw [Client.context_eq (k := { c with coordinator := some l })
          (hx ▸ Client.changeContext_same hc)]
        exact registry
    · rw [if_pos hs]
      exact ⟨p, co, hf, hi, .refl⟩

/-! ### A request is settled -/

omit sound in
/-- What is outstanding under a delivery number is what the phase has there. -/
theorem Inv.find (hi : Inv how p co [] w) :
    (p.slot = some (l, d) ∧ ∃ e, p.exchange 0 = some e ∧
      (w.client.link l).pending.find? (·.1 = d) = some (d, e)) ∨
    (p.slot ≠ some (l, d) ∧ (w.client.link l).pending.find? (·.1 = d) = none) := by
  by_cases hs : p.slot = some (l, d)
  · obtain ⟨-, k, hk, -, -⟩ := hi.tables.slot l d hs
    obtain ⟨e, he, hpe⟩ := Phase.pendingAt_slot (c := 0) hs
    refine .inl ⟨hs, e, he, ?_⟩
    rw [Client.link_eq hk, (hi.tables.link l k trivial hk).pending, show whole.context = 0 from rfl,
      hpe]
    simp
  · refine .inr ⟨hs, ?_⟩
    cases hk : w.client.links[l]? with
    | none =>
      rw [Client.link_absent hk]
      rfl
    | some k =>
      rw [Client.link_eq hk, (hi.tables.link l k trivial hk).pending,
        ← Phase.filter_pendingAt hs, List.find?_eq_none]
      intro i hm
      simpa using (List.mem_filter.1 hm).2

omit sound in
theorem Inv.declaring {t id : Nat} {q : Token Nat}
    (hi : Inv how (.declaring (some (l, d)) t id q) co [] w) :
    (w.client.context 0).stage = .declaring ∧
      (w.client.link l).pending = [(d, ⟨none, t, .declaring id 0 t q⟩)] := by
  obtain ⟨c, hc, hc'⟩ := hi.context
  obtain ⟨-, k, hk, -, -⟩ := hi.tables.slot l d rfl
  refine ⟨by rw [Client.context_eq hc, hc'.stage]; rfl, ?_⟩
  rw [Client.link_eq hk, (hi.tables.link l k trivial hk).pending]
  simp [Phase.pendingAt, whole]

section Declared

variable {t id : Nat} {q : Token Nat} {y : Option TxnId}
  (hi : Inv how (.declaring (some (l, d)) t id q) (some l) [] w)
  (hv : v = (noting (.signalled (.settled l d (.declared y))) w).on (·.changeLink l fun k =>
    { k with pending := k.pending.filter (·.1 ≠ d) }))

include hi hv

omit sound in
theorem declared_loose : Ground how (.declaring none t id q) (some l) [] v := by
  rw [hv]
  exact hi.toGround.takeOut rfl (answered_settled (s := .declared y)) trivial

omit sound hi in
theorem declared_grows : w.client.Grows v.client := by
  rw [hv]
  exact .changeLink (fun _ e => e) fun _ => Nat.le_refl _

theorem unnamed_keeps {f : Failure} (hint : ((v.client.writeHint t y).transaction t).hint = none)
    (legal : f.Legal) (hn : w.outside.moves.length < n) :
    Keeps how (.declaring (some (l, d)) t id q) w (q.resolve h (.failed f))
      (((v.on (·.writeHint t y)).on (·.write id (.settled (.succeeded ())))).on
        (·.changeContext 0 (·.cleared))) := by
  have loose := declared_loose hi hv
  have since : Since (.declaring (some (l, d)) t id q) w (.declaring none t id q)
      (v.on (·.writeHint t y)) :=
    .loose (hv ▸ List.suffix_refl _) ((declared_grows hv).trans (.of_eq rfl rfl))
  have fits (civil : how.Civil) :
      (course v.outside.history).Fits (some l) v.client (.declaring none t id q) := by
    obtain ⟨clear, registry⟩ := hi.fits civil
    subst hv
    refine ⟨?_, registry⟩
    show course (⟨_, w.client⟩ :: w.outside.history) = {}
    cases y with
    | none => exact clear
    | some y =>
      refine (course_settled fun _ e he _ => ?_).trans clear
      obtain rfl := List.mem_singleton.1 (hi.declaring.2 ▸ he)
      refine Nat.le_of_not_lt fun lt => ?_
      have named : ((w.client.writeHint t (some y)).transaction t).hint = some y :=
        Client.hint_writeHint_same lt
      exact absurd (named.symm.trans hint) (by simp)
  obtain ⟨c, hc, hc'⟩ := loose.context
  have still : Inv how (.declaring none t id q) (some l) [] (v.on (·.writeHint t y)) :=
    ⟨loose.step ((Quietly.refl v).on _)
      (loose.tables.relabel ⟨rfl, rfl⟩ ⟨rfl, rfl⟩ hc hc' rfl (fun _ _ e => by cases e)
        fun e => absurd rfl e)
      (loose.ids.congr rfl rfl rfl rfl rfl rfl) (loose.traffic.grow (.of_eq rfl rfl) rfl rfl), fits⟩
  exact (over_keeps sound id _ still ⟨rfl, rfl⟩ (by simp [Phase.lead])
    (fun i e => (Option.some.inj e).symm) rfl (fun k hk => hk.cleared)
    (((Quietly.refl _).on _).on _) rfl
    (fun civil => .begun (fits civil).1
      (registry_cleared (x := v.client.writeHint t y) rfl (fits civil).2)) legal.failed
    (Nat.lt_of_le_of_lt since.moves.length_le hn)).of since

theorem named_keeps {y' : TxnId} (hy : y = some y')
    (hint : ((v.client.writeHint t y).transaction t).hint = some y') (hn : w.outside.moves.length < n) :
    Keeps how (.declaring (some (l, d)) t id q) w (q.resolve h (.succeeded ()))
      (((v.on (·.writeHint t y)).on (·.write id (.settled (.succeeded ())))).on
        (·.changeContext 0 fun x => { x with
          stage := .active
          current := some t
          accepted := some (.acknowledging y')
          enrolled := some (.enrolling y') })) := by
  subst hy
  have loose := declared_loose hi hv
  have pending : (v.client.writeHint t (some y')).Pending id :=
    (loose.ids.lead id (by simp [Phase.lead])).1
  obtain ⟨c, hc, hc'⟩ := loose.context
  obtain ⟨u, hu⟩ : ∃ u, u = ((v.on (·.writeHint t (some y'))).on (·.write id (.settled
    (.succeeded ())))).on (·.changeContext 0 fun x => { x with
      stage := .active
      current := some t
      accepted := some (.acknowledging y')
      enrolled := some (.enrolling y') }) := ⟨_, rfl⟩
  have grows : w.client.Grows u.client := by
    rw [hu]
    exact (declared_grows hv).trans (.trans (.of_eq rfl rfl) (.trans .write (.of_eq rfl rfl)))
  have past : v.outside.history =
      ⟨.signalled (.settled l d (.declared (some y'))), w.client⟩ :: w.outside.history := by
    rw [hv]
    rfl
  have bound : Inv how (.active t y') (some l) q.ids u := by
    subst hu
    refine ⟨⟨?_, ?_, ?_, loose.lawful, loose.founded, loose.moves⟩, fun civil => ?_⟩
    · refine loose.tables.relabel ⟨rfl, rfl⟩ ⟨rfl, rfl⟩ (Client.changeContext_same hc)
        ⟨rfl, rfl, rfl, rfl, hc'.coordinator⟩ rfl (fun t' y e => ?_) fun _ => by simp
      obtain ⟨rfl, rfl⟩ : t = t' ∧ y' = y := by simpa [Phase.bound] using e
      exact hint
    · exact (loose.ids.finish (List.mem_singleton_self id) rfl rfl rfl).congr rfl rfl rfl rfl rfl rfl
    · show Traffic _ _ _ v.outside.history
      rw [past]
      exact hi.traffic.declared grows
    · obtain ⟨clear, registry⟩ := hi.fits civil
      obtain ⟨declaring, outstanding⟩ := hi.declaring
      have lt : t < w.client.transactions.size := by
        have lt' := Client.lt_of_hint hint
        rw [Client.writeHint, Array.size_modify] at lt'
        subst hv
        exact lt'
      have bound : course v.outside.history = { course w.outside.history with bound := true } := by
        rw [past]
        exact if_pos ⟨declaring, by simp [outstanding, lt]⟩
      have before : ((v.client.writeHint t (some y')).write id
          (.settled (.succeeded ()))).contexts[0]? = some c := hc
      have same : c = w.client.context 0 := by
        subst hv
        exact (Client.context_eq hc).symm
      show (course v.outside.history).Fits _ _ _
      rw [bound, clear]
      refine ⟨⟨rfl, ?_⟩, rfl, rfl, rfl⟩
      refine Eq.trans (b := c.registry.consumers) ?_ (by rw [same, registry]; rfl)
      exact congrArg (·.registry.consumers) (Client.context_eq (Client.changeContext_same before))
  rw [← hu]
  have moves : u.outside.moves <:+ w.outside.moves := by
    rw [hu, hv]
    exact List.suffix_refl _
  have told : Keeps how (.active t y') u (q.resolve h (.succeeded ())) u :=
    resolve_plain sound (hi.ids.request q rfl).1 (fun _ => trivial) bound
      (.inl ((hi.ids.request q rfl).1.legal (fun _ e => by cases e)))
      (Nat.lt_of_le_of_lt moves.length_le hn)
  refine told.of (.still moves grows (fun i e => ?_) rfl)
  obtain rfl := Option.some.inj e
  rw [hu]
  exact Client.settled_write pending.lt

/-- **The transaction is bound if the coordinator has named it.** -/
theorem declared_keeps (hn : w.outside.moves.length < n) :
    Keeps how (.declaring (some (l, d)) t id q) w
      ((Token.declaring id 0 t q).resolve h (.succeeded ())) (v.on (·.writeHint t y)) := by
  have written : (v.on (·.writeHint t y)).client.Pending id :=
    ((declared_loose hi hv).ids.lead id (by simp [Phase.lead])).1
  unfold Keeps Token.resolve
  rw [after_bind, Act.after_settle written]
  simp only [after_bind, Act.after_transaction]
  cases hint : (((v.on (·.writeHint t y)).on (·.write id (.settled (.succeeded ())))).client
    |>.transaction t).hint with
  | none =>
    simp only [after_bind, Act.after_reset]
    exact unnamed_keeps sound hi hv hint (fun e => by cases e) hn
  | some y' =>
    have named : ((v.client.writeHint t y).transaction t).hint = y ∨
        ((v.client.writeHint t y).transaction t).hint = none := Client.hint_writeHint
    have hy : y = some y' := by
      rcases named with e | e
      · exact e.symm.trans hint
      · exact absurd (hint.symm.trans e) (by simp)
    simp only [Context.bind, after_bind, Act.after_modifyContext]
    exact named_keeps sound hi hv hy hint hn

end Declared

/-- **The invariant holds after a settlement,** whatever it settles. -/
theorem settled_keeps {s : Settlement} (hf : how.Civil → p.Firm) (hi : Inv how p co [] w)
    (hn : w.outside.moves.length < n) :
    Keeps how p w (Link.settled h l d s) (noting (.signalled (.settled l d s)) w) := by
  unfold Keeps Link.settled
  simp only [after_bind, Act.after_link]
  rcases hi.find (l := l) (d := d) with ⟨hs, e, he, found⟩ | ⟨hs, found⟩
  · have loose := hi.takeOut hs (answered_settled (s := s)) trivial
    have since : Since p w p.loose ((noting (.signalled (.settled l d s)) w).on
        (·.changeLink l fun k => { k with pending := k.pending.filter (·.1 ≠ d) })) :=
      .loose (List.suffix_refl _) (.changeLink (fun _ e => e) fun _ => Nat.le_refl _)
    have found' : ((noting (.signalled (.settled l d s)) w).client.link l).pending.find?
        (·.1 = d) = some (d, e) := found
    simp only [found', after_bind, Act.after_modifyLink, Act.after_transaction]
    cases p with
    | declaring =>
      cases he
      cases hs
      cases s with
      | declared y =>
        simp only [after_bind, Act.after_setHint]
        obtain rfl := (hi.tables.slot l d rfl).1
        exact declared_keeps sound hi rfl hn
      | _ =>
        refine (resolve_declaring sound (loose rfl) ?_ hn).of since
        exact fun e => by cases e
    | discharging =>
      cases he
      obtain ⟨c, hc, hc'⟩ := hi.context
      have same := loose (course_settled fun declaring => by
        rw [Client.context_eq hc, hc'.stage] at declaring
        cases declaring)
      exact (resolve_discharging sound same Link.dischargeResolution_legal hn).of since
    | _ => cases he
  · have nothing : ∀ e ∈ (w.client.link l).pending, e.1 ≠ d := by simpa using found
    have missed := hi.other hs (answered_settled (s := s)) trivial
      (course_settled fun _ e he hd => absurd hd (nothing e he))
    have found' : ((noting (.signalled (.settled l d s)) w).client.link l).pending.find?
        (·.1 = d) = none := found
    simp only [found']
    exact ⟨p, co, hf, missed, .same (List.suffix_refl _) (.refl _)⟩

/-! ### The link closes -/

omit sound in
theorem Inv.nothing (hi : Inv how p co [] w) (hc : w.client.Closed l) :
    (w.client.link l).pending = [] := by
  obtain ⟨k, hk, hs⟩ := hc
  rw [Client.link_eq hk, (hi.tables.link l k trivial hk).pending]
  refine Phase.pendingAt_of_ne fun d e => ?_
  obtain ⟨-, k', hk', ho, -⟩ := hi.tables.slot l d e
  obtain rfl : k = k' := Option.some.inj (hk.symm.trans hk')
  exact absurd (hs.symm.trans ho) (by decide)

omit sound in
theorem drained {cause : Failure} {p₂ : Phase Nat} {co₂ : Option Nat} (hf : how.Civil → p₂.Firm)
    (hi : Inv how p₂ co₂ [] w') (hc : w'.client.Closed l) (hs : Since p w p₂ w') :
    After (do
      let outstanding := (← Act.link l).pending
      Act.modifyLink l fun k => { k with pending := [] }
      Link.failAll h cause outstanding : Play Unit) w'
      (fun _ v => Kept how p w v) (Broken how p w) := by
  have nothing := hi.nothing hc
  have same : w'.on (·.changeLink l fun k => { k with pending := [] }) = w' := by
    refine World.on_self (Client.changeLink_self fun k hk => ?_)
    rw [Client.link_eq hk] at nothing
    rw [← nothing]
  simp only [after_bind, Act.after_link, Act.after_modifyLink, nothing, same]
  exact ⟨p₂, co₂, hf, hi, hs⟩

theorem shut_coordinator {cause : Failure} {k : Link Nat} (legal : cause.Legal)
    (hf : how.Civil → p.Firm) (hi : Inv how p (some l) [] w) (hk : w.client.links[l]? = some k)
    (ho : k.state ≠ .closed) (hn : w.outside.moves.length < n) :
    Keeps how p w (Link.shut h l cause) w := by
  have hl := hi.tables.link l k trivial hk
  unfold Keeps Link.shut
  simp only [after_bind, Act.after_link, Act.after_modifyLink]
  rw [Client.link_eq hk]
  have still : p.building = none := by
    cases hb : p.building with
    | none => rfl
    | some i =>
      obtain ⟨k', hk', hc⟩ := (hi.tables.building i hb).2.2 l rfl
      obtain rfl : k = k' := Option.some.inj (hk.symm.trans hk')
      exact absurd hc ho
  have nobody : k.opening = none := hl.opening.trans (Phase.openingAt_of_ne (by simp [still]))
  obtain ⟨v, hv⟩ : ∃ v, v = (w.on (·.changeLink l fun k => { k with
    state := .closed, opening := none })).on (·.changeLink l fun k => { k with
      pending := [] }) := ⟨_, rfl⟩
  have hv' : v.client = w.client.changeLink l fun k => { k with
      state := .closed, opening := none, pending := [] } := by
    rw [hv]
    exact Client.changeLink_changeLink
  have quiet : Quietly w v := by
    rw [hv]
    exact ((Quietly.refl w).on _).on _
  have grows : w.client.Grows v.client := by
    rw [hv']
    exact .changeLink (fun _ _ => rfl) fun _ => Nat.le_refl _
  have after : v.client.links[l]? = some { k with
      state := .closed, opening := none, pending := [] } := by
    rw [hv']
    exact Client.changeLink_same hk
  have here (i d : Nat) (e : p.slot = some (i, d)) : i = l :=
    (Option.some.inj (hi.tables.slot i d e).1).symm
  have loose : Inv how p.loose (some l) [] v := by
    refine hi.step quiet ?_ (hi.ids.congr Phase.loose_lead Phase.loose_request ?_ ?_ rfl rfl)
      (hi.traffic.loosen grows fun i d e => ⟨_, here i d e ▸ after, rfl⟩)
      fun civil => (hi.steady ⟨by rw [hv]; rfl, by rw [hv]; rfl⟩ grows civil).loose
    · refine hi.tables.shut ⟨hk, after, fun i hne => ?_⟩ (by simp [still]) here rfl rfl rfl ?_ ?_
      · rw [hv']
        exact Client.changeLink_other hne
      · rw [hv']
        rfl
      · rw [hv']
        rfl
    · rw [hv']
      rfl
    · rw [hv']
      rfl
  have outstanding : ((w.on (·.changeLink l fun k => { k with
      state := .closed, opening := none })).client.link l).pending = p.pendingAt 0 l :=
    (congrArg (·.pending) (Client.link_eq (Client.changeLink_same hk))).trans hl.pending
  have since : Since p w p.loose v := .loose quiet.moves grows
  simp only [nobody, after_bind, Act.after_link, Act.after_modifyLink, outstanding, ← hv]
  cases hslot : p.slot with
  | none =>
    have same : p.loose = p := by
      cases p with
      | opening link =>
        obtain rfl : link = none := still
        rfl
      | declaring slot | discharging slot =>
        obtain rfl : slot = none := hslot
        rfl
      | _ => rfl
    rw [Phase.pendingAt_of_ne (by simp [hslot])]
    exact ⟨p.loose, _, by rw [same]; exact hf, loose, since⟩
  | some s =>
    obtain ⟨i, d⟩ := s
    obtain rfl := here i d hslot
    obtain ⟨e, he, hpe⟩ := Phase.pendingAt_slot (c := 0) hslot
    simp only [hpe, Link.failAll, after_bind]
    exact ((tell sound he loose legal (Nat.lt_of_le_of_lt quiet.moves.length_le hn)).of since).mono
      (fun _ _ hk => hk) fun _ _ hb => hb

theorem shut_building {cause : Failure} {k : Link Nat} (legal : cause.Legal)
    (hf : how.Civil → p.Firm) (hi : Inv how p co [] w) (hk : w.client.links[l]? = some k)
    (hs : k.state = .building)
    (hn : w.outside.moves.length < n) : Keeps how p w (Link.shut h l cause) w := by
  have hl := hi.tables.link l k trivial hk
  unfold Keeps Link.shut
  simp only [after_bind, Act.after_link, Act.after_modifyLink]
  rw [Client.link_eq hk]
  obtain ⟨t, openId, declareId, q, rfl⟩ := hi.opening hk hs
  have waiting : k.opening = some (.opening openId 0 t l (.declaring declareId 0 t q) q) :=
    hl.opening.trans (if_pos rfl)
  obtain ⟨v, hv⟩ : ∃ v, v = w.on (·.changeLink l fun k => { k with
    state := .closed, opening := none }) := ⟨_, rfl⟩
  have grows : w.client.Grows v.client := by
    rw [hv]
    exact .changeLink (fun _ _ => rfl) fun _ => Nat.le_refl _
  have after : v.client.links[l]? = some { k with state := .closed, opening := none } := by
    rw [hv]
    exact Client.changeLink_same hk
  have quiet : Quietly w v := by
    rw [hv]
    exact (Quietly.refl w).on _
  have loose : Inv how (.opening none t openId declareId q) co [] v := by
    have steady : Steady w v := ⟨by rw [hv]; rfl, by rw [hv]; rfl⟩
    refine hi.step quiet ?_ ?_ (hi.traffic.loosen grows fun i d e => by cases e)
      (hi.steady steady grows)
    · refine hi.tables.shut ⟨hk, after, fun i hne => ?_⟩ (fun i e => (Option.some.inj e).symm)
        (fun i d e => by cases e) rfl rfl ?_ ?_ ?_
      · rw [hv]
        exact Client.changeLink_other hne
      · exact hl.pending
      · rw [hv]
        rfl
      · rw [hv]
        rfl
    · rw [hv]
      exact hi.ids.congr rfl rfl rfl rfl rfl rfl
  have hn' := Nat.lt_of_le_of_lt quiet.moves.length_le hn
  have since : Since (.opening (some l) t openId declareId q) w
      (.opening none t openId declareId q) v := .loose quiet.moves grows
  simp only [waiting, ← hv, after_bind]
  refine (resolve_opening sound loose legal hn').mono ?_ ?_
  · rintro _ w' ⟨p₂, co₂, hf₂, hi₂, hs₂⟩
    exact drained hf₂ hi₂ (hs₂.grows.closed ⟨_, after, rfl⟩) (since.trans hs₂)
  · rintro _ _ ⟨ht, he, hk⟩
    exact ⟨ht, he, hk.of since⟩

/-- **The invariant holds after a link was shut.** -/
theorem shut_keeps {cause : Failure} (legal : cause.Legal) (hf : how.Civil → p.Firm)
    (hi : Inv how p co [] w) (ho : ∀ k, w.client.links[l]? = some k → k.state ≠ .closed)
    (hn : w.outside.moves.length < n) : Keeps how p w (Link.shut h l cause) w := by
  cases hk : w.client.links[l]? with
  | none =>
    have same : w.on (·.changeLink l fun k => { k with state := .closed, opening := none }) = w :=
      World.on_self (Client.changeLink_absent hk)
    have same' : w.on (·.changeLink l fun k => { k with pending := [] }) = w :=
      World.on_self (Client.changeLink_absent hk)
    unfold Keeps Link.shut
    simp only [after_bind, Act.after_link, Act.after_modifyLink]
    rw [Client.link_absent hk, same]
    simp only [show (default : Link Nat).opening = none from rfl, after_bind, Act.after_link,
      Act.after_modifyLink, Client.link_absent hk, same']
    exact ⟨p, co, hf, hi, .refl⟩
  | some k =>
    rcases hi.tables.open_or_building trivial hk (ho k hk) with ⟨-, rfl⟩ | ⟨hs, -⟩
    · exact shut_coordinator sound legal hf hi hk (ho k hk) hn
    · exact shut_building sound legal hf hi hk hs hn

/-- **The invariant holds after the remote closed a link.** -/
theorem closed_keeps {error : Option Condition} (hf : how.Civil → p.Firm) (hi : Inv how p co [] w)
    (hn : w.outside.moves.length < n) : Keeps how p w (Link.closed h l error) w := by
  unfold Keeps Link.closed
  simp only [after_bind, Act.after_link]
  by_cases hs : (w.client.link l).state = .closed
  · rw [if_pos hs]
    exact ⟨p, co, hf, hi, .refl⟩
  · rw [if_neg hs]
    simp only [after_bind, Act.after_modifyLink]
    have grows : w.client.Grows (w.client.changeLink l fun k => { k with closeError := error }) :=
      .changeLink (fun _ e => e) fun _ => Nat.le_refl _
    have quiet : Quietly w (w.on (·.changeLink l fun k => { k with closeError := error })) :=
      (Quietly.refl w).on _
    have touched : Inv how p co [] (w.on (·.changeLink l fun k => { k with
        closeError := error })) :=
      hi.step quiet (hi.tables.touch (fun _ => rfl) (fun _ => rfl) (fun _ => rfl) (fun _ => rfl)
        fun _ => rfl) (hi.ids.congr rfl rfl rfl rfl rfl rfl) (hi.traffic.grow grows rfl rfl)
        (hi.steady ⟨rfl, rfl⟩ grows)
    have legal : ((Problem.closedByRemote (w.client.link l).name error).toFailure).Legal :=
      fun e => by cases e
    refine (shut_keeps sound legal hf touched (fun k' hk' hc => hs ?_) hn).of (.on grows quiet)
    cases hk : w.client.links[l]? with
    | none =>
      have same : w.client.changeLink l (fun k => { k with closeError := error }) = w.client :=
        Client.changeLink_absent hk
      simp only [World.on, same, hk] at hk'
      cases hk'
    | some k =>
      obtain rfl := Option.some.inj ((Client.changeLink_same hk).symm.trans hk')
      rw [Client.link_eq hk]
      exact hc

/-- **The invariant holds after a link was closed from this side.** -/
theorem close_keeps (hf : how.Civil → p.Firm) (hi : Inv how p co [] w)
    (hn : w.outside.moves.length < n) : Keeps how p w (Link.close h l) w := by
  unfold Keeps Link.close
  simp only [after_bind, Act.after_link]
  by_cases hs : (w.client.link l).state = .closed
  · rw [if_pos hs]
    exact ⟨p, co, hf, hi, .refl⟩
  · rw [if_neg hs]
    have legal : ((Problem.closedLocally (w.client.link l).name).toFailure).Legal := fun e => by cases e
    have shut {w' : State} (hq : Quietly w w') (hc : w'.client = w.client)
        (same : course w'.outside.history = course w.outside.history) :
        Keeps how p w (Link.shut h l (Problem.closedLocally (w.client.link l).name).toFailure)
          w' := by
      refine (shut_keeps sound legal hf (hi.quietly hq hc same) (fun k hk e => hs ?_)
        (Nat.lt_of_le_of_lt hq.moves.length_le hn)).of (.on (.of_eq (by rw [hc]) (by rw [hc])) hq)
      rw [hc] at hk
      rw [Client.link_eq hk]
      exact e
    cases he : (w.client.link l).sender with
    | none => exact shut (.refl w) rfl rfl
    | some sender =>
      simp only [after_bind]
      refine (sound.detach w sender hn).mono ?_ fun _ _ => False.elim
      rintro _ w' hw
      refine shut (hw.quietly hi.alone fun e hm => ?_) hw.client (by rw [hw.history]; rfl)
      obtain rfl := List.mem_singleton.1 hm
      exact ⟨trivial, trivial⟩

/-! ### Enrolment -/

omit sound in
theorem enrol_keeps {g : Context → Context} (hf : how.Civil → p.Firm) (hi : Ground how p co [] w)
    (fits : how.Civil → (course w.outside.history).Fits co (w.client.changeContext 0 g) p)
    (hg : ∀ k, (∃ r, g k = { k with registry := r })) :
    Keeps how p w (Act.modifyContext 0 g) w := by
  obtain ⟨c, hc, hc'⟩ := hi.context
  obtain ⟨r, hr⟩ := hg c
  have quiet : Quietly w (w.on (·.changeContext 0 g)) := (Quietly.refl w).on _
  have grows : w.client.Grows (w.client.changeContext 0 g) := .of_eq rfl rfl
  refine ⟨p, co, hf, ⟨hi.step quiet ?_ (hi.ids.congr rfl rfl rfl rfl rfl rfl)
    (hi.traffic.grow grows rfl rfl), fits⟩, .on grows quiet⟩
  refine hi.tables.recontext (Client.changeContext_same hc) ?_ rfl rfl
  rw [hr]
  exact ⟨hc'.stage, hc'.current, hc'.accepted, hc'.enrolled, hc'.coordinator⟩

end Transact.Adversary
