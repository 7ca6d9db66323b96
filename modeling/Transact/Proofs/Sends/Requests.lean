import Transact.Proofs.Sends.Events

/-! # Begins and ends, with aggregates in view

A begin leaves aggregates alone. What comes of a commit or a rollback is as `Ensues` says, if that is what
is due.

* `begin_leads`: the invariant holds after a begin.
* `finish_leads`: the same after a commit or a rollback, whatever it is that was due. -/

namespace Transact.Adversary

open Run

variable {own : Prop} {n : Nat} {h : Surroundings} {P : List Entry → Entry → Prop} {w v v' : State}
  {q : Token Nat} {t l : Nat} {r : Resolution Unit} {ending : Ending} {info : TransactionRef}
  {commit : Bool}

/-! ### A link is built -/

/-- A link was added, and the endpoint was asked to attach it. -/
theorem Held.build {s : String} {g : Link Nat → Link Nat} {E : List Event} {x : Client Nat}
    {F F' : List Entry → Prop} (hv : Held own F w v)
    (hc : v'.client = ((v.client.addLink s).addCompletion).changeLink v.client.links.size g)
    (hx : x.aggregates = v.client.aggregates) (he : ∀ e ∈ E, e.Still)
    (hm : v'.outside.moves <:+ v.outside.moves)
    (hp : v'.outside.history = E.map (⟨·, x⟩) ++ v.outside.history)
    (hk : LinkFair own v.client.addCompletion v.client.links.size (g { name := s }))
    (hf : F' v'.outside.history) : Held own F' w v' := by
  have fresh : (v.client.addLink s).addCompletion.links[v.client.links.size]? = some { name := s } :=
    Client.addLink_new
  have size : v.client.completions.size ≤ v'.client.completions.size := by
    rw [hc]
    exact Nat.le_trans (Nat.le_succ _) (Nat.le_of_eq (Array.size_push _).symm)
  refine hv.move hm hp (fun i hi => ?_) (fun i hi => ?_) (fun _ i hi id r hr => ?_) ?_ ?_ size
    (fun _ i _ hp => ?_) (fun i m hm => ?_) hf
  · obtain ⟨e, hm, rfl⟩ := List.mem_map.1 hi
    exact (he e hm).clear
  · obtain ⟨e, -, rfl⟩ := List.mem_map.1 hi
    exact hx
  · obtain ⟨e, hm, rfl⟩ := List.mem_map.1 hi
    exact absurd hr (he e hm).not_resolved
  · rw [hc]
    exact hv.tracked.context
  · rw [hc]
    rfl
  · rw [hc]
    exact Client.pending_addCompletion.2 (.inl hp)
  · rw [hc] at hm ⊢
    by_cases hil : i = v.client.links.size
    · subst hil
      obtain rfl := Option.some.inj ((Client.changeLink_same fresh).symm.trans hm)
      exact hk.grow rfl (Nat.le_refl _)
    · have old : v.client.links[i]? = some m :=
        (Client.addLink_old hil).symm.trans ((Client.changeLink_other hil).symm.trans hm)
      exact (hv.tracked.link i m old).grow rfl (by simp [Client.changeLink, Client.addCompletion,
        Client.addLink])

variable (reliable : Reliable own n h)

include reliable

/-! ### Begin -/

theorem declare_leads (apart : own → Apart v.client q) (hv : Held own Free w v)
    (hn : w.outside.moves.length < n) : Leads own Told w (Link.declare h l t q) v :=
  transmit_leads reliable apart hv (fun _ _ _ => trivial) (fun _ _ _ => trivial)
    (fun _ _ hv' elapsed => resolve_leads reliable (fun o => (apart o).elapsed elapsed o) hv' hn) hn

theorem establish_leads {name : String} (apart : own → Apart v.client.addCompletion q)
    (hv : Held own Free w v) (hl : l = v.client.links.size)
    (hv' : v' = (v.on (·.addLink name)).on (·.addCompletion)) (hn : w.outside.moves.length < n) :
    Leads own Told w (Link.establish h l q) v' := by
  subst hl hv'
  have fresh : (v.client.addLink name).addCompletion.links[v.client.links.size]? = some { name } :=
    Client.addLink_new
  unfold Leads Link.establish
  rw [after_bind, Act.after_link, show ((v.on (·.addLink name)).on (·.addCompletion)).client.link
    v.client.links.size = { name } from Client.link_eq fresh]
  simp only [Option.isSome_none, Bool.false_or, ne_eq, not_true_eq_false, decide_false,
    Bool.false_eq_true, if_false, after_bind, Act.after_modifyLink, after_attempt]
  refine After.mono (reliable.basic.attach _ name v.client.links.size ?_ ?_) ?_ ?_
  · exact hv.tracked.civil
  · exact hv.elapsed.lt hn
  · rintro s w₁ ⟨rfl, noted⟩
    have client := (congrArg (·.changeLink v.client.links.size fun k => { k with
      sender := some v.client.links.size }) noted.client).trans Client.changeLink_changeLink
    refine hv.build (s := name) (g := fun k => { k with
      opening := some q, sender := some v.client.links.size })
      (E := [.attached v.client.links.size name]) client ?_ ?_ noted.moves noted.history
      ⟨fun _ => rfl, fun o q' e => ?_, fun _ e he => absurd he (by simp)⟩ ?_
    · rfl
    · simp [Event.Still]
    · obtain rfl := Option.some.inj e
      exact apart o
    · show Followed w₁.outside.history
      rw [noted.history]
      exact hv.history [] _ (by simp) trivial trivial
  · rintro _ w₁ ⟨f, rfl, hf, noted⟩
    obtain ⟨g, hg⟩ := Option.isSome_iff_exists.1 (hf trivial)
    have client := (congrArg (·.changeLink v.client.links.size fun k => { k with
      opening := none, state := .closed }) noted.client).trans Client.changeLink_changeLink
    have built : Held own Free w (w₁.on (·.changeLink v.client.links.size fun k => { k with
        opening := none, state := .closed })) :=
      hv.build (s := name) (g := fun k => { k with opening := none, state := .closed })
        (E := []) (x := v.client) client rfl (by simp) noted.moves noted.history
        ⟨fun e => absurd rfl e, fun _ _ e => (by cases e), fun _ e he => absurd he (by simp)⟩
        (by rw [show (w₁.on _).outside = w₁.outside from rfl, noted.history]; exact hv.history)
    simp only [convert_eq hg, after_pure]
    refine resolve_leads reliable (fun o => ?_) built hn
    show Apart (w₁.client.changeLink v.client.links.size fun k => { k with
      opening := none, state := .closed }) q
    rw [client]
    exact (apart o).grow rfl (Nat.le_refl _)

/-- **The invariant holds after a begin,** and what comes of it is what was due. -/
theorem begin_leads (hq : q.Plain) (apart : own → Apart v.client q) (hv : Held own (Owes P) w v)
    (hp : ∀ hooks e, Begins v.client q hooks e → P hooks e) (hn : w.outside.moves.length < n) :
    Leads own Told w (Context.begin h 0 t q) v := by
  unfold Leads Context.begin
  simp only [after_bind, Act.after_context]
  split
  · exact tell_leads reliable hq apart hv (fun e untouched told => hp _ _ fun _ =>
      ⟨rfl, untouched, told⟩) hn
  next idle =>
  have free : Held own Free w v := hv.mono fun ho => ho.mono fun hooks e _ =>
    hp hooks e fun busy => absurd busy idle
  simp only [after_bind, Act.after_modifyContext, Act.after_newCompletion, Act.after_usableLink]
  obtain ⟨u, hu⟩ : ∃ u, u = (v.on (·.changeContext 0 fun x => { x with stage := .declaring })).on
    (·.addCompletion) := ⟨_, rfl⟩
  have kept : Held own Free w u := hu ▸ (free.onContext _).onCompletion
  have declaring : own → Apart u.client (.declaring v.client.completions.size 0 t q) := by
    intro o i hi
    rw [hu]
    rcases List.mem_cons.1 hi with rfl | hi
    · exact (hv.onContext _).tracked.spare_new o
    · exact (apart o).onContext.onCompletion i hi
  rw [← hu]
  split
  · exact declare_leads reliable declaring kept hn
  · simp only [after_bind, Act.after_modifyContext, Act.after_context, Act.after_newLink,
      Act.after_newCompletion]
    refine establish_leads reliable (fun o i hi => ?_) (kept.onContext _) rfl rfl hn
    have spare := ((declaring o).onContext (c := 0) (g := fun x => { x with
      linksBuilt := x.linksBuilt + 1 })).onCompletion
    rcases List.mem_cons.1 hi with rfl | hi
    · exact (kept.onContext _).tracked.spare_new o
    rcases List.mem_append.1 hi with hi | hi
    · exact spare i hi
    · exact spare i (List.mem_cons_of_mem _ hi)

/-! ### What comes of a commit or a rollback -/

theorem handOver_leads (apart : own → Apart v.client q) (hv : Held own (Owes P) w v)
    (hs : ∀ y, (v.client.link l).state = .opened → (v.client.transaction t).hint = some y →
      ∀ d x, P [] ⟨.sent l d (.discharge y !commit), x⟩)
    (hc : ((v.client.link l).state = .opened → (v.client.transaction t).hint = none) →
      ∀ hooks e, P hooks e) (hn : w.outside.moves.length < n) :
    Leads own Told w (Context.handOver h 0 t l commit q) v := by
  unfold Leads Context.handOver Link.discharge
  simp only [after_bind, Act.after_modifyContext, Act.after_newCompletion, Act.after_transaction]
  obtain ⟨u, hu⟩ : ∃ u, u = (v.on (·.changeContext 0 fun x => { x with stage := .discharging })).on
    (·.addCompletion) := ⟨_, rfl⟩
  have kept : Held own (Owes P) w u := hu ▸ (hv.onContext _).onCompletion
  have discharging : own →
      Apart u.client (.discharging v.client.completions.size 0 commit q) := by
    intro o i hi
    rw [hu]
    rcases List.mem_cons.1 hi with rfl | hi
    · exact (hv.onContext _).tracked.spare_new o
    · exact (apart o).onContext.onCompletion i hi
  have told {f : Failure} {v' : State} (hv' : Held own Free w v') (elapsed : Elapsed own u v') :
      Leads own Told w ((Token.discharging v.client.completions.size 0 commit q).resolve h (.failed f))
        v' :=
    resolve_leads reliable (fun o => (discharging o).elapsed elapsed o) hv' hn
  have link : u.client.link l = v.client.link l := by rw [hu]; rfl
  have transaction : u.client.transaction t = v.client.transaction t := by rw [hu]; rfl
  rw [← hu, transaction]
  cases hint : (v.client.transaction t).hint with
  | none =>
    exact told (kept.mono fun hp => hp.mono fun hooks e _ => hc (fun _ => hint) hooks e) (.refl u)
  | some y =>
    refine transmit_leads reliable discharging kept (fun ho => hs y (link ▸ ho) hint)
      (fun ho => hc fun ho' => absurd (link ▸ ho') ho) (fun f v' => told) hn

omit reliable in
theorem Ensues.of_active {x : Client Nat} {hooks : List Entry} {e : Entry} (hb : Bound info x)
    (hs : (x.context 0).stage ≠ .discharging) (hf : failed x = false)
    (h : ∀ t l y, (x.context 0).current = some t → (x.context 0).coordinator = some l →
      (x.link l).state = .opened → (x.transaction t).hint = some y →
      ∃ d fail, e.event = .sent l d (.discharge y fail) ∧
        (fail = false ↔ ending = .commit ∧ Unraised hooks)) : Ensues x ending info q hooks e := by
  exact ⟨fun hn => absurd hb hn, fun _ hd => absurd hd hs,
    fun _ _ lost => absurd (hf.symm.trans lost) Bool.false_ne_true,
    fun _ _ lost => absurd (hf.symm.trans lost) Bool.false_ne_true, fun t l y _ _ => h t l y⟩

/-- **What comes of it while the transaction is active,** if its link has not closed. -/
theorem discharge_leads (apart : own → Apart v.client q) (hv : Held own (Owes P) w v)
    (hp : ∀ hooks e, Ensues v.client ending info q hooks e → P hooks e) (hb : Bound info v.client)
    (hs : (v.client.context 0).stage ≠ .discharging) (hf : failed v.client = false)
    (hn : w.outside.moves.length < n) :
    Leads own Told w (Context.discharge h 0 ending q) v := by
  have ⟨t, ht, _⟩ := hb
  unfold Leads Context.discharge
  simp only [after_bind, Act.after_context, ht]
  cases hl : (v.client.context 0).coordinator with
  | none =>
    refine resolve_leads reliable apart (hv.mono fun ho => ho.mono fun hooks e _ => ?_) hn
    exact hp _ _ (.of_active hb hs hf fun _ _ _ _ hl' => by simp [hl] at hl')
  | some l =>
    have sent {hooks : List Entry} {e : Entry} (he : ∀ y, (v.client.link l).state = .opened →
        (v.client.transaction t).hint = some y → ∃ d fail, e.event = .sent l d (.discharge y fail) ∧
          (fail = false ↔ ending = .commit ∧ Unraised hooks)) : P hooks e := by
      refine hp _ _ (.of_active hb hs hf fun t' l' y ht' hl' => ?_)
      obtain rfl := Option.some.inj (ht.symm.trans ht')
      obtain rfl := Option.some.inj (hl.symm.trans hl')
      exact he y
    have later {commit : Bool} {called : List Entry} {u : State} {q' : Token Nat}
        (apart' : own → Apart u.client q')
        (hu : Held own (Owes fun hooks i => P (hooks ++ called) i) w u)
        (link : u.client.link l = v.client.link l)
        (transaction : u.client.transaction t = v.client.transaction t)
        (hc : (!commit) = false ↔ ending = .commit ∧ Unraised called) :
        Leads own Told w (Context.handOver h 0 t l commit q') u := by
      refine handOver_leads reliable apart' hu (fun y _ hy d x => sent fun y' _ hy' => ?_)
        (fun hc hooks e => sent fun y ho hy => ?_) hn
      · obtain rfl := Option.some.inj (hy.symm.trans (transaction ▸ hy'))
        exact ⟨d, !commit, rfl, hc⟩
      · rw [link, transaction] at hc
        exact absurd ((hc ho).symm.trans hy) (by simp)
    cases ending with
    | rollback =>
      simp only [after_bind, after_discard]
      refine (notify_leads reliable hv hn).mono ?_ fun _ _ => False.elim
      rintro _ u ⟨called, -, hu, client⟩
      exact later (fun o => client ▸ apart o) hu (by rw [client]) (by rw [client]) (by simp)
    | commit =>
      simp only [after_bind]
      refine (notify_leads reliable hv hn).mono ?_ fun _ _ => False.elim
      rintro failure u ⟨called, hc, hu, client⟩
      have unraised := hc.unraised_iff
      cases failure with
      | none =>
        exact later (fun o => client ▸ apart o) hu (by rw [client]) (by rw [client]) (by simp [unraised])
      | some f =>
        simp only [after_bind, after_discard]
        refine (notify_leads reliable hu hn).mono ?_ fun _ _ => False.elim
        rintro _ u' ⟨called', hc', hu', client'⟩
        simp only [Act.after_newCompletion]
        have client := client'.trans client
        have due : Held own (Owes fun hooks i => P (hooks ++ (called' ++ called)) i) w
            (u'.on (·.addCompletion)) := by
          refine hu'.onCompletion.mono fun ho => ho.mono fun hooks i hp => ?_
          rw [List.append_assoc]
          exact hp
        refine later (hu'.tracked.instead fun o => client ▸ apart o) due ?_ ?_ ?_
        · show u'.client.link l = _
          rw [client]
        · show u'.client.transaction t = _
          rw [client]
        · simp [hc'.unraised_append (by decide), unraised]

omit reliable in
theorem Ensues.of_failed {x : Client Nat} {hooks : List Entry} {e : Entry} (hb : Bound info x)
    (hs : (x.context 0).stage ≠ .discharging) (hf : failed x = true)
    (lost : ending = .rollback ∨ info.inDoubt = true →
      e.client.context 0 = (x.context 0).concluded ∧
      Tells x q (Context.answerUnbound ending true true) e)
    (doubted : ending = .commit → info.inDoubt = false → hooks = [] ∧ Untouched x e.client ∧ Tells x q
      (.failed (Problem.commitInDoubt (x.transaction info.transaction).id).toFailure) e) :
    Ensues x ending info q hooks e := by
  refine ⟨fun hn => absurd hb hn, fun _ hd => absurd hd hs, fun _ _ _ => lost, fun _ _ _ => doubted,
    fun t l y _ _ _ hl ho => ?_⟩
  rw [failed, hl, Option.any_some, decide_eq_true_eq] at hf
  exact absurd (ho.symm.trans hf) (by decide)

theorem abandon_leads (hq : q.Plain) (apart : own → Apart v.client q) (hv : Held own (Owes P) w v)
    (hp : ∀ hooks e, e.client.context 0 = (v.client.context 0).concluded → Tells v.client q r e →
      P hooks e) (hn : w.outside.moves.length < n) :
    Leads own Told w (do Context.abandon h 0; q.resolve h r) v := by
  obtain ⟨k, hk⟩ := hv.tracked.context
  unfold Leads Context.abandon
  simp only [after_bind, after_discard]
  refine (notify_leads reliable hv hn).mono ?_ fun _ _ => False.elim
  rintro _ u ⟨called, -, hu, client⟩
  refine (conclude_leads reliable hu hn).mono ?_ fun _ _ => False.elim
  rintro _ u' ⟨called', -, hu', client'⟩
  rw [client] at client'
  refine tell_leads reliable hq (fun o => client' ▸ (apart o).onContext) hu' (fun e untouched told => ?_)
    hn
  refine hp _ e ?_ ?_
  · have concluded : e.client.context 0 = (v.client.changeContext 0 (·.concluded)).context 0 := by
      rw [Client.context, untouched.contexts, client']
      rfl
    rw [concluded, Client.context_eq (Client.changeContext_same hk), Client.context_eq hk]
  · rw [client'] at told
    rcases told with he | ⟨raised, he⟩
    · exact .told he
    · exact .raised raised he

/-- **What comes of a commit or a rollback is what was due.** -/
theorem finish_leads (hq : q.Plain) (apart : own → Apart v.client q) (hv : Held own (Owes P) w v)
    (hp : ∀ hooks e, Ensues v.client ending info q hooks e → P hooks e)
    (hn : w.outside.moves.length < n) :
    Leads own Told w (Context.finish h 0 ending info q) v := by
  have bound : Bound info v.client ↔ _ := bound_iff
  unfold Leads Context.finish
  simp only [after_bind, Act.after_transaction, Act.after_currentId]
  split
  · next unbound =>
    have unbound : ¬ Bound info v.client := fun hb => unbound (bound.1 hb)
    refine tell_leads reliable hq apart hv (fun e untouched told => hp _ _ ?_) hn
    rw [Option.isSome_map] at told
    exact ⟨fun _ => ⟨rfl, untouched, told⟩, fun hb => absurd hb unbound,
      fun hb => absurd hb unbound, fun hb => absurd hb unbound, fun _ _ _ hb => absurd hb unbound⟩
  next hb =>
  have hb : Bound info v.client := bound.2 (Decidable.not_not.1 hb)
  simp only [after_bind, Act.after_context]
  split
  · next hd =>
    refine tell_leads reliable hq apart hv (fun e untouched told => hp _ _ ?_) hn
    exact ⟨fun hn => absurd hb hn, fun _ _ => ⟨rfl, untouched, told⟩,
      fun _ hs => absurd hd hs, fun _ hs => absurd hd hs, fun _ _ _ _ hs => absurd hd hs⟩
  next hs =>
  simp only [after_bind, Act.after_isFailed]
  split
  · next hf =>
    have failed : failed v.client = true := hf
    have abandoned (known : ending = .rollback ∨ info.inDoubt = true) : Leads own Told w (do
        Context.abandon h 0
        q.resolve h (Context.answerUnbound ending true true)) v := by
      refine abandon_leads reliable hq apart hv (fun hooks e hc told => hp hooks e (.of_failed hb hs
        failed (fun _ => ⟨hc, told⟩) fun commit unknown => ?_)) hn
      rcases known with rollback | doubt
      · cases commit.symm.trans rollback
      · exact absurd (unknown.symm.trans doubt) Bool.false_ne_true
    cases ending with
    | rollback => exact abandoned (.inl rfl)
    | commit =>
      simp only
      split
      · next doubt => exact abandoned (.inr doubt)
      · next doubt =>
        exact tell_leads reliable hq apart hv (fun e untouched told => hp _ _ (.of_failed hb hs failed
          (fun known => absurd (known.resolve_left fun e => by cases e) doubt)
          fun _ _ => ⟨rfl, untouched, told⟩)) hn
  · next hf => exact discharge_leads reliable apart hv hp hb hs (Bool.eq_false_iff.2 hf) hn

end Transact.Adversary
