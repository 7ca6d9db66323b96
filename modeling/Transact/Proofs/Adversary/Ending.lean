import Transact.Proofs.Adversary.Begin

/-! # Ending a transaction

A discharge is handed over once the enrolled consumers were called; an in-doubt transaction is ended
without one.

* `finish_keeps`: the invariant holds after a commit or a rollback.
* `finishAfter_keeps`, `settleSend_keeps`: the same where the end waits for outstanding sends. -/

namespace Transact.Adversary

open Run Player

variable {how : Manners} {n : Nat} {h : Surroundings} {p : Phase Nat} {co : Option Nat}
  {hand : List Nat} {w w' v : State} {q : Token Nat} {t l id : Nat} {y : TxnId} {commit : Bool}

/-- An active context has an open coordinator link, or its transaction is in doubt. -/
theorem Inv.active (hi : Inv how (.active t y) co hand w) :
    ∃ l k, co = some l ∧ w.client.links[l]? = some k ∧ k.state ≠ .building := by
  cases e : co with
  | none => exact absurd e (hi.tables.bound (by simp [Phase.bound]))
  | some l =>
    obtain ⟨-, k, hk, hb⟩ := hi.tables.coordinator l e
    exact ⟨l, k, rfl, hk, hb⟩

theorem Prepared.append {es : List Event} {x : Client Nat} {past : List Entry} (hp : Prepared past)
    (he : ∀ e ∈ es, ∃ consumer, e = .hooked consumer .preCommit none) :
    Prepared (es.map (⟨·, x⟩) ++ past) := by
  induction es with
  | nil => exact hp
  | cons e es ih =>
    obtain ⟨consumer, rfl⟩ := he e (by simp)
    exact .hooked (ih fun e hm => he e (by simp [hm]))

theorem Token.Known.instead {f : Failure} (legal : f.Legal) (hq : q.Known w.outside.history)
    (hi : Ids how.Tame p hand w.client w.outside.history) :
    (Token.instead w.client.completions.size f q).Known w.outside.history := by
  refine ⟨.instead legal hq.plain, fun i hm hh => ?_⟩
  rcases List.mem_cons.1 hm with rfl | hm
  · exact absurd (hi.handed_lt _ hh) (Nat.lt_irrefl _)
  · exact hq.handed i hm hh

theorem Token.Known.quietly (hq : q.Known w.outside.history) (hw : Quietly w w') :
    q.Known w'.outside.history :=
  ⟨hq.plain, hw.handed ▸ hq.handed⟩

theorem Ground.add (hi : Ground how p co hand w) :
    Ground how p co (w.client.completions.size :: hand) (w.on (·.addCompletion)) :=
  hi.step ((Quietly.refl w).on _) (hi.tables.congr rfl rfl rfl) hi.ids.add
    (hi.traffic.grow .addCompletion rfl rfl)


theorem Inv.add (hi : Inv how p co hand w) :
    Inv how p co (w.client.completions.size :: hand) (w.on (·.addCompletion)) :=
  ⟨hi.toGround.add, hi.steady ⟨rfl, rfl⟩ .addCompletion⟩

/-! ### What is refused -/

theorem bound_iff {info : TransactionRef} {x : Client Nat} : Bound info x ↔
    ((x.context 0).current.map fun t => (x.transaction t).id) =
      some (x.transaction info.transaction).id := by
  rw [Option.map_eq_some_iff]
  rfl

theorem answerUnbound_legal {ending : Ending} {bound : Bool} :
    (Context.answerUnbound ending true bound).Legal := by
  cases ending with
  | commit => exact Failure.Legal.failed nofun
  | rollback => exact nofun

theorem Refused.untouched {ending : Ending} {info : TransactionRef} {x x' : Client Nat}
    (h : Refused ending info x') (same : Untouched x x') : Refused ending info x := by
  have bound : Bound info x' ↔ Bound info x := same.bound_iff
  cases h with
  | unbound hb hd => exact .unbound (fun h => hb (bound.2 h)) hd
  | twice hb hs => exact .twice (bound.1 hb) (same.context ▸ hs)
  | doubted hb hs hf he hd =>
    exact .doubted (bound.1 hb) (same.context ▸ hs) (same.failed ▸ hf) he hd

variable (sound : Sound how n h)

include sound

theorem handOver_keeps {k : Link Nat} (hq : q.Known w.outside.history)
    (hi : Ground how (.active t y) (some l) q.ids w)
    (called : how.Civil → (course w.outside.history).Called w.client commit)
    (hk : w.client.links[l]? = some k) (ho : k.state = .opened)
    (hc : commit = true → Prepared w.outside.history) (hn : w.outside.moves.length < n) :
    Keeps how (.active t y) w (Context.handOver h 0 t l commit q) w := by
  have hl := hi.tables.link l k trivial hk
  obtain ⟨c, hc₀, hc'⟩ := hi.context
  have hint : (w.client.transaction t).hint = some y := hi.tables.hint t y rfl
  unfold Keeps Context.handOver Link.discharge
  simp only [after_bind, Act.after_modifyContext, Act.after_newCompletion, Act.after_transaction]
  obtain ⟨v, hv⟩ : ∃ v, v = (w.on (·.changeContext 0 fun x => { x with
    stage := .discharging })).on (·.addCompletion) := ⟨_, rfl⟩
  have hint' : (v.client.transaction t).hint = some y := by
    rw [hv]
    exact hint
  rw [← hv, hint']
  subst hv
  refine transmit_from sound
    (.discharging (some (l, k.nextDelivery)) t y w.client.completions.size commit q)
    (c := { c with stage := .discharging }) hi rfl rfl (fun _ e => by cases e)
    (fun i e => .inl (Option.some.inj e).symm) ?_ rfl rfl trivial (Client.changeContext_same hc₀)
    ⟨rfl, hc'.current, hc'.accepted, hc'.enrolled, hc'.coordinator⟩
    (fun t' y' e => ?_) ?_ trivial (fun x => hi.traffic.underway) ?_ ?_
    (fun civil x hx => ((called civil).congr ?_).discharges) hn
  · exact ⟨⟨k, hk, by simp [ho], rfl, rfl⟩, hk, ho, hl.opening, hl.pending, fun _ _ => rfl,
      Client.Grows.addCompletion.settled, rfl⟩
  · obtain ⟨rfl, rfl⟩ : t = t' ∧ y = y' := by simpa [Phase.bound] using e
    exact hint'
  · refine (hi.ids.add.takeUp [w.client.completions.size] rfl rfl rfl rfl hq.plain
      hq.handed (by simp) fun i hm => ?_).congr rfl rfl rfl rfl rfl rfl
    obtain rfl := List.mem_singleton.1 hm
    exact ⟨Client.pending_addCompletion.2 (.inr rfl),
      fun hm => Nat.lt_irrefl _ (hi.ids.handed_lt _ hm)⟩
  · intro y' fail e
    obtain ⟨l', d, hl', hd⟩ := hi.traffic.standing
    cases hl'
    cases e
    exact ⟨d, hd⟩
  · intro y' e
    refine hc ?_
    cases commit
    · cases e
    · rfl
  · have after : x.contexts[0]? = some { c with stage := .discharging } := by
      rw [hx]
      exact Client.changeContext_same hc₀
    rw [Client.context_eq after, Client.context_eq hc₀]

omit sound in
theorem Ground.remembered (hi : Ground how (.active t y) co hand w) : forgotten w.client = false := by
  obtain ⟨c, hc, hc'⟩ := hi.context
  rw [forgotten, Client.context_eq hc, hc'.current]
  rfl

omit sound in
theorem Inv.round {k : Hook} (hi : Inv how (.active t y) co hand w) (hk : k.isLast = false)
    (civil : how.Civil) :
    (w.client.context 0).registry.consumers.values.map (⟨k, ·, forgotten w.client⟩) =
      (course w.outside.history).round k := by
  rw [hi.remembered, ← hk]
  exact (hi.fits civil).1.values

/-- **The invariant holds after a discharge was asked for.** -/
theorem discharge_keeps {ending : Ending} {k : Link Nat} (hq : q.Known w.outside.history)
    (hi : Inv how (.active t y) (some l) q.ids w) (hk : w.client.links[l]? = some k)
    (ho : k.state = .opened) (hc : ending = .commit → Prepared w.outside.history)
    (hn : w.outside.moves.length < n) :
    Keeps how (.active t y) w (Context.discharge h 0 ending q) w := by
  obtain ⟨c, hc₀, hc'⟩ := hi.context
  have current : c.current = some t := hc'.current
  have coordinator : c.coordinator = some l := hc'.coordinator
  have later {w' : State} {commit : Bool} {q' : Token Nat} (hw : Quietly w w')
      (hg : w.client.Grows w'.client) (hk' : w'.client.links[l]? = some k)
      (hq' : q'.Known w'.outside.history) (hi' : Ground how (.active t y) (some l) q'.ids w')
      (called : how.Civil → (course w'.outside.history).Called w'.client commit)
      (hp : commit = true → Prepared w'.outside.history) :
      Keeps how (.active t y) w (Context.handOver h 0 t l commit q') w' :=
    (handOver_keeps sound hq' hi' called hk' ho hp (Nat.lt_of_le_of_lt hw.moves.length_le hn)).of
      (.on hg hw)
  have same {w' : State} (hcl : w'.client = w.client) : w.client.Grows w'.client :=
    .of_eq (by rw [hcl]) (by rw [hcl])
  unfold Keeps Context.discharge
  simp only [after_bind, Act.after_context, Client.context_eq hc₀, current, coordinator]
  cases ending with
  | rollback =>
    simp only [after_bind, after_discard]
    refine (notify_quietly sound (k := .preRollback) (fun e => by cases e) hi.alone hi.moves hn).mono ?_
      fun _ _ cut => cut.broken hi
    rintro _ w' ⟨hw, hcl, called⟩
    refine later hw (same hcl) (hcl ▸ hk) (Token.Known.quietly hq hw) (hi.toGround.quietly hw hcl)
      (fun civil => ?_) fun e => by cases e
    rw [called, hi.round rfl civil, hcl]
    exact (hi.fits civil).rollback
  | commit =>
    simp only [after_bind]
    refine (notify_rings sound hi.moves hn).mono ?_ fun _ _ cut => cut.broken hi
    rintro failure w' ⟨es, hes, rung, hr⟩
    have hw : Quietly w w' := hes.quietly hi.alone rung.quiet
    have prepared (civil : how.Civil) :
        course w'.outside.history = (course w.outside.history).prepared failure.isSome := by
      rw [hes.history, course_rung rung, hi.round rfl civil, hr]
      rfl
    have hi' := hi.toGround.quietly hw hes.client
    have hq' := Token.Known.quietly hq hw
    cases failure with
    | none =>
      refine later hw (same hes.client) (hes.client ▸ hk) hq' hi' (fun civil => ?_) fun _ => ?_
      · rw [prepared civil, hes.client]
        exact (hi.fits civil).commit
      · rw [hes.history]
        refine (hc rfl).append fun e hm => ?_
        obtain ⟨consumer, f, rfl, hf⟩ := (rung.raised hr).1 e hm
        exact ⟨consumer, by rw [hf rfl]⟩
    | some f =>
      simp only [after_bind, after_discard]
      refine (notify_quietly sound (k := .preRollback) (fun e => by cases e) hi'.alone hi'.moves
        (Nat.lt_of_le_of_lt hw.moves.length_le hn)).mono ?_
        fun _ _ cut => (cut.of hes rung.quiet).broken hi
      rintro _ w'' ⟨hw', hcl, called⟩
      have hi'' := hi'.quietly hw' hcl
      have client : w''.client = w.client := hcl.trans hes.client
      simp only [Act.after_newCompletion]
      have hk' : (w''.on (·.addCompletion)).client.links[l]? = some k := by
        show w''.client.links[l]? = some k
        rw [client]
        exact hk
      refine later ((hw.trans hw').on _) ((same client).trans .addCompletion) hk'
        (Token.Known.instead (fun e => by cases e) (Token.Known.quietly hq' hw') hi''.ids) hi''.add
        (fun civil => ?_) fun e => by cases e
      have unprepared : (course w''.outside.history).Called w''.client false := by
        rw [called, hes.client, hi.round rfl civil, prepared civil, client]
        exact (hi.fits civil).unprepared
      exact unprepared.congr rfl

omit sound in
theorem Inv.lapse {g : Context → Context} (hi : Inv how (.active t y) co hand w)
    (hg : ∀ k, ContextAt (.active t y : Phase Nat) co k → ContextAt (.idle : Phase Nat) co (g k))
    (hq : Quietly w v) (hc : v.client = w.client.changeContext 0 g)
    (rested : how.Civil → (course v.outside.history).Fits co v.client .idle) :
    Inv how .idle co hand v ∧ Since (.active t y) w .idle v := by
  obtain ⟨c, hcon, hc'⟩ := hi.context
  have grows : w.client.Grows v.client := .of_eq (by rw [hc]; rfl) (by rw [hc]; rfl)
  refine ⟨hi.step hq ?_ ?_ ?_ rested, .still hq.moves grows (fun _ e => by cases e) rfl⟩
  · refine hi.tables.relabel ⟨rfl, rfl⟩ ⟨rfl, rfl⟩ (k := g c) ?_ (hg c hc') ?_
      (fun _ _ e => by cases e) fun e => absurd rfl e
    · rw [hc]
      exact Client.changeContext_same hcon
    · rw [hc]
      rfl
  · exact hi.ids.congr rfl rfl (by rw [hc]; rfl) (by rw [hc]; rfl) rfl rfl
  · exact (hi.traffic.relabel .idle rfl trivial trivial).grow grows rfl rfl

/-- **An in-doubt transaction is forgotten,** and whoever asked for that is still at hand. -/
theorem abandon_after (hi : Inv how (.active t y) (some l) hand w) (hl : w.client.Closed l)
    (hn : w.outside.moves.length < n) :
    After (Context.abandon h 0) w
      (fun _ w' => Inv how .idle (some l) hand w' ∧ Since (.active t y) w .idle w')
      (Broken how (.active t y) w) := by
  unfold Context.abandon
  rw [after_bind, after_discard]
  refine (notify_quietly sound (k := .preRollback) (fun e => by cases e) hi.alone hi.moves hn).mono ?_
    fun _ _ cut => cut.broken hi
  rintro _ v ⟨hv, hcl, called⟩
  have hi' := hi.toGround.quietly hv hcl
  refine (conclude_after sound hi'.alone hi'.moves (Nat.lt_of_le_of_lt hv.moves.length_le hn)).mono ?_ ?_
  · rintro _ w' ⟨hw, hcl', concluded⟩
    rw [hcl] at hcl' concluded
    refine hi.lapse (fun k hk => hk.concluded) (hv.trans hw) hcl' fun civil => ?_
    have last : (w.client.context 0).registry.consumers.values.map (⟨.postRollback, ·, true⟩) =
        (course w.outside.history).round .postRollback := (hi.fits civil).1.values
    have closed : w'.client.Closed l := hcl' ▸ hl
    rw [concluded, called, hi.round rfl civil]
    refine last ▸ (hi.fits civil).abandons closed ?_
    rw [hcl', Client.context_changeContext rfl]
    rfl
  · intro e w' cut
    have strange : ¬ how.Tame := fun tame => cut.wild tame.civil
    have client : w'.client = w.client.changeContext 0 (·.cleared) := cut.client.trans (by rw [← hcl]; rfl)
    obtain ⟨idle, since⟩ := hi.lapse (fun k hk => hk.cleared)
      (.trans (hv.on _) (cut.quietly hi'.alone)) client fun civil => absurd civil cut.wild
    exact ⟨strange, cut.raised, .idle, some l, fun _ => trivial, idle.drop strange, since⟩

/-- **The invariant holds after a commit or a rollback.** -/
theorem finish_keeps {ending : Ending} {info : TransactionRef} (hq : q.Known w.outside.history)
    (hf : how.Civil → p.Firm) (hi : Inv how p co q.ids w)
    (hc : ending = .commit → Prepared w.outside.history)
    (blame : Refused ending info w.client →
      ∃ e earlier, w.outside.history = e :: earlier ∧ e.Refuses q.completion)
    (hn : w.outside.moves.length < n) :
    Keeps how p w (Context.finish h 0 ending info q) w := by
  obtain ⟨c, hc₀, hc'⟩ := hi.context
  have answer {r : Resolution Unit} (hr : r.Legal ∨ Refused ending info w.client) :
      Keeps how p w (q.resolve h r) w :=
    resolve_plain sound hq.plain hf hi (hr.imp hq.plain.legal blame) hn
  have bound : Bound info w.client ↔ _ := bound_iff
  unfold Keeps Context.finish
  simp only [after_bind, Act.after_transaction, Act.after_currentId]
  split
  · next unbound =>
    refine answer ?_
    cases hd : info.inDoubt with
    | true => exact .inl answerUnbound_legal
    | false => exact .inr (.unbound (fun hb => unbound (bound.1 hb)) hd)
  next current =>
  have hb : Bound info w.client := bound.2 (Decidable.not_not.1 current)
  simp only [after_bind, Act.after_context]
  by_cases stage : (w.client.context 0).stage = .discharging
  · rw [if_pos stage]
    exact answer (.inr (.twice hb stage))
  rw [if_neg stage]
  -- What is bound and not being discharged is active.
  obtain ⟨t, y, rfl⟩ : ∃ t y, p = .active t y := by
    obtain ⟨t, ht, -⟩ := hb
    rw [Client.context_eq hc₀, hc'.current] at ht
    rw [Client.context_eq hc₀, hc'.stage] at stage
    cases p with
    | active t y => exact ⟨t, y, rfl⟩
    | discharging => exact absurd rfl stage
    | _ => cases ht
  obtain ⟨l, k, rfl, hk, building⟩ := hi.active
  have closed : failed w.client = true ↔ k.state = .closed := by
    rw [failed, Client.context_eq hc₀, hc'.coordinator, Option.any_some, Client.link_eq hk,
      decide_eq_true_eq]
  simp only [after_bind, Act.after_isFailed]
  split
  · next lost =>
    have abandoned {r : Resolution Unit} (legal : r.Legal) : Keeps how (.active t y) w
        (do Context.abandon h 0; q.resolve h r) w := by
      unfold Keeps
      rw [after_bind]
      refine (abandon_after sound hi ⟨k, hk, closed.1 lost⟩ hn).mono ?_ fun _ _ broken => broken
      rintro _ w' ⟨hi', hs⟩
      have told : Keeps how .idle w' (q.resolve h r) w' :=
        resolve_plain sound hq.plain (fun _ => trivial) hi' (.inl (hq.plain.legal legal))
          (Nat.lt_of_le_of_lt hs.moves.length_le hn)
      exact told.of hs
    cases ending with
    | rollback => exact abandoned (fun _ e => by cases e)
    | commit =>
      simp only
      split
      · exact abandoned (Failure.Legal.failed (fun e => by cases e))
      · next doubt =>
        exact answer (.inr (.doubted hb stage lost rfl (Bool.eq_false_iff.2 doubt)))
  · next usable =>
    have ho : k.state = .opened := by
      cases hs : k.state with
      | building => exact absurd hs building
      | opened => rfl
      | closed => exact absurd (closed.2 hs) usable
    exact discharge_keeps sound hq hi hk ho hc hn

/-! ### Aggregated sends -/

omit sound in
theorem commit_of_settle {a sends : Aggregation} {failure : Option Failure}
    {r : Except Problem (Option Decision)} (hs : a.settle failure = (sends, r)) :
    (sends.commit = true → a.commit = true) ∧
      ∀ d, r = .ok (some d) → d.commit = true → failure = none ∧ a.commit = true := by
  have noted : (a.note failure).commit = true → failure = none ∧ a.commit = true := by
    cases failure with
    | none => exact fun e => ⟨rfl, e⟩
    | some f => exact fun e => Bool.noConfusion e
  unfold Aggregation.settle at hs
  simp only at hs
  split at hs
  · cases hs
    exact ⟨fun e => (noted e).2, fun d e => by cases e⟩
  · cases hs
    refine ⟨fun e => (noted e).2, fun d e hd => ?_⟩
    split at e <;> cases e
    exact noted hd

/-- **An aggregate ends its transaction.** -/
theorem decide_keeps {a : Aggregate Nat} {d : Decision} (wild : ¬ how.Tame)
    (ho : Owned w.outside.history a) (hf : how.Civil → p.Firm) (hi : Inv how p co [] w)
    (hc : d.commit = true → Prepared w.outside.history)
    (blame : ∀ ending, Refused ending { a.info with
        inDoubt := a.info.inDoubt || failed w.client } w.client →
      ∃ e earlier, w.outside.history = e :: earlier ∧ e.Refuses a.request.completion)
    (hn : w.outside.moves.length < n) :
    Keeps how p w (Context.decide h a d) w := by
  obtain ⟨id, hid, hr⟩ := ho.request
  have hi' : Inv how p co [id] w :=
    ⟨⟨hi.tables, hi.ids.pick wild hid, hi.traffic, hi.lawful, hi.founded, hi.moves⟩, hi.fits⟩
  have known : (Token.client id id).Known w.outside.history :=
    ⟨.client, fun i hm _ => List.mem_singleton.1 hm⟩
  rw [hr] at blame
  unfold Keeps Context.decide
  simp only [after_bind, ho.context, hr, Act.after_isFailed]
  split
  · simp only [after_bind, Act.after_newCompletion]
    refine Keeps.of (w := w.on (·.addCompletion)) ?_
      (.on .addCompletion ((Quietly.refl w).on (·.addCompletion)))
    have legal : (Problem.sendFailed.toFailure d.earliestFailure).Legal := fun e => by cases e
    exact finish_keeps sound (Token.Known.instead legal known hi'.ids) hf hi'.add (fun e => by cases e)
      (fun refused => blame _ (refused.untouched ⟨rfl, rfl, rfl⟩)) hn
  · refine finish_keeps sound known hf hi' (fun e => hc ?_) (blame _) hn
    cases hd : d.commit
    · simp [hd, Context.endingFor] at e
    · rfl

/-- **The invariant holds after an aggregate was made.** -/
theorem finishAfter_keeps {info : TransactionRef} {pending : Number} (wild : ¬ how.Tame)
    (hf : how.Civil → p.Firm) (hi : Inv how p co [id] w) (hid : id ∈ handed w.outside.history)
    (hc : commit = true → Prepared w.outside.history)
    (blame : Refused (Context.endingFor commit) info w.client →
      ∃ e earlier, w.outside.history = e :: earlier ∧ e.Refuses id)
    (hn : w.outside.moves.length < n) :
    Keeps how p w
      (discard (Context.finishAfter h 0 info pending (.client id id) commit)) w := by
  unfold Keeps
  rw [after_discard]
  unfold Context.finishAfter
  cases hs : Aggregation.ofSends pending commit with
  | error g => exact ⟨wild, ⟨_, rfl⟩, p, co, hf, hi.drop wild, .refl⟩
  | ok sends =>
    have hcommit : sends.commit = commit := by
      unfold Aggregation.ofSends at hs
      split at hs <;> cases hs
      rfl
    obtain ⟨v, hv⟩ : ∃ v, v = w.on (·.addAggregate
      { sends, context := 0, info, commit, request := .client id id }) := ⟨_, rfl⟩
    have quiet : Quietly w v := hv ▸ (Quietly.refl w).on _
    have grows : w.client.Grows v.client := hv ▸ .of_eq rfl rfl
    have hi' : Inv how p co [id] v := by
      subst hv
      exact hi.step quiet (hi.tables.congr rfl rfl rfl)
        (hi.ids.addAggregate ⟨rfl, ⟨id, hid, rfl⟩, fun e => hcommit ▸ e⟩)
        (hi.traffic.grow grows rfl rfl) (hi.steady ⟨rfl, rfl⟩ grows)
    simp only [after_bind, Act.after_newAggregate, ← hv]
    split
    · rw [after_bind]
      have known : (Token.client id id).Known v.outside.history :=
        ⟨.client, fun i hm _ => List.mem_singleton.1 hm⟩
      refine ((finish_keeps sound known hf hi' (fun e => ?_) (fun refused => ?_) (hv ▸ hn)).of
        (.on grows quiet)).mono (fun _ _ hk => hk) fun _ _ hb => hb
      · rw [hv]
        refine hc ?_
        cases commit
        · cases e
        · rfl
      · rw [hv] at refused ⊢
        exact blame (refused.untouched ⟨rfl, rfl, rfl⟩)
    · exact ⟨p, co, hf, hi'.drop wild, .on grows quiet⟩

/-- **The invariant holds after a send of an aggregate was settled.** -/
theorem settleSend_keeps {a : Nat} {failure : Option Failure} (wild : ¬ how.Tame)
    (hf : how.Civil → p.Firm) (hi : Inv how p co [] w)
    (hc : ∀ aggregate, w.client.aggregates[a]? = some aggregate → failure = none →
      aggregate.commit = true → aggregate.sends.commit = true → Prepared w.outside.history)
    (asked : ∃ earlier, w.outside.history =
      ⟨.signalled (.settleSend a failure), w.client⟩ :: earlier)
    (hn : w.outside.moves.length < n) :
    Keeps how p w (Context.settleSend h a failure) w := by
  unfold Keeps Context.settleSend
  simp only [after_bind, Act.after_client]
  cases ha : w.client.aggregates[a]? with
  | none => exact ⟨p, co, hf, hi, .refl⟩
  | some aggregate =>
    have ho := hi.ids.aggregates aggregate (Array.mem_of_getElem? ha)
    obtain ⟨⟨sends, result⟩, hs⟩ : ∃ s, s = aggregate.sends.settle failure := ⟨_, rfl⟩
    obtain ⟨hcommit, hdecided⟩ := commit_of_settle hs.symm
    obtain ⟨v, hv⟩ : ∃ v, v = w.on (·.changeAggregate a sends) := ⟨_, rfl⟩
    have quiet : Quietly w v := hv ▸ (Quietly.refl w).on _
    have grows : w.client.Grows v.client := hv ▸ .of_eq rfl rfl
    have hi' : Inv how p co [] v := by
      subst hv
      exact hi.step quiet (hi.tables.congr rfl rfl rfl) (hi.ids.changeAggregate ha hcommit)
        (hi.traffic.grow grows rfl rfl) (hi.steady ⟨rfl, rfl⟩ grows)
    have changed : After (Act.modifyClient fun x => { x with
        aggregates := x.aggregates.modify a fun entry => { entry with sends } } : Play Unit) w
        (fun _ w' => w' = v) fun _ _ => False := hv.symm
    simp only [← hs, after_bind]
    refine changed.mono ?_ fun _ _ => False.elim
    rintro _ _ rfl
    rcases result with g | _ | d
    · exact ⟨wild, ⟨_, rfl⟩, p, co, hf, hi', .on grows quiet⟩
    · exact ⟨p, co, hf, hi', .on grows quiet⟩
    · refine (decide_keeps sound wild (hv ▸ ho) hf hi' (fun e => ?_) (fun ending refused => ?_)
        (hv ▸ hn)).of (.on grows quiet)
      · obtain ⟨hfail, hcom⟩ := hdecided d rfl e
        rw [hv]
        exact hc aggregate ha hfail (ho.commit hcom) hcom
      · obtain ⟨earlier, past⟩ := asked
        rw [hv] at refused ⊢
        exact ⟨_, earlier, past, aggregate, ending, ha, rfl, refused.untouched ⟨rfl, rfl, rfl⟩⟩

end Transact.Adversary
