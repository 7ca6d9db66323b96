import Transact.Proofs.Adversary.Invariant

/-! # Telling how something ended

Each token is told in some phase, and leads to another one.

* `resolve_plain`: a request that has been taken up.
* `notify_rings`, `conclude_after`: the hooks of enrolled consumers.
* `tell`: whoever waits for an exchange that was taken out. -/

namespace Transact.Adversary

open Run Player

variable {how : Manners} {n : Nat} {h : Surroundings} {p p' p₀ : Phase Nat} {co : Option Nat}
  {hand : List Nat} {w w' w₀ : State} {id : Nat} {r : Resolution Unit} {q : Token Nat} {f : Failure}

/-! ### Steps of the invariant -/

theorem Since.on (hg : w.client.Grows w'.client) (hq : Quietly w w') : Since p w p w' :=
  .same hq.moves hg

theorem Inv.settle (hi : Inv how p co (id :: hand) w) :
    Inv how p co hand (w.on (·.write id (.settled r))) :=
  hi.step ((Quietly.refl w).on _) (hi.tables.congr rfl rfl rfl) hi.ids.settle
    (hi.traffic.grow .write rfl rfl) (hi.steady ⟨rfl, rfl⟩ .write)

theorem Inv.drop (ht : ¬ how.Tame) (hi : Inv how p co hand w) : Inv how p co [] w :=
  ⟨⟨hi.tables, hi.ids.drop ht, hi.traffic, hi.lawful, hi.founded, hi.moves⟩, hi.fits⟩

theorem Ground.context (hi : Ground how p co hand w) :
    ∃ k, w.client.contexts[0]? = some k ∧ ContextAt p co k :=
  hi.tables.context

theorem Inv.usable (hi : Inv how p co hand w) :
    (∃ l k, co = some l ∧ w.client.links[l]? = some k ∧ k.state = .opened) ∨
      ∀ i, co = some i → w.client.Closed i := by
  cases co with
  | none => exact .inr fun i e => by cases e
  | some l =>
    obtain ⟨-, k, hk, hb⟩ := hi.tables.coordinator l rfl
    cases hs : k.state with
    | building => exact absurd hs hb
    | opened => exact .inl ⟨l, k, rfl, hk, hs⟩
    | closed =>
      refine .inr fun i e => ?_
      obtain rfl := Option.some.inj e
      exact ⟨k, hk, hs⟩

theorem Ground.alone (hi : Ground how p co hand w) : Alone w.client := alone_of_at hi.tables

/-- The operation is over, and whoever asked for it is at hand. -/
theorem Inv.forget (hi : Inv how p co [] w) (hp : p.Still) (hm : id ∈ p.lead)
    (hr : p.request = some q) {g : Context → Context}
    (hg : ∀ k, ContextAt p co k → ContextAt (.idle : Phase Nat) co (g k)) (hq : Quietly w w')
    (hc : w'.client = (w.client.write id (.settled r)).changeContext 0 g)
    (rested : how.Civil → (course w'.outside.history).Fits co w'.client .idle) :
    Inv how .idle co q.ids w' := by
  obtain ⟨k, hk, hk'⟩ := hi.tables.context
  refine hi.step hq ?_ ?_ ?_ rested
  · refine hi.tables.relabel hp ⟨rfl, rfl⟩ (k := g k) ?_ (hg k hk') ?_ ?_ ?_
    · rw [hc]
      exact Client.changeContext_same hk
    · rw [hc]
      rfl
    · intro t y e
      cases e
    · intro e
      exact absurd rfl e
  · rw [hc]
    exact (hi.ids.finish hm hr rfl rfl).congr rfl rfl rfl rfl rfl rfl
  · have idle : Traffic .idle co w.client w.outside.history :=
      hi.traffic.relabel _ hp.2 trivial trivial
    refine idle.grow ?_ rfl rfl
    rw [hc]
    exact .trans .write (.of_eq rfl rfl)

theorem Ground.takeOut {l d : Nat} {a : Answer} {E : Event} (hi : Ground how p co [] w)
    (hs : p.slot = some (l, d))
    (ha : Answered l d a w.outside.history (⟨E, w.client⟩ :: w.outside.history)) (hm : E.Mute) :
    Ground how p.loose co [] ((noting E w).on (·.changeLink l fun k => { k with
      pending := k.pending.filter (·.1 ≠ d) })) := by
  obtain ⟨-, k, hk, -, -⟩ := hi.tables.slot l d hs
  have grows : w.client.Grows (w.client.changeLink l fun k => { k with
      pending := k.pending.filter (·.1 ≠ d) }) :=
    .changeLink (fun _ e => e) fun _ => Nat.le_refl _
  refine ⟨?_, ?_, hi.traffic.takeOut grows ha hs, ?_,
    .cons (.mute hm) hi.founded, hi.moves⟩
  · exact hi.tables.takeOut hs ⟨hk, Client.changeLink_same hk, fun i => Client.changeLink_other⟩
      rfl rfl rfl
  · exact hi.ids.congr Phase.loose_lead Phase.loose_request rfl rfl ha.handed ha.resolved
  · exact .cons (good_of_mute hm hi.alone) hi.lawful

theorem Inv.takeOut {l d : Nat} {a : Answer} {E : Event} (hi : Inv how p co [] w)
    (hs : p.slot = some (l, d))
    (ha : Answered l d a w.outside.history (⟨E, w.client⟩ :: w.outside.history)) (hm : E.Mute)
    (same : course (⟨E, w.client⟩ :: w.outside.history) = course w.outside.history) :
    Inv how p.loose co [] ((noting E w).on (·.changeLink l fun k => { k with
      pending := k.pending.filter (·.1 ≠ d) })) := by
  refine ⟨hi.toGround.takeOut hs ha hm, fun civil => ?_⟩
  show (course (⟨E, w.client⟩ :: w.outside.history)).Fits _ _ _
  rw [same]
  refine .loose ((hi.fits civil).congr rfl fun _ => Client.Grows.closed ?_)
  exact .changeLink (fun _ e => e) fun _ => Nat.le_refl _

/-- An answer to something that is not outstanding changes nothing. -/
theorem Inv.other {l d : Nat} {a : Answer} {E : Event} (hi : Inv how p co [] w)
    (hs : p.slot ≠ some (l, d))
    (ha : Answered l d a w.outside.history (⟨E, w.client⟩ :: w.outside.history)) (hm : E.Mute)
    (same : course (⟨E, w.client⟩ :: w.outside.history) = course w.outside.history) :
    Inv how p co [] (noting E w) :=
  ⟨⟨hi.tables, hi.ids.congr rfl rfl rfl rfl ha.handed ha.resolved, hi.traffic.other ha hs,
    .cons (good_of_mute hm hi.alone) hi.lawful, .cons (.mute hm) hi.founded, hi.moves⟩,
    hi.steady ⟨same, rfl⟩ (.refl _)⟩

/-! ### Requests -/

variable (sound : Sound how n h)

/-- A completion at hand is settled, or where handlers may raise it has been settled before. -/
theorem settle_keeps {k : Unit → Play Unit} (hf : how.Civil → p.Firm)
    (hi : Inv how p co (id :: hand) w)
    (hk : w.client.Pending id → Inv how p co hand (w.on (·.write id (.settled r))) →
      Keeps how p (w.on (·.write id (.settled r))) (k ()) (w.on (·.write id (.settled r)))) :
    Keeps how p w (Act.settle id r >>= k) w := by
  rcases Client.pending_or_settled (hi.ids.hand_own id (by simp)).1 with hp | hs
  · unfold Keeps
    rw [after_bind, Act.after_settle hp]
    exact (hk hp hi.settle).of (.on .write ((Quietly.refl w).on _))
  · have wild : ¬ how.Tame := fun t => (hi.ids.pending t id (by simp)).not_settled hs
    obtain ⟨_, e⟩ := Act.after_settle_settled (r := r) hs
    unfold Keeps
    rw [after_bind, e]
    exact ⟨wild, ⟨_, rfl⟩, p, co, hf, hi.drop wild, .refl⟩

include sound

/-- **A request that was taken up is told how it ended.** Where handlers may raise it may have been
told before. -/
theorem resolve_plain (hq : q.Plain) (hf : how.Civil → p.Firm) (hi : Inv how p co q.ids w)
    (hb : Blamed q.completion (q.outcome r) w.outside.history) (hn : w.outside.moves.length < n) :
    Keeps how p w (q.resolve h r) w := by
  induction hq generalizing w r with
  | @client id =>
    refine settle_keeps hf hi fun hp hi' => ?_
    refine sound.resume id r hf hi' hn (Client.settled_write hp.lt) (fun hm => ?_) hb
    exact hp.not_settled (hi.ids.resolved_settled id hm)
  | instead _ _ ih => exact settle_keeps hf hi fun _ hi' => ih hi' hb hn

/-! ### Hooks -/

omit sound in
theorem after_first {failure : Option Failure} (hf : how.Civil → f.isReportable) :
    After (Run.first failure f) w (fun _ w' => w' = w)
      fun e w' => w' = w ∧ ¬ how.Civil ∧ ∃ g, e = .raised g := by
  cases failure with
  | some g => exact rfl
  | none =>
    rw [first_none, after_convert]
    cases e : f.toReport? with
    | some g => exact rfl
    | none => exact ⟨rfl, fun civil => by simpa [Failure.isReportable, e] using hf civil, _, rfl⟩

/-- A hook is called on every consumer, whichever of them raise what can be reported. A failure is
returned if one has. -/
theorem notifyEach_after {k : Hook} {failure : Option Failure} {consumers : List Nat}
    (hm : ∀ m ∈ w.outside.moves, how.Allows m) (hn : w.outside.moves.length < n) :
    After (Context.notifyEach h k failure consumers) w (fun failure' w' => ∃ es, Noted es w w' ∧
      Rung k consumers es ∧ failure'.isSome = (failure.isSome || es.any (·.fails))) (Cut how w) := by
  induction consumers generalizing w failure with
  | nil => exact ⟨[], ⟨rfl, List.suffix_refl _, rfl⟩, .nil, by simp⟩
  | cons consumer rest ih =>
    have later {failure' f : Option Failure} {w' : State} (hw : Noted [.hooked consumer k f] w w')
        (hf : failure'.isSome = (failure.isSome || f.isSome)) :
        After (Context.notifyEach h k failure' rest) w' (fun failure' w'' => ∃ es, Noted es w w'' ∧
          Rung k (consumer :: rest) es ∧ failure'.isSome = (failure.isSome || es.any (·.fails)))
          (Cut how w) := by
      refine (ih (fun m hm' => hm m (hw.moves.subset hm'))
        (Nat.lt_of_le_of_lt hw.moves.length_le hn)).mono ?_ fun _ _ cut =>
        cut.of hw (List.forall_mem_singleton.2 ⟨trivial, trivial⟩)
      rintro failure'' w'' ⟨es, hes, rung, hr⟩
      exact ⟨_, hw.trans hes, rung.cons f, by simp [hr, hf, Bool.or_assoc, Bool.or_comm f.isSome]⟩
    simp only [Context.notifyEach, after_bind, after_attempt]
    refine (sound.hook w consumer k hm hn).mono (fun _ w' hw => later hw (by simp)) ?_
    rintro _ w' ⟨f, rfl, hf, hw⟩
    refine (after_first hf).mono ?_ ?_
    · rintro g _ rfl
      exact later hw (by simp)
    · rintro e _ ⟨rfl, wild, raised⟩
      exact ⟨wild, raised, _, hw, List.forall_mem_singleton.2 ⟨trivial, trivial⟩⟩

theorem notify_rings {c : Nat} {k : Hook} (hm : ∀ m ∈ w.outside.moves, how.Allows m)
    (hn : w.outside.moves.length < n) :
    After (Context.notify h c k) w (fun failure w' => ∃ es, Noted es w w' ∧
      Rung k (w.client.context c).registry.consumers.values es ∧
      failure.isSome = es.any (·.fails)) (Cut how w) := by
  simp only [Context.notify, after_bind, Act.after_context]
  refine (notifyEach_after sound hm hn).mono ?_ fun _ _ => id
  rintro failure w' ⟨es, hes, rung, hr⟩
  exact ⟨es, hes, rung, by simpa using hr⟩

omit sound in
theorem Rung.raised {k : Hook} {ns : List Nat} {es : List Event} {failure : Option Failure}
    (rung : Rung k ns es) (hr : failure.isSome = es.any (·.fails)) :
    (∀ e ∈ es, ∃ consumer f, e = .hooked consumer k f ∧ (failure = none → f = none)) ∧
      (failure ≠ none → ∃ consumer f, Event.hooked consumer k (some f) ∈ es) := by
  refine ⟨fun e he => ?_, fun hf => ?_⟩
  · obtain ⟨consumer, f, rfl⟩ := rung.hooked he
    refine ⟨consumer, f, rfl, fun hf => ?_⟩
    have quiet : es.any (·.fails) = false := by rw [← hr, hf]; rfl
    simpa using List.any_eq_false.1 quiet _ he
  · obtain ⟨e, he, fails⟩ := List.any_eq_true.1 (hr.symm.trans (Option.isSome_iff_ne_none.2 hf))
    obtain ⟨consumer, f, rfl⟩ := rung.hooked he
    rw [Event.fails_hooked] at fails
    obtain ⟨f, rfl⟩ := Option.isSome_iff_exists.1 fails
    exact ⟨consumer, f, he⟩

/-- Enrolled consumers can do no more than raise, and a failure that is returned was raised by one of
them. -/
theorem notify_after {c : Nat} {k : Hook} (hm : ∀ m ∈ w.outside.moves, how.Allows m)
    (hn : w.outside.moves.length < n) :
    After (Context.notify h c k) w (fun failure w' => ∃ es, Noted es w w' ∧
      (∀ e ∈ es, ∃ consumer f, e = .hooked consumer k f ∧ (failure = none → f = none)) ∧
      (failure ≠ none → ∃ consumer f, Event.hooked consumer k (some f) ∈ es)) (Cut how w) := by
  refine (notify_rings sound hm hn).mono ?_ fun _ _ => id
  rintro failure w' ⟨es, hes, rung, hr⟩
  exact ⟨es, hes, rung.raised hr⟩

omit sound in
theorem Rung.quiet {k : Hook} {ns : List Nat} {es : List Event} (rung : Rung k ns es) :
    ∀ e ∈ es, e.Quiet ∧ e.Mute := by
  intro e he
  obtain ⟨_, _, rfl⟩ := rung.hooked he
  exact ⟨trivial, trivial⟩

omit sound in
/-- A round that is cut short leaves the tables as they were. -/
theorem Cut.broken {e : Halt} (cut : Cut how w e w') (hi : Inv how p co hand w) :
    Broken how p w e w' := by
  have strange : ¬ how.Tame := fun tame => cut.wild tame.civil
  have quiet := cut.quietly hi.alone
  have same : Inv how p co hand w' :=
    ⟨hi.toGround.quietly quiet cut.client, fun civil => absurd civil cut.wild⟩
  exact ⟨strange, cut.raised, p, co, fun civil => absurd civil cut.wild, same.drop strange,
    .on (cut.client ▸ .refl _) quiet⟩

theorem notify_quietly {c : Nat} {k : Hook} (hk : k ≠ .preCommit) (ha : Alone w.client)
    (hm : ∀ m ∈ w.outside.moves, how.Allows m) (hn : w.outside.moves.length < n) :
    After (Context.notify h c k) w (fun _ w' => Quietly w w' ∧ w'.client = w.client ∧
      course w'.outside.history = (course w.outside.history).add
        ((w.client.context c).registry.consumers.values.map (⟨k, ·, forgotten w.client⟩)))
      (Cut how w) := by
  refine (notify_rings sound hm hn).mono ?_ fun _ _ => id
  rintro _ w' ⟨es, hes, rung, -⟩
  refine ⟨hes.quietly ha rung.quiet, hes.client, ?_⟩
  rw [hes.history, course_rung_of_ne rung hk]

/-- The last hooks are called once nothing names the transaction any more. Who is enrolled stays so if
they are cut short. -/
theorem conclude_after {commit : Bool} (ha : Alone w.client)
    (hm : ∀ m ∈ w.outside.moves, how.Allows m) (hn : w.outside.moves.length < n) :
    After (Context.conclude h 0 commit) w
      (fun _ w' => Quietly w w' ∧ w'.client = w.client.changeContext 0 (·.concluded) ∧
        course w'.outside.history = (course w.outside.history).add
          ((w.client.context 0).registry.consumers.values.map
            (⟨if commit then .postCommit else .postRollback, ·, true⟩)))
      (Cut how (w.on (·.changeContext 0 (·.cleared)))) := by
  simp only [Context.conclude, after_bind, Act.after_reset, after_discard, Act.after_modifyContext]
  obtain ⟨v, hv⟩ : ∃ v, v = w.on (·.changeContext 0 (·.cleared)) := ⟨_, rfl⟩
  have cleared : v.client.context 0 = (w.client.context 0).cleared := by
    rw [hv]
    exact Client.context_changeContext rfl
  have last : forgotten v.client = true := by
    rw [forgotten, cleared]
    rfl
  have enrolled : (v.client.context 0).registry = (w.client.context 0).registry :=
    congrArg (·.registry) cleared
  have hooks : After (Context.notify h 0 (if commit then .postCommit else .postRollback)) v _ _ :=
    notify_quietly sound (by cases commit <;> decide) (hv ▸ ha) (hv ▸ hm) (hv ▸ hn)
  rw [← hv]
  refine hooks.mono ?_ fun _ _ => id
  rintro _ w' ⟨hq, hc, called⟩
  rw [last, enrolled] at called
  subst hv
  refine ⟨.trans ((Quietly.refl w).on _) (hq.on _), ?_, called⟩
  show w'.client.changeContext 0 _ = _
  rw [hc]
  exact Client.changeContext_changeContext

/-! ### Operations -/

section Over

variable (id : Nat) (g : Context → Context) {v : State} (hi : Inv how p co [] w)
  (hp : p.Still) (hm : id ∈ p.lead) (ht : ∀ i, p.ticket = some i → i = id)
  (hr : p.request = some q)
  (hg : ∀ k, ContextAt p co k → ContextAt (.idle : Phase Nat) co (g k)) (hq : Quietly w v)
  (hc : v.client = (w.client.write id (.settled r)).changeContext 0 g)

include hi hm ht hq hc

omit sound in
theorem over_since : Since p w .idle v := by
  refine .still hq.moves ?_ (fun i e => ?_) rfl
  · rw [hc]
    exact .trans .write (.of_eq rfl rfl)
  · rw [ht i e, hc]
    exact Client.settled_write (hi.ids.lead id hm).1.lt

include hp hr hg

/-- An operation with nothing outstanding is over once its completion is settled and the context has
been reset. -/
theorem over_keeps (rested : how.Civil → (course v.outside.history).Fits co v.client .idle)
    {r' : Resolution Unit} (legal : r'.Legal) (hn : w.outside.moves.length < n) :
    Keeps how p w (q.resolve h r') v := by
  have plain := (hi.ids.request q hr).1
  have told : Keeps how .idle v (q.resolve h r') v :=
    resolve_plain sound plain (fun _ => trivial) (hi.forget hp hm hr hg hq hc rested)
      (.inl (plain.legal legal)) (Nat.lt_of_le_of_lt hq.moves.length_le hn)
  exact told.of (over_since id g hi hm ht hq hc)

omit sound in
theorem over_broken {e : Halt} (wild : ¬ how.Civil) (raised : ∃ f, e = .raised f) :
    Broken how p w e v := by
  have strange : ¬ how.Tame := fun tame => wild tame.civil
  have idle : Inv how .idle co q.ids v := hi.forget hp hm hr hg hq hc fun civil => absurd civil wild
  exact ⟨strange, raised, .idle, co, fun _ => trivial, idle.drop strange,
    over_since id g hi hm ht hq hc⟩

end Over

omit sound in
/-- Who is enrolled stays so when the transaction is forgotten. -/
theorem registry_cleared {x x' : Client Nat}
    (hx : x' = (x.write id (.settled r)).changeContext 0 (·.cleared))
    (hr : (x.context 0).registry = {}) : (x'.context 0).registry = {} := by
  rw [hx, Client.context_changeContext rfl]
  exact hr

theorem resolve_opening {t l openId declareId : Nat} {next : Token Nat}
    (hi : Inv how (.opening none t openId declareId q) co [] w) (legal : f.Legal)
    (hn : w.outside.moves.length < n) :
    Keeps how (.opening none t openId declareId q) w
      ((Token.opening openId 0 t l next q).resolve h (.failed f)) w := by
  have pending := (hi.ids.lead openId (by simp [Phase.lead])).1
  unfold Keeps Token.resolve
  rw [after_bind, Act.after_settle pending]
  simp only [after_bind, Act.after_reset]
  exact over_keeps sound openId _ hi ⟨rfl, rfl⟩ (by simp [Phase.lead]) (fun i e => by cases e) rfl
    (fun k hk => hk.cleared) (((Quietly.refl w).on _).on _) rfl
    (fun civil => .begun (hi.fits civil).1 (registry_cleared rfl (hi.fits civil).2)) legal.failed hn

theorem resolve_declaring {t : Nat} (hi : Inv how (.declaring none t id q) co [] w)
    (legal : f.Legal) (hn : w.outside.moves.length < n) :
    Keeps how (.declaring none t id q) w
      ((Token.declaring id 0 t q).resolve h (.failed f)) w := by
  have pending := (hi.ids.lead id (by simp [Phase.lead])).1
  unfold Keeps Token.resolve
  rw [after_bind, Act.after_settle pending]
  simp only [after_bind, Act.after_reset]
  exact over_keeps sound id _ hi ⟨rfl, rfl⟩ (by simp [Phase.lead])
    (fun i e => (Option.some.inj e).symm) rfl (fun k hk => hk.cleared)
    (((Quietly.refl w).on _).on _) rfl
    (fun civil => .begun (hi.fits civil).1 (registry_cleared rfl (hi.fits civil).2))
    legal.failed hn

theorem resolve_discharging {t : Nat} {y : TxnId} {commit : Bool}
    (hi : Inv how (.discharging none t y id commit q) co [] w) (legal : r.Legal)
    (hn : w.outside.moves.length < n) :
    Keeps how (.discharging none t y id commit q) w
      ((Token.discharging id 0 commit q).resolve h r) w := by
  have pending := (hi.ids.lead id (by simp [Phase.lead])).1
  have ended {v : State} (hv : v = w.on (·.write id (.settled r))) :
      After (Context.conclude h 0 commit) v
        (fun _ v' => Quietly v v' ∧ v'.client = v.client.changeContext 0 (·.concluded) ∧
          (how.Civil → (course v'.outside.history).Fits co v'.client .idle))
        (Cut how (v.on (·.changeContext 0 (·.cleared)))) := by
    subst hv
    have concluded : After (Context.conclude h 0 commit) (w.on (·.write id (.settled r))) _ _ :=
      conclude_after sound hi.alone hi.moves hn
    refine concluded.mono ?_ fun _ _ => fun cut => cut
    rintro _ v ⟨hq, hc, called⟩
    refine ⟨hq, hc, fun civil => ?_⟩
    have round := (hi.fits civil).1.values (k := if commit then .postCommit else .postRollback)
    rw [show (if commit then Hook.postCommit else .postRollback).isLast = true by
      cases commit <;> rfl] at round
    rw [called]
    refine round ▸ (hi.fits civil).ends ?_
    rw [hc, Client.context_changeContext rfl]
    rfl
  unfold Keeps Token.resolve
  rw [after_bind, Act.after_settle pending, after_bind]
  refine (ended rfl).mono ?_ ?_
  · rintro _ v ⟨hq, hc, rested⟩
    exact over_keeps sound id _ hi ⟨rfl, rfl⟩ (by simp [Phase.lead])
      (fun i e => (Option.some.inj e).symm) rfl (fun k hk => hk.concluded)
      (.trans ((Quietly.refl w).on _) hq) hc rested legal hn
  · intro e v cut
    exact over_broken id _ hi ⟨rfl, rfl⟩ (by simp [Phase.lead])
      (fun i e => (Option.some.inj e).symm) rfl (fun k hk => hk.cleared)
      (.trans (((Quietly.refl w).on _).on _) (cut.quietly hi.alone)) cut.client cut.wild cut.raised

/-- **Whoever waits for an exchange that was taken out is told of a failure.** -/
theorem tell {e : Exchange Nat} (he : p.exchange 0 = some e) (hi : Inv how p.loose co [] w)
    (legal : f.Legal) (hn : w.outside.moves.length < n) :
    Keeps how p.loose w (e.request.resolve h (.failed f)) w := by
  cases p with
  | declaring =>
    cases he
    exact resolve_declaring sound hi legal hn
  | discharging =>
    cases he
    exact resolve_discharging sound hi legal.failed hn
  | _ => cases he

omit sound in
theorem tell_again {e : Exchange Nat} (he : p.exchange 0 = some e) (ht : p.ticket = some id)
    (hs : w.client.Settled id) : ∃ g, After (e.request.resolve h (.failed f)) w
      (fun _ _ => False) fun e w' => e = .raised g ∧ w' = w := by
  cases p with
  | declaring =>
    cases he
    cases ht
    obtain ⟨g, e⟩ := Act.after_settle_settled (r := .failed f) hs
    refine ⟨g.toFailure, ?_⟩
    rw [Token.resolve, after_bind, e]
    exact ⟨rfl, rfl⟩
  | discharging =>
    cases he
    cases ht
    obtain ⟨g, e⟩ := Act.after_settle_settled (r := .failed f) hs
    refine ⟨g.toFailure, ?_⟩
    rw [Token.resolve, after_bind, e]
    exact ⟨rfl, rfl⟩
  | _ => cases he

omit sound in
/-- The failure of an endpoint becomes a report, where it can be reported; or else that raises. -/
theorem convert_keeps {k : Failure → Play Unit} (hf : how.Civil → f.isReportable)
    (loose : ¬ how.Civil → Kept how p w w') (hk : ∀ g, Keeps how p w (k g) w') :
    After (Run.convert f) w' (fun g v => After (k g) v (fun _ v' => Kept how p w v') (Broken how p w))
      (Broken how p w) := by
  rw [after_convert]
  cases e : f.toReport? with
  | some g => exact hk g
  | none =>
    have wild : ¬ how.Civil := fun civil => by simpa [Failure.isReportable, e] using hf civil
    exact ⟨fun tame => wild tame.civil, ⟨_, rfl⟩, loose wild⟩

/-- **A request is handed over,** and its exchange was recorded before. The endpoint may raise once
the exchange is gone; where handlers may raise, nobody is told then. -/
theorem transmit_keeps {l : Nat} {k : Link Nat} {e : Exchange Nat} {request : Request} {v : State}
    (hk : w.client.links[l]? = some k) (ho : k.state = .opened) (hl : k.sender = some l)
    (hs : p.slot = some (l, k.nextDelivery)) (he : p.exchange 0 = some e) (hf : how.Civil → p.Firm)
    (hv : v = w.on (·.changeLink l fun k' => { k' with
      nextDelivery := k.nextDelivery + 1
      pending := k'.pending ++ [(k.nextDelivery, e)] }))
    (hi : Inv how p (some l) [] (noting (.sent l k.nextDelivery request) v))
    (hp : Since p₀ w₀ p (noting (.sent l k.nextDelivery request) v))
    (hn : w.outside.moves.length < n) :
    Keeps how p₀ w₀
      (Link.transmit h l request e fun f => e.request.resolve h (.failed f)) w := by
  subst hv
  unfold Keeps Link.transmit
  simp only [after_bind, Act.after_link, Client.link_eq hk, ho, hl, Act.after_modifyLink,
    after_attempt]
  refine (sound.send l k.nextDelivery request hf hs hi hn).mono (fun _ w' hw => hw.of hp) ?_
  rintro _ w' ⟨f, p₂, co₂, w₂, rfl, hr, hf₂, hi₂, hp₂, ht₂, rfl⟩
  have hn₂ : w₂.outside.moves.length < n := Nat.lt_of_le_of_lt hp₂.moves.length_le hn
  have legal (g : Failure) : ((Problem.transmitFailed request k.name).toFailure g).Legal :=
    fun e => by cases e
  by_cases same : p₂ = p
  · subst same
    have hi₃ := hi₂.takeOut hs (answered_refused (f := f)) trivial rfl
    have since : Since p₀ w₀ p₂.loose ((noting (.refused l k.nextDelivery f) w₂).on (·.changeLink l fun k' =>
        { k' with pending := k'.pending.filter (·.1 ≠ k.nextDelivery) })) :=
      (hp.trans hp₂).trans
        (.loose (List.suffix_refl _) (.changeLink (fun _ e => e) fun _ => Nat.le_refl _))
    exact convert_keeps hr (fun wild => ⟨_, _, fun civil => absurd civil wild, hi₃, since⟩)
      fun g => (tell sound he hi₃ (legal g) hn₂).of since
  · -- The exchange is no longer there, and its delivery number was not given to another one.
    have gone : p₂.slot ≠ some (l, k.nextDelivery) := by
      intro e₂
      have := (hp₂.fresh l _ e₂).resolve_left same _ (Client.changeLink_same hk)
      exact absurd this (Nat.not_succ_le_self _)
    have self : w₂.client.changeLink l (fun k' => { k' with
        pending := k'.pending.filter (·.1 ≠ k.nextDelivery) }) = w₂.client := by
      refine Client.changeLink_self fun k' hk' => ?_
      rw [(hi₂.tables.link l k' trivial hk').pending, Phase.filter_pendingAt gone,
        ← (hi₂.tables.link l k' trivial hk').pending]
    have still : ((noting (.refused l k.nextDelivery f) w₂).on (·.changeLink l fun k' => { k' with
        pending := k'.pending.filter (·.1 ≠ k.nextDelivery) })) =
        noting (.refused l k.nextDelivery f) w₂ :=
      congrArg (fun c => { noting (.refused l k.nextDelivery f) w₂ with client := c }) self
    have hi₃ := hi₂.other gone (answered_refused (f := f)) trivial rfl
    have since : Since p₀ w₀ p₂ (noting (.refused l k.nextDelivery f) w₂) :=
      (hp.trans hp₂).trans (.same (List.suffix_refl _) (.refl _))
    rw [still]
    refine convert_keeps hr (fun _ => ⟨p₂, co₂, hf₂, hi₃, since⟩) fun g => ?_
    rcases hp₂.spent.resolve_left same with rfl | spent
    · exact (tell sound he hi₃ (legal g) hn₂).of since
    · have wild : ¬ how.Tame := fun t => same (ht₂ t)
      obtain ⟨id, ht⟩ : ∃ id, p.ticket = some id := by
        cases p <;> first | exact ⟨_, rfl⟩ | cases he
      obtain ⟨g', raised⟩ := tell_again (h := h) (w := noting (.refused l k.nextDelivery f) w₂) he ht
        (spent id ht)
      refine raised.mono (fun _ _ => False.elim) ?_
      rintro _ _ ⟨rfl, rfl⟩
      exact ⟨wild, ⟨g', rfl⟩, p₂, co₂, hf₂, hi₃, since⟩

end Transact.Adversary
