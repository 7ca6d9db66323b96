import Transact.Proofs.Sends.Invariant

/-! # Telling, with aggregates in view

However a token is told how something ended, the invariant of aggregates holds again, if none of them
waits with a completion of the token.

* `notify_leads`, `conclude_leads`: hooks are called.
* `tell_leads`: whoever asked for a commit or a rollback is told.
* `transmit_leads`: a request is handed over.
* `resolve_leads`: any token is told. -/

namespace Transact.Adversary

open Run Player

variable {own : Prop} {n : Nat} {h : Surroundings} {P : List Entry → Entry → Prop} {w v : State}
  {q : Token Nat} {l c id : Nat} {r : Resolution Unit}

/-! ### Hooks -/

/-- These hooks of one kind were called, with this outcome. -/
structure Called (k : Hook) (failure : Option Failure) (hooks : List Entry) : Prop where
  hook : ∀ i ∈ hooks, ∃ consumer f, i.event = .hooked consumer k f ∧ (failure = none → f = none)
  raised : failure ≠ none → ∃ i ∈ hooks, ∃ consumer f, i.event = .hooked consumer k (some f)

namespace Called

variable {k : Hook} {failure : Option Failure} {hooks more : List Entry}

theorem isHook (h : Called k failure hooks) : ∀ i ∈ hooks, i.event.isHook := by
  intro i hi
  obtain ⟨consumer, f, e, -⟩ := h.hook i hi
  rw [e]
  rfl

theorem unraised_iff (h : Called .preCommit failure hooks) : Unraised hooks ↔ failure = none := by
  refine ⟨fun hu => ?_, fun hf i hi consumer f e => ?_⟩
  · cases hf : failure with
    | none => rfl
    | some f =>
      obtain ⟨i, hi, consumer, g, e⟩ := h.raised (by simp [hf])
      exact absurd e (hu i hi consumer g)
  · obtain ⟨consumer', f', e', hn⟩ := h.hook i hi
    cases (hn hf) ▸ e.symm.trans e'

theorem unraised_append (h : Called k failure more) (hk : k ≠ .preCommit) :
    Unraised (more ++ hooks) ↔ Unraised hooks := by
  refine ⟨fun hu i hi => hu i (List.mem_append_right _ hi), fun hu i hi => ?_⟩
  rcases List.mem_append.1 hi with hi | hi
  · intro consumer f e
    obtain ⟨consumer', f', e', -⟩ := h.hook i hi
    cases e.symm.trans e'
    exact hk rfl
  · exact hu i hi

end Called

variable (reliable : Reliable own n h)

include reliable

theorem notify_leads {k : Hook} (hv : Held own (Owes P) w v) (hn : w.outside.moves.length < n) :
    After (Context.notify h c k) v (fun failure v' => ∃ called, Called k failure called ∧
      Held own (Owes fun hooks i => P (hooks ++ called) i) w v' ∧ v'.client = v.client)
      fun _ _ => False := by
  refine (notify_after reliable.basic hv.tracked.civil (hv.elapsed.lt hn)).mono ?_
    fun _ _ cut => cut.wild trivial
  rintro failure v' ⟨es, hes, he, hr⟩
  have hook : ∀ e ∈ es, e.isHook := by
    intro e hm
    obtain ⟨consumer, f, rfl, -⟩ := he e hm
    rfl
  refine ⟨es.map (⟨·, v.client⟩), ⟨fun i hi => ?_, fun hf => ?_⟩, hv.hooks hes hook, hes.client⟩
  · obtain ⟨e, hm, rfl⟩ := List.mem_map.1 hi
    exact he e hm
  · obtain ⟨consumer, f, hm⟩ := hr hf
    exact ⟨_, List.mem_map_of_mem hm, consumer, f, rfl⟩

/-- At the end of a transaction hooks are called too. -/
theorem conclude_leads {commit : Bool} (hv : Held own (Owes P) w v)
    (hn : w.outside.moves.length < n) :
    After (Context.conclude h c commit) v (fun _ v' => ∃ called, (∀ i ∈ called, i.event.isHook) ∧
      Held own (Owes fun hooks i => P (hooks ++ called) i) w v' ∧
      v'.client = v.client.changeContext c (·.concluded)) fun _ _ => False := by
  simp only [Context.conclude, after_bind, Act.after_reset, after_discard, Act.after_modifyContext]
  refine (notify_leads reliable (hv.onContext _) hn).mono ?_ fun _ _ => id
  rintro failure v' ⟨called, hc, hv', client⟩
  refine ⟨called, hc.isHook, hv'.onContext _, ?_⟩
  show v'.client.changeContext c _ = _
  rw [client]
  exact Client.changeContext_changeContext

/-! ### Plain tokens -/

omit reliable in
theorem settle_leads {F : List Entry → Prop} {k : Unit → Play Unit}
    (spare : own → Spare v.client id) (hv : Held own F w v)
    (hr : v.client.Settled id → ∀ f, Due (some f) v.client v.outside.history)
    (hk : ¬ v.client.Settled id → Held own F w (v.on (·.write id (.settled r))) →
      Leads own Told w (k ()) (v.on (·.write id (.settled r)))) :
    Leads own Told w (Act.settle id r >>= k) v := by
  unfold Leads
  rw [after_bind]
  by_cases hs : v.client.Settled id
  · obtain ⟨p, raises⟩ := Act.after_settle_settled (r := r) hs
    rw [raises]
    exact ⟨_, rfl, hv.mono fun _ => hr hs _⟩
  · rw [Act.after_settle_unsettled hs]
    exact hk hs (hv.onWrite spare)

theorem resume_leads (spare : own → Spare v.client id) (hv : Held own (Owes P) w v)
    (hp : P [] ⟨.resolved id r, v.client⟩) (hn : w.outside.moves.length < n) :
    Leads own Told w (h.resume id r) v :=
  ((reliable.resume id r (hv.here.tell spare hp) (hv.elapsed.lt hn)).told).of hv.elapsed

/-- **Whoever asked for a commit or a rollback is told how it ended,** or was told before. -/
theorem tell_leads (hq : q.Plain) (apart : own → Apart v.client q) (hv : Held own (Owes P) w v)
    (hp : ∀ e, Untouched v.client e.client → Tells v.client q r e → P [] e)
    (hn : w.outside.moves.length < n) : Leads own Told w (q.resolve h r) v := by
  -- A completion that was settled before raises.
  have again {q : Token Nat} {id : Nat} {v : State} {r : Resolution Unit} (hi : id ∈ q.ids)
      (hv : Held own (Owes P) w v)
      (hp : ∀ e, Untouched v.client e.client → Tells v.client q r e → P [] e)
      (hs : v.client.Settled id) (f : Failure) : Due (some f) v.client v.outside.history := by
    refine hv.history.mono ?_
    rintro hooks e ⟨rfl, rfl⟩
    exact hp _ ⟨rfl, rfl, rfl⟩ (.raised (fun _ => ⟨id, hi, fun hp => hp.not_settled hs⟩) rfl)
  induction hq generalizing v r with
  | @client id =>
    have same {s : Status Unit} : Untouched v.client (v.client.write id s) := ⟨rfl, rfl, rfl⟩
    have spare : own → Spare v.client id := fun o => apart o id (by simp [Token.completions])
    unfold Token.resolve
    exact settle_leads spare hv (again (by simp [Token.ids]) hv hp) fun _ hv' =>
      resume_leads reliable (fun o => (spare o).write) hv' (hp _ same (.told rfl)) hn
  | @instead id f request _ hq ih =>
    unfold Token.resolve
    refine settle_leads (fun o => apart o id (by simp [Token.completions])) hv
      (again (by simp [Token.ids]) hv hp)
      fun _ hv' => ih (fun o i hi => ?_) hv' (fun e untouched told => hp e ?_ ?_)
    · exact (apart o i (by simp [Token.completions, hi])).write
    · exact ⟨untouched.contexts, untouched.links, untouched.transactions⟩
    · rcases told with he | ⟨raised, he⟩
      · exact .told he
      · refine .raised (fun distinct => ?_) he
        obtain ⟨fresh, distinct⟩ := List.nodup_cons.1 distinct
        obtain ⟨i, hi, settled⟩ := raised distinct
        refine ⟨i, by simp [Token.ids, hi], fun pending => settled ?_⟩
        refine Client.pending_write.2 ⟨pending, ?_⟩
        rintro rfl
        exact fresh hi

/-! ### Requests -/

omit reliable in
theorem LinkFair.link (h : Tracked own v) (hs : (v.client.link l).state = .opened) :
    ∃ k, v.client.links[l]? = some k ∧ k.state = .opened ∧ k.sender = some l := by
  cases hk : v.client.links[l]? with
  | none =>
    rw [Client.link_absent hk] at hs
    cases hs
  | some k =>
    rw [Client.link_eq hk] at hs
    exact ⟨k, rfl, hs, (h.link l k hk).sender (by rw [hs]; decide)⟩

/-- **A request is handed over** if the link is open. -/
theorem transmit_leads {request : Request} {e : Exchange Nat} {fail : Failure → Play Unit}
    (apart : own → Apart v.client e.request) (hv : Held own (Owes P) w v)
    (hs : (v.client.link l).state = .opened → ∀ d x, P [] ⟨.sent l d request, x⟩)
    (hc : (v.client.link l).state ≠ .opened → ∀ hooks e, P hooks e)
    (hf : ∀ f v', Held own Free w v' → Elapsed own v v' → Leads own Told w (fail f) v')
    (hn : w.outside.moves.length < n) :
    Leads own Told w (Link.transmit h l request e fail) v := by
  unfold Leads Link.transmit
  rw [after_bind, Act.after_link]
  by_cases ho : (v.client.link l).state = .opened
  · obtain ⟨k, hk, ho', hsender⟩ := LinkFair.link hv.tracked ho
    rw [Client.link_eq hk]
    simp only [ho', hsender, after_bind, Act.after_modifyLink, after_attempt]
    obtain ⟨u, hu⟩ : ∃ u, u = v.on (·.changeLink l fun k' => { k' with
      nextDelivery := k.nextDelivery + 1
      pending := k'.pending ++ [(k.nextDelivery, e)] }) := ⟨_, rfl⟩
    have handed : Held own (Owes P) v u := by
      rw [hu]
      refine hv.here.onLink fun k' _ fair => ⟨fair.sender, fair.opening, fun o i hi => ?_⟩
      rcases List.mem_append.1 hi with hi | hi
      · exact fair.pending o i hi
      · obtain rfl := List.mem_singleton.1 hi
        exact apart o
    have sent : Held own Followed u (noting (.sent l k.nextDelivery request) u) :=
      handed.here.settle trivial (hs ho _ _)
    rw [← hu]
    have elapsed := hv.elapsed.trans handed.elapsed
    refine After.mono (reliable.send l k.nextDelivery request sent (elapsed.lt hn))
      (fun _ v' hv' => hv'.of elapsed) ?_
    rintro _ v' ⟨f, rfl, hr, hv'⟩
    obtain ⟨g, hg⟩ := Option.isSome_iff_exists.1 hr
    have kept := (hv'.of handed.elapsed).onLink (l := l)
      (g := fun k' => { k' with pending := k'.pending.filter (·.1 ≠ k.nextDelivery) })
      fun k' _ fair => ⟨fair.sender, fair.opening,
        fun o i hi => fair.pending o i (List.mem_filter.1 hi).1⟩
    simp only [convert_eq hg, after_pure]
    exact hf _ _ ((kept.mono fun hp => Followed.free hp).of hv.elapsed) kept.elapsed
  · have free : Held own Free w v := hv.mono fun hp => hp.mono fun hooks e _ => hc ho hooks e
    generalize v.client.link l = k at ho
    obtain ⟨name, state, sender⟩ := k
    cases state with
    | opened => exact absurd rfl ho
    | building => exact hf _ _ free (.refl v)
    | closed => exact hf _ _ free (.refl v)

/-! ### All tokens -/

omit reliable in
theorem settle_free {k : Unit → Play Unit} (apart : own → Apart v.client q) (hi : id ∈ q.completions)
    (hv : Held own Free w v)
    (hk : (own → Apart (v.client.write id (.settled r)) q) →
      Held own Free w (v.on (·.write id (.settled r))) →
      Leads own Told w (k ()) (v.on (·.write id (.settled r)))) :
    Leads own Told w (Act.settle id r >>= k) v :=
  settle_leads (fun o => apart o id hi) hv (fun _ _ => hv.history.due) fun _ => hk
    fun o i hi => (apart o i hi).write

/-- **Any token is told.** -/
theorem resolve_leads (apart : own → Apart v.client q) (hv : Held own Free w v)
    (hn : w.outside.moves.length < n) : Leads own Told w (q.resolve h r) v := by
  induction q generalizing v r with
  | client id continuation =>
    unfold Token.resolve
    exact settle_free apart (by simp [Token.completions]) hv fun apart' hv' =>
      resume_leads reliable (fun o => apart' o continuation (by simp [Token.completions])) hv' trivial hn
  | instead id f request ih =>
    unfold Token.resolve
    exact settle_free apart (by simp [Token.completions]) hv fun apart' hv' =>
      ih (fun o => (apart' o).inner fun _ => List.mem_cons_of_mem _) hv'
  | discharging id c commit request ih =>
    unfold Token.resolve
    refine settle_free apart (by simp [Token.completions]) hv fun apart' hv' => ?_
    unfold Leads
    rw [after_bind]
    refine (conclude_leads reliable hv' hn).mono ?_ fun _ _ => False.elim
    rintro _ v' ⟨called, -, hv', client⟩
    refine ih (fun o => Apart.grow ((apart' o).inner fun _ => List.mem_cons_of_mem _) ?_ ?_) hv'
    · rw [client]
      rfl
    · rw [client]
      exact Nat.le_refl _
  | declaring id c t request ih =>
    unfold Token.resolve
    refine settle_free apart (by simp [Token.completions]) hv fun apart' hv' => ?_
    have told {g : Context → Context} {r' : Resolution Unit} : Leads own Told w
        (request.resolve h r') ((v.on (·.write id (.settled r))).on (·.changeContext c g)) :=
      ih (fun o => ((apart' o).inner fun _ => List.mem_cons_of_mem _).onContext) (hv'.onContext g)
    unfold Leads
    cases r with
    | failed f =>
      simp only [after_bind, Act.after_reset]
      exact told
    | succeeded =>
      simp only [after_bind, Act.after_transaction]
      split
      · simp only [after_bind, Act.after_reset]
        exact told
      · simp only [Context.bind, after_bind, Act.after_modifyContext]
        exact told
  | opening id c t l next request ihn ih =>
    unfold Token.resolve
    refine settle_free apart (by simp [Token.completions]) hv fun apart' hv' => ?_
    have apart₁ : own → Apart (v.client.write id (.settled r)) next := fun o =>
      (apart' o).inner fun i hi => List.mem_cons_of_mem _ (List.mem_append_left _ hi)
    have apart₂ : own → Apart (v.client.write id (.settled r)) request := fun o =>
      (apart' o).inner fun i hi => List.mem_cons_of_mem _ (List.mem_append_right _ hi)
    unfold Leads
    cases r with
    | failed f =>
      simp only [after_bind, Act.after_reset]
      exact ih (fun o => (apart₂ o).onContext) (hv'.onContext _)
    | succeeded =>
      simp only [after_bind, Act.after_modifyContext]
      refine transmit_leads reliable (fun o => (apart₁ o).onContext) (hv'.onContext _) (fun _ _ _ => trivial)
        (fun _ _ _ => trivial) (fun f v' hv₁ elapsed => ?_) hn
      exact ihn (fun o => (apart₁ o).onContext.elapsed elapsed o) hv₁

/-- The exchanges of a link that has closed are told, one after the other. -/
theorem failAll_leads {cause : Failure} {exchanges : List (Nat × Exchange Nat)}
    (apart : own → ∀ e ∈ exchanges, Apart v.client e.2.request) (hv : Held own Followed w v)
    (hn : w.outside.moves.length < n) :
    Leads own Told w (Link.failAll h cause exchanges) v := by
  induction exchanges generalizing v with
  | nil => exact hv
  | cons e rest ih =>
    unfold Leads Link.failAll
    rw [after_bind]
    refine After.mono (resolve_leads reliable (fun o => apart o e List.mem_cons_self)
      (hv.here.mono fun hp => Followed.free hp) (hv.elapsed.lt hn)) (fun _ v' hv' => ?_) ?_
    · refine ih (fun o i hi => ?_) (hv'.of hv.elapsed)
      exact (apart o i (List.mem_cons_of_mem _ hi)).elapsed hv'.elapsed o
    · rintro _ v' ⟨f, rfl, hv'⟩
      exact ⟨f, rfl, hv'.of hv.elapsed⟩

end Transact.Adversary
