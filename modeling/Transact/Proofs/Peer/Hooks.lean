import Transact.Proofs.Peer.Begin

/-! # Enrolled consumers

When a transaction ends, the consumers that took part are called. They acknowledge or give back what
they have received, and may fail in that; they do not call the client. Before the end they move
messages about at the broker, after it they only count.

* `Turn.conclude`: the transaction is over, and nobody is enrolled.
* `discharged_counts`: what is counted at the end of a commit does not depend on its outcome. -/

namespace Transact.Peer

open Run

variable {o : Origin} {G : Ledger} {due : Option Nat} {s n c : Nat} {p : Phase Waiting}
  {co : Option Nat} {S : Session} {w w' w'' : State} {k : Hook}
  {failure : Option Failure}

/-- The session stands in `w'` where it stands in `w`: its consumers were called, and its client has done
nothing. -/
structure Stays (o : Origin) (G : Ledger) (due : Option Nat) (s : Nat) (p : Phase Waiting)
    (co : Option Nat) (S : Session) (w w' : State) : Prop where
  turn : Turn o G due s p co S w'
  client : w'.client = w.client
  serves : Serves s w.outside.consumers w'.outside.consumers
  exact_before : Exact w' → Exact w

theorem Stays.trans (h : Stays o G due s p co S w w') (h' : Stays o G due s p co S w' w'') :
    Stays o G due s p co S w w'' :=
  ⟨h'.turn, h'.client.trans h.client, h.serves.trans h'.serves, fun hx =>
    h.exact_before (h'.exact_before hx)⟩

/-- The consumer holds nothing. -/
def Emptied (c : Nat) (w : State) : Prop :=
  ∀ k, w.outside.consumers[c]? = some k → k.received = []

theorem Stays.emptied (h : Stays o G due s p co S w w') (hc : Emptied c w) : Emptied c w' := by
  intro k' hk'
  obtain ⟨k, hk, -⟩ := h.serves.entry c k' hk'
  rcases h.serves.received c k k' hk hk' with e | e
  · rw [e, hc k hk]
  · exact e

/-- What a consumer holds was lent by the broker, as long as nothing has run out. -/
theorem Common.lends (h : Common G due w) (hx : Exact w) {x : Consumer}
    (hc : w.outside.consumers[c]? = some x) : Lends w.outside.broker x.received := by
  have le : (x.received : Multiset Delivery) ≤ w.outside.broker.lent := by
    rw [h.custody hx]
    exact le_buffered hc
  refine ⟨le, fun d hd => ?_⟩
  have fresh := h.sound.fresh d (Multiset.mem_add.2 (.inl (Multiset.mem_add.2 (.inl
    (Multiset.mem_add.2 (.inr (Multiset.mem_of_le le hd)))))))
  exact Nat.le_of_lt (Nat.lt_of_lt_of_le fresh hx.2.1)

/-- A consumer that hands back what it holds can only fail in that if something has run out. -/
theorem Turn.handBack (h : Turn o G due s p co S w) (hq : ¬ o.quiet) {x : Consumer}
    (hc : w.outside.consumers[c]? = some x) (hs : x.session = s) (state : Option DeliveryState)
    {f : Consumer → Consumer}
    (hf : ∀ k, (f k).session = k.session ∧ (f k).id = k.id ∧ (f k).received = []) :
    After (Consumer.hand state x.received) w
      (fun _ w' => Stays o G due s p co S w (w'.out (·.changeConsumer c f)) ∧
        Emptied c (w'.out (·.changeConsumer c f)))
      fun e w' => (∃ q : Problem, e = .raised q.toFailure) ∧ Stays o G due s p co S w w' ∧
        ¬ Exact w' := by
  have same : ∀ k, w.outside.consumers[c]? = some k → k.session = s := fun k hk => by
    obtain rfl := Option.some.inj (hc.symm.trans hk)
    exact hs
  refine (after_hand state x.received h.common.sound).mono (fun _ w' hw => ?_) fun e w' hw => ?_
  · obtain ⟨b, rfl, shift, less⟩ := hw
    have serves : Serves s w.outside.consumers (w.outside.consumers.modify c f) :=
      .modify same fun k => ⟨(hf k).1, (hf k).2.1, .inr (hf k).2.2⟩
    have custody (hx : Exact w) : b.lent = buffered (w.outside.consumers.modify c f) := by
      have all := buffered_modify (f := f) hc
      rw [(hf x).2.2, ← h.common.custody hx, ← less (h.common.lends hx hc)] at all
      rw [Multiset.coe_nil, add_zero] at all
      exact (add_right_cancel all).symm
    refine ⟨⟨h.serve (fun e => absurd e hq) shift serves.toCalls custody (h.seat.served serves), rfl,
      serves, fun hx => ?_⟩, fun k hk => ?_⟩
    · exact ⟨hx.1, shift.moves.tagCounter ▸ hx.2.1, serves.size ▸ hx.2.2⟩
    · have hk : (w.outside.consumers.modify c f)[c]? = some k := hk
      rw [Array.getElem?_modify, if_pos rfl, hc] at hk
      rw [← Option.some.inj hk, (hf x).2.2]
  · obtain ⟨raised, b, rfl, shift, none⟩ := hw
    have inexact (hx : Exact w) : False := none (h.common.lends hx hc)
    have before (hx : Exact (w.out (·.changeBroker fun _ => b))) : Exact w :=
      ⟨hx.1, shift.moves.tagCounter ▸ hx.2.1, hx.2.2⟩
    exact ⟨raised, ⟨h.serve (fun e => absurd e hq) shift Serves.refl.toCalls
      (fun hx => (inexact hx).elim) (h.seat.served .refl), rfl, .refl, before⟩,
      fun hx => inexact (before hx)⟩

theorem Turn.hook (h : Turn o G due s p co S w) (hq : ¬ o.quiet)
    (hk : k = .preCommit ∨ k = .preRollback) {x : Consumer}
    (hc : w.outside.consumers[c]? = some x) (hs : x.session = s) :
    After (Consumer.hook c k) w (fun _ w' => Stays o G due s p co S w w' ∧ Emptied c w')
      fun e w' => (∃ q : Problem, e = .raised q.toFailure) ∧ Stays o G due s p co S w w' ∧
        ¬ Exact w' := by
  rcases hk with rfl | rfl
  · unfold Consumer.hook Consumer.preCommit
    simp only [after_bind, Act.after_context, after_sessionAt, after_consumerAt, after_modifyConsumer,
      Outside.consumer_eq hc]
    exact h.handBack hq hc hs _ fun _ => ⟨rfl, rfl, rfl⟩
  · unfold Consumer.hook Consumer.preRollback
    simp only [after_bind, after_consumerAt, after_modifyConsumer, Outside.consumer_eq hc]
    exact h.handBack hq hc hs _ fun _ => ⟨rfl, rfl, rfl⟩

theorem Turn.notifyEach (h : Turn o G due s p co S w) (hq : ¬ o.quiet)
    (hk : k = .preCommit ∨ k = .preRollback) {consumers : List Nat}
    (hc : ∀ c ∈ consumers, ∃ x, w.outside.consumers[c]? = some x ∧ x.session = s) :
    After (Context.notifyEach (surroundings (n + 1)) k failure consumers) w
      (fun _ w' => Stays o G due s p co S w w' ∧ (Exact w' → ∀ c ∈ consumers, Emptied c w'))
      fun _ _ => False := by
  induction consumers generalizing failure w with
  | nil => exact ⟨⟨h, rfl, .refl, id⟩, fun _ _ hc => absurd hc List.not_mem_nil⟩
  | cons c rest ih =>
    obtain ⟨x, hx, hs⟩ := hc c List.mem_cons_self
    have still {w' : State} (hw : Stays o G due s p co S w w') :
        ∀ c ∈ rest, ∃ x, w'.outside.consumers[c]? = some x ∧ x.session = s := by
      intro c hcr
      obtain ⟨x, hx, hs⟩ := hc c (List.mem_cons_of_mem _ hcr)
      obtain ⟨x', hx', hs', -⟩ := hw.serves.still hx
      exact ⟨x', hx', hs'.trans hs⟩
    have hook := h.hook hq hk hx hs
    unfold Context.notifyEach
    rw [after_bind, after_attempt]
    refine After.mono (x := Consumer.hook c k) hook (fun _ w' hw => ?_) ?_
    · refine (ih hw.1.turn (still hw.1)).mono (fun _ w'' h' => ⟨hw.1.trans h'.1, fun he c' hc' => ?_⟩)
        fun _ _ => id
      rcases List.mem_cons.1 hc' with rfl | hc'
      · exact h'.1.emptied hw.2
      · exact h'.2 he c' hc'
    · rintro _ w' ⟨⟨q, rfl⟩, hw, inexact⟩
      simp only [first_toFailure, pure_bind]
      exact (ih hw.turn (still hw)).mono (fun _ _ h' => ⟨hw.trans h'.1, fun he =>
        absurd (h'.1.exact_before he) inexact⟩) fun _ _ => id

theorem Seat.members (h : Seat G s p co w) :
    ∀ c ∈ (w.client.context s).registry.consumers.values,
      ∃ x, w.outside.consumers[c]? = some x ∧ x.session = s := by
  intro c hc
  obtain ⟨C, hC, -⟩ := h.tables.context
  rw [Client.context_eq (show w.client.contexts[s]? = some C from hC)] at hc
  obtain ⟨e, he, rfl⟩ := List.mem_map.1 hc
  obtain ⟨x, hx, hs, -⟩ := h.enrolled C hC e he
  exact ⟨x, hx, hs⟩

/-- **The consumers are called before the end.** They hold nothing then. -/
theorem Turn.notify (h : Turn o G due s p co S w) (hq : ¬ o.quiet)
    (hk : k = .preCommit ∨ k = .preRollback) :
    After (Context.notify (surroundings (n + 1)) s k) w
      (fun _ w' => Stays o G due s p co S w w' ∧ (Exact w' → Bare s w')) fun _ _ => False := by
  unfold Context.notify
  simp only [after_bind, Act.after_context]
  refine (h.notifyEach hq hk h.seat.members).mono (fun _ w' hw => ⟨hw.1, fun hx c x' hx' hs' => ?_⟩)
    fun _ _ => id
  obtain ⟨x, hc, hs, hid, -⟩ := hw.1.serves.entry c x' hx'
  refine (hw.1.serves.received c x x' hc hx').elim (fun e => ?_) id
  refine Decidable.byContradiction fun hne => hne ?_
  obtain ⟨-, C, hC, mem⟩ := h.seat.holding (hw.1.exact_before hx) c x hc (hs.symm.trans hs') (e ▸ hne)
  refine hw.2 hx c ?_ x' hx'
  rw [Client.context_eq hC]
  exact List.mem_map.2 ⟨_, mem, rfl⟩

/-! ### After the end -/

/-- From `w` to `w'` only consumers of the session change, and not in what they hold. -/
def Counted (s : Nat) (w w' : State) : Prop :=
  ∃ table : Array Consumer, w' = w.out (·.serve w.outside.broker table) ∧
    Serves s w.outside.consumers table ∧ buffered table = buffered w.outside.consumers

theorem Counted.trans (h : Counted s w w') (h' : Counted s w' w'') : Counted s w w'' := by
  obtain ⟨table, rfl, hs, hb⟩ := h
  obtain ⟨table', rfl, hs', hb'⟩ := h'
  exact ⟨table', rfl, hs.trans hs', hb'.trans hb⟩

theorem counted_modify {f : Consumer → Consumer} {x : Consumer}
    (hc : w.outside.consumers[c]? = some x) (hs : x.session = s)
    (hf : ∀ k, (f k).session = k.session ∧ (f k).id = k.id ∧ (f k).received = k.received) :
    Counted s w (w.out (·.changeConsumer c f)) := by
  refine ⟨_, rfl, .modify (fun k hk => ?_) fun k => ⟨(hf k).1, (hf k).2.1, .inl (hf k).2.2⟩, ?_⟩
  · obtain rfl := Option.some.inj (hc.symm.trans hk)
    exact hs
  · have all := buffered_modify (f := f) hc
    rw [(hf x).2.2] at all
    exact add_right_cancel all

theorem after_notifyEach (hk : k = .postCommit ∨ k = .postRollback) {consumers : List Nat}
    (hc : ∀ c ∈ consumers, ∃ x, w.outside.consumers[c]? = some x ∧ x.session = s) :
    After (Context.notifyEach (surroundings (n + 1)) k failure consumers) w
      (fun _ w' => Counted s w w') fun _ _ => False := by
  induction consumers generalizing w with
  | nil => exact ⟨w.outside.consumers, rfl, .refl, rfl⟩
  | cons c rest ih =>
    obtain ⟨x, hx, hs⟩ := hc c List.mem_cons_self
    have counted : After ((surroundings (n + 1)).hook c k) w (fun _ w' => Counted s w w')
        fun _ _ => False := by
      rcases hk with rfl | rfl <;> exact counted_modify hx hs fun _ => ⟨rfl, rfl, rfl⟩
    unfold Context.notifyEach
    rw [after_bind, after_attempt]
    refine counted.mono (fun _ w' hw => ?_) fun _ _ => False.elim
    refine (ih fun c hcr => ?_).mono (fun _ _ h' => hw.trans h') fun _ _ => id
    obtain ⟨table, rfl, serves, -⟩ := hw
    obtain ⟨x, hx, hs⟩ := hc c (List.mem_cons_of_mem _ hcr)
    obtain ⟨x', hx', hs', -⟩ := serves.still hx
    exact ⟨x', hx', hs'.trans hs⟩

/-! ### What is counted -/

/-- What the end of a transaction leaves of a consumer that took part. -/
def Consumer.ended (commit : Bool) (k : Consumer) : Consumer :=
  { k with
    consumed := if commit then k.consumed + k.acknowledged.length else k.consumed
    acknowledged := [] }

theorem Consumer.ended_ended {commit : Bool} {k : Consumer} :
    (k.ended commit).ended commit = k.ended commit := by
  cases commit <;> rfl

theorem notifyEach_counts {commit : Bool} {consumers : List Nat} :
    After (Context.notifyEach (surroundings (n + 1)) (if commit then .postCommit else .postRollback)
        failure consumers) w
      (fun _ w' => ∀ (c : Nat) (k : Consumer), w.outside.consumers[c]? = some k →
        w'.outside.consumers[c]? = some (if c ∈ consumers then k.ended commit else k))
      fun _ _ => False := by
  have hook (c : Nat) : (surroundings (n + 1)).hook c (if commit then .postCommit else .postRollback) =
      modifyConsumer c (·.ended commit) := by
    cases commit <;> rfl
  induction consumers generalizing w with
  | nil => exact fun c k hk => by simpa using hk
  | cons c rest ih =>
    unfold Context.notifyEach
    rw [after_bind, after_attempt, hook, after_modifyConsumer]
    refine ih.mono (fun _ w' hw c' k hk => ?_) fun _ _ => id
    have called : (w.outside.consumers.modify c (·.ended commit))[c']? =
        some (if c' = c then k.ended commit else k) := by
      rw [Array.getElem?_modify, hk]
      by_cases e : c = c' <;> simp [e, Ne.symm]
    rw [hw c' _ called]
    by_cases e : c' = c <;> by_cases hr : c' ∈ rest <;> simp [e, hr, Consumer.ended_ended]

/-- **The end of a commit counts what was acknowledged, whatever the outcome was:** who asked for it is
told the outcome only afterwards. -/
theorem discharged_counts {id : Nat} {commit : Bool} {q : Token Waiting} {r : Resolution Unit}
    {Q : Unit → State → Prop} {R : Halt → State → Prop} (hid : ¬ w.client.Settled id)
    (hq : ∀ w' : State, (∀ (c : Nat) (k : Consumer), w.outside.consumers[c]? = some k →
        w'.outside.consumers[c]? = some (if c ∈ (w.client.context s).registry.consumers.values then
          k.ended commit else k)) → After (q.resolve (surroundings (n + 1)) r) w' Q R) :
    After ((Token.discharging id s commit q).resolve (surroundings (n + 1)) r) w Q R := by
  unfold Token.resolve Context.conclude Context.notify
  simp only [after_bind, Act.after_settle_unsettled hid, Act.after_reset, after_discard,
    Act.after_context, Act.after_modifyContext]
  have same : (((w.client.write id (.settled r)).changeContext s (·.cleared)).context s).registry =
      (w.client.context s).registry := by
    rw [Client.context, Client.context, Client.changeContext, Client.write, Array.getElem?_modify,
      if_pos rfl]
    cases w.client.contexts[s]? <;> rfl
  show After (Context.notifyEach _ _ _ (((w.client.write id (.settled r)).changeContext s
    (·.cleared)).context s).registry.consumers.values) _ _ _
  rw [same]
  exact notifyEach_counts.mono (fun _ w' hw => hq _ hw) fun _ _ => False.elim

/-- **A transaction ends:** it is forgotten, the consumers are told, and nobody is enrolled. The broker
has dropped it already. -/
theorem Turn.conclude (h : Turn o G due s p co S w) (hp : p.Still) (hn : Unrecorded G s w)
    (hw : Exact w → Bare s w) {commit : Bool} :
    After (Context.conclude (surroundings (n + 1)) s commit) w
      (fun _ w' => Turn o G due s .idle co S w' ∧ w'.client.completions = w.client.completions ∧
        w'.outside.broker = w.outside.broker)
      fun _ _ => False := by
  obtain ⟨C, hC, -⟩ := h.seat.tables.context
  have hC : w.client.contexts[s]? = some C := hC
  unfold Context.conclude Context.notify
  simp only [after_bind, Act.after_reset, after_discard, Act.after_context, Act.after_modifyContext]
  refine (after_notifyEach (s := s) (by cases commit <;> simp) fun c hc => ?_).mono ?_ fun _ _ => id
  · refine h.seat.members c ?_
    rw [Client.context_eq hC]
    have same : ((w.client.changeContext s (·.cleared)).context s) = C.cleared :=
      Client.context_eq (Client.changeContext_same hC)
    exact (congrArg (c ∈ ·.registry.consumers.values) same).mp hc
  rintro _ _ ⟨table, rfl, serves, same⟩
  refine ⟨?_, rfl, rfl⟩
  have ended := (h.forget (g := (·.concluded)) hp (fun k hk => hk.concluded) hn hw
    fun _ _ he => absurd he List.not_mem_nil)
  have ended := ended.serve (fun _ => rfl) (.refl _) serves.toCalls
    (fun hx => (h.common.custody hx).trans same.symm) (ended.seat.served serves)
  show Turn o G due s .idle co S (World.mk ((w.client.changeContext s _).changeContext s _) _)
  rw [Client.changeContext_changeContext]
  exact ended

end Transact.Peer
