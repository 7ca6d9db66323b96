import Mathlib.Data.List.Basic
import Transact.Proofs.Peer.Moments

/-! # All or nothing

What is known of a run is read off its history: the messages of the ledger are those that were sent,
and those it has as taken in were taken in. `Recorded` says so of the moments so far. It holds in the
beginning, every step keeps it, and so it holds of a whole run.

* `Recorded.step`, `Recorded.play`: what is known after one more step, and after a run.
* `history_all_or_nothing`: a transaction whose commit succeeded was published as a whole; of any
  other no message was ever seen in a queue. -/

namespace Transact.Peer

open Run

variable {G G' : Ledger} {w w' : State} {m : Moment} {past : List Moment} {steps : List Step}
  {g : Gain} {t : Nat} {x : Message}

/-! ### What a step leaves as it was -/

theorem Advance.waiting_taken {p : Parcel} {fate : Fate} (h : Advance G w (.taken p fate) G' w') :
    G.waiting = p :: G'.waiting := by
  have parcels : G'.parcels = G.parcels ++ [] := h.parcels
  have taken : G'.taken = G.taken ++ [(p, fate)] := h.taken
  rw [Ledger.parcels, Ledger.parcels, taken, List.map_append, List.append_nil,
    List.append_assoc] at parcels
  exact (List.append_cancel_left parcels).symm

theorem Advance.waiting_more (h : Advance G w g G' w') (hg : g.intake? = none) :
    G'.waiting = G.waiting ++ g.parcel?.toList := by
  have taken : G'.taken = G.taken := by
    rw [h.taken, hg]
    exact List.append_nil _
  have parcels := h.parcels
  rw [Ledger.parcels, Ledger.parcels, taken, List.append_assoc] at parcels
  exact List.append_cancel_left parcels

/-- The messages of a transaction that wait were waiting before, or it is not concluded. -/
theorem Advance.waiting (h : Advance G w g G' w') (ht : G.Concluded w.client t)
    (hw : ∀ x ∈ G.waiting, x.transaction ≠ t) : ∀ x ∈ G'.waiting, x.transaction ≠ t := by
  intro x hx
  cases g with
  | taken p fate => exact hw x (h.waiting_taken ▸ List.mem_cons_of_mem p hx)
  | sent p =>
    rw [h.waiting_more rfl] at hx
    rcases List.mem_append.1 hx with hx | hx
    · exact hw x hx
    · obtain rfl := List.mem_singleton.1 hx
      rintro rfl
      exact h.fresh x rfl ht
  | _ =>
    rw [h.waiting_more rfl] at hx
    exact hw x (by simpa [Gain.parcel?] using hx)

/-- A message that waits goes on waiting until it is taken in. -/
theorem Advance.waits (h : Advance G w g G' w') {p : Parcel} (hp : p ∈ G.waiting) :
    p ∈ G'.waiting ∨ ∃ fate, g = .taken p fate := by
  cases g with
  | taken p' fate =>
    rw [h.waiting_taken, List.mem_cons] at hp
    rcases hp with rfl | hp
    · exact .inr ⟨fate, rfl⟩
    · exact .inl hp
  | _ =>
    rw [h.waiting_more rfl]
    exact .inl (List.mem_append_left _ hp)

theorem Advance.taken_other (h : Advance G w g G' w') (hw : ∀ x ∈ G.waiting, x.transaction ≠ t) :
    ∀ e ∈ g.intake?.toList, e.1.transaction ≠ t := by
  intro e he
  cases g with
  | taken p fate =>
    obtain rfl := List.mem_singleton.1 he
    exact hw p (h.waiting_taken ▸ List.mem_cons_self)
  | _ => cases he

theorem Advance.concluded_old (h : Advance G w g G' w') (ht : G.Concluded w.client t) :
    G'.Concluded w'.client t := by
  obtain ⟨c, hc, hs⟩ := ht
  exact ⟨c, (h.reports c .commit t).2 (.inl hc), h.onward.kept c _ hs⟩

/-- Who was promised an answer is given it, or still promised it. -/
theorem Advance.promised (h : Advance G w g G' w') {c : Nat} (hc : G.Promised w.client c)
    (told : ∀ x fate, g = .taken x fate → ∀ sent c, x.receipt = some (sent, c) →
      w'.client.completions[c]? = some (.settled (fate.resolution x))) :
    G'.Promised w'.client c := by
  rcases hc with ⟨r, hr⟩ | ⟨a, t, ht, ha⟩ | ⟨p, hp, sent, he⟩
  · exact .inl ⟨r, h.onward.kept c r hr⟩
  · exact .inr (.inl ⟨a, t, h.purposes c a t ht, ha⟩)
  · rcases h.waits hp with hp | ⟨fate, e⟩
    · exact .inr (.inr ⟨p, hp, sent, he⟩)
    · exact .inl ⟨_, told p fate e sent c he⟩

theorem Calm.promised_lt (h : Calm G w) {c : Nat} (hc : G.Promised w.client c) :
    c < w.client.completions.size := by
  rcases hc with ⟨r, hr⟩ | ⟨a, t, ht, -⟩ | ⟨p, hp, sent, he⟩
  · exact (Array.getElem?_eq_some_iff.1 hr).1
  · exact h.common.purposes ▸ (List.getElem?_eq_some_iff.1 ht).1
  · exact (h.common.receipt p hp _ he).2.2.lt

theorem Advance.publishes {v v' : State} (h : Advance G w g G' w') (ht : G.Concluded w.client t)
    (hp : Publishes G t v v') : Publishes G' t v v' := by
  have other := h.taken_other hp.waiting
  have same : G'.staged t = G.staged t := by
    rw [Ledger.staged, Ledger.staged, h.taken, List.filterMap_append]
    refine List.append_right_eq_self.2 (List.filterMap_eq_nil_iff.2 fun e he => ?_)
    exact if_neg (other e he)
  refine ⟨fun e he het => ?_, fun e he het => ?_, h.waiting ht hp.waiting, fun address => ?_⟩
  · rw [h.taken, List.mem_append] at he
    exact hp.clean e (he.resolve_right fun he => other e he het) het
  · rw [h.taken, List.mem_append] at he
    exact hp.known e (he.resolve_right fun he => other e he het) het
  · rw [same]
    exact hp.queue address

/-! ### Numbers and tags -/

theorem Moment.index_eq {x : Message} (h : m.message? = some x) :
    x.index = m.before.outside.transfers := by
  unfold message? at h
  split at h
  · simp only [Option.bind_eq_bind, Option.bind_eq_some_iff] at h
    obtain ⟨producer, -, session, -, transaction, -, d, -, sent⟩ := h
    split at sent
    · cases sent
    · rw [← Option.some.inj sent]
  · cases h

theorem Moment.tag_eq {i : Nat} {d : Delivery} (h : m.intake? = some (i, some d)) :
    d.tag = m.before.outside.broker.tagCounter := by
  unfold intake? at h
  split at h
  · have delivery := (Prod.mk.inj (Option.some.inj h)).2
    split at delivery
    · cases delivery
    · rw [← Option.some.inj delivery]
  · cases h

theorem Advance.stray (h : Advance G m.before g G' m.after) (hs : Shows m g G') {i : Nat}
    (hi : G.Stray m.before.outside.transfers i) : G'.Stray m.after.outside.transfers i := by
  refine ⟨Nat.lt_of_lt_of_le hi.1 h.onward.transfers, fun x hx => ?_⟩
  rw [h.parcels, List.mem_append] at hx
  rcases hx with hx | hx
  · exact hi.2 x hx
  · have message := hs.message
    rw [Option.mem_toList.1 hx, Option.map_some] at message
    have : x.index = m.before.outside.transfers := Moment.index_eq message.symm
    exact this ▸ Nat.ne_of_gt hi.1

theorem Advance.tagged (h : Advance G m.before g G' m.after) (hs : Shows m g G') {n : Nat}
    (hn : n < m.before.outside.broker.tagCounter) (ht : G'.Tagged n t) : G.Tagged n t := by
  obtain ⟨e, he, het, d, hd, rfl⟩ := ht
  rcases List.mem_append.1 (h.taken ▸ he) with he | he
  · exact ⟨e, he, het, d, hd, rfl⟩
  · rcases hs.intake with same | ⟨none, -⟩
    · rw [Option.mem_toList.1 he, Option.map_some, hd] at same
      exact absurd (Moment.tag_eq same.symm) (Nat.ne_of_lt hn)
    · cases (Option.mem_toList.1 he).symm.trans none

/-! ### What is known after a run -/

/-- What is known after the moments of `past`. -/
structure Recorded (past : List Moment) (G : Ledger) (w : State) : Prop where
  calm : Calm G w
  last : ∀ m, past.getLast? = some m → m.after = w
  messages : G.parcels.map (·.message) = past.filterMap Moment.message?
  intakes : ∀ e ∈ G.taken, (e.1.index, e.2.delivery?) ∈ past.filterMap Moment.intake?
  arrived : ∀ e ∈ past.filterMap Moment.intake?, (∃ a ∈ G.taken, (a.1.index, a.2.delivery?) = e) ∨
    G.Stray w.outside.transfers e.1
  onward : ∀ m ∈ past, Onward m.after w
  asks : ∀ m ∈ past, ∀ ending t c, m.Asks ending t c →
    G.purposes[c]? = some (.report ending, t) ∨
      ∃ f, w.client.completions[c]? = some (.settled (.failed f))
  reports : ∀ (c : Nat) (ending : Ending) (t : Nat), G.purposes[c]? = some (.report ending, t) →
    ∃ m ∈ past, m.Asks ending t c
  published : Distinct w → ∀ t, G.Concluded w.client t →
    ∃ m ∈ past, m.step = .runOne ∧ Publishes G t m.before m.after
  seen : Distinct w → ∀ m ∈ past, ∀ d, m.after.outside.broker.Holds d →
    d.tag < w.outside.broker.tagCounter ∧ ∀ t, G.Tagged d.tag t → G.Concluded w.client t
  returned : ∀ m ∈ past, ∀ c, m.reply = .ok (some c) → G.Promised w.client c
  started : ∀ m ∈ past, ∀ s, m.step = .start s → s < m.before.outside.sessions.size →
    ∃ S, w.outside.sessions[s]? = some S ∧ S.beginning.isSome
  done : ∀ m ∈ past, m.step = .runOne → m.reply = .ok none
  sends : ∀ x ∈ G.parcels, ∀ sent c, x.receipt = some (sent, c) →
    ∃ m ∈ past, m.message? = some x.message ∧ m.reply = .ok (some c)
  told : ∀ e ∈ G.taken, ∀ sent c, e.1.receipt = some (sent, c) →
    w.client.completions[c]? = some (.settled (e.2.resolution e.1))
  blamed : ∀ (c : Nat) (f : Failure), w.client.completions[c]? = some (.settled (.failed f)) → ¬ f.Legal →
    ∃ m ∈ past, m.reply = .ok (some c)
  refused : ∀ m ∈ past, ∀ (c : Nat) (f : Failure), m.reply = .ok (some c) →
    w.client.completions[c]? = some (.settled (.failed f)) → ¬ f.Legal →
    Refuses m.before m.step ∧ Declines m.before c m.after
  raised : ∀ m ∈ past, ∀ e, m.reply = .error e → Misses m.step e ∧ m.after = m.before

theorem recorded_initial (refusesLinks : Bool) : Recorded [] {} (initial refusesLinks) where
  calm := calm_initial
  last _ e := by cases e
  messages := rfl
  intakes _ he := by cases he
  arrived _ he := by cases he
  onward _ hm := absurd hm List.not_mem_nil
  asks _ hm := absurd hm List.not_mem_nil
  reports _ _ _ e := by cases e
  published _ t ht := by
    obtain ⟨c, hc, -⟩ := ht
    cases hc
  seen _ _ hm := absurd hm List.not_mem_nil
  returned _ hm := absurd hm List.not_mem_nil
  started _ hm := absurd hm List.not_mem_nil
  done _ hm := absurd hm List.not_mem_nil
  sends _ hx := by cases hx
  told _ he := by cases he
  blamed c f e := by simp [initial] at e
  refused _ hm := absurd hm List.not_mem_nil
  raised _ hm := absurd hm List.not_mem_nil

/-! ### One more step -/

namespace Recorded

theorem forall_concat {P : Moment → Prop} (old : ∀ m' ∈ past, P m') (new : P m) :
    ∀ m' ∈ past ++ [m], P m' :=
  List.forall_mem_append.2 ⟨old, List.forall_mem_singleton.2 new⟩

theorem exists_concat {P : Moment → Prop} (h : ∃ m' ∈ past, P m') : ∃ m' ∈ past ++ [m], P m' := by
  obtain ⟨m', hm', hp⟩ := h
  exact ⟨m', List.mem_append_left _ hm', hp⟩

theorem exists_last {P : Moment → Prop} (h : P m) : ∃ m' ∈ past ++ [m], P m' :=
  ⟨m, List.mem_append_right _ List.mem_cons_self, h⟩

section
variable (h : Recorded past G m.before) (ha : Advance G m.before g G' m.after) (hs : Shows m g G')

include h ha hs

theorem messages_step : G'.parcels.map (·.message) = (past ++ [m]).filterMap Moment.message? := by
  have added : g.parcel?.toList.map (·.message) = m.message?.toList := by
    rw [← hs.message]
    cases g.parcel? <;> rfl
  rw [ha.parcels, List.map_append, h.messages, List.filterMap_append, added]
  cases e : m.message? <;> simp [e]

theorem intakes_step : ∀ e ∈ G'.taken,
    (e.1.index, e.2.delivery?) ∈ (past ++ [m]).filterMap Moment.intake? := by
  intro e he
  rw [List.filterMap_append, List.mem_append]
  rcases List.mem_append.1 (ha.taken ▸ he) with he | he
  · exact .inl (h.intakes e he)
  · have intake : g.intake? = some e := Option.mem_toList.1 he
    rcases hs.intake with same | ⟨none, -⟩
    · rw [intake, Option.map_some] at same
      exact .inr (List.mem_filterMap.2 ⟨m, List.mem_singleton_self m, same.symm⟩)
    · cases intake.symm.trans none

theorem arrived_step : ∀ e ∈ (past ++ [m]).filterMap Moment.intake?,
    (∃ a ∈ G'.taken, (a.1.index, a.2.delivery?) = e) ∨ G'.Stray m.after.outside.transfers e.1 := by
  intro e he
  rw [List.filterMap_append, List.mem_append] at he
  rcases he with he | he
  · rcases h.arrived e he with ⟨a, ha', same⟩ | stray
    · exact .inl ⟨a, ha.taken ▸ List.mem_append_left _ ha', same⟩
    · exact .inr (ha.stray hs stray)
  · obtain ⟨m', hm', intake⟩ := List.mem_filterMap.1 he
    obtain rfl := List.mem_singleton.1 hm'
    rcases hs.intake with same | ⟨-, e', same, stray⟩
    · rw [intake] at same
      obtain ⟨a, taken, same⟩ := Option.map_eq_some_iff.1 same
      refine .inl ⟨a, ?_, same⟩
      rw [ha.taken, taken]
      exact List.mem_append_right _ List.mem_cons_self
    · obtain rfl := Option.some.inj (intake.symm.trans same)
      exact .inr stray

theorem published_step (hx : Distinct m.after) (ht : G'.Concluded m.after.client t) :
    ∃ m' ∈ past ++ [m], m'.step = .runOne ∧ Publishes G' t m'.before m'.after := by
  have before := ha.onward.distinct hx
  rcases ha.concluded t ht with ht | e
  · obtain ⟨m', hm', hr, hp⟩ := h.published before t ht
    exact ⟨m', List.mem_append_left _ hm', hr, ha.publishes ht hp⟩
  · have hp := ha.published before t e
    have same : G'.taken = G.taken := by
      rw [ha.taken, e]
      exact List.append_nil _
    have waiting : G'.waiting = G.waiting := by
      rw [ha.waiting_more (by rw [e]; rfl), e]
      exact List.append_nil _
    refine exists_last ⟨hs.ran t e, ?_, ?_, ?_, ?_⟩
    · rw [Ledger.Clean, same]
      exact hp.clean
    · rw [Ledger.Known, same]
      exact hp.known
    · rw [waiting]
      exact hp.waiting
    · rw [Ledger.staged, same]
      exact hp.queue

theorem seen_step (hx : Distinct m.after) : ∀ m' ∈ past ++ [m], ∀ d, m'.after.outside.broker.Holds d →
    d.tag < m.after.outside.broker.tagCounter ∧
      ∀ t, G'.Tagged d.tag t → G'.Concluded m.after.client t := by
  refine forall_concat (fun m' hm' d hd => ?_) fun d hd => ?_
  · obtain ⟨lt, concluded⟩ := h.seen (ha.onward.distinct hx) m' hm' d hd
    refine ⟨Nat.lt_of_lt_of_le lt ha.onward.tagCounter, fun t ht => ?_⟩
    exact ha.concluded_old (concluded t (ha.tagged hs lt ht))
  · exact ⟨ha.calm.common.sound.fresh_held hd, fun t ht =>
      (ha.calm.common.held hx d hd t ht).resolve_right (by simp)⟩

theorem sends_step : ∀ x ∈ G'.parcels, ∀ sent c, x.receipt = some (sent, c) →
    ∃ m' ∈ past ++ [m], m'.message? = some x.message ∧ m'.reply = .ok (some c) := by
  intro x hx sent c e
  rw [ha.parcels, List.mem_append] at hx
  rcases hx with hx | hx
  · exact exists_concat (h.sends x hx sent c e)
  · have parcel : g.parcel? = some x := Option.mem_toList.1 hx
    have message := hs.message
    rw [parcel, Option.map_some] at message
    refine exists_last ⟨message.symm, ?_⟩
    cases g with
    | sent x' => exact hs.sent x' rfl sent c (Option.some.inj parcel ▸ e)
    | _ => cases parcel

theorem told_step : ∀ e ∈ G'.taken, ∀ sent c, e.1.receipt = some (sent, c) →
    m.after.client.completions[c]? = some (.settled (e.2.resolution e.1)) := by
  intro e he sent c r
  rw [ha.taken, List.mem_append] at he
  rcases he with he | he
  · exact ha.onward.kept c _ (h.told e he sent c r)
  · have intake : g.intake? = some e := Option.mem_toList.1 he
    cases g with
    | taken x fate =>
      cases intake
      exact hs.told x fate rfl sent c r
    | _ => cases intake

/-- What a session has refused was refused by the step that returned it: a completion is returned once, and
what is returned now was not there before. -/
theorem refused_step : ∀ m' ∈ past ++ [m], ∀ (c : Nat) (f : Failure), m'.reply = .ok (some c) →
    m.after.client.completions[c]? = some (.settled (.failed f)) → ¬ f.Legal →
    Refuses m'.before m'.step ∧ Declines m'.before c m'.after := by
  refine forall_concat (fun m' hm' c f reply e hf => ?_) fun c f reply e hf => ?_
  · rcases ha.lawful c f e hf with e | e
    · exact h.refused m' hm' c f reply e hf
    · have lt := h.calm.promised_lt (h.returned m' hm' c reply)
      have new := hs.new c (hs.declined c e).2.1
      omega
  · rcases ha.lawful c f e hf with e | e
    · have lt := (Array.getElem?_eq_some_iff.1 e).1
      have new := hs.new c reply
      omega
    · exact ⟨(hs.declined c e).1, (hs.declined c e).2.2⟩

/-- **One more step.** -/
theorem step : Recorded (past ++ [m]) G' m.after where
  calm := ha.calm
  last m' e := by
    rw [List.getLast?_concat] at e
    rw [Option.some.inj e]
  messages := h.messages_step ha hs
  intakes := h.intakes_step ha hs
  arrived := h.arrived_step ha hs
  onward := forall_concat (fun m' hm' => (h.onward m' hm').trans ha.onward) (.refl _)
  asks := by
    refine forall_concat (fun m' hm' ending t c e => ?_) fun ending t c e => ?_
    · rcases h.asks m' hm' ending t c e with e | ⟨f, e⟩
      · exact .inl ((ha.reports c ending t).2 (.inl e))
      · exact .inr ⟨f, ha.onward.kept c _ e⟩
    · exact (hs.refused c ending t e).imp_left fun e => (ha.reports c ending t).2 (.inr e)
  reports c ending t e := by
    rcases (ha.reports c ending t).1 e with e | e
    · exact exists_concat (h.reports c ending t e)
    · exact exists_last (hs.asks c ending t e)
  published hx _ := h.published_step ha hs hx
  seen := h.seen_step ha hs
  returned := forall_concat (fun m' hm' c e => ha.promised (h.returned m' hm' c e) hs.told) hs.returned
  started := by
    refine forall_concat (fun m' hm' s e lt => ?_) hs.started
    obtain ⟨S, hS, hb⟩ := h.started m' hm' s e lt
    exact ha.onward.started s S hS hb
  done := forall_concat h.done hs.done
  sends := h.sends_step ha hs
  told := h.told_step ha hs
  blamed c f e hf := by
    rcases ha.lawful c f e hf with e | e
    · exact exists_concat (h.blamed c f e hf)
    · exact exists_last (hs.declined c e).2.1
  refused := h.refused_step ha hs
  raised := forall_concat h.raised hs.raised

end

end Recorded

/-- **A whole run,** by induction on its steps. -/
theorem Recorded.play (h : Recorded past G w) (hb : ∀ m ∈ play steps w, Countable m.before) :
    ∃ G', Recorded (past ++ Peer.play steps w) G' (reach steps w) := by
  induction steps generalizing past G w with
  | nil =>
    rw [Peer.play, List.append_nil]
    exact ⟨G, h⟩
  | cons step rest ih =>
    have countable : Countable w := hb (step.moment w) List.mem_cons_self
    obtain ⟨g, G', ha, hs⟩ := h.calm.moment step countable
    have next : Recorded (past ++ [step.moment w]) G' (step.moment w).after := h.step ha hs
    obtain ⟨G'', hr⟩ := ih next fun m hm => hb m (List.mem_cons_of_mem _ hm)
    rw [List.append_assoc] at hr
    exact ⟨G'', hr⟩

theorem bounded_initial (refusesLinks : Bool) : Bounded (initial refusesLinks) := by
  cases refusesLinks <;> decide

/-! ### What a history shows -/

/-- What became of a message, as the ledger has it. -/
def Ledger.result (G : Ledger) (x : Message) : Option Delivery :=
  (G.taken.find? (·.1.index = x.index)).bind (·.2.delivery?)

theorem takenIn_iff {r : Option Delivery} :
    TakenIn past x r ↔ (x.index, r) ∈ past.filterMap Moment.intake? := by
  simp [TakenIn, List.mem_filterMap]

namespace Recorded

variable (h : Recorded past G w)

include h

theorem nodup_indices : (G.parcels.map (·.index)).Nodup := h.calm.common.indices.imp Nat.ne_of_lt

theorem parcel_ext {a b : Parcel} (ha : a ∈ G.parcels) (hb : b ∈ G.parcels)
    (e : a.index = b.index) : a = b := List.inj_on_of_nodup_map h.nodup_indices ha hb e

theorem mem_messages : x ∈ Peer.messages past t ↔
    ∃ p ∈ G.parcels, p.transaction = t ∧ p.message = x := by
  rw [Peer.messages, ← h.messages, List.mem_filter, List.mem_map]
  constructor
  · rintro ⟨⟨p, hp, rfl⟩, ht⟩
    exact ⟨p, hp, of_decide_eq_true ht, rfl⟩
  · rintro ⟨p, hp, rfl, rfl⟩
    exact ⟨⟨p, hp, rfl⟩, decide_eq_true rfl⟩

theorem mem_taken {p : Parcel} {r : Option Delivery} (hp : p ∈ G.parcels)
    (hr : TakenIn past p.message r) :
    ∃ fate, (p, fate) ∈ G.taken ∧ fate.delivery? = r := by
  rcases h.arrived _ (takenIn_iff.1 hr) with ⟨⟨p', fate⟩, he, e⟩ | stray
  · obtain ⟨same, hd⟩ := Prod.mk.inj e
    obtain rfl : p' = p :=
      h.parcel_ext (List.mem_append_left _ (List.mem_map_of_mem he)) hp same
    exact ⟨fate, he, hd⟩
  · exact absurd rfl (stray.2 p hp)

theorem takenIn {e : Parcel × Fate} (he : e ∈ G.taken) : TakenIn past e.1.message e.2.delivery? := by
  exact takenIn_iff.2 (h.intakes e he)

theorem committed (ht : G.Concluded w.client t) : Committed past t := by
  obtain ⟨c, hc, hs⟩ := ht
  obtain ⟨m, hm, asks⟩ := h.reports c .commit t hc
  cases e : past.getLast? with
  | none =>
    rw [List.getLast?_eq_none_iff.1 e] at hm
    cases hm
  | some last => exact ⟨m, hm, c, asks, last, List.mem_of_getLast? e, h.last last e ▸ hs⟩

theorem concluded (ht : Committed past t) : G.Concluded w.client t := by
  obtain ⟨m, hm, c, asks, m', hm', hs⟩ := ht
  have succeeded := (h.onward m' hm').kept c _ hs
  rcases h.asks m hm .commit t c asks with report | ⟨f, failed⟩
  · exact ⟨c, report, succeeded⟩
  · cases succeeded.symm.trans failed

theorem result_eq {e : Parcel × Fate} (he : e ∈ G.taken) : G.result e.1.message = e.2.delivery? := by
  have found : G.taken.find? (·.1.index = e.1.index) = some e := by
    rw [List.find?_eq_some_iff_append]
    obtain ⟨before, after, split⟩ := List.append_of_mem he
    refine ⟨decide_eq_true rfl, before, after, split, fun e' he' => ?_⟩
    have nodup := h.nodup_indices
    rw [Ledger.parcels, split, List.map_append, List.map_append, List.map_append] at nodup
    have apart := (List.nodup_append.1 (List.nodup_append.1 nodup).1).2.2 e'.1.index
      (by simpa using ⟨e'.1, ⟨e'.2, he'⟩, rfl⟩) e.1.index (by simp)
    simpa using apart
  rw [Ledger.result]
  exact (congrArg (·.bind fun e => e.2.delivery?) found).trans rfl

/-- **A committed transaction is published** as a whole, by one task. -/
theorem all (distinct : Distinct w) (ht : Committed past t) : Published past t := by
  obtain ⟨m, hm, run, hp⟩ := h.published distinct t (h.concluded ht)
  -- No message of the transaction waits any more.
  have arrived {p : Parcel} (hp' : p ∈ G.parcels) (hpt : p.transaction = t) :
      ∃ fate, (p, fate) ∈ G.taken := by
    rcases List.mem_append.1 hp' with hp' | hp'
    · obtain ⟨⟨p, fate⟩, he, rfl⟩ := List.mem_map.1 hp'
      exact ⟨fate, he⟩
    · exact absurd hpt (hp.waiting p hp')
  have staged : (Peer.messages past t).filterMap G.result = G.staged t := by
    have none : G.waiting.filter (·.transaction = t) = [] :=
      List.filter_eq_nil_iff.2 fun x hx => by simpa using hp.waiting x hx
    have mine : Peer.messages past t = (G.taken.filter (·.1.transaction = t)).map (·.1.message) := by
      rw [Peer.messages, ← h.messages, List.filter_map, Ledger.parcels, List.filter_append]
      have : G.waiting.filter ((fun x : Message => decide (x.transaction = t)) ∘ (·.message)) = [] :=
        none
      rw [this, List.append_nil, List.filter_map, List.map_map]
      rfl
    rw [mine, List.filterMap_map, Ledger.staged_eq]
    refine List.filterMap_congr fun e he => ?_
    obtain ⟨he, het⟩ := List.mem_filter.1 he
    rw [Function.comp, h.result_eq he]
    have known := hp.known e he (of_decide_eq_true het)
    cases fate : e.2 with
    | failed => rfl
    | lost d => exact absurd fate (known d)
    | staged d => rfl
  refine ⟨m, hm, run, G.result, fun x hx => ?_, fun address => ?_⟩
  · obtain ⟨p, hp', hpt, rfl⟩ := h.mem_messages.1 hx
    obtain ⟨fate, he⟩ := arrived hp' hpt
    have result := h.result_eq he
    refine ⟨?_, fun d hd => ?_, fun lost => ?_⟩
    · rw [result]
      exact h.takenIn he
    · rw [result] at hd
      exact (h.calm.common.fresh _ he d hd).2
    · rw [result] at lost
      have receipt : p.receipt = none := by
        cases hr : p.receipt with
        | none => rfl
        | some r =>
          obtain ⟨d, hd⟩ := hp.clean _ he hpt (by simp [hr])
          rw [show fate = .staged d from hd] at lost
          cases lost
      simp [Parcel.message, receipt]
  · rw [staged]
    exact hp.queue address

/-- **Of any other transaction nothing is seen.** -/
theorem nothing (distinct : Distinct w) (ht : ¬ Committed past t) : Withheld past t := by
  intro x hx d hd m hm address d' hd' same
  obtain ⟨p, hp, hpt, rfl⟩ := h.mem_messages.1 hx
  obtain ⟨fate, he, hf⟩ := h.mem_taken hp hd
  obtain ⟨-, concluded⟩ := h.seen distinct m hm d' (.inl ⟨address, hd'⟩)
  exact ht (h.committed (concluded t ⟨_, he, hpt, d, hf, same.symm⟩))

end Recorded

/-- **All or nothing.** If the commit of a transaction succeeded, every message that was sent in it
was published, in the order of sending and by one task of the loop, except presettled ones that were
made to fail. Otherwise none of its messages was ever in a queue. -/
theorem history_all_or_nothing {refusesLinks : Bool} {steps : List Step} {t : Nat}
    (hb : ∀ m ∈ history refusesLinks steps, Bounded m.after) :
    (Committed (history refusesLinks steps) t → Published (history refusesLinks steps) t) ∧
      (¬ Committed (history refusesLinks steps) t → Withheld (history refusesLinks steps) t) := by
  obtain ⟨before, last⟩ := play_before (bounded_initial refusesLinks) hb
  obtain ⟨G, h⟩ := (recorded_initial refusesLinks).play fun m hm => (before m hm).countable
  exact ⟨h.all last.distinct, h.nothing last.distinct⟩

/-- A session sends two messages and commits. -/
def commitSteps : List Step :=
  [.newSession ⟨"c", .ofNat 1⟩ {}, .newProducer 0 (some ⟨"q", .queue⟩), .start 0, .runOne, .runOne,
    .send 0 "a" none, .send 0 "b" none, .finish 0 .commit, .runOne, .runOne, .runOne]

theorem history_all_or_nothing_commit :
    (∀ m ∈ history false commitSteps, Bounded m.after) ∧
    (messages (history false commitSteps) 0).map (·.body) = ["a", "b"] ∧
    Published (history false commitSteps) 0 := by
  have bounded : ∀ m ∈ history false commitSteps, Bounded m.after := by decide +kernel
  have committed : Committed (history false commitSteps) 0 := by
    have asked : ∃ m ∈ history false commitSteps, m.Asks .commit 0 7 := by decide +kernel
    have told : ∃ m ∈ history false commitSteps,
        ((m.after.client.completions[7]?.bind (·.resolution?)).bind (·.value?)).isSome := by
      decide +kernel
    obtain ⟨m, hm, asks⟩ := asked
    obtain ⟨m', hm', succeeded⟩ := told
    refine ⟨m, hm, 7, asks, m', hm', ?_⟩
    match m'.after.client.completions[7]?, succeeded with
    | some (.settled (.succeeded ())), _ => rfl
  exact ⟨bounded, by decide +kernel, (history_all_or_nothing bounded).1 committed⟩

end Transact.Peer
