import Transact.Proofs.Isolation.Sessions

/-! # Sessions do not interfere

Each session of a run has a pairing of its own with the run that is left when all others are deleted.
Whatever a session does concerns nothing that the pairings of the others speak of (`Strangers.aside`),
and by itself it does the same in its own run. So the runs go on side by side (`Abreast`), and every
session sees in the shared run what it would see alone.

* `views_alone`: sessions that use queues of their own do not interfere. -/

namespace Transact.Peer.Isolation

open Run

namespace Pairing

/-! ### Other sessions -/

/-- Two sessions have nothing in common. -/
structure Strangers (ρ τ : Pairing) : Prop where
  numbers : ∀ {k a b c}, ρ.numbers k a b → ¬ τ.numbers k a c
  names : ∀ {t u u'}, ρ.names t u → ¬ τ.names t u'
  tags : ∀ {m n n'}, ρ.tags m n → ¬ τ.tags m n'
  mine : ∀ {a}, ρ.mine a → ¬ τ.mine a

namespace Strangers

variable {ρ τ τ' : Pairing} {w w' v : State}

theorem symm (h : ρ.Strangers τ) : τ.Strangers ρ :=
  ⟨fun x y => h.numbers y x, fun x y => h.names y x, fun x y => h.tags y x, fun x y => h.mine y x⟩

theorem fresh (h : ρ.Strangers τ) (hm : ρ.Mirrors w v) (hf : τ.Fresh τ' w) (hg : τ.Grows τ') :
    ρ.Strangers τ' where
  numbers hρ hτ := by
    rcases hf.numbers _ _ _ hτ with old | new
    · exact h.numbers hρ old
    · exact Nat.not_le.2 (hm.lt hρ).1 new
  names hρ hτ := by
    rcases hf.names _ _ hτ with old | new
    · exact h.names hρ old
    · exact new (hm.broker.named _ _ hρ).1
  tags hρ hτ := by
    rcases hf.tags _ _ hτ with old | new
    · exact h.tags hρ old
    · exact Nat.not_le.2 (hm.broker.tagged _ _ hρ).1.1 new
  mine hρ hτ := h.mine hρ (hg.mine ▸ hτ)

variable {b b' c d : Broker}

theorem not_owns (h : ρ.Strangers τ) {e : Nat} (he : τ.owns e = true) : ρ.owns e = false := by
  obtain ⟨f, hf⟩ := owns_iff.1 he
  rw [Bool.eq_false_iff]
  intro own
  obtain ⟨g, hg⟩ := owns_iff.1 own
  exact h.numbers hg hf

/-- The live transactions of a session are those that it had, whatever another one did. -/
theorem live (h : ρ.Strangers τ) {es es' fs gs : List (TxnId × Record)} (hl : ρ.Live es fs)
    (hs : τ.Spared es es') (ho : τ.Live es' gs) : ρ.Live es' fs where
  paired := by
    rw [hs ρ.owns fun e he => h.not_owns he]
    exact hl.paired
  strange e he hn u hu := by
    cases own : τ.owns e.2.link with
    | true =>
      have mem : e ∈ es'.filter fun e => τ.owns e.2.link := List.mem_filter.2 ⟨he, own⟩
      obtain ⟨i, hi⟩ := List.getElem?_of_mem mem
      rcases (ho.paired.getElem? i).none_or_some with ⟨none, -⟩ | ⟨e', f, some, -, hf⟩
      · cases hi.symm.trans none
      · obtain rfl := Option.some.inj (hi.symm.trans some)
        exact h.names hu hf.1
    | false =>
      have mem : e ∈ es'.filter fun p => decide (p.2.link = e.2.link) :=
        List.mem_filter.2 ⟨he, decide_eq_true rfl⟩
      rw [hs (fun l => decide (l = e.2.link)) fun l hl => decide_eq_false fun el => by
        rw [← el, hl] at own
        cases own] at mem
      exact hl.strange e (List.mem_filter.1 mem).1 hn u hu

theorem brokers (h : ρ.Strangers τ) (hb : ρ.Brokers b c) (hs : τ.SparesBroker b b')
    (ho : τ.Brokers b' d) : ρ.Brokers b' c where
  faithful := hb.faithful
  live := h.live hb.live hs.records ho.live
  queues a ha := by
    rw [hs.queues a (h.mine ha)]
    exact hb.queues a ha
  inflight m n hm := by
    rw [hs.inflight m fun n' => h.tags hm]
    exact hb.inflight m n hm
  named t u ht := ⟨(hb.named t u ht).1.mono hs.txnCounter, (hb.named t u ht).2⟩
  tagged m n hm := by
    obtain ⟨⟨lt, le⟩, right⟩ := hb.tagged m n hm
    exact ⟨⟨Nat.lt_of_lt_of_le lt hs.tagCounter, le⟩, right⟩
  given := ho.given
  unused := ⟨ho.unused.1, hb.unused.2⟩
  txnCounter := ⟨hb.txnCounter.1, Nat.le_trans hb.txnCounter.2 hs.txnCounter⟩
  tagCounter := Nat.le_trans hb.tagCounter hs.tagCounter
  willing := ⟨ho.willing.1, hb.willing.2⟩

/-- **What another session does leaves things as they are.** -/
theorem aside (h : ρ.Strangers τ) (hm : ρ.Mirrors w v) (hs : τ.Spares w w') {u : State}
    (ho : τ.Mirrors w' u) : ρ.Mirrors w' v where
  broker := h.brokers hm.broker hs.broker ho.broker
  entries k a b hab := by
    rw [hs.entries k a fun c => h.numbers hab]
    exact hm.entries k a b hab
  linked := ho.linked
  opens := ⟨ho.opens.1, hm.opens.2⟩

end Strangers

end Pairing

/-! ### What waits -/

namespace Venue

/-- The tasks that wait because of a session, the oldest first. -/
def caused (V : Venue) (s : Nat) : List Task :=
  (((tasks V.world).zip V.causes).filter (·.2 = s)).map (·.1)

variable {V V' : Venue} {s t : Nat} {ts : List Task}

theorem caused_scheduled (hl : V.causes.length = (tasks V.world).length)
    (ht : tasks V'.world = tasks V.world ++ ts)
    (hc : V'.causes = V.causes ++ List.replicate ts.length t) :
    V'.caused s = V.caused s ++ if s = t then ts else [] := by
  have new : ((ts.zip (List.replicate ts.length t)).filter (·.2 = s)).map (·.1) =
      if s = t then ts else [] := by
    clear ht hc
    induction ts with
    | nil => simp
    | cons x ts ih =>
      by_cases e : s = t
      · simpa [List.replicate_succ, e] using ih
      · simpa [List.replicate_succ, e, Ne.symm e] using ih
  rw [caused, ht, hc, List.zip_append hl.symm, List.filter_append, List.map_append, new, caused]

/-- The venue once the oldest task has started. -/
def started (V : Venue) (loop : Loop Task) : Venue :=
  { V with world := V.world.out (·.withLoop loop), causes := V.causes.tail }

theorem caused_started {loop : Loop Task} {job : Task} {rest : List Nat}
    (hc : V.causes = t :: rest) (ht : tasks V.world = job :: tasks (V.started loop).world) :
    V.caused s = (if s = t then [job] else []) ++ (V.started loop).caused s := by
  have causes : (V.started loop).causes = rest := by rw [started, hc]; rfl
  rw [caused, ht, hc, caused, causes]
  by_cases e : t = s
  · simp [e]
  · simp [e, Ne.symm e]

end Venue

theorem runOne_cons {h : Surroundings} {w : State} {job : Task} {rest : List Task}
    (ht : tasks w = job :: rest) :
    ∃ label loop, tasks (w.out (·.withLoop loop)) = rest ∧ ∀ {α : Type} (a : α),
      (do discard (Loop.runOne (exec h)); return a : Peering α) w =
        (do exec h label job; return a : Peering α) (w.out (·.withLoop loop)) := by
  cases e : w.outside.loop.tasks.popFront? with
  | none =>
    rw [tasks, Queue.popFront?_eq_none e] at ht
    cases ht
  | some x =>
    obtain ⟨⟨label, job'⟩, queue⟩ := x
    rw [tasks, Queue.popFront?_eq_some e, List.map_cons] at ht
    obtain ⟨rfl, same⟩ := List.cons.inj ht
    refine ⟨label, { tasks := queue, executed := w.outside.loop.executed + 1 }, same, fun a => ?_⟩
    have start : w.outside.loop.start? =
        some ((label, job'), { tasks := queue, executed := w.outside.loop.executed + 1 }) := by
      rw [Loop.start?, e]
      rfl
    have look : (Loop.get : Peering (Loop Task)) w = .ok w.outside.loop w := rfl
    have run : Loop.runOne (exec h) w = (do exec h label job'; return true : Peering Bool)
        (w.out (·.withLoop { tasks := queue, executed := w.outside.loop.executed + 1 })) := by
      unfold Loop.runOne
      simp only [Bind.bind, EStateM.bind, look, start]
      rfl
    simp only [discard, Functor.discard, Functor.mapConst, Function.comp, Bind.bind, EStateM.bind,
      EStateM.map, run]
    cases exec h label job'
      (w.out (·.withLoop { tasks := queue, executed := w.outside.loop.executed + 1 })) <;> rfl

/-! ### Side by side -/

/-- A session in the shared run and in its own run. -/
structure Beside (V : Venue) (t : Nat) (ρ : Pairing) (U : Venue) : Prop where
  mirrors : ρ.Mirrors V.world U.world
  holdings : ρ.Holdings (V.hand t) (U.hand 0)
  member : U.held.length = if t < V.held.length then 1 else 0
  waiting : List.Forall₂ ρ.Tasks (V.caused t) (tasks U.world)
  causes : U.causes = List.replicate (tasks U.world).length 0

/-- **All sessions of a run, each beside its own run.** -/
structure Abreast (events : List Event) (V : Venue) (ρ : Nat → Pairing) (U : Nat → Venue) : Prop where
  beside : ∀ t, Beside V t (ρ t) (U t)
  mine : ∀ t, (ρ t).mine = Uses events t
  strangers : ∀ s t, s ≠ t → (ρ s).Strangers (ρ t)
  causes : V.causes.length = (tasks V.world).length

/-- What is paired before anything has happened: nothing. -/
def Pairing.empty (mine : String → Prop) : Pairing where
  numbers _ _ _ := False
  names _ _ := False
  tags _ _ := False
  mine := mine

theorem Pairing.mirrors_empty {mine : String → Prop} : (Pairing.empty mine).Mirrors initial initial where
  broker := {
    faithful := ⟨fun _ => ⟨nofun, nofun⟩, ⟨nofun, nofun⟩, ⟨nofun, nofun⟩⟩
    live := ⟨.nil, nofun⟩
    queues := fun _ _ => .nil
    inflight := nofun
    named := nofun
    tagged := nofun
    given := nofun
    unused := ⟨fun _ _ => rfl, fun _ _ => rfl⟩
    txnCounter := ⟨Nat.one_pos, Nat.le_refl 1⟩
    tagCounter := Nat.le_refl 1
    willing := ⟨⟨rfl, rfl, rfl⟩, rfl, rfl, rfl⟩ }
  entries := nofun
  linked := nofun
  opens := ⟨rfl, rfl⟩

theorem abreast_nothing {events : List Event} (ha : Apart events) :
    Abreast events {} (fun t => .empty (Uses events t)) fun _ => {} where
  beside _ := ⟨Pairing.mirrors_empty, .none, rfl, .nil, rfl⟩
  mine _ := rfl
  strangers _ _ hst := ⟨nofun, nofun, nofun, fun hs ht => hst (ha _ hs _ ht rfl)⟩
  causes := rfl

section

variable {events : List Event} {V V' U U' : Venue} {ρ ρ' : Pairing} {s t : Nat}
  {x y : Held → Peering (Held × Option String)}

theorem forall₂_range' {R : Nat → Nat → Prop} {a b n : Nat} (h : ∀ i < n, R (a + i) (b + i)) :
    List.Forall₂ R (List.range' a n) (List.range' b n) := by
  induction n generalizing a b with
  | zero => exact .nil
  | succ n ih =>
    refine .cons (h 0 (Nat.succ_pos n)) (ih fun i hi => ?_)
    have next := h (i + 1) (Nat.succ_lt_succ hi)
    rwa [Nat.add_comm i 1, ← Nat.add_assoc, ← Nat.add_assoc] at next

theorem Pairing.Ends.acts {x y : Peering (Held × Option String)} {w v : State} {held held' : Held}
    (hh : ρ.Holdings held held') (e : ρ.Ends Pairing.Performed w v (x w) (y v)) :
    ∃ ρ', ρ.Follows ρ' w v (x.observe w).2 (y.observe v).2 ∧
      ρ'.Holdings (((x.observe w).1.map (·.1)).toOption.getD held)
        (((y.observe v).1.map (·.1)).toOption.getD held') ∧
      Reply.of ((x.observe w).1.map (·.2)) = Reply.of ((y.observe v).1.map (·.2)) := by
  unfold Run.observe
  generalize x w = r, y v = r' at e
  cases e with
  | returned h ret => exact ⟨_, h, ret.1, congrArg Reply.returned ret.2⟩
  | raised h akin => exact ⟨_, h, hh.mono h.grows, congrArg Reply.raised akin.kind_eq⟩
  | exhausted h => exact ⟨_, h, hh.mono h.grows, rfl⟩

theorem hand_set {held : List Held} {new : Held} :
    (held.set s new).getD t default =
      if s = t ∧ t < held.length then new else held.getD t default := by
  rw [List.getD_eq_getElem?_getD, List.getElem?_set, List.getD_eq_getElem?_getD]
  by_cases e : s = t
  · by_cases lt : t < held.length
    · simp [e, lt]
    · simp [e, lt]
  · simp [e]

theorem hand_act : (V.act t V.causes x).2.hand s =
    if t = s ∧ s < V.held.length then
      let held := (((x (V.hand t)).observe V.world).1.map (·.1)).toOption.getD (V.hand t)
      let links := List.range' V.world.client.links.size
        (((x (V.hand t)).observe V.world).2.client.links.size - V.world.client.links.size)
      { held with links := held.links ++ links }
    else V.hand s :=
  hand_set

theorem causes_act (hc : V.causes.length = (tasks V.world).length) {ts : List Task}
    (ht : tasks (V.act t V.causes x).2.world = tasks V.world ++ ts) :
    (V.act t V.causes x).2.causes = V.causes ++ List.replicate ts.length t := by
  have counted : (tasks (V.act t V.causes x).2.world).length - V.causes.length = ts.length := by
    rw [ht, List.length_append, hc, Nat.add_sub_cancel_left]
  rw [← counted]
  rfl

namespace Beside

/-- What a session is left with when another one has done something. -/
theorem other (h : Beside V s ρ U) (mirrors : ρ.Mirrors V'.world U.world)
    (hand : V'.hand s = V.hand s) (made : s < V'.held.length ↔ s < V.held.length)
    (caused : V'.caused s = V.caused s) : Beside V' s ρ U where
  mirrors := mirrors
  holdings := by
    rw [hand]
    exact h.holdings
  member := by
    simp only [made]
    exact h.member
  waiting := by
    rw [caused]
    exact h.waiting
  causes := h.causes

/-- **A session does the same by itself.** -/
theorem act (h : Beside V t ρ U) (hc : V.causes.length = (tasks V.world).length)
    (e : ρ.Ends Pairing.Performed V.world U.world (x (V.hand t) V.world) (y (U.hand 0) U.world)) :
    ∃ ρ', ρ.Follows ρ' V.world U.world (V.act t V.causes x).2.world (U.act 0 U.causes y).2.world ∧
      Beside (V.act t V.causes x).2 t ρ' (U.act 0 U.causes y).2 ∧
      (V.act t V.causes x).1 = (U.act 0 U.causes y).1 := by
  obtain ⟨ρ', hf, holdings, reply⟩ := e.acts h.holdings
  obtain ⟨ts, us, hw, hv, paired⟩ := hf.scheduled
  have causes : U.causes.length = (tasks U.world).length := by rw [h.causes, List.length_replicate]
  refine ⟨ρ', hf, ⟨hf.mirrors, ?_, ?_, ?_, ?_⟩, reply⟩
  · rw [hand_act, hand_act, h.member]
    by_cases made : t < V.held.length
    · rw [if_pos ⟨rfl, made⟩, if_pos made, if_pos ⟨rfl, Nat.one_pos⟩]
      obtain ⟨n, size, size', paired⟩ := hf.links
      refine { holdings with links := List.rel_append holdings.links ?_ }
      rw [size, size', Nat.add_sub_cancel_left, Nat.add_sub_cancel_left]
      exact forall₂_range' paired
    · rw [if_neg fun h => made h.2, if_neg made, if_neg fun h => Nat.lt_irrefl 0 h.2]
      exact h.holdings.mono hf.grows
  · simpa [Venue.act] using h.member
  · rw [Venue.caused_scheduled hc hw (causes_act hc hw), if_pos rfl]
    exact hv ▸ List.rel_append (h.waiting.imp fun _ _ => Pairing.Tasks.mono hf.grows) paired
  · rw [causes_act causes hv, h.causes, List.replicate_append_replicate, ← List.length_append]
    exact congrArg (List.replicate · 0) (congrArg List.length hv.symm)

end Beside

/-! ### What is seen -/

theorem Verdict.of_akin {x y : Status Unit} (h : x.Akin y) : Verdict.of x = Verdict.of y := by
  cases h with
  | pending => rfl
  | settled h =>
    cases h with
    | succeeded => rfl
    | failed h => exact congrArg Verdict.failed h.kind_eq

/-- **A session sees what it would see alone.** -/
theorem Beside.view_eq (h : Beside V t ρ U) {addresses : List String}
    (ha : ∀ a ∈ addresses, ρ.mine a) (r : Reply) : V.view t addresses r = U.view 0 addresses r := by
  have verdict {c c' : Nat} (hc : ρ.numbers .completion c c') : V.verdict c = U.verdict c' := by
    obtain ⟨x, y, hx, hy, akin⟩ := h.mirrors.entries .completion c c' hc
    show (V.world.client.completions[c]?).map Verdict.of = (U.world.client.completions[c']?).map Verdict.of
    rw [show V.world.client.completions[c]? = some x from hx,
      show U.world.client.completions[c']? = some y from hy]
    exact congrArg some (Verdict.of_akin akin)
  unfold Venue.view
  congr 1
  · exact List.forall₂_eq_eq_eq ▸ List.rel_map (fun _ _ hc => verdict hc) h.holdings.completions
  · rcases h.holdings.session.none_or_some with ⟨e, e'⟩ | ⟨n, n', e, e', hn⟩
    · rw [e, e']
      rfl
    rw [e, e', Option.bind_some, Option.bind_some]
    have session : ρ.Sessions (V.world.outside.session n) (U.world.outside.session n') :=
      h.mirrors.found (k := .session) hn
    rcases session.beginning.none_or_some with ⟨b, b'⟩ | ⟨c, c', b, b', hc⟩
    · rw [b, b']
      rfl
    · rw [b, b']
      exact verdict hc
  · refine List.map_congr_left fun a mem => ?_
    have waiting := h.mirrors.broker.queues a (ha a mem)
    exact List.forall₂_eq_eq_eq ▸ List.rel_map (fun _ _ hd => hd.body) waiting

end

/-! ### One step of a run -/

namespace Abreast

open Function

variable {events : List Event} {V V' U' : Venue} {ρ : Nat → Pairing} {U : Nat → Venue}
  {τ : Pairing} {s t : Nat} {x y : Held → Peering (Held × Option String)}

/-- One session has moved on, and the others are where they were. -/
theorem moved (h : Abreast events V ρ U) (ht : Beside V' t τ U') (hg : (ρ t).Grows τ)
    (others : ∀ s, s ≠ t → Beside V' s (ρ s) (U s)) (strangers : ∀ s, s ≠ t → (ρ s).Strangers τ)
    (causes : V'.causes.length = (tasks V'.world).length) :
    Abreast events V' (update ρ t τ) (update U t U') where
  beside s := by
    by_cases e : s = t
    · subst e
      rw [update_self, update_self]
      exact ht
    · rw [update_of_ne e, update_of_ne e]
      exact others s e
  mine s := by
    by_cases e : s = t
    · subst e
      rw [update_self, hg.mine]
      exact h.mine s
    · rw [update_of_ne e]
      exact h.mine s
  strangers r s hrs := by
    by_cases er : r = t
    · subst er
      rw [update_self, update_of_ne hrs.symm]
      exact (strangers s hrs.symm).symm
    · rw [update_of_ne er]
      by_cases es : s = t
      · subst es
        rw [update_self]
        exact strangers r hrs
      · rw [update_of_ne es]
        exact h.strangers r s hrs
  causes := causes

/-- **What a session does keeps all sessions beside their own runs.** -/
theorem act (h : Abreast events V ρ U) (e : (ρ t).Ends Pairing.Performed V.world (U t).world
    (x (V.hand t) V.world) (y ((U t).hand 0) (U t).world)) :
    ∃ τ, Abreast events (V.act t V.causes x).2 (update ρ t τ)
        (update U t ((U t).act 0 (U t).causes y).2) ∧
      (V.act t V.causes x).1 = ((U t).act 0 (U t).causes y).1 := by
  obtain ⟨τ, hf, beside, reply⟩ := (h.beside t).act h.causes e
  obtain ⟨ts, us, hw, -, -⟩ := hf.scheduled
  have strangers : ∀ s, s ≠ t → (ρ s).Strangers τ := fun s hs =>
    (h.strangers s t hs).fresh (h.beside s).mirrors hf.fresh hf.grows
  refine ⟨τ, h.moved beside hf.grows (fun s hs => ?_) strangers ?_, reply⟩
  · refine (h.beside s).other ((strangers s hs).aside (h.beside s).mirrors hf.spares hf.mirrors) ?_ ?_ ?_
    · rw [hand_act, if_neg fun e => hs e.1.symm]
    · simp [Venue.act]
    · rw [Venue.caused_scheduled h.causes hw (causes_act h.causes hw), if_neg hs, List.append_nil]
  · rw [causes_act h.causes hw, hw, List.length_append, List.length_append, List.length_replicate,
      h.causes]

theorem call (h : Abreast events V ρ U) {call : Call} (hc : .call t call ∈ events) :
    ∃ τ, Abreast events (V.step (.call t call)).2 (update ρ t τ)
        (update U t ((U t).step (.call 0 call)).2) ∧
      (V.step (.call t call)).1 = ((U t).step (.call 0 call)).1 := by
  have alike : (ρ t).Alike Pairing.Performed ((V.hand t).call call) (((U t).hand 0).call call) :=
    Pairing.alike_call (h.beside t).holdings fun a ha =>
      (h.mine t).symm ▸ List.mem_flatMap.2 ⟨_, hc, List.mem_map.2 ⟨a, ha, rfl⟩⟩
  exact h.act (x := fun held => held.call call) (y := fun held => held.call call)
    (alike _ _ (h.beside t).mirrors)

theorem getD_append_default {held : List Held} {i : Nat} :
    (held ++ [default]).getD i default = held.getD i default := by
  rw [List.getD_eq_getElem?_getD, List.getD_eq_getElem?_getD, List.getElem?_append]
  split
  · rfl
  · next le =>
    rw [List.getElem?_eq_none (Nat.le_of_not_lt le)]
    cases i - held.length <;> rfl

theorem newSession (h : Abreast events V ρ U) (id : SessionId) (policy : Presettling) :
    ∃ τ, Abreast events (V.step (.newSession id policy)).2 (update ρ V.held.length τ)
        (update U V.held.length ((U V.held.length).step (.newSession id policy)).2) ∧
      (V.step (.newSession id policy)).1 = ((U V.held.length).step (.newSession id policy)).1 := by
  have made := h.beside V.held.length
  have empty : (U V.held.length).held.length = 0 := by
    rw [made.member, if_neg (Nat.lt_irrefl _)]
  have first : Abreast events { V with held := V.held ++ [default] }
      (update ρ V.held.length (ρ V.held.length)) (update U V.held.length
        { U V.held.length with held := (U V.held.length).held ++ [default] }) := by
    refine h.moved ⟨made.mirrors, ?_, ?_, made.waiting, made.causes⟩ (.refl _) (fun s hs => ?_)
      (fun s hs => h.strangers s _ hs) h.causes
    · unfold Venue.hand
      rw [getD_append_default, getD_append_default]
      exact made.holdings
    · simp [empty]
    · refine (h.beside s).other (h.beside s).mirrors getD_append_default ?_ rfl
      rw [List.length_append, List.length_singleton]
      omega
  rw [update_eq_self] at first
  have alike : (ρ V.held.length).Alike Pairing.Performed
      (do return ({ session := ← Peer.newSession id policy }, none))
      (do return ({ session := ← Peer.newSession id policy }, none)) :=
    Pairing.alike_newSession.bind fun _ _ _ _ hs =>
      Pairing.alike_pure ⟨⟨.some hs, .nil, .nil, .nil, .nil⟩, rfl⟩
  have ends := alike _ _ made.mirrors
  obtain ⟨τ, abreast, reply⟩ := first.act (t := V.held.length)
    (x := fun _ => do return ({ session := ← Peer.newSession id policy }, none))
    (y := fun _ => do return ({ session := ← Peer.newSession id policy }, none)) (by
      rw [update_self]
      exact ends)
  rw [update_self, update_idem] at abreast
  rw [update_self] at reply
  unfold Venue.step
  rw [empty]
  exact ⟨τ, abreast, reply⟩

theorem kept_withLoop {w : State} {loop : Loop Task} :
    Pairing.Kept w (w.out (·.withLoop loop)) := ⟨fun k => by cases k <;> rfl, rfl, rfl⟩

/-- The oldest task starts, in the shared run and in the run of the session that caused it. -/
theorem start (h : Abreast events V ρ U) {rest : List Nat} (hc : V.causes = t :: rest)
    {job job' : Task} {loop loop' : Loop Task}
    (ht : tasks V.world = job :: tasks (V.started loop).world)
    (hu : tasks (U t).world = job' :: tasks ((U t).started loop').world) :
    (ρ t).Tasks job job' ∧
      Abreast events (V.started loop) ρ (update U t ((U t).started loop')) := by
  have own := h.beside t
  have waiting := own.waiting
  rw [Venue.caused_started hc ht, if_pos rfl, hu] at waiting
  obtain ⟨paired, waiting⟩ := List.forall₂_cons.1 waiting
  refine ⟨paired, ?_⟩
  have beside : Beside (V.started loop) t (ρ t) ((U t).started loop') := by
    refine ⟨own.mirrors.kept kept_withLoop kept_withLoop, own.holdings, own.member, waiting, ?_⟩
    rw [Venue.started, own.causes, hu]
    rfl
  have moved := h.moved beside (.refl _) (fun s hs => ?_) (fun s hs => h.strangers s t hs) ?_
  · rwa [update_eq_self] at moved
  · refine (h.beside s).other ((h.beside s).mirrors.kept kept_withLoop ⟨fun _ => rfl, rfl, rfl⟩) rfl
      Iff.rfl ?_
    rw [Venue.caused_started hc ht, if_neg hs, List.nil_append]
  · have count := h.causes
    rw [hc, ht] at count
    rw [Venue.started, hc]
    exact Nat.succ.inj count

theorem step_runOne {rest : List Nat} (hc : V.causes = t :: rest) {job : Task} {more : List Task}
    (ht : tasks V.world = job :: more) :
    ∃ label loop, tasks (V.started loop).world = more ∧
      V.step .runOne = (V.started loop).act t (V.started loop).causes fun held => do
        exec peer label job
        return (held, none) := by
  obtain ⟨label, loop, left, run⟩ := runOne_cons (h := peer) ht
  have same : Run.observe (do discard (Loop.runOne (exec peer)); return (V.hand t, (none : Option String)))
      V.world = Run.observe (do exec peer label job; return (V.hand t, none)) (V.started loop).world := by
    unfold Run.observe
    rw [run]
    rfl
  have causes : (V.started loop).causes = rest := by rw [Venue.started, hc]; rfl
  refine ⟨label, loop, left, ?_⟩
  rw [causes]
  unfold Venue.step
  rw [hc]
  unfold Venue.act
  dsimp only
  rw [same]
  rfl

theorem runOne (h : Abreast events V ρ U) (room : Roomy V.world) {rest : List Nat}
    (hc : V.causes = t :: rest) :
    ∃ τ, Abreast events (V.step .runOne).2 (update ρ t τ) (update U t ((U t).step .runOne).2) ∧
      (V.step .runOne).1 = ((U t).step .runOne).1 ∧ (U t).causes.head? = some 0 := by
  have own := h.beside t
  obtain ⟨job, more, ht⟩ : ∃ job more, tasks V.world = job :: more :=
    List.exists_cons_of_length_pos (by rw [← h.causes, hc]; exact Nat.succ_pos _)
  obtain ⟨label, loop, started, step⟩ := step_runOne hc ht
  have ht' : tasks V.world = job :: tasks (V.started loop).world := by rw [ht, started]
  have waiting := own.waiting
  rw [Venue.caused_started hc ht', if_pos rfl] at waiting
  obtain ⟨job', more', -, -, hu⟩ := List.forall₂_cons_left_iff.1 waiting
  have causes : (U t).causes = 0 :: List.replicate more'.length 0 := by
    rw [own.causes, hu]
    rfl
  obtain ⟨label', loop', started', step'⟩ := step_runOne causes hu
  have hu' : tasks (U t).world = job' :: tasks ((U t).started loop').world := by rw [hu, started']
  obtain ⟨paired, first⟩ := h.start hc ht' hu'
  have side := first.beside t
  rw [update_self] at side
  have task : (ρ t).Ends Pairing.Same (V.started loop).world ((U t).started loop').world
      (exec peer label job (V.started loop).world) (exec peer label' job' ((U t).started loop').world) :=
    Pairing.ends_exec Pairing.fair_peer side.mirrors ⟨room.names, room.tags⟩ paired
  have ends := task.bind fun τ w v _ _ hf _ => Pairing.alike_pure (R := Pairing.Performed)
    (a := (V.hand t, none)) (b := ((U t).hand 0, none)) ⟨own.holdings.mono hf.grows, rfl⟩ w v hf.mirrors
  obtain ⟨τ, abreast, reply⟩ := first.act (t := t)
    (x := fun held => do exec peer label job; return (held, none))
    (y := fun held => do exec peer label' job'; return (held, none)) (by
      rw [update_self]
      exact ends)
  rw [update_self, update_idem] at abreast
  rw [update_self] at reply
  rw [step, step', causes]
  exact ⟨τ, abreast, reply, rfl⟩

/-- **Whose step an event is in the shared run, that session does the same in its own run.** -/
theorem step (h : Abreast events V ρ U) (room : Roomy V.world) {e : Event} (he : e ∈ events)
    (doer : V.doer? e = some t) :
    ∃ τ, Abreast events (V.step e).2 (update ρ t τ) (update U t ((U t).step e.single).2) ∧
      (V.step e).1 = ((U t).step e.single).1 ∧ (U t).doer? e.single = some 0 := by
  cases e with
  | newSession id policy =>
    obtain rfl := Option.some.inj doer
    obtain ⟨τ, abreast, reply⟩ := h.newSession id policy
    refine ⟨τ, abreast, reply, ?_⟩
    show some (U V.held.length).held.length = some 0
    rw [(h.beside V.held.length).member, if_neg (Nat.lt_irrefl _)]
  | call s call =>
    obtain rfl := Option.some.inj doer
    obtain ⟨τ, abreast, reply⟩ := h.call he
    exact ⟨τ, abreast, reply, rfl⟩
  | runOne =>
    obtain ⟨rest, hc⟩ := List.head?_eq_some_iff.1 doer
    exact h.runOne room hc

theorem step_idle {e : Event} (doer : V.doer? e = none) : (V.step e).2 = V := by
  cases e with
  | newSession | call => cases doer
  | runOne =>
    have idle : V.causes = [] := List.head?_eq_none_iff.1 doer
    rw [Venue.step, idle]

/-! ### A whole run -/

theorem views_cons {addresses : List String} {e : Event} {rest : List Event} :
    views s addresses (e :: rest) V =
      if V.doer? e = some s then
        (V.step e).2.view s addresses (V.step e).1 :: views s addresses rest (V.step e).2
      else views s addresses rest (V.step e).2 := rfl

theorem views_eq (h : Abreast events V ρ U) {rest : List Event} (hr : ∀ e ∈ rest, e ∈ events)
    (room : ∀ W ∈ V.course rest, Roomy W.world) {addresses : List String}
    (ha : ∀ a ∈ addresses, Uses events s a) :
    views s addresses rest V = views 0 addresses (alone s rest V) (U s) := by
  induction rest generalizing V ρ U with
  | nil => rfl
  | cons e rest ih =>
    have later : ∀ e ∈ rest, e ∈ events := fun e he => hr e (List.mem_cons_of_mem _ he)
    have roomy : ∀ W ∈ (V.step e).2.course rest, Roomy W.world := fun W hW =>
      room W (List.mem_cons_of_mem _ hW)
    cases doer : V.doer? e with
    | none =>
      have nobody : ¬ (none : Option Nat) = some s := nofun
      rw [views_cons, alone, doer, if_neg nobody, if_neg nobody, step_idle doer]
      exact ih h later (step_idle doer ▸ roomy)
    | some t =>
      obtain ⟨τ, abreast, reply, same⟩ :=
        h.step (room V List.mem_cons_self) (hr e List.mem_cons_self) doer
      have ih := ih abreast later roomy
      by_cases own : t = s
      · subst own
        rw [update_self] at ih
        have beside := abreast.beside t
        rw [update_self, update_self] at beside
        rw [← abreast.mine t, update_self] at ha
        have seen := beside.view_eq ha (V.step e).1
        rw [views_cons, alone, doer, if_pos rfl, if_pos rfl, views_cons, same, if_pos rfl, ← ih, ← reply]
        exact congrArg (· :: _) seen
      · have other : ¬ some t = some s := fun e => own (Option.some.inj e)
        rw [views_cons, alone, doer, if_neg other, if_neg other, ih, update_of_ne (Ne.symm own)]

end Abreast

/-- **Sessions that share a peer do not interfere.** If no two of them name the same queue, each one
sees after every step of its own what it would see if all the others had never been there: the reply,
what became of its completions, and what is in its queues. -/
theorem views_alone {events : List Event} (apart : Apart events)
    (room : ∀ V ∈ Venue.course {} events, Roomy V.world) {s : Nat} {addresses : List String}
    (own : ∀ a ∈ addresses, Uses events s a) :
    views s addresses events {} = views 0 addresses (alone s events {}) {} :=
  (abreast_nothing apart).views_eq (fun _ => id) room own

/-- Two sessions, of which one loses its link while it has a message on the way. -/
def twoSessions : List Event :=
  [.newSession ⟨"left", .ofNat 1⟩ {}, .newSession ⟨"right", .ofNat 2⟩ {}, .call 0 .start, .call 1 .start,
    .runOne, .runOne, .runOne, .runOne,
    .call 0 (.newProducer (some ⟨"a", .queue⟩)), .call 1 (.newProducer (some ⟨"b", .queue⟩)),
    .call 0 (.newConsumer ⟨"a", .queue⟩), .call 1 (.send 0 "y" none), .call 0 (.send 0 "x" none),
    .runOne, .call 1 (.closeLink 0), .runOne, .call 1 (.finish .commit), .call 0 (.finish .commit),
    .runOne, .runOne, .runOne, .runOne, .call 0 (.receive 0)]

theorem views_alone_two :
    Apart twoSessions ∧ (∀ V ∈ Venue.course {} twoSessions, Roomy V.world) ∧
      views 0 ["a"] twoSessions {} = views 0 ["a"] (alone 0 twoSessions {}) {} ∧
      (alone 0 twoSessions {}).length = 12 ∧
      ((views 0 ["a"] twoSessions {}).getLast?.map (·.reply)) = some (.returned (some "x")) := by
  have apart : Apart twoSessions := by decide +kernel
  have room : ∀ V ∈ Venue.course {} twoSessions, Roomy V.world := by decide +kernel
  have own : ∀ a ∈ ["a"], Uses twoSessions 0 a := by decide +kernel
  exact ⟨apart, room, views_alone apart room own, by decide +kernel, by decide +kernel⟩

end Transact.Peer.Isolation
