import Mathlib.Data.List.Nodup
import Transact.Proofs.Peer.Quiet

/-! # Every message is in one place

A message that was ever in a queue goes through many hands: it is handed out to a consumer, waits in the
consumer's buffer, is acknowledged in a transaction, and is consumed or goes back. It is never lost, and
never in two places at once.

* `Place`: where a message can be; `places` are all places of a state.
* `Kept.step`, `Kept.play`: no two messages that are still there, or were consumed, have the same tag.
* `history_custody`: after every step each message is in one place, and only a session that is in a
  transaction holds any. -/

namespace Transact

/-! ### Rolls -/

namespace Roll

variable {κ α β : Type} {r : Roll κ α}

theorem coe_flatMap {f : α → List β} :
    ((r.entries.flatMap fun e => f e.2 : List β) : Multiset β) = r.total fun a => (f a : Multiset β) := by
  obtain ⟨es⟩ := r
  induction es with
  | nil => rfl
  | cons e es ih =>
    rw [total_cons, ← ih, List.flatMap_cons, Multiset.coe_add]

theorem flatMap_keys [DecidableEq κ] (h : r.keys.Nodup) {f : Option α → List β} :
    (r.keys.flatMap fun k => f (r.get? k)) = r.entries.flatMap fun e => f (some e.2) := by
  rw [keys, List.flatMap_map]
  exact List.flatMap_congr fun e he => by rw [get?_of_mem h he]

end Roll

namespace Peer

open Run

variable {G G' : Ledger} {w : State} {m : Moment} {past : List Moment} {steps : List Step} {g : Gain}
  {d : Delivery} {s c t : Nat} {y : TxnId} {p : Phase Waiting} {co : Option Nat} {S : Session}

/-! ### Places -/

/-- Where a message can be: in a queue, with a consumer, acknowledged or staged in a transaction, or
consumed for good. -/
inductive Place where
  | queue (address : String)
  | consumer (c : Nat)
  | acknowledged (y : TxnId)
  | staged (y : TxnId)
  | consumed

/-- The messages that were consumed. -/
def spent (past : List Moment) : List Delivery := past.flatMap Moment.consumed

/-- The messages in a place. -/
def Place.holds (past : List Moment) (w : State) : Place → List Delivery
  | queue address => (w.outside.broker.queue address).toList
  | consumer c => (w.outside.consumers[c]?).elim [] (·.received)
  | acknowledged y => (w.outside.broker.transactions.get? y).elim [] (·.acknowledged)
  | staged y => (w.outside.broker.transactions.get? y).elim [] (·.staged.toList)
  | consumed => spent past

/-- The message was in a queue after some step. -/
def Shown (past : List Moment) (d : Delivery) : Prop :=
  ∃ m ∈ past, ∃ address, d ∈ (m.after.outside.broker.queue address).toList

/-- **The message is in this place, and only there:** in its own queue, with a consumer to which it was
handed out, acknowledged in a live transaction, or consumed. -/
structure Sole (past : List Moment) (w : State) (d : Delivery) (place : Place) : Prop where
  here : d ∈ place.holds past w
  once : ((place.holds past w).map (·.tag)).Nodup
  elsewhere : ∀ other, other ≠ place → ∀ e ∈ other.holds past w, e.tag ≠ d.tag
  address : ∀ address, place = .queue address → d.address = address
  unstaged : ∀ y, place ≠ .staged y
  lent : w.outside.broker.inflight.get? d.tag = some d ↔ ∃ c, place = .consumer c

/-- Every message that was in a queue is in one place, and consumers hold messages only while their
session is in a transaction. -/
structure Custody (past : List Moment) (w : State) : Prop where
  placed : ∀ d, Shown past d → ∃ place, Sole past w d place
  bound : ∀ (c : Nat) (k : Consumer), w.outside.consumers[c]? = some k → k.received ≠ [] →
    InTransaction w k.session

/-- All places of a state. -/
def places (w : State) : List Place :=
  w.outside.broker.queues.keys.map .queue ++ (List.range w.outside.consumers.size).map .consumer ++
    w.outside.broker.transactions.keys.map .acknowledged ++
    w.outside.broker.transactions.keys.map .staged ++ [.consumed]

theorem mem_places {place : Place} (h : d ∈ place.holds past w) : place ∈ places w := by
  have live {y : TxnId} {f : Record → List Delivery}
      (h : d ∈ (w.outside.broker.transactions.get? y).elim [] f) :
      y ∈ w.outside.broker.transactions.keys := by
    by_contra hy
    rw [Roll.get?_eq_none.2 hy] at h
    cases h
  cases place with
  | queue address =>
    have : address ∈ w.outside.broker.queues.keys := by
      by_contra hq
      rw [Place.holds, Broker.queue, Roll.get?_eq_none.2 hq] at h
      cases h
    simp [places, this]
  | consumer c =>
    have : c < w.outside.consumers.size := by
      by_contra hc
      rw [Place.holds, Array.getElem?_eq_none (Nat.le_of_not_lt hc)] at h
      cases h
    simp [places, this]
  | acknowledged y => simp [places, live h]
  | staged y => simp [places, live h]
  | consumed => simp [places]

theorem mem_elim {α : Type} {a : Option α} {f : α → List Delivery} (h : d ∈ a.elim [] f) :
    ∃ x, a = some x ∧ d ∈ f x := by
  cases a with
  | none => cases h
  | some x => exact ⟨x, rfl, h⟩

theorem flatMap_consumers {f : Consumer → List Delivery} {table : Array Consumer} :
    ((List.range table.size).flatMap fun c => (table[c]?).elim [] f) = table.toList.flatMap f := by
  rw [List.flatMap_def, List.flatMap_def]
  congr 1
  refine List.ext_getElem (by simp) fun i h h' => ?_
  have : i < table.size := by simpa using h
  simp [this]

theorem coe_buffered {table : Array Consumer} :
    ((table.toList.flatMap (·.received) : List Delivery) : Multiset Delivery) = buffered table := by
  rw [buffered]
  induction table.toList with
  | nil => rfl
  | cons k ks ih => rw [List.map_cons, List.sum_cons, ← ih, List.flatMap_cons, Multiset.coe_add]

theorem mem_buffered {table : Array Consumer} :
    d ∈ buffered table ↔ ∃ (c : Nat) (k : Consumer), table[c]? = some k ∧ d ∈ k.received := by
  simp only [← coe_buffered, Multiset.mem_coe, List.mem_flatMap, Array.mem_toList_iff,
    Array.mem_iff_getElem?]
  exact ⟨fun ⟨k, ⟨c, hk⟩, hd⟩ => ⟨c, k, hk, hd⟩, fun ⟨c, k, hk, hd⟩ => ⟨k, ⟨c, hk⟩, hd⟩⟩

/-- **All messages** are in the stock, staged, or consumed. -/
theorem coe_places (past : List Moment) (keys : w.outside.broker.Shaped)
    (lent : w.outside.broker.lent = buffered w.outside.consumers) :
    (((places w).flatMap (·.holds past w) : List Delivery) : Multiset Delivery) =
      w.outside.broker.stock + w.outside.broker.staged + spent past := by
  have waiting := Roll.flatMap_keys keys.queues (f := fun q : Option (Queue Delivery) =>
    (q.getD {}).toList)
  have acknowledged := Roll.flatMap_keys keys.transactions (f := fun r : Option Record =>
    r.elim [] (·.acknowledged))
  have staged := Roll.flatMap_keys keys.transactions (f := fun r : Option Record =>
    r.elim [] (·.staged.toList))
  have all : (places w).flatMap (·.holds past w) =
      (w.outside.broker.queues.entries.flatMap fun e => e.2.toList) ++
        w.outside.consumers.toList.flatMap (·.received) ++
        (w.outside.broker.transactions.entries.flatMap fun e => e.2.acknowledged) ++
        (w.outside.broker.transactions.entries.flatMap fun e => e.2.staged.toList) ++
        spent past := by
    simp only [places, List.flatMap_append, List.flatMap_map, List.flatMap_singleton, Place.holds,
      flatMap_consumers, Broker.queue, waiting, acknowledged, staged]
    rfl
  rw [all, ← Multiset.coe_add, ← Multiset.coe_add, ← Multiset.coe_add, ← Multiset.coe_add,
    coe_buffered, ← lent, Roll.coe_flatMap (f := Queue.toList),
    Roll.coe_flatMap (f := Record.acknowledged),
    Roll.coe_flatMap (f := fun r : Record => r.staged.toList)]
  rfl

/-! ### What is kept -/

/-- What is known of all messages after the moments of `past`. -/
structure Kept (past : List Moment) (w : State) : Prop where
  tags : ((w.outside.broker.stock + w.outside.broker.staged + spent past).map (·.tag)).Nodup
  fresh : ∀ d ∈ w.outside.broker.stock + w.outside.broker.staged + spent past,
    d.tag < w.outside.broker.tagCounter
  shown : ∀ d, Shown past d → d ∈ w.outside.broker.stock + spent past

theorem kept_initial (refusesLinks : Bool) : Kept [] (initial refusesLinks) where
  tags := .nil
  fresh _ hd := absurd hd (Multiset.notMem_zero _)
  shown := by
    rintro d ⟨m, hm, -⟩
    cases hm

/-- **One more step.** Whatever is there afterwards, or was consumed, was there before or is new. -/
theorem Kept.step (h : Kept past m.before) (hc : Calm G m.before) (hx : Distinct m.before)
    (ha : Advance G m.before g G' m.after) (hs : Shows m g G') : Kept (past ++ [m]) m.after := by
  obtain ⟨-, gained, fresh, flow⟩ := ha.balance hx hc.common.sound
  have more : (spent (past ++ [m]) : Multiset Delivery) = spent past + g.lost m.before := by
    rw [spent, List.flatMap_append, List.flatMap_singleton, hs.consumed, ← Multiset.coe_add]
    rfl
  have le : m.after.outside.broker.stock + m.after.outside.broker.staged + spent (past ++ [m]) ≤
      m.before.outside.broker.stock + m.before.outside.broker.staged + spent past + fresh := by
    rw [more, add_comm (spent past : Multiset Delivery), ← add_assoc, add_right_comm _ _ fresh]
    exact add_le_add_left flow.whole _
  obtain ⟨tags, lt⟩ := flow.apart h.tags h.fresh
  refine ⟨Multiset.nodup_of_le (Multiset.map_le_map le) tags, fun d hd =>
    lt d (Multiset.mem_of_le le hd), ?_⟩
  rintro d ⟨m', hm', address, hd⟩
  rcases List.mem_append.1 hm' with hm' | hm'
  · have kept : m.before.outside.broker.stock + spent past ≤
        m.after.outside.broker.stock + spent (past ++ [m]) := by
      rw [more, add_comm (spent past : Multiset Delivery), ← add_assoc, flow.stock]
      exact add_le_add_left (Multiset.le_add_right _ _) _
    exact Multiset.mem_of_le kept (h.shown d ⟨m', hm', address, hd⟩)
  · obtain rfl := List.mem_singleton.1 hm'
    exact Multiset.mem_add.2 (.inl (Broker.mem_stock (.inl ⟨address, hd⟩)))

/-- **A whole run,** by induction on its steps. -/
theorem Kept.play (h : Kept past w) (hc : Calm G w)
    (hb : ∀ m ∈ play steps w, Countable m.before ∧ Distinct m.before) :
    Kept (past ++ Peer.play steps w) (reach steps w) ∧ ∃ G', Calm G' (reach steps w) := by
  induction steps generalizing past G w with
  | nil =>
    rw [Peer.play, List.append_nil]
    exact ⟨h, G, hc⟩
  | cons step rest ih =>
    obtain ⟨countable, distinct⟩ := hb (step.moment w) List.mem_cons_self
    obtain ⟨g, G', ha, hs⟩ := hc.moment step countable
    have next : Kept (past ++ [step.moment w]) (step.moment w).after := h.step hc distinct ha hs
    have last := ih next ha.calm fun m hm => hb m (List.mem_cons_of_mem _ hm)
    rw [List.append_assoc] at last
    exact last

/-! ### What a history shows -/

/-- **A message is in one place:** no two messages in all places have the same tag. -/
theorem Kept.sole (h : Kept past w) (sound : w.outside.broker.Sound)
    (lent : w.outside.broker.lent = buffered w.outside.consumers) (hd : Shown past d) :
    ∃ place, Sole past w d place := by
  have all := coe_places past sound.toShaped lent
  have nodup : ((places w).flatMap fun place => (place.holds past w).map (·.tag)).Nodup := by
    rw [← List.map_flatMap, ← Multiset.coe_nodup, ← Multiset.map_coe, all]
    exact h.tags
  obtain ⟨each, apart⟩ := List.nodup_flatMap.1 nodup
  have there : d ∈ (places w).flatMap (·.holds past w) := by
    rw [← Multiset.mem_coe, all, add_right_comm]
    exact Multiset.mem_add.2 (.inl (h.shown d hd))
  obtain ⟨place, hp, here⟩ := List.mem_flatMap.1 there
  have elsewhere {other : Place} {e : Delivery} (he : e ∈ other.holds past w) (same : e.tag = d.tag) :
      other = place := by
    by_contra ne
    have : Std.Symm (Function.onFun List.Disjoint fun place : Place =>
      (place.holds past w).map (·.tag)) := ⟨fun _ _ h => List.Disjoint.symm h⟩
    exact apart.forall (mem_places he) hp ne (List.mem_map_of_mem he) (same ▸ List.mem_map_of_mem here)
  refine ⟨place, here, each place hp, fun other ne e he same => ne (elsewhere he same), ?_, ?_, ?_⟩
  · rintro address rfl
    exact sound.addressed address d here
  · rintro y rfl
    -- What is staged has no tag of a message that was shown.
    obtain ⟨r, hr, staged⟩ := mem_elim here
    have tags := h.tags
    rw [add_right_comm, Multiset.map_add, Multiset.nodup_add] at tags
    exact Multiset.disjoint_left.1 tags.2.2 (Multiset.mem_map_of_mem _ (h.shown d hd))
      (Multiset.mem_map_of_mem _ (Roll.mem_total.2 ⟨_, Roll.mem_of_get? hr, staged⟩))
  · constructor
    · intro inflight
      have mem : d ∈ buffered w.outside.consumers := by
        rw [← lent]
        exact Roll.mem_total.2 ⟨_, Roll.mem_of_get? inflight, Multiset.mem_singleton_self d⟩
      obtain ⟨c, k, hk, received⟩ := mem_buffered.1 mem
      have found : d ∈ (Place.consumer c).holds past w := by
        rw [Place.holds, hk]
        exact received
      exact ⟨c, (elsewhere found rfl).symm⟩
    · rintro ⟨c, rfl⟩
      obtain ⟨k, hk, received⟩ := mem_elim here
      have mem := mem_buffered.2 ⟨c, k, hk, received⟩
      rw [← lent] at mem
      obtain ⟨⟨n, e⟩, he, same⟩ := Roll.mem_total.1 mem
      obtain rfl := Multiset.mem_singleton.1 same
      obtain rfl : n = d.tag := sound.tagged _ he
      exact Roll.get?_of_mem sound.inflight he

/-- Only a session that is in a transaction holds messages. -/
theorem Calm.holds (h : Calm G w) (hx : Exact w) {k : Consumer} (hk : w.outside.consumers[c]? = some k)
    (hne : k.received ≠ []) : InTransaction w k.session := by
  obtain ⟨p, co, S, hr⟩ := h.settled _ (h.common.consumer c k hk)
  obtain ⟨holding, -⟩ := hr.seat.holding hx c k hk rfl hne
  cases p with
  | active => exact hr.inTransaction
  | _ => exact holding.elim

/-- **No message is lost, duplicated or stuck.** After every step, each message that ever was in a queue
is in one place, and only sessions that are in a transaction hold messages. -/
theorem history_custody {refusesLinks : Bool} {steps : List Step}
    (hb : ∀ m ∈ history refusesLinks steps, Countable m.after ∧ Exact m.after) :
    Custody (history refusesLinks steps) (reach steps (initial refusesLinks)) := by
  have first : Countable (initial refusesLinks) ∧ Exact (initial refusesLinks) := by
    cases refusesLinks <;> decide
  obtain ⟨before, -, exact_⟩ := play_before (P := fun w => Countable w ∧ Exact w) first hb
  obtain ⟨kept, G, calm⟩ := (kept_initial refusesLinks).play calm_initial fun m hm =>
    ⟨(before m hm).1, (before m hm).2.1⟩
  have lent := calm.common.custody exact_
  exact ⟨fun d hd => kept.sole calm.common.sound lent hd, fun c k hk => calm.holds exact_ hk⟩

/-- Of three messages the first one is consumed, and the second one is with a consumer. -/
def custodySteps : List Step :=
  [.deposit "q" "a", .deposit "q" "b", .deposit "q" "c", .newSession ⟨"c", .ofNat 1⟩ {},
    .newConsumer 0 ⟨"q", .queue⟩, .start 0, .runOne, .runOne, .runOne, .runOne, .runOne, .receive 0,
    .finish 0 .commit, .runOne, .runOne, .receive 0]

theorem history_custody_three :
    (∀ m ∈ history false custodySteps, Countable m.after ∧ Exact m.after) ∧
    spent (history false custodySteps) = [⟨1, "q", "a"⟩] ∧
    (∃ c, Sole (history false custodySteps) (reach custodySteps (initial false)) ⟨2, "q", "b"⟩
      (.consumer c)) ∧
    ((reach custodySteps (initial false)).outside.broker.queue "q").toList = [⟨3, "q", "c"⟩] ∧
    InTransaction (reach custodySteps (initial false)) 0 := by
  have exact_ : ∀ m ∈ history false custodySteps, Countable m.after ∧ Exact m.after := by decide +kernel
  have custody := history_custody exact_
  have shown : ∃ m ∈ history false custodySteps,
      ⟨2, "q", "b"⟩ ∈ (m.after.outside.broker.queue "q").toList := by decide +kernel
  have lent : (reach custodySteps (initial false)).outside.broker.inflight.get? 2 =
      some ⟨2, "q", "b"⟩ := by decide +kernel
  have received : (reach custodySteps (initial false)).outside.consumers[0]?.map
      (fun k => (k.session, k.received)) = some (0, [⟨2, "q", "b"⟩]) := by decide +kernel
  refine ⟨exact_, by decide +kernel, ?_, by decide +kernel, ?_⟩
  · obtain ⟨m, hm, waits⟩ := shown
    obtain ⟨place, sole⟩ := custody.placed _ ⟨m, hm, "q", waits⟩
    obtain ⟨c, rfl⟩ := sole.lent.1 lent
    exact ⟨c, sole⟩
  · obtain ⟨k, hk, e⟩ := Option.map_eq_some_iff.1 received
    obtain ⟨session, holds⟩ := Prod.mk.inj e
    exact session ▸ custody.bound 0 k hk (by simp [holds])

end Peer

end Transact
