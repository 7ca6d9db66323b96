import Transact.Proofs.Peer.Calm

/-! # The order in which messages return

A consumer takes messages from the head of a queue. If its transaction is not committed they return to
the head, in one of two ways. What was acknowledged the broker puts back as it was. What the consumer
still holds it gives back itself, the oldest message first, so that the newest one ends up in front.

* `Drawing.receiveEach`: who receives so many messages holds the first ones of the queue.
* `Drawing.undone_restores`: a discharge that does not commit restores the queue.
* `Drawing.rollback_reverses`, `Drawing.rollback_restores_iff`: a rollback reverses what was received, and
  so restores the queue just if that was at most one message. -/

namespace Transact.Peer

open Run

theorem filter_values {κ α : Type} [DecidableEq κ] {r : Roll κ α} {k : κ} {a : α} {p : α → Bool}
    (hn : r.keys.Nodup) (h : r.get? k = some a) (ha : p a)
    (only : ∀ e ∈ r.entries, p e.2 → e.1 = k) : r.values.filter p = [a] := by
  obtain ⟨es⟩ := r
  induction es with
  | nil => simp [Roll.get?] at h
  | cons e es ih =>
    obtain ⟨hne, hn⟩ := List.nodup_cons.1 hn
    have later : ∀ e' ∈ es, p e'.2 → e'.1 = k := fun e' he' =>
      only e' (List.mem_cons_of_mem _ he')
    by_cases he : e.1 = k
    · obtain rfl : e.2 = a := by simpa [Roll.get?, he] using h
      have none : (es.map (·.2)).filter p = [] := by
        refine List.filter_eq_nil_iff.2 fun x hx hp => hne ?_
        obtain ⟨e', he', rfl⟩ := List.mem_map.1 hx
        exact List.mem_map.2 ⟨e', he', (later e' he' hp).trans he.symm⟩
      show (e.2 :: es.map (·.2)).filter p = _
      rw [List.filter_cons_of_pos ha, none]
    · have hp : ¬ p e.2 := fun hp => he (only e List.mem_cons_self hp)
      show (e.2 :: es.map (·.2)).filter p = _
      rw [List.filter_cons_of_neg hp]
      exact ih hn (by simpa [Roll.get?, he] using h) later

theorem reverse_eq_self_iff {α : Type} {l : List α} (hn : l.Nodup) : l.reverse = l ↔ l.length ≤ 1 := by
  cases l with
  | nil => simp
  | cons a l =>
    obtain ⟨new, -⟩ := List.nodup_cons.1 hn
    rw [List.reverse_cons, List.length_cons]
    cases hr : l.reverse with
    | nil => simp [List.reverse_eq_nil_iff.1 hr]
    | cons b bs =>
      have mem : b ∈ l := List.mem_reverse.1 (hr ▸ List.mem_cons_self)
      have more : 0 < l.length := List.length_pos_of_mem mem
      refine iff_of_false (fun e => new ?_) (by omega)
      rw [← (List.cons.inj e).1]
      exact mem

namespace Broker

variable {b b' : Broker} {d : Delivery} {rest : List Delivery} {a : String} {r : Record} {y : TxnId}

/-! ### The head of a queue -/

theorem toList_queue_giveBack : ((b.giveBack d).queue a).toList =
    if d.address = a then d :: (b.queue a).toList else (b.queue a).toList := by
  rw [giveBack, queue_setQueue]
  by_cases h : a = d.address
  · simp [h]
  · simp [h, Ne.symm h]

/-- **What was acknowledged returns in order.** -/
theorem toList_queue_rollBack : ((b.rollBack r).queue a).toList =
    r.acknowledged.filter (·.address = a) ++ (b.queue a).toList := by
  unfold rollBack
  induction r.acknowledged with
  | nil => rfl
  | cons d ds ih =>
    rw [List.foldr_cons, toList_queue_giveBack, ih]
    by_cases h : d.address = a <;> simp [h]

theorem toList_queue_discharge (h : b.transactions.get? y = some r) {fail : Bool}
    (hf : fail = true ∨ 0 < b.dischargesToReject) : ((b.discharge y fail).2.queue a).toList =
      r.acknowledged.filter (·.address = a) ++ (b.queue a).toList := by
  by_cases hd : 0 < b.dischargesToReject
  · simp only [discharge, h, hd, if_true]
    exact toList_queue_rollBack
  · obtain rfl := hf.resolve_right hd
    simp only [discharge, h, hd, if_true, if_false]
    exact toList_queue_rollBack

theorem toList_queue_forgetLink (hb : b.Shaped) (h : b.transactions.get? y = some r)
    (only : ∀ y' r', b.transactions.get? y' = some r' → r'.link = r.link → y' = y) :
    ((b.forgetLink r.link).queue a).toList =
      r.acknowledged.filter (·.address = a) ++ (b.queue a).toList := by
  have mine : b.transactions.values.filter (fun r' => decide (r'.link = r.link)) = [r] :=
    filter_values hb.transactions h (decide_eq_true rfl) fun e he hl =>
      only e.1 e.2 (Roll.get?_of_mem hb.transactions he) (of_decide_eq_true hl)
  unfold forgetLink
  rw [mine]
  exact toList_queue_rollBack

theorem fetch_empty (h : (b.queue a).toList = []) : b.fetch a = (none, b) := by
  unfold fetch
  cases hq : (b.queue a).popFront? with
  | none => rfl
  | some x => cases h.symm.trans (Queue.popFront?_eq_some hq)

theorem fetch_head (h : (b.queue a).toList = d :: rest) :
    (b.fetch a).1 = some d ∧ ((b.fetch a).2.queue a).toList = rest := by
  unfold fetch
  cases hq : (b.queue a).popFront? with
  | none => cases h.symm.trans (Queue.popFront?_eq_none hq)
  | some x =>
    obtain ⟨rfl, rfl⟩ := List.cons.inj (h.symm.trans (Queue.popFront?_eq_some hq))
    refine ⟨rfl, ?_⟩
    show ((b.setQueue a x.2).queue a).toList = _
    rw [queue_setQueue, if_pos rfl]

theorem Sound.nodup_queue (h : b.Sound) : (b.queue a).toList.Nodup := by
  cases hq : b.queues.get? a with
  | none => simp [queue, hq]
  | some q =>
    have le : (q.toList : Multiset Delivery) ≤ b.stock + b.staged :=
      (Roll.le_total (f := fun q : Queue Delivery => (q.toList : Multiset Delivery))
        (Roll.mem_of_get? hq)).trans (((Multiset.le_add_right _ _).trans
          (Multiset.le_add_right _ _)).trans (Multiset.le_add_right _ _))
    rw [queue, hq]
    exact List.Nodup.of_map (·.tag) (Multiset.nodup_of_le (Multiset.map_le_map le) h.tags)

theorem transactions_fetch : (b.fetch a).2.transactions = b.transactions := by
  unfold fetch
  split <;> rfl

/-! ### Deliveries that are handed back -/

theorem takeBack_eq (hb : b.Shaped) (h : Lends b {d}) :
    b.takeBack (.ofNat d.tag) = .ok (d, { b with inflight := b.inflight.erase d.tag }) := by
  obtain ⟨c, hc⟩ := takeBack_lent hb (Multiset.singleton_le.1 h.le)
    (h.exact d (Multiset.mem_singleton_self d))
  rw [hc, (takeBack_ok hb hc).1]

theorem release_eq (hb : b.Shaped) (h : Lends b {d}) :
    b.release (.ofNat d.tag) = .ok ({ b with inflight := b.inflight.erase d.tag }.giveBack d) := by
  rw [release, takeBack_eq hb h]
  rfl

theorem acknowledge_eq (hb : b.Shaped) (h : Lends b {d}) (hr : b.transactions.get? y = some r) :
    b.acknowledge (.ofNat d.tag) (.acknowledging y) = .ok { b with
      inflight := b.inflight.erase d.tag
      transactions := b.transactions.put y { r with acknowledged := r.acknowledged ++ [d] } } := by
  simp [acknowledge, takeBack_eq hb h, DeliveryState.acknowledging, hr, bind, Except.bind, pure,
    Except.pure]

end Broker

variable {w v : State} {d : Delivery} {ds rest q : List Delivery} {state : Option DeliveryState}
  {y : TxnId} {r : Record} {c n : Nat} {k : Consumer} {C : Context} {G : Ledger}

/-- Deliveries that were lent are handed back one after the other: what holds of those that were given
back so far and the broker holds of all of them in the end. -/
theorem after_hand_each {g : List Delivery} {P : List Delivery → Broker → Prop}
    (hb : w.outside.broker.Sound) (hl : Lends w.outside.broker ds) (h : P g w.outside.broker)
    (hp : ∀ {given d b b'}, b.Shaped → Lends b {d} → handBack state d b = .ok b' → P given b →
      P (given ++ [d]) b') :
    After (Consumer.hand state ds) w
      (fun _ w' => ∃ b', w' = w.out (·.changeBroker fun _ => b') ∧ b'.Sound ∧ P (g ++ ds) b')
      fun _ _ => False := by
  rw [hand_eq]
  induction ds generalizing w g with
  | nil => exact ⟨w.outside.broker, rfl, hb, (List.append_nil g).symm ▸ h⟩
  | cons d ds ih =>
    simp only [List.forM, after_bind]
    rw [askBroker, after_bind, Act.after_outside]
    rcases handBack_cases state d w.outside.broker with ⟨b, ok, shift, less⟩ | ⟨p, -, none⟩
    · rw [ok]
      refine (ih (w := w.out (·.changeBroker fun _ => b)) ((shift.trade hb).sound hb)
        (hl.rest (less hb.toShaped hl.head)) (hp hb.toShaped hl.head ok h)).mono (fun _ w' hw => ?_)
        fun _ _ => id
      obtain ⟨b', rfl, sound, holds⟩ := hw
      refine ⟨b', rfl, sound, ?_⟩
      rwa [List.append_assoc] at holds
    · exact absurd hl.head (none hb.toShaped)

/-- **What is given back outside a transaction is reversed.** -/
theorem after_hand_none (hb : w.outside.broker.Sound) (hl : Lends w.outside.broker ds) :
    After (Consumer.hand none ds) w
      (fun _ w' => ∃ b', w' = w.out (·.changeBroker fun _ => b') ∧ b'.Sound ∧ ∀ a,
        (b'.queue a).toList = (ds.filter (·.address = a)).reverse ++ (w.outside.broker.queue a).toList)
      fun _ _ => False := by
  refine after_hand_each (g := []) (P := fun given b => ∀ a, (b.queue a).toList =
    (given.filter (·.address = a)).reverse ++ (w.outside.broker.queue a).toList) hb hl (fun _ => rfl) ?_
  intro given d b b' hb hl ok same a
  obtain rfl := Except.ok.inj ((Broker.release_eq hb hl).symm.trans ok)
  have same : (Broker.queue a { b with inflight := b.inflight.erase d.tag }).toList = _ := same a
  rw [Broker.toList_queue_giveBack, same]
  by_cases h : d.address = a <;> simp [h]

theorem after_hand_acknowledging (hb : w.outside.broker.Sound) (hl : Lends w.outside.broker ds)
    (hr : w.outside.broker.transactions.get? y = some r) :
    After (Consumer.hand (some (.acknowledging y)) ds) w
      (fun _ w' => ∃ b', w' = w.out (·.changeBroker fun _ => b') ∧ b'.Sound ∧
        b'.queues = w.outside.broker.queues ∧
        b'.transactions.get? y = some { r with acknowledged := r.acknowledged ++ ds } ∧
        ∀ y', y' ≠ y → b'.transactions.get? y' = w.outside.broker.transactions.get? y')
      fun _ _ => False := by
  refine after_hand_each (g := []) (P := fun given b => b.queues = w.outside.broker.queues ∧
    b.transactions.get? y = some { r with acknowledged := r.acknowledged ++ given } ∧
    ∀ y', y' ≠ y → b.transactions.get? y' = w.outside.broker.transactions.get? y') hb hl
    ⟨rfl, by rw [hr, List.append_nil], fun _ _ => rfl⟩ ?_
  intro given d b b' hb hl ok same
  obtain ⟨queues, record, others⟩ := same
  obtain rfl := Except.ok.inj ((Broker.acknowledge_eq hb hl record).symm.trans ok)
  refine ⟨queues, ?_, fun y' hy => ?_⟩
  · rw [Roll.get?_put, if_pos rfl, List.append_assoc]
  · rw [Roll.get?_put, if_neg hy, others y' hy]

/-! ### A consumer that receives -/

/-- A consumer of an active transaction holds `ds`, and `rest` waits in its queue. -/
structure Drawing (k : Consumer) (C : Context) (T : Roll TxnId Record) (c : Nat)
    (ds rest : List Delivery) (w : State) : Prop where
  sound : w.outside.broker.Sound
  lends : Lends w.outside.broker ds
  tags : w.outside.broker.tagCounter ≤ Number.countLimit
  transactions : w.outside.broker.transactions = T
  consumer : w.outside.consumers[c]? = some { k with received := ds }
  context : ∃ registry,
    w.client.contexts[(w.outside.session k.session).context]? = some { C with registry }
  active : C.stage = .active
  usable : ∀ l, C.coordinator = some l → (w.client.link l).state ≠ .closed
  waiting : (w.outside.broker.queue k.destination.name).toList = rest
  addressed : ∀ d ∈ ds, d.address = k.destination.name

variable {T : Roll TxnId Record}

namespace Drawing

theorem filter_eq (h : Drawing k C T c ds rest w) :
    ds.filter (·.address = k.destination.name) = ds :=
  List.filter_eq_self.2 fun d hd => decide_eq_true (h.addressed d hd)

/-- **The first message that waits is handed out.** If none waits, nothing happens. -/
theorem receive (h : Drawing k C T c ds rest w) :
    After (Consumer.receive c) w
      (fun reply w' => reply = rest.head?.map (·.body) ∧
        Drawing k C T c (ds ++ rest.take 1) (rest.drop 1) w')
      fun _ _ => False := by
  obtain ⟨registry, context⟩ := h.context
  have open_ : (C.coordinator.any fun l => (w.client.link l).state = .closed) = false := by
    cases hl : C.coordinator with
    | none => rfl
    | some l => simpa using h.usable l hl
  unfold Consumer.receive
  simp only [after_bind, after_consumerAt, after_sessionAt, Outside.consumer_eq h.consumer,
    Act.after_context, Act.after_isFailed, Client.context_eq context, open_]
  rw [if_neg (by simp [h.active])]
  simp only [after_bind, after_withBroker]
  cases hq : rest with
  | nil =>
    have empty := Broker.fetch_empty (h.waiting.trans hq)
    have same : w.out (·.changeBroker fun b => (b.fetch k.destination.name).2) = w :=
      out_changeBroker (b := id) (congrArg Prod.snd empty)
    rw [empty, same, List.take_nil, List.append_nil, List.drop_nil]
    exact ⟨rfl, hq ▸ h⟩
  | cons d rest' =>
    obtain ⟨first, others⟩ := Broker.fetch_head (h.waiting.trans hq)
    have lent : (w.outside.broker.fetch k.destination.name).2.lent = w.outside.broker.lent + {d} := by
      rcases Broker.fetch_cases h.sound k.destination.name with ⟨none, -⟩ | ⟨d', some, -, lent⟩
      · cases none.symm.trans first
      · rw [lent, Option.some.inj (some.symm.trans first)]
    have waits : d ∈ (w.outside.broker.queue k.destination.name).toList := by
      rw [h.waiting, hq]
      exact List.mem_cons_self
    rw [first]
    unfold Context.enrolConsumer
    simp only [after_bind, Act.after_modifyContext, after_modifyConsumer, after_pure]
    refine ⟨rfl, {
      sound := (shift_fetch.trade h.sound).sound h.sound
      lends := ⟨?_, fun e he => ?_⟩
      tags := (shift_fetch.moves.tagCounter).trans_le h.tags
      transactions := Broker.transactions_fetch.trans h.transactions
      consumer := ?_
      context := ⟨registry.enrolConsumer k.id c,
        Client.changeContext_same (k := { C with registry }) context⟩
      active := h.active
      usable := h.usable
      waiting := others
      addressed := fun e he => ?_ }⟩
    · show _ ≤ (w.outside.broker.fetch k.destination.name).2.lent
      rw [lent, ← Multiset.coe_add]
      exact add_le_add_left h.lends.le {d}
    · rcases List.mem_append.1 (Multiset.mem_coe.1 he) with he | he
      · exact h.lends.exact e he
      · obtain rfl := List.mem_singleton.1 he
        exact Nat.le_of_lt (Nat.lt_of_lt_of_le (h.sound.fresh_held (.inl ⟨_, waits⟩)) h.tags)
    · show (w.outside.consumers.modify c _)[c]? = _
      rw [Array.getElem?_modify, if_pos rfl, h.consumer]
      rfl
    · rcases List.mem_append.1 he with he | he
      · exact h.addressed e he
      · obtain rfl := List.mem_singleton.1 he
        exact h.sound.addressed _ e waits

end Drawing

/-- A consumer receives so many times. -/
def receiveEach (c : Nat) : Nat → Peering Unit
  | 0 => pure ()
  | n + 1 => do
    discard (Consumer.receive c)
    receiveEach c n

namespace Drawing

/-- **Who receives so many messages holds the first ones of the queue.** -/
theorem receiveEach (h : Drawing k C T c ds rest w) :
    After (receiveEach c n) w (fun _ w' => Drawing k C T c (ds ++ rest.take n) (rest.drop n) w')
      fun _ _ => False := by
  induction n generalizing ds rest w with
  | zero => simpa [Peer.receiveEach] using h
  | succ n ih =>
    unfold Peer.receiveEach
    rw [after_bind, after_discard]
    refine h.receive.mono (fun _ w' hw => (ih hw.2).mono (fun _ w'' hw' => ?_) fun _ _ => id)
      fun _ _ => False.elim
    rwa [List.append_assoc, ← List.take_add, List.drop_drop, Nat.add_comm 1 n] at hw'

/-! ### The end of the transaction -/

theorem preRollback (h : Drawing k C T c ds rest w) :
    After (Consumer.preRollback c) w (fun _ w' =>
      (w'.outside.broker.queue k.destination.name).toList = ds.reverse ++ rest) fun _ _ => False := by
  unfold Consumer.preRollback
  simp only [after_bind, after_consumerAt, after_modifyConsumer, Outside.consumer_eq h.consumer]
  refine (after_hand_none h.sound h.lends).mono (fun _ w' hw => ?_) fun _ _ => id
  obtain ⟨b, rfl, -, queues⟩ := hw
  show (b.queue k.destination.name).toList = _
  rw [queues, h.filter_eq, h.waiting]

theorem preCommit (h : Drawing k C T c ds rest w) (ha : C.accepted = some (.acknowledging y))
    (hr : T.get? y = some r) :
    After (Consumer.preCommit c) w (fun _ w' => w'.outside.broker.Sound ∧
      (w'.outside.broker.queue k.destination.name).toList = rest ∧
      w'.outside.broker.transactions.get? y = some { r with acknowledged := r.acknowledged ++ ds } ∧
      ∀ y', y' ≠ y → w'.outside.broker.transactions.get? y' = T.get? y') fun _ _ => False := by
  obtain ⟨registry, context⟩ := h.context
  unfold Consumer.preCommit
  simp only [after_bind, after_consumerAt, after_sessionAt, Act.after_context, after_modifyConsumer,
    Outside.consumer_eq h.consumer, Client.context_eq context, ha]
  refine (after_hand_acknowledging h.sound h.lends (h.transactions ▸ hr)).mono (fun _ w' hw => ?_)
    fun _ _ => id
  obtain ⟨b, rfl, sound, queues, record, others⟩ := hw
  refine ⟨sound, ?_, record, fun y' hy => (others y' hy).trans (by rw [h.transactions])⟩
  show (b.queue k.destination.name).toList = _
  rw [← h.waiting, Broker.queue, queues, ← Broker.queue]

/-- **What was received and acknowledged returns in order** if the transaction is not committed: if it
is discharged otherwise, if its discharge is rejected, and if its link goes away. -/
theorem undone_restores (h : Drawing k C T c [] q w) (ha : C.accepted = some (.acknowledging y))
    (hr : T.get? y = some r) (hn : ∀ d ∈ r.acknowledged, d.address ≠ k.destination.name)
    (only : ∀ y' r', T.get? y' = some r' → r'.link = r.link → y' = y) :
    After (do Peer.receiveEach c n; Consumer.preCommit c) w (fun _ w' =>
      (∀ fail, fail = true ∨ 0 < w'.outside.broker.dischargesToReject →
        ((w'.outside.broker.discharge y fail).2.queue k.destination.name).toList = q) ∧
      ((w'.outside.broker.forgetLink r.link).queue k.destination.name).toList = q)
      fun _ _ => False := by
  rw [after_bind]
  refine h.receiveEach.mono (fun _ w' hw => (hw.preCommit ha hr).mono (fun _ w'' hw' => ?_)
    fun _ _ => id) fun _ _ => False.elim
  obtain ⟨sound, rest, record, others⟩ := hw'
  have returned : (r.acknowledged ++ ([] ++ q.take n)).filter (·.address = k.destination.name) ++
      (w''.outside.broker.queue k.destination.name).toList = q := by
    have before : r.acknowledged.filter (·.address = k.destination.name) = [] :=
      List.filter_eq_nil_iff.2 fun d hd e => hn d hd (of_decide_eq_true e)
    rw [List.filter_append, before, hw.filter_eq, rest, List.nil_append, List.nil_append,
      List.take_append_drop]
  refine ⟨fun fail hf => (Broker.toList_queue_discharge record hf).trans returned, ?_⟩
  refine (Broker.toList_queue_forgetLink sound.toShaped record fun y' r' hr' hl => ?_).trans returned
  by_cases e : y' = y
  · exact e
  · exact only y' r' ((others y' e).symm.trans hr') hl

/-- **A rollback reverses what was received.** -/
theorem rollback_reverses (h : Drawing k C T c [] q w) :
    After (do Peer.receiveEach c n; Consumer.preRollback c) w (fun _ w' =>
      (w'.outside.broker.queue k.destination.name).toList = (q.take n).reverse ++ q.drop n)
      fun _ _ => False := by
  rw [after_bind]
  exact h.receiveEach.mono (fun _ w' hw => hw.preRollback) fun _ _ => False.elim

example : ((reach [.deposit "q" "a", .deposit "q" "b", .newSession ⟨"c", .ofNat 1⟩ {},
    .newConsumer 0 ⟨"q", .queue⟩, .start 0, .runOne, .runOne, .runOne, .runOne, .receive 0, .receive 0,
    .finish 0 .rollback, .runOne] (initial false)).outside.broker.queue "q").toList =
      [⟨2, "q", "b"⟩, ⟨1, "q", "a"⟩] := by decide +kernel

/-- A rollback restores the queue just if at most one message was received. -/
theorem rollback_restores_iff (h : Drawing k C T c [] q w) :
    After (do Peer.receiveEach c n; Consumer.preRollback c) w (fun _ w' =>
      (w'.outside.broker.queue k.destination.name).toList = q ↔ min n q.length ≤ 1)
      fun _ _ => False := by
  have nodup : q.Nodup := h.waiting ▸ h.sound.nodup_queue
  refine h.rollback_reverses.mono (fun _ w' hw => ?_) fun _ _ => id
  rw [hw, ← List.length_take, ← reverse_eq_self_iff (nodup.sublist (List.take_sublist n q))]
  conv_lhs => rhs; rw [← List.take_append_drop n q]
  exact List.append_left_inj _

end Drawing

/-! ### In a run -/

theorem Calm.drawing (h : Calm G w) (hx : Exact w) (hk : w.outside.consumers[c]? = some k)
    (empty : k.received = []) (hC : w.client.contexts[k.session]? = some C)
    (active : C.stage = .active)
    (usable : ∀ l, C.coordinator = some l → (w.client.link l).state ≠ .closed) :
    Drawing k C w.outside.broker.transactions c []
      (w.outside.broker.queue k.destination.name).toList w where
  sound := h.common.sound
  lends := ⟨Multiset.zero_le _, fun d hd => absurd hd (Multiset.notMem_zero d)⟩
  tags := hx.2.1
  transactions := rfl
  consumer := by rw [hk, ← empty]
  context := by
    obtain ⟨_, _, S, hr⟩ := h.settled k.session (h.common.consumer c k hk)
    exact ⟨C.registry, by rw [Outside.session_eq hr.session, hr.context, hC]⟩
  active := active
  usable := usable
  waiting := rfl
  addressed := fun d hd => absurd hd List.not_mem_nil

end Transact.Peer
