import Mathlib.Algebra.BigOperators.Group.Multiset.Basic
import Mathlib.Algebra.Order.Group.Multiset
import Mathlib.Tactic.Abel
import Transact.Proofs.Peer.Broker

/-! # The stock of the broker

The stock is what the broker holds of the messages that were published: in its queues, handed out, or
acknowledged in a live transaction. It is counted, so that a message that is there twice is seen. What
is staged is not published yet and counted for itself.

* `Shaped`: every table has each key once, and each message is where its address and its tag say.
* `Sound`: no two messages have the same tag, and new tags are not in use.
* `Trade`: messages are published and consumed, and all others only change their places. -/

namespace Transact

/-! ### Rolls -/

namespace Roll

variable {κ α β : Type} {k l : κ} {a a' : α} {r : Roll κ α} {f : α → Multiset β}

/-- What is held under all keys together. -/
def total (f : α → Multiset β) (r : Roll κ α) : Multiset β := (r.values.map f).sum

theorem total_cons {e : κ × α} {es : List (κ × α)} :
    total f ⟨e :: es⟩ = f e.2 + total f (⟨es⟩ : Roll κ α) := by
  simp [total, values]

theorem mem_total {b : β} : b ∈ r.total f ↔ ∃ e ∈ r.entries, b ∈ f e.2 := by
  obtain ⟨es⟩ := r
  induction es with
  | nil => simp [total, values]
  | cons e es ih => simp [total_cons, ih]

theorem le_total (h : (k, a) ∈ r.entries) : f a ≤ r.total f := by
  obtain ⟨es⟩ := r
  induction es with
  | nil => cases h
  | cons e es ih =>
    rw [total_cons]
    rcases List.mem_cons.1 h with rfl | h
    · exact Multiset.le_add_right _ _
    · exact (ih h).trans (Multiset.le_add_left _ _)

theorem total_filter (p : κ × α → Bool) :
    total f (⟨r.entries.filter p⟩ : Roll κ α) + total f (⟨r.entries.filter (!p ·)⟩ : Roll κ α) =
      r.total f := by
  obtain ⟨es⟩ := r
  induction es with
  | nil => simp [total, values]
  | cons e es ih =>
    rw [total_cons, ← ih]
    cases hp : p e <;> simp only [List.filter_cons, hp, total_cons, Bool.not_false, Bool.not_true,
      if_true, Bool.false_eq_true, if_false] <;> abel

variable [DecidableEq κ]

theorem total_put (h : r.get? k = some a') :
    (r.put k a).total f + f a' = r.total f + f a := by
  obtain ⟨es⟩ := r
  induction es with
  | nil => simp [get?] at h
  | cons e es ih =>
    by_cases he : e.1 = k
    · obtain rfl : e.2 = a' := by simpa [get?, he] using h
      simp only [put, putInto, if_pos he, total_cons]
      abel
    · have := ih (by simpa [get?, he] using h)
      simp only [put] at this
      simp only [put, putInto, if_neg he, total_cons]
      rw [add_assoc, this, add_assoc]

theorem total_put_new (h : r.get? k = none) : (r.put k a).total f = r.total f + f a := by
  obtain ⟨es⟩ := r
  induction es with
  | nil => simp [put, putInto, total, values]
  | cons e es ih =>
    have he : ¬ e.1 = k := by
      intro he
      simp [get?, he] at h
    have := ih (by simpa [get?, he] using h)
    simp only [put] at this
    simp only [put, putInto, if_neg he, total_cons, this, add_assoc]

theorem total_key (hn : r.keys.Nodup) (h : r.get? k = some a) :
    total f (⟨r.entries.filter fun e => !decide (e.1 ≠ k)⟩ : Roll κ α) = f a := by
  obtain ⟨es⟩ := r
  induction es with
  | nil => simp [get?] at h
  | cons e es ih =>
    obtain ⟨hne, hn⟩ := List.nodup_cons.1 hn
    by_cases he : e.1 = k
    · obtain rfl : e.2 = a := by simpa [get?, he] using h
      have rest : es.filter (fun e => !decide (e.1 ≠ k)) = [] := by
        refine List.filter_eq_nil_iff.2 fun x hx e' => hne (List.mem_map.2 ⟨x, hx, ?_⟩)
        simpa [he] using e'
      simp only
      rw [List.filter_cons_of_pos (by simpa using he), rest, total_cons]
      exact add_zero _
    · simp only
      rw [List.filter_cons_of_neg (by simpa using he)]
      exact ih hn (by simpa [get?, he] using h)

theorem total_erase (hn : r.keys.Nodup) (h : r.get? k = some a) :
    (r.erase k).total f + f a = r.total f := by
  rw [← total_filter (r := r) fun e => decide (e.1 ≠ k), total_key hn h]
  rfl

end Roll

namespace Peer.Broker

variable {b b' b'' : Broker} {d : Delivery} {ds : List Delivery} {address : String}
  {q : Queue Delivery} {y : TxnId} {r : Record} {n l : Nat}
  {gained gained' lost lost' : Multiset Delivery}

/-! ### Counting -/

/-- The messages that wait in the queues. -/
def waiting (b : Broker) : Multiset Delivery := b.queues.total (·.toList)

/-- The messages that were handed out. -/
def lent (b : Broker) : Multiset Delivery := b.inflight.total ({·})

/-- The messages that were acknowledged in live transactions. -/
def accepted (b : Broker) : Multiset Delivery := b.transactions.total (·.acknowledged)

/-- **The stock:** the messages that were published and not yet consumed. -/
def stock (b : Broker) : Multiset Delivery := b.waiting + b.lent + b.accepted

/-- The messages that are to be published. -/
def staged (b : Broker) : Multiset Delivery := b.transactions.total (·.staged.toList)

/-- Each key is there once, and each message in its place. -/
structure Shaped (b : Broker) : Prop where
  queues : b.queues.keys.Nodup
  transactions : b.transactions.keys.Nodup
  inflight : b.inflight.keys.Nodup
  addressed : ∀ address, ∀ d ∈ (b.queue address).toList, d.address = address
  tagged : ∀ e ∈ b.inflight.entries, e.1 = e.2.tag

/-- **No two messages have the same tag,** and the next tag is new. -/
structure Sound (b : Broker) : Prop extends Shaped b where
  tags : ((b.stock + b.staged).map (·.tag)).Nodup
  fresh : ∀ d ∈ b.stock + b.staged, d.tag < b.tagCounter

theorem exists_queue (h : d ∈ (b.queue address).toList) :
    ∃ q, b.queues.get? address = some q ∧ d ∈ q.toList := by
  unfold queue at h
  cases hq : b.queues.get? address with
  | none =>
    rw [hq] at h
    cases h
  | some q =>
    rw [hq] at h
    exact ⟨q, rfl, h⟩

theorem mem_stock (h : b.Holds d) : d ∈ b.stock := by
  rw [stock, Multiset.mem_add, Multiset.mem_add]
  rcases h with ⟨address, hd⟩ | ⟨n, hd⟩ | ⟨y, r, hy, hd⟩
  · obtain ⟨q, hq, hd⟩ := exists_queue hd
    exact .inl (.inl (Roll.mem_total.2 ⟨_, Roll.mem_of_get? hq, hd⟩))
  · exact .inl (.inr (Roll.mem_total.2 ⟨_, hd, Multiset.mem_singleton_self d⟩))
  · exact .inr (Roll.mem_total.2 ⟨_, hy, hd⟩)

theorem Sound.fresh_held (h : b.Sound) (hd : b.Holds d) : d.tag < b.tagCounter :=
  h.fresh d (Multiset.mem_add.2 (.inl (mem_stock hd)))

theorem sound_initial : Sound {} where
  queues := .nil
  transactions := .nil
  inflight := .nil
  addressed _ d hd := by cases hd
  tagged := nofun
  tags := .nil
  fresh _ hd := absurd hd (Multiset.notMem_zero _)

theorem waiting_setQueue (b : Broker) (address : String) (q : Queue Delivery) :
    (b.setQueue address q).waiting + (b.queue address).toList = b.waiting + q.toList := by
  unfold waiting setQueue queue
  cases h : b.queues.get? address with
  | none =>
    rw [Roll.total_put_new h]
    simp
  | some q' => exact Roll.total_put h

theorem waiting_publish : (b.publish d).waiting = b.waiting + {d} := by
  have := waiting_setQueue b d.address ((b.queue d.address).pushBack d)
  rw [Queue.toList_pushBack, ← Multiset.coe_add, ← add_assoc, add_right_comm] at this
  exact add_right_cancel this

theorem waiting_giveBack : (b.giveBack d).waiting = b.waiting + {d} := by
  have := waiting_setQueue b d.address ((b.queue d.address).pushFront d)
  rw [Queue.toList_pushFront, ← Multiset.cons_coe, ← Multiset.singleton_add, ← add_assoc] at this
  exact add_right_cancel this

theorem Shaped.setQueue (h : b.Shaped) (hq : ∀ d ∈ q.toList, d.address = address) :
    (b.setQueue address q).Shaped :=
  { h with
    queues := Roll.nodup_keys_put h.queues
    addressed := by
      intro a d hd
      rw [queue_setQueue] at hd
      split at hd
      · next e => exact (hq d hd).trans e.symm
      · exact h.addressed a d hd }

theorem Shaped.publish (h : b.Shaped) : (b.publish d).Shaped := by
  refine h.setQueue fun e he => ?_
  rcases List.mem_append.1 (Queue.toList_pushBack ▸ he) with he | he
  · exact h.addressed _ e he
  · rw [List.mem_singleton.1 he]

theorem Shaped.giveBack (h : b.Shaped) : (b.giveBack d).Shaped := by
  refine h.setQueue fun e he => ?_
  rcases List.mem_cons.1 (Queue.toList_pushFront ▸ he) with rfl | he
  · rfl
  · exact h.addressed _ e he

/-- Messages are put into their queues. -/
structure Fills (ds : Multiset Delivery) (b b' : Broker) : Prop where
  waiting : b'.waiting = b.waiting + ds
  transactions : b'.transactions = b.transactions
  inflight : b'.inflight = b.inflight
  tagCounter : b'.tagCounter = b.tagCounter
  shaped : b.Shaped → b'.Shaped

theorem Fills.refl (b : Broker) : Fills 0 b b := ⟨(add_zero _).symm, rfl, rfl, rfl, id⟩

theorem Fills.trans {ds ds' : Multiset Delivery} (h : Fills ds b b') (h' : Fills ds' b' b'') :
    Fills (ds + ds') b b'' where
  waiting := by rw [h'.waiting, h.waiting, add_assoc]
  transactions := h'.transactions.trans h.transactions
  inflight := h'.inflight.trans h.inflight
  tagCounter := h'.tagCounter.trans h.tagCounter
  shaped x := h'.shaped (h.shaped x)

theorem fills_giveBack : Fills {d} b (b.giveBack d) := ⟨waiting_giveBack, rfl, rfl, rfl, (·.giveBack)⟩

theorem fills_rollBack : Fills r.acknowledged b (b.rollBack r) := by
  unfold rollBack
  generalize r.acknowledged = ds
  induction ds with
  | nil => exact .refl b
  | cons d ds ih =>
    rw [← Multiset.cons_coe, ← Multiset.singleton_add, add_comm]
    exact ih.trans fills_giveBack

theorem fills_foldl : Fills ds b (ds.foldl publish b) := by
  induction ds generalizing b with
  | nil => exact .refl b
  | cons d ds ih =>
    have first : Fills {d} b (b.publish d) := ⟨waiting_publish, rfl, rfl, rfl, (·.publish)⟩
    rw [← Multiset.cons_coe, ← Multiset.singleton_add]
    exact first.trans ih

/-! ### Messages that change their places -/

/-- **From `b` to `b'` messages are published and consumed,** and all others change their places only.
No transaction is taken up. -/
structure Trade (gained lost : Multiset Delivery) (b b' : Broker) : Prop where
  shaped : b'.Shaped
  stock : b'.stock + lost = b.stock + gained
  staged : b'.staged + gained ≤ b.staged
  tagCounter : b'.tagCounter = b.tagCounter
  links : ∀ y r', b'.transactions.get? y = some r' →
    ∃ r, b.transactions.get? y = some r ∧ r.link = r'.link

theorem Sound.of_le (h : b.Sound) (hs : b'.Shaped)
    (hle : b'.stock + b'.staged ≤ b.stock + b.staged) (ht : b'.tagCounter = b.tagCounter) :
    b'.Sound :=
  { hs with
    tags := Multiset.nodup_of_le (Multiset.map_le_map hle) h.tags
    fresh := fun d hd => ht ▸ h.fresh d (Multiset.mem_of_le hle hd) }

namespace Trade

theorem refl (h : b.Shaped) : Trade 0 0 b b :=
  ⟨h, rfl, by rw [add_zero], rfl, fun _ r hr => ⟨r, hr, rfl⟩⟩

theorem trans (h : Trade gained lost b b') (h' : Trade gained' lost' b' b'') :
    Trade (gained + gained') (lost + lost') b b'' where
  shaped := h'.shaped
  stock := by
    rw [add_comm lost, ← add_assoc, h'.stock, add_right_comm, h.stock, add_assoc]
  staged := by
    rw [add_comm gained, ← add_assoc]
    exact (add_le_add_left h'.staged gained).trans h.staged
  tagCounter := h'.tagCounter.trans h.tagCounter
  links y r'' hr := by
    obtain ⟨r', hr', e'⟩ := h'.links y r'' hr
    obtain ⟨r, hr, e⟩ := h.links y r' hr'
    exact ⟨r, hr, e.trans e'⟩

/-- What is counted afterwards, with all that was consumed, was counted before. -/
theorem whole (h : Trade gained lost b b') : b'.stock + b'.staged + lost ≤ b.stock + b.staged := by
  rw [add_right_comm, h.stock, add_assoc, add_comm gained]
  exact add_le_add_right h.staged _

theorem sound (h : Trade gained lost b b') (hb : b.Sound) : b'.Sound :=
  hb.of_le h.shaped ((Multiset.le_add_right _ _).trans h.whole) h.tagCounter

end Trade

theorem trade_same (h : b.Shaped) (hr : b'.transactions = b.transactions) (hq : b'.queues = b.queues)
    (hi : b'.inflight = b.inflight) (ht : b'.tagCounter = b.tagCounter) : Trade 0 0 b b' := by
  obtain ⟨_, _, _, _, _, _, _, _⟩ := b
  obtain ⟨_, _, _, _, _, _, _, _⟩ := b'
  subst hr hq hi ht
  exact ⟨⟨h.queues, h.transactions, h.inflight, h.addressed, h.tagged⟩, rfl, by rw [add_zero]; rfl, rfl,
    fun _ r hr => ⟨r, hr, rfl⟩⟩

/-! ### Transactions that end -/

theorem trade_dropped (h : b.Shaped) {p : TxnId × Record → Bool} {c : Broker}
    (hr : c.transactions = ⟨b.transactions.entries.filter p⟩) (hq : c.queues = b.queues)
    (hi : c.inflight = b.inflight) (ht : c.tagCounter = b.tagCounter) {ds : Multiset Delivery}
    (hf : Fills ds c b')
    (hd : ds = Roll.total (·.acknowledged)
      (⟨b.transactions.entries.filter (!p ·)⟩ : Roll TxnId Record)) : Trade 0 0 b b' := by
  have waiting : c.waiting = b.waiting := by rw [Broker.waiting, Broker.waiting, hq]
  have shaped : c.Shaped := {
    queues := hq ▸ h.queues
    transactions := hr ▸ Roll.nodup_keys_filter h.transactions
    inflight := hi ▸ h.inflight
    addressed := by
      simp only [queue, hq]
      exact h.addressed
    tagged := hi ▸ h.tagged }
  refine ⟨hf.shaped shaped, ?_, ?_, hf.tagCounter.trans ht, fun y r hy => ?_⟩
  · rw [stock, stock, lent, lent, accepted, accepted, hf.waiting, hf.inflight, hf.transactions, hi,
      waiting, hr, hd, ← Roll.total_filter (r := b.transactions) p]
    abel
  · rw [add_zero, staged, staged, hf.transactions, hr, ← Roll.total_filter (r := b.transactions) p]
    exact Multiset.le_add_right _ _
  · rw [hf.transactions, hr] at hy
    have := List.mem_of_mem_filter (Roll.mem_of_get? hy)
    exact ⟨r, Roll.get?_of_mem h.transactions this, rfl⟩

theorem fills_rollBacks {rs : List Record} :
    Fills (rs.map fun r => (r.acknowledged : Multiset Delivery)).sum b
      (rs.foldl (fun b r => b.rollBack r) b) := by
  induction rs generalizing b with
  | nil => exact .refl b
  | cons r rs ih =>
    rw [List.map_cons, List.sum_cons]
    exact fills_rollBack.trans ih

theorem transactions_forgetLink :
    (b.forgetLink l).transactions = ⟨b.transactions.entries.filter (·.2.link ≠ l)⟩ :=
  fills_rollBacks.transactions

theorem trade_forgetLink (h : b.Shaped) : Trade 0 0 b (b.forgetLink l) ∧
    (b.forgetLink l).inflight = b.inflight ∧
    ∀ y r, (b.forgetLink l).transactions.get? y = some r → r.link ≠ l := by
  have filled : Fills _ { b with transactions := ⟨b.transactions.entries.filter (·.2.link ≠ l)⟩ }
    (b.forgetLink l) := fills_rollBacks
  refine ⟨trade_dropped (c := { b with
    transactions := ⟨b.transactions.entries.filter (·.2.link ≠ l)⟩ }) h rfl rfl rfl rfl filled ?_,
    filled.inflight, fun y r hy => ?_⟩
  · rw [Roll.total, Roll.values, Roll.values, List.filter_map]
    congr 4
    funext e
    simp
  · rw [transactions_forgetLink] at hy
    simpa using (List.mem_filter.1 (Roll.mem_of_get? hy)).2

/-- A discharge takes the transaction away. What was staged is published, or what was acknowledged goes
back. -/
theorem discharge_fills (h : b.transactions.get? y = some r) (fail : Bool) :
    ∃ n, ((fail = false ∧ (b.discharge y fail).1 = .accepted) ∧ Fills r.staged.toList
        { b with transactions := b.transactions.erase y, dischargesToReject := n }
        (b.discharge y fail).2) ∨
      (¬ (fail = false ∧ (b.discharge y fail).1 = .accepted) ∧ Fills r.acknowledged
        { b with transactions := b.transactions.erase y, dischargesToReject := n }
        (b.discharge y fail).2) := by
  by_cases hd : 0 < b.dischargesToReject
  · have e : b.discharge y fail = (.rejected dischargeRefused, { b with
        transactions := b.transactions.erase y
        dischargesToReject := b.dischargesToReject - 1 }.rollBack r) := by
      simp only [discharge, h, hd, if_true]
    rw [e]
    exact ⟨_, .inr ⟨by simp, fills_rollBack⟩⟩
  · refine ⟨b.dischargesToReject, ?_⟩
    cases fail with
    | true =>
      have e : b.discharge y true = (.accepted,
          { b with transactions := b.transactions.erase y }.rollBack r) := by
        simp only [discharge, h, hd, if_true, if_false]
      rw [e]
      exact .inr ⟨by simp, fills_rollBack⟩
    | false =>
      have e : b.discharge y false = (.accepted, r.staged.toList.foldl publish
          { b with transactions := b.transactions.erase y }) := by
        simp only [discharge, h, hd, if_false, Bool.false_eq_true]
      rw [e]
      exact .inl ⟨⟨rfl, rfl⟩, fills_foldl⟩

/-- **What is committed is published, and what was acknowledged in it consumed.** -/
theorem trade_committed (h : b.Shaped) (hr : b.transactions.get? y = some r)
    (ha : (b.discharge y false).1 = .accepted) :
    Trade r.staged.toList r.acknowledged b (b.discharge y false).2 := by
  obtain ⟨n, ⟨-, filled⟩ | ⟨hn, -⟩⟩ := discharge_fills hr false
  · have shaped : (b.discharge y false).2.Shaped := filled.shaped
      ⟨h.queues, Roll.nodup_keys_erase h.transactions, h.inflight, h.addressed, h.tagged⟩
    refine ⟨shaped, ?_, ?_, filled.tagCounter, fun y' r' hy => ?_⟩
    · have gone := Roll.total_erase (f := fun r => (r.acknowledged : Multiset Delivery)) h.transactions hr
      rw [stock, stock, lent, lent, accepted, accepted, filled.waiting, filled.inflight,
        filled.transactions, ← gone]
      show b.waiting + _ + b.lent + _ + _ = b.waiting + b.lent + _ + _
      abel
    · have gone := Roll.total_erase (f := fun r => (r.staged.toList : Multiset Delivery))
        h.transactions hr
      rw [staged, staged, filled.transactions, ← gone]
    · rw [filled.transactions, Roll.get?_erase] at hy
      split at hy
      · cases hy
      · exact ⟨r', hy, rfl⟩
  · exact absurd ⟨rfl, ha⟩ hn

theorem trade_undone (h : b.Shaped) (y : TxnId) (fail : Bool)
    (hn : ¬ (fail = false ∧ (b.discharge y fail).1 = .accepted)) :
    Trade 0 0 b (b.discharge y fail).2 := by
  cases hr : b.transactions.get? y with
  | none =>
    unfold discharge
    rw [hr]
    exact .refl h
  | some r =>
    obtain ⟨n, ⟨hc, -⟩ | ⟨-, filled⟩⟩ := discharge_fills hr fail
    · exact absurd hc hn
    · exact trade_dropped (c := { b with
        transactions := b.transactions.erase y, dischargesToReject := n }) h rfl rfl rfl rfl filled
        (Roll.total_key (f := fun r => (r.acknowledged : Multiset Delivery)) h.transactions hr).symm

theorem inflight_discharge {fail : Bool} : (b.discharge y fail).2.inflight = b.inflight := by
  cases hr : b.transactions.get? y with
  | none => simp [discharge, hr]
  | some r => obtain ⟨n, ⟨-, filled⟩ | ⟨-, filled⟩⟩ := discharge_fills hr fail <;> exact filled.inflight

theorem transactions_discharge {fail : Bool} :
    (b.discharge y fail).2.transactions = b.transactions.erase y := by
  cases hr : b.transactions.get? y with
  | none =>
    rw [Roll.erase_eq_self hr]
    simp [discharge, hr]
  | some r =>
    obtain ⟨n, ⟨-, filled⟩ | ⟨-, filled⟩⟩ := discharge_fills hr fail <;> exact filled.transactions

theorem get?_discharge {fail : Bool} {y' : TxnId}
    (h : (b.discharge y fail).2.transactions.get? y' = some r) :
    y' ≠ y ∧ b.transactions.get? y' = some r := by
  rw [transactions_discharge, Roll.get?_erase] at h
  split at h
  · cases h
  · next hne => exact ⟨hne, h⟩

/-! ### Messages that are handed out and taken back -/

/-- A message is given back by whoever it was handed out to. -/
structure Returns (d : Delivery) (b b' : Broker) : Prop where
  trade : Trade 0 0 b b'
  lent : b'.lent + {d} = b.lent

variable {tag : Number} {state : DeliveryState}

theorem takeBack_ok (h : b.Shaped) (ht : b.takeBack tag = .ok (d, b')) :
    b' = { b with inflight := b.inflight.erase d.tag } ∧ b.inflight.get? d.tag = some d ∧ b'.Shaped := by
  unfold takeBack at ht
  cases hd : tag.toNat?.bind b.inflight.get? with
  | none => simp [hd] at ht
  | some e =>
    simp only [hd, Except.ok.injEq, Prod.mk.injEq] at ht
    obtain ⟨rfl, rfl⟩ := ht
    obtain ⟨n, -, hn⟩ := Option.bind_eq_some_iff.1 hd
    obtain rfl : n = e.tag := h.tagged _ (Roll.mem_of_get? hn)
    exact ⟨rfl, hn, h.queues, h.transactions, Roll.nodup_keys_erase h.inflight, h.addressed,
      fun x hx => h.tagged x (List.mem_of_mem_filter hx)⟩

theorem lent_erase (h : b.Shaped) (hd : b.inflight.get? d.tag = some d) :
    lent { b with inflight := b.inflight.erase d.tag } + {d} = b.lent :=
  Roll.total_erase (f := ({·})) h.inflight hd

theorem returns_release (h : b.Shaped) (ht : b.takeBack tag = .ok (d, b'')) :
    b.release tag = .ok (b''.giveBack d) ∧ Returns d b (b''.giveBack d) := by
  obtain ⟨rfl, hd, shaped⟩ := takeBack_ok h ht
  have lent := lent_erase h hd
  refine ⟨by simp [release, ht, bind, Except.bind, pure, Except.pure], ⟨shaped.giveBack, ?_, ?_, rfl,
    fun _ r hr => ⟨r, hr, rfl⟩⟩, lent⟩
  · rw [stock, stock, waiting_giveBack, ← lent]
    show b.waiting + {d} + Broker.lent { b with inflight := b.inflight.erase d.tag } + b.accepted + 0 = _
    abel
  · rw [add_zero]
    rfl

theorem returns_acknowledge (h : b.Shaped) (state : DeliveryState) (ht : b.takeBack tag = .ok (d, b'')) :
    ∃ b', b.acknowledge tag state = .ok b' ∧ Returns d b b' := by
  obtain ⟨rfl, hd, shaped⟩ := takeBack_ok h ht
  have lent := lent_erase h hd
  simp only [acknowledge, ht, bind, Except.bind, pure, Except.pure]
  split
  · next _ r hr _ =>
    have hr : b.transactions.get? state.txnId = some r := hr
    refine ⟨_, rfl, ⟨⟨shaped.queues, Roll.nodup_keys_put shaped.transactions, shaped.inflight,
      shaped.addressed, shaped.tagged⟩, ?_, ?_, rfl, fun y r' hy => ?_⟩, lent⟩
    · have more := Roll.total_put (f := fun r => (r.acknowledged : Multiset Delivery))
        (a := { r with acknowledged := r.acknowledged ++ [d] }) hr
      rw [← Multiset.coe_add, ← add_assoc, add_right_comm] at more
      have more := add_right_cancel more
      rw [stock, stock, ← lent]
      show b.waiting + Broker.lent { b with inflight := b.inflight.erase d.tag } +
        Roll.total _ (b.transactions.put state.txnId _) + 0 = _
      rw [more, Multiset.coe_singleton]
      show _ + (b.accepted + _) + 0 = _
      abel
    · have same := Roll.total_put (f := fun r => (r.staged.toList : Multiset Delivery))
        (a := { r with acknowledged := r.acknowledged ++ [d] }) hr
      rw [add_zero]
      exact (add_right_cancel same).le
    · have hy : (b.transactions.put state.txnId _).get? y = some r' := hy
      rw [Roll.get?_put] at hy
      split at hy
      · next e =>
        obtain rfl := Option.some.inj hy
        exact ⟨r, e ▸ hr, rfl⟩
      · exact ⟨r', hy, rfl⟩
  · have release := returns_release h ht
    exact ⟨_, rfl, release.2⟩

/-- **A message is handed out.** -/
theorem fetch_cases (h : b.Sound) (address : String) :
    (b.fetch address).1 = none ∧ (b.fetch address).2 = b ∨
      ∃ d, (b.fetch address).1 = some d ∧ Trade 0 0 b (b.fetch address).2 ∧
        (b.fetch address).2.lent = b.lent + {d} := by
  unfold fetch
  cases hq : (b.queue address).popFront? with
  | none => exact .inl ⟨rfl, rfl⟩
  | some x =>
    obtain ⟨d, rest⟩ := x
    have first := Queue.popFront?_eq_some hq
    have less := waiting_setQueue b address rest
    rw [first, ← Multiset.cons_coe, ← Multiset.singleton_add, ← add_assoc] at less
    have less := add_right_cancel less
    -- No message that was handed out has the same tag.
    have new : b.inflight.get? d.tag = none := by
      refine Option.eq_none_iff_forall_ne_some.2 fun e he => ?_
      have mem := Roll.mem_of_get? he
      have lent : {e} ≤ b.lent := Roll.le_total mem (f := ({·}))
      have two : ({d} + {e} : Multiset Delivery) ≤ b.stock + b.staged := by
        refine le_trans (add_le_add (?_ : {d} ≤ b.waiting) lent) ?_
        · exact Multiset.singleton_le.2 (less ▸ Multiset.mem_add.2 (.inr (Multiset.mem_singleton_self d)))
        · exact (Multiset.le_add_right _ _).trans (Multiset.le_add_right _ _)
      have := Multiset.nodup_of_le (Multiset.map_le_map two) h.tags
      have tag : d.tag = e.tag := h.tagged _ mem
      rw [Multiset.map_add, Multiset.map_singleton, Multiset.map_singleton, tag] at this
      simp at this
    have lent : Roll.total ({·}) (b.inflight.put d.tag d) = b.lent + {d} := Roll.total_put_new new
    refine .inr ⟨d, rfl, ⟨⟨?_, h.transactions, Roll.nodup_keys_put h.inflight, ?_, fun e he => ?_⟩, ?_,
      ?_, rfl, fun _ r hr => ⟨r, hr, rfl⟩⟩, lent⟩
    · exact Roll.nodup_keys_put h.queues
    · have rest' : ∀ e ∈ rest.toList, e.address = address := fun e he =>
        h.addressed address e (first ▸ List.mem_cons_of_mem _ he)
      exact (h.toShaped.setQueue rest').addressed
    · rcases Roll.mem_put he with ⟨e₁, e₂⟩ | he
      · exact e₁.trans (congrArg (·.tag) e₂).symm
      · exact h.tagged e he
    · show (b.setQueue address rest).waiting + Roll.total ({·}) (b.inflight.put d.tag d) + b.accepted +
        0 = _
      rw [lent, stock, ← less]
      abel
    · rw [add_zero]
      rfl

/-! ### What is new -/

theorem total_put_le {f : Record → Multiset Delivery} (r : Record) (y : TxnId) (hf : f r = 0) :
    (b.transactions.put y r).total f ≤ b.transactions.total f := by
  cases h : b.transactions.get? y with
  | none => rw [Roll.total_put_new h, hf, add_zero]
  | some r' =>
    have := Roll.total_put (f := f) (a := r) h
    rw [hf, add_zero] at this
    exact (Multiset.le_add_right _ _).trans this.le

/-- **A transaction is taken up.** Nothing is staged or acknowledged in it. -/
theorem sound_enlist (h : b.Sound) {m : Nat} :
    Sound { b with txnCounter := m, transactions := b.transactions.put y { link := l } } := by
  refine h.of_le ⟨h.queues, Roll.nodup_keys_put h.transactions, h.inflight, h.addressed, h.tagged⟩ ?_ rfl
  exact add_le_add (add_le_add_right (total_put_le (f := fun r => r.acknowledged) _ _ rfl) _)
    (total_put_le (f := fun r => r.staged.toList) _ _ rfl)

/-- A new message, staged in a live transaction. -/
def stage (y : TxnId) (r : Record) (d : Delivery) (b : Broker) : Broker :=
  { b with
    tagCounter := b.tagCounter + 1
    transactions := b.transactions.put y { r with staged := r.staged.pushBack d } }

theorem stock_stage (h : b.transactions.get? y = some r) : (b.stage y r d).stock = b.stock := by
  have same := Roll.total_put (f := fun r => (r.acknowledged : Multiset Delivery))
    (a := { r with staged := r.staged.pushBack d }) h
  exact congrArg (b.waiting + b.lent + ·) (add_right_cancel same)

theorem staged_stage (h : b.transactions.get? y = some r) :
    (b.stage y r d).staged = b.staged + {d} := by
  have more := Roll.total_put (f := fun r => (r.staged.toList : Multiset Delivery))
    (a := { r with staged := r.staged.pushBack d }) h
  rw [Queue.toList_pushBack, ← Multiset.coe_add, ← add_assoc, add_right_comm] at more
  exact add_right_cancel more

/-- **Messages are published, consumed and taken in,** each new one under a new tag. -/
structure Flow (gained lost fresh : Multiset Delivery) (b b' : Broker) : Prop where
  stock : b'.stock + lost = b.stock + gained
  staged : b'.staged + gained ≤ b.staged + fresh
  tagCounter : b.tagCounter ≤ b'.tagCounter
  tags : (fresh.map (·.tag)).Nodup
  new : ∀ d ∈ fresh, b.tagCounter ≤ d.tag ∧ d.tag < b'.tagCounter

theorem Trade.flow (h : Trade gained lost b b') : Flow gained lost 0 b b' :=
  ⟨h.stock, by rw [add_zero]; exact h.staged, h.tagCounter.ge, by simp, by simp⟩

theorem Flow.trade {fresh : Multiset Delivery} (h : Flow gained lost fresh b b') (ht : Trade 0 0 b' b'') :
    Flow gained lost fresh b b'' where
  stock := by
    have := ht.stock
    rw [add_zero, add_zero] at this
    rw [this, h.stock]
  staged := by
    have := ht.staged
    rw [add_zero] at this
    exact (add_le_add_left this gained).trans h.staged
  tagCounter := ht.tagCounter ▸ h.tagCounter
  tags := h.tags
  new d hd := ht.tagCounter ▸ h.new d hd

theorem Flow.refl (b : Broker) : Flow 0 0 0 b b := ⟨rfl, le_refl _, le_refl _, by simp, by simp⟩

/-- Every message is accounted for: these were consumed, and all others are still there. -/
def Balance (lost : Multiset Delivery) (b b' : Broker) : Prop :=
  b.Sound → b'.Sound ∧ ∃ gained fresh, Flow gained lost fresh b b'

theorem Balance.refl (b : Broker) : Balance 0 b b := fun h => ⟨h, 0, 0, .refl b⟩

theorem Balance.of_trade (h : b.Sound → Trade gained lost b b') : Balance lost b b' := fun hb =>
  ⟨(h hb).sound hb, gained, 0, (h hb).flow⟩

theorem Balance.trade (h : Balance lost b b') (ht : b'.Sound → Trade 0 0 b' b'') :
    Balance lost b b'' := by
  intro hb
  obtain ⟨hb', gained, fresh, flow⟩ := h hb
  exact ⟨(ht hb').sound hb', gained, fresh, flow.trade (ht hb')⟩

theorem balance_enlist (hn : b.transactions.get? y = none) {m : Nat} :
    Balance 0 b { b with txnCounter := m, transactions := b.transactions.put y { link := l } } := by
  intro h
  have accepted := Roll.total_put_new (f := fun r => (r.acknowledged : Multiset Delivery))
    (a := ({ link := l } : Record)) hn
  have staged := Roll.total_put_new (f := fun r => (r.staged.toList : Multiset Delivery))
    (a := ({ link := l } : Record)) hn
  refine ⟨sound_enlist h, 0, 0, ?_, ?_, le_refl _, by simp, by simp⟩
  · exact congrArg (b.waiting + b.lent + · + 0) (accepted.trans (add_zero _))
  · rw [add_zero, add_zero]
    exact (staged.trans (add_zero _)).le

theorem flow_transfer (h : b.Shaped) (index : Nat) (address body : String) (state : DeliveryState) :
    ∃ fresh, Flow 0 0 fresh b (b.transfer index address body (some state)).2 := by
  rcases transfer_cases b index address body state (fun _ => False) with
    ⟨hf, -, -⟩ | ⟨-, -, -, e⟩ | ⟨-, r, hr, -, e⟩
  · unfold transfer
    rw [if_pos hf]
    have kept : Trade 0 0 b { b with transfersToFail := b.transfersToFail.filter (· ≠ .ofNat index) } :=
      trade_same h rfl rfl rfl rfl
    exact ⟨0, kept.flow⟩
  · rw [e]
    exact ⟨0, rfl, le_refl _, Nat.le_succ _, by simp, by simp⟩
  · rw [e]
    refine ⟨{⟨b.tagCounter, address, body⟩}, ?_, ?_, Nat.le_succ _, by simp, fun d hd => ?_⟩
    · exact congrArg (· + 0) (stock_stage hr)
    · rw [add_zero]
      exact (staged_stage hr).le
    · rw [Multiset.mem_singleton.1 hd]
      exact ⟨le_refl _, Nat.lt_succ_self _⟩

theorem inflight_transfer {index : Nat} {body : String} :
    (b.transfer index address body (some state)).2.inflight = b.inflight := by
  unfold transfer
  split
  · rfl
  · dsimp only
    split <;> rfl

theorem links_transfer {index : Nat} {body : String}
    (h : (b.transfer index address body (some state)).2.transactions.get? y = some r) :
    ∃ r', b.transactions.get? y = some r' ∧ r'.link = r.link := by
  unfold transfer at h
  split at h
  · exact ⟨r, h, rfl⟩
  · dsimp only at h
    split at h
    · exact ⟨r, h, rfl⟩
    · next r' hr' =>
      have h := Roll.get?_put.symm.trans h
      split at h
      · next e =>
        obtain rfl := Option.some.inj h
        exact ⟨r', e ▸ hr', rfl⟩
      · exact ⟨r, h, rfl⟩

/-- What is counted before and after, and with all that was consumed, has different tags. -/
theorem Flow.whole {fresh : Multiset Delivery} (h : Flow gained lost fresh b b') :
    b'.stock + b'.staged + lost ≤ b.stock + b.staged + fresh := by
  rw [add_right_comm, h.stock, add_assoc, add_comm gained, add_assoc]
  exact add_le_add_right h.staged _

theorem Flow.apart {fresh used : Multiset Delivery} (h : Flow gained lost fresh b b')
    (hu : (used.map (·.tag)).Nodup) (hlt : ∀ d ∈ used, d.tag < b.tagCounter) :
    ((used + fresh).map (·.tag)).Nodup ∧ ∀ d ∈ used + fresh, d.tag < b'.tagCounter := by
  refine ⟨?_, fun d hd => ?_⟩
  · rw [Multiset.map_add, Multiset.nodup_add]
    refine ⟨hu, h.tags, Multiset.disjoint_left.2 fun {n} hn hn' => ?_⟩
    obtain ⟨d, hd, rfl⟩ := Multiset.mem_map.1 hn
    obtain ⟨e, he, same⟩ := Multiset.mem_map.1 hn'
    have := hlt d hd
    have := (h.new e he).1
    omega
  · rcases Multiset.mem_add.1 hd with hd | hd
    · exact Nat.lt_of_lt_of_le (hlt d hd) h.tagCounter
    · exact (h.new d hd).2

theorem Flow.sound {fresh : Multiset Delivery} (h : Flow gained lost fresh b b') (hb : b.Sound)
    (hs : b'.Shaped) : b'.Sound := by
  have le := (Multiset.le_add_right _ _).trans h.whole
  obtain ⟨tags, lt⟩ := h.apart hb.tags hb.fresh
  exact ⟨hs, Multiset.nodup_of_le (Multiset.map_le_map le) tags,
    fun d hd => lt d (Multiset.mem_of_le le hd)⟩

/-- Something is taken in, published or given up. Nothing is handed out, and no transaction changes
hands. -/
structure Takes (b b' : Broker) : Prop where
  tagCounter : b.tagCounter ≤ b'.tagCounter
  links : ∀ y r, b'.transactions.get? y = some r →
    ∃ r', b.transactions.get? y = some r' ∧ r'.link = r.link
  inflight : b'.inflight = b.inflight
  sound : b.Sound → b'.Sound

theorem Trade.takes (h : Trade gained lost b b') (hi : b'.inflight = b.inflight) : Takes b b' :=
  ⟨h.tagCounter.ge, h.links, hi, h.sound⟩

/-! ### Transfers -/

variable {index : Nat} {body : String}

theorem Shaped.transfer (h : b.Shaped) :
    (b.transfer index address body (some state)).2.Shaped := by
  rcases transfer_cases b index address body state (fun _ => False) with
    ⟨hf, -, -⟩ | ⟨-, -, -, e⟩ | ⟨-, r, hr, -, e⟩
  · unfold Broker.transfer
    rw [if_pos hf]
    exact ⟨h.queues, h.transactions, h.inflight, h.addressed, h.tagged⟩
  · rw [e]
    exact ⟨h.queues, h.transactions, h.inflight, h.addressed, h.tagged⟩
  · rw [e]
    exact ⟨h.queues, Roll.nodup_keys_put h.transactions, h.inflight, h.addressed, h.tagged⟩

theorem balance_transfer : Balance 0 b (b.transfer index address body (some state)).2 := by
  intro h
  obtain ⟨fresh, flow⟩ := flow_transfer h.toShaped index address body state
  exact ⟨flow.sound h h.toShaped.transfer, 0, fresh, flow⟩

theorem takes_transfer : Takes b (b.transfer index address body (some state)).2 where
  tagCounter := by
    unfold transfer
    split
    · exact le_refl _
    · dsimp only
      split <;> exact Nat.le_succ _
  links _ _ := links_transfer
  inflight := inflight_transfer
  sound h := (balance_transfer h).1

theorem balance_deposit : Balance 0 b (b.transfer index address body none).2 := by
  intro h
  rcases deposit_cases b index address body with e | e <;> rw [e]
  · exact Balance.of_trade (fun h => trade_same h.toShaped rfl rfl rfl rfl) h
  · have flow : Flow {⟨b.tagCounter, address, body⟩} 0 {⟨b.tagCounter, address, body⟩} b
        ({ b with tagCounter := b.tagCounter + 1 }.publish ⟨b.tagCounter, address, body⟩) := by
      refine ⟨?_, le_refl _, Nat.le_succ _, by simp, fun d hd => ?_⟩
      · rw [add_zero, stock, waiting_publish, stock]
        show b.waiting + _ + b.lent + b.accepted = _
        abel
      · rw [Multiset.mem_singleton.1 hd]
        exact ⟨le_refl _, Nat.lt_succ_self _⟩
    have counted : Shaped { b with tagCounter := b.tagCounter + 1 } :=
      ⟨h.queues, h.transactions, h.inflight, h.addressed, h.tagged⟩
    exact ⟨flow.sound h counted.publish, _, _, flow⟩

theorem takes_deposit : Takes b (b.transfer index address body none).2 := by
  refine ⟨?_, fun y r hr => ⟨r, ?_, rfl⟩, ?_, fun h => (balance_deposit h).1⟩
  all_goals rcases deposit_cases b index address body with e | e
  · exact (congrArg (·.tagCounter) e).ge
  · exact (Nat.le_succ _).trans (congrArg (·.tagCounter) e).ge
  · exact (congrArg (·.transactions.get? y) e).symm.trans hr
  · exact (congrArg (·.transactions.get? y) e).symm.trans hr
  · exact congrArg (·.inflight) e
  · exact congrArg (·.inflight) e

end Peer.Broker

end Transact
