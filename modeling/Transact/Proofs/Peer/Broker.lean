import Transact.Peer.Broker
import Transact.Proofs.Roll

/-! # What the broker does with messages

A message that was published is held by the broker as long as it waits in a queue, was handed out, or
was acknowledged in a live transaction. Everything the broker does is said by two things: which
messages it holds afterwards, and which of its live transactions stay as they are.

* `Moves`: messages move from one place to another, and transactions of some links end.
* `answer_declare`, `discharge_cases`, `transfer_cases`: what these three do beyond that. -/

namespace Transact

/-! ### Names -/

theorem TxnId.mod_eq_of_ofCounter {i j : Nat} (h : TxnId.ofCounter i = .ofCounter j) :
    i % 0x100000000 = j % 0x100000000 := by
  have byte {a b : Nat} (e : UInt8.ofNat a = .ofNat b) : a % 256 = b % 256 := by
    simpa using congrArg UInt8.toNat e
  simp only [TxnId.ofCounter, TxnId.mk.injEq, List.cons.injEq, and_true] at h
  obtain ⟨h₃, h₂, h₁, h₀⟩ := h
  have := byte h₃
  have := byte h₂
  have := byte h₁
  have := byte h₀
  omega

theorem TxnId.ofCounter_inj {i j : Nat} (hi : i < 0x100000000) (hj : j < 0x100000000) :
    TxnId.ofCounter i = .ofCounter j ↔ i = j := by
  refine ⟨fun h => ?_, fun h => h ▸ rfl⟩
  have := mod_eq_of_ofCounter h
  omega

namespace Peer.Broker

/-! ### Messages held -/

/-- The message was published, and is somewhere. -/
def Holds (b : Broker) (d : Delivery) : Prop :=
  (∃ address, d ∈ (b.queue address).toList) ∨ (∃ n, (n, d) ∈ b.inflight.entries) ∨
    ∃ y r, (y, r) ∈ b.transactions.entries ∧ d ∈ r.acknowledged

/-- From `b` to `b'` messages have moved, and the `extra` ones were published. A live transaction
stays as it is, unless its link is gone. -/
structure Moves (gone : Nat → Prop) (extra : List Delivery) (b b' : Broker) : Prop where
  txnCounter : b'.txnCounter = b.txnCounter
  tagCounter : b'.tagCounter = b.tagCounter
  record : ∀ y r, b.transactions.get? y = some r → ¬ gone r.link →
    ∃ r', b'.transactions.get? y = some r' ∧ r'.link = r.link ∧ r'.staged = r.staged
  held : ∀ d, b'.Holds d → b.Holds d ∨ d ∈ extra

variable {gone : Nat → Prop} {extra : List Delivery} {b b' b'' : Broker} {d : Delivery}
  {address : String} {q : Queue Delivery} {y : TxnId} {r : Record}

theorem Moves.refl (b : Broker) : Moves gone extra b b :=
  ⟨rfl, rfl, fun _ r h _ => ⟨r, h, rfl, rfl⟩, fun _ => .inl⟩

theorem Moves.trans (h : Moves gone extra b b') (h' : Moves gone extra b' b'') :
    Moves gone extra b b'' where
  txnCounter := h'.txnCounter.trans h.txnCounter
  tagCounter := h'.tagCounter.trans h.tagCounter
  record y r hr hg := by
    obtain ⟨r', hr', hl, hs⟩ := h.record y r hr hg
    obtain ⟨r'', hr'', hl', hs'⟩ := h'.record y r' hr' (by rw [hl]; exact hg)
    exact ⟨r'', hr'', hl'.trans hl, hs'.trans hs⟩
  held d hd := by
    rcases h'.held d hd with hd | hd
    · exact h.held d hd
    · exact .inr hd

theorem Moves.of_held (h : Moves gone extra b b') {extra' : List Delivery}
    (he : ∀ d ∈ extra, b.Holds d ∨ d ∈ extra') : Moves gone extra' b b' where
  txnCounter := h.txnCounter
  tagCounter := h.tagCounter
  record := h.record
  held d hd := (h.held d hd).elim .inl (he d)

theorem moves_same (hc : b'.txnCounter = b.txnCounter) (ht : b'.tagCounter = b.tagCounter)
    (hr : b'.transactions = b.transactions) (hq : b'.queues = b.queues)
    (hi : b'.inflight = b.inflight) : Moves gone extra b b' := by
  obtain ⟨_, _, _, _, _, _, _, _⟩ := b
  obtain ⟨_, _, _, _, _, _, _, _⟩ := b'
  subst hc ht hr hq hi
  exact ⟨rfl, rfl, fun _ r h _ => ⟨r, h, rfl, rfl⟩, fun _ => .inl⟩

/-! ### Queues -/

@[simp]
theorem queue_setQueue {a : String} :
    (b.setQueue address q).queue a = if a = address then q else b.queue a := by
  unfold queue setQueue
  rw [Roll.get?_put]
  split <;> rfl

theorem toList_queue_publish {a : String} : ((b.publish d).queue a).toList =
    (b.queue a).toList ++ if d.address = a then [d] else [] := by
  unfold publish
  rw [queue_setQueue]
  by_cases h : a = d.address
  · simp [h]
  · simp [h, Ne.symm h]

/-- What is published goes to the tails of the queues, in order. -/
theorem toList_queue_foldl {a : String} {ds : List Delivery} :
    ((ds.foldl publish b).queue a).toList =
      (b.queue a).toList ++ ds.filter (·.address = a) := by
  induction ds generalizing b with
  | nil => simp
  | cons d ds ih =>
    rw [List.foldl_cons, ih, toList_queue_publish, List.append_assoc]
    by_cases h : d.address = a <;> simp [h]

theorem moves_setQueue (h : ∀ d ∈ q.toList, b.Holds d ∨ d ∈ extra) :
    Moves gone extra b (b.setQueue address q) where
  txnCounter := rfl
  tagCounter := rfl
  record _ r hr _ := ⟨r, hr, rfl, rfl⟩
  held d hd := by
    rcases hd with ⟨a, ha⟩ | hd | hd
    · rw [queue_setQueue] at ha
      split at ha
      · exact h d ha
      · exact .inl (.inl ⟨a, ha⟩)
    · exact .inl (.inr (.inl hd))
    · exact .inl (.inr (.inr hd))

theorem moves_publish : Moves gone [d] b (b.publish d) := by
  refine moves_setQueue fun e he => ?_
  rw [Queue.toList_pushBack, List.mem_append] at he
  exact he.imp_left fun h => .inl ⟨_, h⟩

theorem moves_giveBack : Moves gone [d] b (b.giveBack d) := by
  refine moves_setQueue fun e he => ?_
  rw [Queue.toList_pushFront, List.mem_cons] at he
  rcases he with rfl | he
  · exact .inr (List.mem_singleton_self _)
  · exact .inl (.inl ⟨_, he⟩)

theorem moves_foldl {ds : List Delivery} (h : ∀ d ∈ ds, d ∈ extra) :
    Moves gone extra b (ds.foldl publish b) := by
  induction ds generalizing b with
  | nil => exact .refl b
  | cons d ds ih =>
    refine .trans (moves_publish.of_held fun e he => ?_) (ih fun e he => h e (by simp [he]))
    rw [List.mem_singleton.1 he]
    exact .inr (h d (by simp))

theorem moves_rollBack : Moves gone r.acknowledged b (b.rollBack r) := by
  have all : ∀ ds : List Delivery, (∀ d ∈ ds, d ∈ r.acknowledged) →
      Moves gone r.acknowledged b (ds.foldr giveBack b) := by
    intro ds
    induction ds with
    | nil => exact fun _ => .refl b
    | cons d ds ih =>
      intro h
      refine .trans (ih fun e he => h e (by simp [he])) (moves_giveBack.of_held fun e he => ?_)
      rw [List.mem_singleton.1 he]
      exact .inr (h d (by simp))
  exact all _ fun _ => id

/-! ### Transactions -/

theorem moves_filter {p : TxnId × Record → Bool}
    (hp : ∀ y r, b.transactions.get? y = some r → ¬ gone r.link → p (y, r))
    (hr : b'.transactions = ⟨b.transactions.entries.filter p⟩)
    (hc : b'.txnCounter = b.txnCounter) (ht : b'.tagCounter = b.tagCounter)
    (hq : b'.queues = b.queues) (hi : b'.inflight = b.inflight) : Moves gone extra b b' := by
  refine ⟨hc, ht, fun y r h hg => ⟨r, hr ▸ Roll.get?_filter h (hp y r h hg), rfl, rfl⟩, ?_⟩
  rintro d (hd | hd | ⟨y, r, h, hd⟩)
  · exact .inl (.inl (by simpa only [queue, hq] using hd))
  · exact .inl (.inr (.inl (hi ▸ hd)))
  · rw [hr] at h
    exact .inl (.inr (.inr ⟨y, r, (List.mem_filter.1 h).1, hd⟩))

theorem moves_forgetLink {l : Nat} (extra : List Delivery) :
    Moves (· = l) extra b (b.forgetLink l) := by
  have fold : ∀ (rs : List Record) (b : Broker),
      Moves (· = l) (rs.flatMap (·.acknowledged)) b (rs.foldl (fun b r => b.rollBack r) b) := by
    intro rs
    induction rs with
    | nil => exact .refl
    | cons r rs ih =>
      intro b
      refine .trans (moves_rollBack.of_held fun d hd => .inr ?_) ((ih _).of_held fun d hd => .inr ?_)
      · exact List.mem_append_left _ hd
      · exact List.mem_append_right _ hd
  have dropped : Moves (· = l) [] b { b with
      transactions := ⟨b.transactions.entries.filter (·.2.link ≠ l)⟩ } :=
    moves_filter (fun y r _ hg => by simpa using hg) rfl rfl rfl rfl rfl
  refine .of_held (.trans (dropped.of_held (by simp)) (fold _ _)) fun d hd => .inl ?_
  obtain ⟨r, hr, hd⟩ := List.mem_flatMap.1 hd
  obtain ⟨⟨y, r'⟩, hy, rfl⟩ := List.mem_map.1 (List.mem_filter.1 hr).1
  exact .inr (.inr ⟨y, _, hy, hd⟩)

/-- A declare is rejected, or names a new transaction by the counter. -/
theorem answer_declare (b : Broker) {l : Nat} :
    ((∃ e, (b.answer l .declare).1 = .rejected e) ∧
      (b.answer l .declare).2 = { b with declaresToReject := b.declaresToReject - 1 }) ∨
    ((b.answer l .declare).1 = .declared (some (TxnId.ofCounter b.txnCounter)) ∧
      (b.answer l .declare).2 = { b with
        txnCounter := b.txnCounter + 1
        transactions := b.transactions.put (TxnId.ofCounter b.txnCounter) { link := l } }) := by
  unfold answer declare
  by_cases h : 0 < b.declaresToReject
  · rw [if_pos h]
    exact .inl ⟨⟨_, rfl⟩, rfl⟩
  · rw [if_neg h]
    exact .inr ⟨rfl, rfl⟩

theorem counters_discharge (b : Broker) (y : TxnId) (fail : Bool) :
    (b.discharge y fail).2.txnCounter = b.txnCounter ∧
      (b.discharge y fail).2.tagCounter = b.tagCounter := by
  have rolled (b : Broker) (r : Record) : Moves (fun _ => False) r.acknowledged b (b.rollBack r) :=
    moves_rollBack
  have published (b : Broker) (ds : List Delivery) :
      Moves (fun _ => False) ds b (ds.foldl publish b) := moves_foldl fun _ => id
  unfold discharge
  cases b.transactions.get? y with
  | none => exact ⟨rfl, rfl⟩
  | some r =>
    dsimp only
    split
    · exact ⟨(rolled _ r).txnCounter, (rolled _ r).tagCounter⟩
    · cases fail with
      | true => exact ⟨(rolled _ r).txnCounter, (rolled _ r).tagCounter⟩
      | false => exact ⟨(published _ _).txnCounter, (published _ _).tagCounter⟩

/-- A discharge publishes what was staged, if it is accepted and commits; in any other case nothing
is published. The transaction is over. -/
theorem discharge_cases (h : b.transactions.get? y = some r) (fail : Bool) :
    (((b.discharge y fail).1 = .accepted ∧ fail ∨ ∃ e, (b.discharge y fail).1 = .rejected e) ∧
      Moves (· = r.link) [] b (b.discharge y fail).2) ∨
    ((b.discharge y fail).1 = .accepted ∧ fail = false ∧
      Moves (· = r.link) r.staged.toList b (b.discharge y fail).2 ∧
      ∀ a, ((b.discharge y fail).2.queue a).toList =
        (b.queue a).toList ++ r.staged.toList.filter (·.address = a)) := by
  have erased (n : Nat) : Moves (· = r.link) r.acknowledged b { b with
      transactions := b.transactions.erase y, dischargesToReject := n } := by
    refine moves_filter (fun y' r' hr' hg => ?_) rfl rfl rfl rfl rfl
    refine decide_eq_true fun (e : y' = y) => hg ?_
    rw [e, h] at hr'
    rw [Option.some.inj hr']
  have held : ∀ d ∈ r.acknowledged, b.Holds d ∨ d ∈ ([] : List Delivery) :=
    fun d hd => .inl (.inr (.inr ⟨y, r, Roll.mem_of_get? h, hd⟩))
  by_cases hd : 0 < b.dischargesToReject
  · have e : b.discharge y fail = (.rejected dischargeRefused, { b with
        transactions := b.transactions.erase y
        dischargesToReject := b.dischargesToReject - 1 }.rollBack r) := by
      simp only [discharge, h, hd, if_true]
    rw [e]
    exact .inl ⟨.inr ⟨_, rfl⟩, .of_held ((erased _).trans moves_rollBack) held⟩
  · cases fail with
    | true =>
      have e : b.discharge y true = (.accepted,
          { b with transactions := b.transactions.erase y }.rollBack r) := by
        simp only [discharge, h, hd, if_true, if_false]
      rw [e]
      exact .inl ⟨.inl ⟨rfl, rfl⟩, .of_held ((erased b.dischargesToReject).trans moves_rollBack) held⟩
    | false =>
      have e : b.discharge y false = (.accepted, r.staged.toList.foldl publish
          { b with transactions := b.transactions.erase y }) := by
        simp only [discharge, h, hd, if_false, Bool.false_eq_true]
      rw [e]
      refine .inr ⟨rfl, rfl, ?_, fun a => toList_queue_foldl⟩
      refine ((erased b.dischargesToReject).of_held fun d hd => ?_).trans (moves_foldl fun _ => id)
      exact .inl ((held d hd).resolve_right List.not_mem_nil)

theorem discharge_committed (h : b.transactions.get? y = some r)
    (ha : (b.discharge y false).1 = .accepted) :
    Moves (· = r.link) r.staged.toList b (b.discharge y false).2 ∧
      ∀ a, ((b.discharge y false).2.queue a).toList =
        (b.queue a).toList ++ r.staged.toList.filter (·.address = a) := by
  rcases discharge_cases h false with ⟨⟨-, hf⟩ | ⟨e, he⟩, -⟩ | ⟨-, -, hm, hq⟩
  · cases hf
  · cases ha.symm.trans he
  · exact ⟨hm, hq⟩

theorem discharge_dropped (h : b.transactions.get? y = some r) {fail : Bool}
    (hn : ¬ (fail = false ∧ (b.discharge y fail).1 = .accepted)) :
    Moves (· = r.link) [] b (b.discharge y fail).2 := by
  rcases discharge_cases h fail with ⟨-, hm⟩ | ⟨ha, hf, -⟩
  · exact hm
  · exact absurd ⟨hf, ha⟩ hn

/-! ### Traffic -/

/-- A transfer that belongs to a transaction is made to fail, finds its transaction gone, or is
staged. -/
theorem transfer_cases (b : Broker) (index : Nat) (address body : String) (state : DeliveryState)
    (gone : Nat → Prop) :
    (b.transfersToFail.contains (.ofNat index) ∧
      (b.transfer index address body (some state)).1 =
        .failed (Problem.transferRejected index address).toFailure ∧
      Moves gone [] b (b.transfer index address body (some state)).2) ∨
    (¬ b.transfersToFail.contains (.ofNat index) ∧ b.transactions.get? state.txnId = none ∧
      (b.transfer index address body (some state)).1 =
        .failed (Problem.transferUnknown index state.txnId).toFailure ∧
      (b.transfer index address body (some state)).2 = { b with tagCounter := b.tagCounter + 1 }) ∨
    (¬ b.transfersToFail.contains (.ofNat index) ∧ ∃ r, b.transactions.get? state.txnId = some r ∧
      (b.transfer index address body (some state)).1 = .succeeded () ∧
      (b.transfer index address body (some state)).2 = { b with
        tagCounter := b.tagCounter + 1
        transactions := b.transactions.put state.txnId { r with
          staged := r.staged.pushBack ⟨b.tagCounter, address, body⟩ } }) := by
  by_cases h : b.transfersToFail.contains (.ofNat index)
  · have e : b.transfer index address body (some state) =
        (.failed (Problem.transferRejected index address).toFailure, { b with
          transfersToFail := b.transfersToFail.filter (· ≠ .ofNat index) }) := by
      unfold transfer
      rw [if_pos h]
    rw [e]
    exact .inl ⟨h, rfl, moves_same rfl rfl rfl rfl rfl⟩
  · cases hr : b.transactions.get? state.txnId with
    | none =>
      refine .inr (.inl ⟨h, rfl, ?_⟩)
      unfold transfer
      rw [if_neg h]
      simp only [hr]
      exact ⟨trivial, trivial⟩
    | some r =>
      refine .inr (.inr ⟨h, r, rfl, ?_⟩)
      unfold transfer
      rw [if_neg h]
      simp only [hr]
      exact ⟨trivial, trivial⟩

/-- A message from elsewhere is made to fail, or is published under a new tag. -/
theorem deposit_cases (b : Broker) (index : Nat) (address body : String) :
    (b.transfer index address body none).2 =
        { b with transfersToFail := b.transfersToFail.filter (· ≠ .ofNat index) } ∨
      (b.transfer index address body none).2 =
        { b with tagCounter := b.tagCounter + 1 }.publish ⟨b.tagCounter, address, body⟩ := by
  unfold transfer
  split
  · exact .inl rfl
  · exact .inr rfl

theorem transactions_deposit {index : Nat} {body : String} :
    (b.transfer index address body none).2.transactions = b.transactions := by
  rcases deposit_cases b index address body with e | e
  · rw [e]
  · rw [e]
    rfl

theorem txnCounter_deposit {index : Nat} {body : String} :
    (b.transfer index address body none).2.txnCounter = b.txnCounter := by
  rcases deposit_cases b index address body with e | e
  · rw [e]
  · rw [e]
    rfl

theorem held_deposit {index : Nat} {body : String} (h : (b.transfer index address body none).2.Holds d) :
    b.Holds d ∨ d.tag = b.tagCounter := by
  rcases deposit_cases b index address body with e | e <;> rw [e] at h
  · exact .inl h
  · have published : Moves (fun _ => False) [⟨b.tagCounter, address, body⟩]
        { b with tagCounter := b.tagCounter + 1 } _ := moves_publish
    exact (published.held d h).imp_right fun hd => by rw [List.mem_singleton.1 hd]

theorem moves_inflight {r : Roll Nat Delivery}
    (h : ∀ n d, (n, d) ∈ r.entries → b.Holds d ∨ d ∈ extra) :
    Moves gone extra b { b with inflight := r } := by
  refine ⟨rfl, rfl, fun _ r hr _ => ⟨r, hr, rfl, rfl⟩, ?_⟩
  rintro e (he | ⟨n, he⟩ | he)
  · exact .inl (.inl he)
  · exact h n e he
  · exact .inl (.inr (.inr he))

theorem moves_fetch : Moves gone extra b (b.fetch address).2 := by
  unfold fetch
  cases h : (b.queue address).popFront? with
  | none => exact .refl b
  | some x =>
    obtain ⟨d, rest⟩ := x
    have here : ∀ e ∈ d :: rest.toList, b.Holds e := fun e he =>
      .inl ⟨address, by rwa [Queue.popFront?_eq_some h]⟩
    have out : Moves gone [d] b (b.setQueue address rest) :=
      moves_setQueue fun e he => .inl (here e (List.mem_cons_of_mem _ he))
    refine .of_held (out.trans (moves_inflight fun n e he => ?_)) fun e he => .inl ?_
    · rcases Roll.mem_put he with ⟨-, rfl⟩ | he
      · exact .inr (List.mem_singleton_self _)
      · exact .inl (.inr (.inl ⟨n, he⟩))
    · rw [List.mem_singleton.1 he]
      exact here d List.mem_cons_self

variable {tag : Number} {state : DeliveryState}

theorem takeBack_cases (h : b.takeBack tag = .ok (d, b')) (gone : Nat → Prop) (extra : List Delivery) :
    b.Holds d ∧ Moves gone extra b b' := by
  unfold takeBack at h
  cases hd : tag.toNat?.bind b.inflight.get? with
  | none => simp [hd] at h
  | some e =>
    simp only [hd, Except.ok.injEq, Prod.mk.injEq] at h
    obtain ⟨rfl, rfl⟩ := h
    obtain ⟨n, -, hn⟩ := Option.bind_eq_some_iff.1 hd
    refine ⟨.inr (.inl ⟨n, Roll.mem_of_get? hn⟩), moves_inflight fun m e he => ?_⟩
    exact .inl (.inr (.inl ⟨m, (List.mem_filter.1 he).1⟩))

theorem moves_release (h : b.release tag = .ok b') : Moves gone extra b b' := by
  unfold release at h
  cases ht : b.takeBack tag with
  | error p => simp [ht, bind, Except.bind] at h
  | ok x =>
    obtain ⟨d, c⟩ := x
    obtain rfl : c.giveBack d = b' := by simpa [ht, bind, Except.bind, pure, Except.pure] using h
    obtain ⟨hd, hm⟩ := takeBack_cases ht gone [d]
    refine (hm.trans moves_giveBack).of_held fun e he => .inl ?_
    rwa [List.mem_singleton.1 he]

theorem moves_put (h : b.transactions.get? y = some r) :
    Moves gone [d] b { b with
      transactions := b.transactions.put y { r with acknowledged := r.acknowledged ++ [d] } } := by
  refine ⟨rfl, rfl, fun y' r' hr hg => ?_, ?_⟩
  · by_cases e : y' = y
    · subst e
      obtain rfl : r = r' := Option.some.inj (h.symm.trans hr)
      exact ⟨{ r with acknowledged := r.acknowledged ++ [d] }, by rw [Roll.get?_put, if_pos rfl], rfl,
        rfl⟩
    · exact ⟨r', by rw [Roll.get?_put, if_neg e, hr], rfl, rfl⟩
  · rintro e (he | he | ⟨y', r', hr, he⟩)
    · exact .inl (.inl he)
    · exact .inl (.inr (.inl he))
    · rcases Roll.mem_put hr with ⟨-, rfl⟩ | hr
      · rcases List.mem_append.1 he with he | he
        · exact .inl (.inr (.inr ⟨y, r, Roll.mem_of_get? h, he⟩))
        · exact .inr he
      · exact .inl (.inr (.inr ⟨y', r', hr, he⟩))

theorem moves_acknowledge (h : b.acknowledge tag state = .ok b') : Moves gone extra b b' := by
  unfold acknowledge at h
  cases ht : b.takeBack tag with
  | error p => simp [ht, bind, Except.bind] at h
  | ok x =>
    obtain ⟨d, c⟩ := x
    obtain ⟨hd, hm⟩ := takeBack_cases ht gone [d]
    have back : ∀ e ∈ [d], b.Holds e ∨ e ∈ extra := fun e he => .inl (by rwa [List.mem_singleton.1 he])
    simp only [ht, bind, Except.bind, pure, Except.pure] at h
    split at h
    · next r _ hr _ =>
      obtain rfl := Except.ok.inj h
      exact (hm.trans (moves_put hr)).of_held back
    · obtain rfl := Except.ok.inj h
      exact (hm.trans moves_giveBack).of_held back

end Peer.Broker

end Transact
