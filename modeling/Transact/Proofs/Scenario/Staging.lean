import Transact.Proofs.Client.Counting
import Transact.Proofs.Peer.Broker
import Transact.Proofs.Scenario.Sending

/-! # What the broker makes of the messages

The broker takes in the messages of the first transaction in order, and stages what it is not told to
reject. They are published if the transaction commits, and dropped if it does not.

* `Staged.take`: one more message.
* `Staged.discharge`: the transaction is discharged.
* `Staged.forgetLink`: it is lost with its link. -/

namespace Transact.Scenario

open Run Peer

variable {o : Options} {i j n e : Nat} {b : Broker} {fail : Bool}

/-- The broker is told to reject one of the messages below this index. -/
def Options.Fails (o : Options) (n : Nat) : Prop := ∃ i, i < n ∧ o.Rejects i

instance : DecidablePred o.Fails := fun n => inferInstanceAs (Decidable (∃ i, i < n ∧ o.Rejects i))

theorem Options.fails_succ : o.Fails (n + 1) ↔ o.Fails n ∨ o.Rejects n := by
  unfold Fails
  constructor
  · rintro ⟨i, lt, rejects⟩
    rcases Nat.lt_succ_iff_lt_or_eq.1 lt with before | rfl
    · exact .inl ⟨i, before, rejects⟩
    · exact .inr rejects
  · rintro (⟨i, lt, rejects⟩ | rejects)
    · exact ⟨i, Nat.lt_succ_of_lt lt, rejects⟩
    · exact ⟨n, Nat.lt_succ_self n, rejects⟩

theorem Options.not_fails_zero : ¬ o.Fails 0 := fun ⟨i, lt, _⟩ => Nat.not_lt_zero i lt

theorem Options.Rejects.eq (hi : o.Rejects i) (hj : o.Rejects j) (li : i ≤ Number.countLimit)
    (lj : j ≤ Number.countLimit) : i = j := by
  have same : Number.ofNat i = .ofNat j := Option.some.inj (hi.symm.trans hj)
  rw [Number.ofNat_of_le li, Number.ofNat_of_le lj] at same
  exact Number.ofIndex_inj.1 same

/-- Of `n` messages the broker has taken in the first `j`, in the first transaction. It will reject so
many discharges. -/
structure Staged (o : Options) (n j e : Nat) (b : Broker) : Prop where
  record : ∃ r, b.transactions.entries = [(firstName, r)] ∧ r.link = 0 ∧ r.acknowledged = [] ∧
    (∀ d ∈ r.staged.toList, d.address = o.address) ∧
    (¬ o.Fails j → r.staged.toList.map (·.body) = (List.range j).map body)
  queues : b.queues.entries = []
  rejects : ∀ i, j ≤ i → i < n → (b.transfersToFail.contains (.ofNat i) ↔ o.Rejects i)
  declares : b.declaresToReject = 0
  discharges : b.dischargesToReject = e

theorem staged_zero :
    Staged o n 0 e { ready with transfersToFail := o.rejected n, dischargesToReject := e } where
  record := by
    refine ⟨{ link := 0 }, rfl, rfl, rfl, ?_, fun _ => rfl⟩
    intro d hd
    cases hd
  queues := rfl
  rejects i _ lt := by
    simp only [Options.rejected, List.contains_eq_mem, List.mem_map, List.mem_filter, List.mem_range,
      decide_eq_true_eq]
    constructor
    · rintro ⟨k, ⟨below, rejects⟩, same⟩
      rw [Options.Rejects, ← same]
      exact rejects
    · exact fun rejects => ⟨i, ⟨lt, rejects⟩, rfl⟩
  declares := rfl
  discharges := rfl

theorem Staged.get? (h : Staged o n j e b) : ∃ r, b.transactions.get? firstName = some r ∧
    b.transactions.entries = [(firstName, r)] ∧ r.link = 0 ∧ r.acknowledged = [] ∧
    (∀ d ∈ r.staged.toList, d.address = o.address) ∧
    (¬ o.Fails j → r.staged.toList.map (·.body) = (List.range j).map body) := by
  obtain ⟨r, entries, rest⟩ := h.record
  refine ⟨r, ?_, entries, rest⟩
  rw [Roll.get?, entries]
  simp

/-- **The next message is taken in:** it fails if the broker is told so, and is staged if not. -/
theorem Staged.take (h : Staged o n j e b) (lt : j < n) (small : n ≤ Number.countLimit) :
    Staged o n (j + 1) e (b.transfer j o.address (body j) (some (.enrolling firstName))).2 ∧
      ((b.transfer j o.address (body j) (some (.enrolling firstName))).1.cause?.isSome ↔
        o.Rejects j) := by
  obtain ⟨r, found, entries, link, acknowledged, address, bodies⟩ := h.get?
  have rejects := h.rejects j (Nat.le_refl j) lt
  unfold Broker.transfer
  by_cases hj : o.Rejects j
  · rw [if_pos (rejects.2 hj)]
    refine ⟨⟨⟨r, entries, link, acknowledged, address, fun spares => ?_⟩, h.queues, ?_, h.declares,
      h.discharges⟩, iff_of_true rfl hj⟩
    · exact absurd (Options.fails_succ.2 (.inr hj)) spares
    · intro i le below
      have spares : ¬ o.Rejects i := fun hi => absurd (hi.eq hj (by omega) (by omega)) (by omega)
      have known := (not_congr (h.rejects i (by omega) below)).2 spares
      refine iff_of_false (fun contains => known ?_) spares
      simp only [List.contains_eq_mem, List.mem_filter, decide_eq_true_eq] at contains ⊢
      exact contains.1
  · rw [if_neg (mt rejects.1 hj)]
    simp only [DeliveryState.enrolling, found]
    refine ⟨⟨⟨{ r with staged := r.staged.pushBack ⟨b.tagCounter, o.address, body j⟩ }, ?_, link,
      acknowledged, ?_, ?_⟩, h.queues, fun i le => h.rejects i (by omega), h.declares,
      h.discharges⟩, iff_of_false Bool.false_ne_true hj⟩
    · simp [Roll.put, Roll.putInto, entries]
    · intro d hd
      rw [Queue.toList_pushBack, List.mem_append, List.mem_singleton] at hd
      rcases hd with hd | rfl
      · exact address d hd
      · rfl
    · intro spares
      rw [Options.fails_succ, not_or] at spares
      rw [Queue.toList_pushBack, List.map_append, bodies spares.1, List.range_succ, List.map_append]
      rfl

/-! ### The end of the transaction -/

theorem queued_nil {a : String} (h : b.queues.entries = []) : b.queued a = [] := by
  simp [Broker.queued, Broker.queue, Roll.get?, h]

theorem rollBack_nothing {r : Record} (h : r.acknowledged = []) : b.rollBack r = b := by
  rw [Broker.rollBack, h]
  rfl

theorem declares_foldl {ds : List Delivery} :
    (ds.foldl Broker.publish b).declaresToReject = b.declaresToReject := by
  induction ds generalizing b with
  | nil => rfl
  | cons d ds ih => exact ih

/-- **The transaction is discharged:** what is staged is published only if it commits. -/
theorem Staged.discharge (h : Staged o n n e b) : (b.discharge firstName fail).1 =
      (if 0 < e then .rejected Broker.dischargeRefused else .accepted) ∧
    (b.discharge firstName fail).2.declaresToReject = 0 ∧
    (0 < e ∨ fail = true → ∀ a, (b.discharge firstName fail).2.queued a = []) ∧
    (e = 0 → fail = false → ¬ o.Fails n →
      (b.discharge firstName fail).2.queued o.address = (List.range n).map body) := by
  obtain ⟨r, found, -, -, acknowledged, address, bodies⟩ := h.get?
  have nothing {b : Broker} : b.rollBack r = b := rollBack_nothing acknowledged
  have dropped {b' : Broker} (same : b'.queues = b.queues) (a : String) : b'.queued a = [] :=
    queued_nil (same ▸ h.queues)
  unfold Broker.discharge
  simp only [found, h.discharges, nothing]
  by_cases he : 0 < e
  · simp only [if_pos he]
    exact ⟨trivial, h.declares, fun _ => dropped rfl, fun zero => absurd zero (by omega)⟩
  · simp only [if_neg he]
    cases fail with
    | true => exact ⟨rfl, h.declares, fun _ => dropped rfl, fun _ => fun e => by cases e⟩
    | false =>
      refine ⟨rfl, ?_, fun or => absurd or (by simp [he]), fun _ _ spares => ?_⟩
      · exact declares_foldl.trans h.declares
      · have all : r.staged.toList.filter (·.address = o.address) = r.staged.toList :=
          List.filter_eq_self.2 fun d hd => decide_eq_true (address d hd)
        rw [if_neg Bool.false_ne_true, Broker.queued, Broker.toList_queue_foldl, all, List.map_append]
        refine (congrArg (· ++ _) (dropped rfl o.address)).trans ?_
        exact bodies spares

/-- **The transaction is lost** with its link. -/
theorem Staged.forgetLink (h : Staged o n j e b) : (b.forgetLink 0).declaresToReject = 0 ∧
    ∀ a, (b.forgetLink 0).queued a = [] := by
  obtain ⟨r, entries, link, acknowledged, -⟩ := h.record
  have nothing {b : Broker} : b.rollBack r = b := rollBack_nothing acknowledged
  have mine : b.transactions.values.filter (·.link = 0) = [r] := by
    simp [Roll.values, entries, link]
  unfold Broker.forgetLink
  simp only [mine, List.foldl_cons, List.foldl_nil, nothing]
  exact ⟨h.declares, fun a => queued_nil h.queues⟩

end Transact.Scenario
