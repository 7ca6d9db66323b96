import Transact.Aggregation
import Mathlib.Algebra.Group.Nat.Defs

/-! # Counting down

An aggregation waits for as many sends as it was told, one less with each that is settled. Up to
`countLimit` the count is exact. A larger one is rounded now and then, but is far from its end.

* `ofRat_natCast`: rounding does not lead below `countLimit`.
* `settle_eq`: what one more settled send leaves.
* `settled_pending`, `settled_commit`: what so many of them leave. -/

namespace Transact

namespace Number

/-! ### Rounding -/

theorem le_nearestInt (q : Rat) : q.floor ≤ nearestInt q := by
  unfold nearestInt
  simp only
  split
  · exact Int.le_refl _
  · split
    · omega
    · split <;> omega

theorem twoPow_natCast (k : Nat) : twoPow k = ((2 ^ k : Nat) : Rat) := by
  rw [twoPow, Rat.zpow_natCast, Rat.natCast_pow]
  rfl

theorem spacing_natCast {n : Nat} (h : countLimit < n) :
    ∃ k, 1 ≤ k ∧ 2 ^ (k + 52) ≤ n ∧ spacing n = ((2 ^ k : Nat) : Rat) := by
  have positive : n ≠ 0 := by omega
  have large : 53 ≤ n.log2 := (Nat.le_log2 positive).2 (Nat.le_of_lt h)
  have below : twoPow n.log2 ≤ (n : Rat) := by
    rw [twoPow_natCast]
    exact Rat.natCast_le_natCast.2 (Nat.log2_self_le positive)
  have exponent : binaryExponent n = n.log2 := by
    have one : Nat.log2 1 = 0 := by decide
    have same : ((n : Rat).num.natAbs.log2 : Int) - ((n : Rat).den.log2 : Int) = n.log2 := by
      show ((n : Int).natAbs.log2 : Int) - (Nat.log2 1 : Int) = n.log2
      rw [one, Int.natAbs_natCast]
      omega
    unfold binaryExponent
    simp only [same, if_pos below]
  refine ⟨n.log2 - 52, by omega, ?_, ?_⟩
  · rw [Nat.sub_add_cancel (by omega)]
    exact Nat.log2_self_le positive
  · have difference : max ((n.log2 : Int) - 52) (-1074) = ((n.log2 - 52 : Nat) : Int) := by omega
    rw [spacing, exponent, difference, twoPow_natCast]

/-- What is above `countLimit` may be rounded, but not below it. -/
theorem ofRat_natCast {n : Nat} (h : countLimit < n) : ∃ m, countLimit ≤ m ∧ ofRat n = ofIndex m := by
  obtain ⟨k, hk, hle, hs⟩ := spacing_natCast h
  have step : (0 : Rat) < ((2 ^ k : Nat) : Rat) := Rat.natCast_pos.2 (Nat.two_pow_pos k)
  have enough : ((2 ^ 52 : Nat) : Int) ≤ nearestInt (n / ((2 ^ k : Nat) : Rat)) := by
    refine Int.le_trans (Rat.le_floor_iff.2 ?_) (le_nearestInt _)
    refine Rat.not_lt.1 fun hlt => ?_
    rw [Rat.div_lt_iff step, Rat.intCast_natCast, ← Rat.natCast_mul, Rat.natCast_lt_natCast,
      ← Nat.pow_add, Nat.add_comm] at hlt
    exact Nat.not_le_of_lt hlt hle
  obtain ⟨z, hz⟩ := Int.eq_ofNat_of_zero_le (Int.le_trans (Int.natCast_nonneg _) enough)
  refine ⟨z * 2 ^ k, ?_, ?_⟩
  · have two : 2 ^ 1 ≤ 2 ^ k := Nat.pow_le_pow_right (by decide) hk
    have many : 2 ^ 52 ≤ z := Int.ofNat_le.1 (hz ▸ enough)
    exact Nat.mul_le_mul many two
  · have large : ¬ ((n : Rat).den = 1 ∧ (n : Rat).num.natAbs ≤ countLimit) := fun e =>
      absurd e.2 (Nat.not_le_of_lt h)
    have positive : ¬ (n : Rat) < 0 := Rat.not_lt.2 Rat.natCast_nonneg
    rw [ofRat, if_neg large]
    simp only [if_neg positive, hs, hz, ofIndex]
    rw [Rat.natCast_mul]
    rfl

/-! ### One less -/

theorem ofIndex_inj {i j : Nat} : ofIndex i = ofIndex j ↔ i = j := by
  rw [ofIndex, ofIndex, Number.mk.injEq]
  exact Rat.natCast_inj

theorem pred_ofIndex {n : Nat} (h : n + 1 ≤ countLimit) : pred (ofIndex (n + 1)) = ofIndex n := by
  have same : ofIndex (n + 1) = ofNat (n + 1) := (ofNat_of_le h).symm
  rw [same, pred_ofNat h, ofNat_of_le (Nat.le_of_succ_le h)]
  rfl

theorem pred_ofIndex_large {n : Nat} (h : countLimit < n) :
    ∃ m, countLimit ≤ m ∧ pred (ofIndex n) = ofIndex m := by
  obtain ⟨n, rfl⟩ : ∃ k, n = k + 1 := ⟨n - 1, by omega⟩
  have less : (((n + 1 : Nat) : Rat) - 1) = n := by
    rw [Rat.natCast_add]
    exact Rat.add_sub_cancel
  have next : pred (ofIndex (n + 1)) = ofRat n := congrArg ofRat less
  rw [next]
  by_cases large : countLimit < n
  · exact ofRat_natCast large
  · exact ⟨n, Nat.le_of_lt_succ h, ofNat_of_le (Nat.le_of_not_lt large)⟩

end Number

namespace Aggregation

variable {a : Aggregation} {failure : Option Failure} {failures : List (Option Failure)} {k n : Nat}
  {commit : Bool}

/-! ### One send is settled -/

theorem note_pending : (a.note failure).pending = a.pending := by
  cases failure <;> rfl

/-- An aggregation is still meant to commit only if nothing has failed. -/
theorem note_commit : (a.note failure).commit = true ↔ a.commit = true ∧ failure = none := by
  cases failure with
  | none => simp [note]
  | some f => simp [note]

/-- Where a failure is remembered already, another one leaves no trace. -/
theorem note_failed (failed : a.commit = false) (known : a.earliestFailure.any (!·.isAbsent) = true) :
    a.note failure = a := by
  cases failure with
  | none => rfl
  | some f =>
    unfold note
    simp only [known, if_true]
    rw [← failed]

theorem isComplete_ofIndex (h : a.pending = .ofIndex n) : a.isComplete = decide (n = 0) := by
  have zero : Number.ofNat 0 = .ofIndex 0 := Number.ofNat_of_le (Nat.zero_le _)
  rw [isComplete, decide_eq_decide, h, zero, Number.ofIndex_inj]

theorem isComplete_eq (h : a.pending = .ofNat k) (hk : k ≤ Number.countLimit) :
    a.isComplete = decide (k = 0) :=
  isComplete_ofIndex (h.trans (Number.ofNat_of_le hk))

theorem settle_incomplete (h : a.isComplete = false) :
    a.settle failure = ({ a.note failure with pending := a.pending.pred },
      .ok (if ({ a.note failure with pending := a.pending.pred } : Aggregation).isComplete then
        some ⟨(a.note failure).commit, (a.note failure).earliestFailure⟩ else none)) := by
  have open_ : (a.note failure).isComplete = false := by
    rw [isComplete, note_pending]
    exact h
  unfold settle
  simp only [open_, note_pending, Bool.false_eq_true, if_false]

theorem settle_complete (h : a.isComplete = true) :
    a.settle failure = (a.note failure, .error .sendsSettled) := by
  have done : (a.note failure).isComplete = true := by
    rw [isComplete, note_pending]
    exact h
  unfold settle
  simp only [done, if_true]

theorem settle_eq (h : a.pending = .ofNat (k + 1)) (hk : k + 1 ≤ Number.countLimit) :
    a.settle failure = ({ a.note failure with pending := .ofNat k },
      .ok (if k = 0 then some ⟨(a.note failure).commit, (a.note failure).earliestFailure⟩
        else none)) := by
  have open_ : a.isComplete = false := by
    rw [isComplete_eq h hk, decide_eq_false_iff_not]
    exact Nat.succ_ne_zero k
  have last : ({ a.note failure with pending := .ofNat k } : Aggregation).isComplete =
      decide (k = 0) := isComplete_eq rfl (Nat.le_of_succ_le hk)
  rw [settle_incomplete open_, h, Number.pred_ofNat hk]
  simp only [last, decide_eq_true_eq]

theorem settle_result (h : a.isComplete = false) : (a.settle failure).2 =
    .ok (if (a.settle failure).1.isComplete then
      some ⟨(a.settle failure).1.commit, (a.settle failure).1.earliestFailure⟩ else none) := by
  rw [settle_incomplete h]

theorem settle_decision {d : Decision} (h : (a.settle failure).2 = .ok (some d)) :
    a.isComplete = false ∧ (a.settle failure).1.isComplete = true ∧
      d.commit = (a.settle failure).1.commit := by
  cases hc : a.isComplete with
  | true =>
    rw [settle_complete hc] at h
    cases h
  | false =>
    rw [settle_result hc] at h
    split at h
    · next last =>
      cases h
      exact ⟨rfl, last, rfl⟩
    · cases h

theorem isComplete_settle (h : (a.settle failure).1.isComplete = false) : a.isComplete = false := by
  cases hc : a.isComplete with
  | false => rfl
  | true =>
    rw [settle_complete hc, isComplete, note_pending] at h
    exact hc.symm.trans h

theorem settle_commit : (a.settle failure).1.commit = true ↔ a.commit = true ∧ failure = none := by
  cases h : a.isComplete with
  | false =>
    rw [settle_incomplete h]
    exact note_commit
  | true =>
    rw [settle_complete h]
    exact note_commit

theorem settle_earliestFailure :
    (a.settle failure).1.earliestFailure = (a.note failure).earliestFailure := by
  cases h : a.isComplete with
  | false => rw [settle_incomplete h]
  | true => rw [settle_complete h]

/-! ### One send after the other -/

/-- What is left once these sends are settled. -/
def settled (failures : List (Option Failure)) (a : Aggregation) : Aggregation :=
  failures.foldl (fun a failure => (a.settle failure).1) a

theorem settled_append : a.settled (failures ++ [failure]) = ((a.settled failures).settle failure).1 :=
  List.foldl_append

theorem settled_commit : (a.settled failures).commit = true ↔
    a.commit = true ∧ ∀ failure ∈ failures, failure = none := by
  induction failures generalizing a with
  | nil => simp [settled]
  | cons f rest ih =>
    rw [settled, List.foldl_cons]
    refine ih.trans ?_
    rw [settle_commit, List.forall_mem_cons, and_assoc]

theorem settle_pending (h : a.pending = .ofIndex n) : ∃ m,
    (a.settle failure).1.pending = .ofIndex m ∧ (n ≤ Number.countLimit → m = n - 1) ∧
      (Number.countLimit < n → Number.countLimit ≤ m) := by
  cases n with
  | zero =>
    have done : a.isComplete = true := by rw [isComplete_ofIndex h]; rfl
    refine ⟨0, ?_, fun _ => rfl, fun hn => absurd hn (Nat.not_lt_zero _)⟩
    rw [settle_complete done, note_pending]
    exact h
  | succ n =>
    have open_ : a.isComplete = false := by
      rw [isComplete_ofIndex h, decide_eq_false_iff_not]
      exact Nat.succ_ne_zero n
    have pending : (a.settle failure).1.pending = (Number.ofIndex (n + 1)).pred := by
      rw [settle_incomplete open_, h]
    rw [pending]
    by_cases large : Number.countLimit < n + 1
    · obtain ⟨m, hm, e⟩ := Number.pred_ofIndex_large large
      exact ⟨m, e, fun hn => absurd large (Nat.not_lt_of_le hn), fun _ => hm⟩
    · exact ⟨n, Number.pred_ofIndex (Nat.le_of_not_lt large), fun _ => rfl, fun hn => absurd hn large⟩

theorem settled_pending (h : a.pending = .ofIndex n) : ∃ m,
    (a.settled failures).pending = .ofIndex m ∧
      (n ≤ Number.countLimit → m = n - failures.length) ∧
      (Number.countLimit < n → Number.countLimit ≤ m + failures.length) := by
  induction failures generalizing a n with
  | nil => exact ⟨n, h, fun _ => rfl, fun hn => Nat.le_of_lt hn⟩
  | cons f rest ih =>
    obtain ⟨m, hm, exact_, large⟩ : ∃ m, (a.settle f).1.pending = .ofIndex m ∧
      (n ≤ Number.countLimit → m = n - 1) ∧ (Number.countLimit < n → Number.countLimit ≤ m) :=
      settle_pending h
    obtain ⟨m', hm', exact', large'⟩ := ih hm
    refine ⟨m', hm', fun hn => ?_, fun hn => ?_⟩
    · rw [exact' (by rw [exact_ hn]; omega), exact_ hn, List.length_cons]
      omega
    · have above := large hn
      rw [List.length_cons]
      by_cases hm : Number.countLimit < m
      · have := large' hm
        omega
      · have := exact' (Nat.le_of_not_lt hm)
        omega

/-! ### New aggregations -/

theorem ofSends_ofIndex : ofSends (.ofIndex n) commit = .ok { pending := .ofIndex n, commit } := by
  have positive : (Number.ofIndex n).isNegative = false := by
    rw [Number.ofIndex, Number.isNegative, decide_eq_false_iff_not, Rat.not_lt]
    exact Rat.natCast_nonneg
  unfold ofSends
  rw [positive]
  rfl

theorem ofSends_ofNat (hk : k ≤ Number.countLimit) :
    ofSends (.ofNat k) commit = .ok { pending := .ofNat k, commit } := by
  rw [Number.ofNat_of_le hk]
  exact ofSends_ofIndex

end Aggregation

end Transact
