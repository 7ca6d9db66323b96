import Transact.Proofs.Adversary.Control

/-! # What is to be seen of every run

Three properties of a context, for all foreign code: of every list of moves, at every entry of its
history.

* `run_coherent`: the bound transaction, the cached delivery states and the stage agree.
* `run_in_progress`: what is outstanding belongs to the one operation in progress, and nobody is told
  twice. This is for tame moves: a handler that raises may keep others from being told.
* `run_handed_over`: the requests on a link are declares, each perhaps followed by its discharge. -/

namespace Transact.Adversary

open Player

variable {session : SessionId} {transactions : List TransactionId} {moves : List (Move Call)}
  {later earlier past : List Entry} {e : Entry} {l d : Nat} {a : Answer} {w : List Request}

/-! ### Requests on a link -/

theorem requestsOn_answered {i : Nat} (h : requests (e :: past) =
    (requests past).map (·.answered l d a)) : requestsOn i (e :: past) = requestsOn i past := by
  unfold requestsOn
  rw [h, List.filter_map, List.map_map]
  simp [Function.comp_def]

theorem Paired.init {v : List Request} (h : Paired v) (e : v = w ++ [.declare]) : Paired w := by
  cases h with
  | nil => simp at e
  | declare h =>
    obtain rfl := List.append_cancel_right e
    exact h
  | @discharge v y fail h =>
    have last := congrArg List.getLast? e
    simp at last

theorem Paired.snoc {r : Request} (h : Paired w)
    (hr : ∀ y fail, r = .discharge y fail → w.getLast? = some .declare) : Paired (w ++ [r]) := by
  cases r with
  | declare => exact .declare h
  | discharge y fail =>
    obtain ⟨v, rfl⟩ := List.getLast?_eq_some_iff.1 (hr y fail rfl)
    rw [List.append_assoc]
    exact .discharge (h.init rfl)

theorem getLast_requestsOn {q : Sent} (h : ((requests past).filter (·.link = l)).head? = some q) :
    (requestsOn l past).getLast? = some q.request := by
  rw [requestsOn, List.getLast?_reverse, List.head?_map, h]
  rfl

/-- An entry hands over a request on a link, or leaves the requests there as they are. -/
theorem requestsOn_cons : requestsOn l (e :: past) = requestsOn l past ∨
    ∃ d r, e.event = .sent l d r ∧ requestsOn l (e :: past) = requestsOn l past ++ [r] := by
  obtain ⟨event, x⟩ := e
  cases event with
  | sent l' d r =>
    by_cases hl : l' = l
    · subst hl
      exact .inr ⟨d, r, rfl, by simp [requestsOn, requests]⟩
    · exact .inl (by simp [requestsOn, requests, hl])
  | refused l' d f => exact .inl (requestsOn_answered (answered_refused (f := f) (x := x)).requests)
  | signalled s =>
    cases s with
    | settled l' d s => exact .inl (requestsOn_answered (answered_settled (s := s) (x := x)).requests)
    | _ => exact .inl rfl
  | _ => exact .inl rfl

theorem paired_of_lawful {how : Manners} (h : Lawful (Entry.Good how) past) :
    Paired (requestsOn l past) := by
  induction h with
  | nil => exact .nil
  | @cons e past hg _ ih =>
    have next : requestsOn l (e :: past) = requestsOn l past ∨ _ := requestsOn_cons
    rcases next with same | ⟨d, r, he, next⟩
    · exact same ▸ ih
    · rw [next]
      refine ih.snoc fun y fail hr => ?_
      obtain ⟨event, x⟩ := e
      cases he
      obtain ⟨d', hd⟩ := hg.2.declared y fail hr
      exact getLast_requestsOn hd

/-! ### The three properties -/

/-- No run is cut short for want of depth: it ends, or a handler raises out of it. -/
theorem run_ends : Run.After (control (fun _ => true) (host (moves.length + 1)) (moves.length + 1)
    false) (start session transactions moves) (fun _ _ => True) fun e _ => ∃ f, e = .raised f := by
  have started : Inv .wild .idle none [] (start session transactions moves) :=
    start_inv fun _ _ => trivial
  have firm : Manners.Civil .wild → (Phase.idle : Phase Nat).Firm := fun _ => trivial
  refine (control_keeps (host_sound _) firm started (Nat.lt_succ_self _) (Nat.le_succ _)).mono
    (fun _ _ _ => trivial) ?_
  rintro _ w ⟨f, rfl, -⟩
  exact ⟨f, rfl⟩

/-- **A transaction is bound exactly while its delivery states are cached and the stage is active or
discharging.** All of them carry the name that the coordinator gave to its begin. -/
theorem run_coherent (civil : ∀ m ∈ moves, m.Civil)
    (h : history session transactions moves = later ++ e :: earlier) (ho : e.event.isOutlook) :
    Coherent e.client earlier := by
  have lawful : Lawful (Entry.Good .civil) (history session transactions moves) := run_lawful civil
  obtain ⟨-, good⟩ := (h ▸ lawful).good
  obtain ⟨event, x⟩ := e
  cases event with
  | returned => exact good.1 trivial
  | resolved => exact good.1 trivial
  | _ => cases ho

/-- A transaction that is begun, and a consumer that is enrolled in it. -/
def beginMoves : List (Move Call) :=
  [.call (.request (.begin 0) none), .yield, .call (.signal (.opened 0)), .yield,
    .call (.signal (.settled 0 0 (.declared (some ⟨[1]⟩)))), .yield,
    .call (.signal (.enrolConsumer ⟨.consumer, ⟨"c", .ofNat 1⟩, .ofNat 1⟩ 7))]

/-- **One operation is in progress at a time, and its completion is told once.** Nothing raises out
of a call; what is outstanding belongs to the operation in progress, and only its completion is
still pending. -/
theorem run_in_progress (ht : ∀ m ∈ moves, m.Tame Call.Tame) :
    (resolved (history session transactions moves)).Nodup ∧
    ∀ later e earlier, history session transactions moves = later ++ e :: earlier →
      (∀ failure, e.event = .returned failure → failure = none) ∧
      (e.event.isOutlook → InProgress e.client earlier) := by
  obtain ⟨p, co, hi⟩ : ∃ p co, Inv .tame p co [] (run session transactions moves) := run_inv ht
  refine ⟨hi.ids.resolved_nodup, fun later e earlier h => ?_⟩
  have lawful : Lawful (Entry.Good .tame) (history session transactions moves) := hi.lawful
  obtain ⟨-, good⟩ := (h ▸ lawful).good
  obtain ⟨event, x⟩ := e
  cases event with
  | returned failure =>
    obtain ⟨-, hr⟩ := good
    refine ⟨fun f e => ?_, fun _ => (hr trivial).2⟩
    cases e
    exact (hr trivial).1
  | resolved =>
    exact ⟨fun f e => (by cases e), fun _ => good.2 trivial⟩
  | _ => exact ⟨fun f e => (by cases e), fun ho => (by cases ho)⟩

/-- The transaction is committed, and the coordinator accepts. -/
def commitMoves : List (Move Call) :=
  beginMoves ++ [.call (.request (.finish .commit ⟨0, false⟩) none), .yield, .yield,
    .call (.signal (.settled 0 1 .accepted)), .yield, .yield]

theorem run_in_progress_committed :
    resolved (history ⟨"c", .ofNat 1⟩ [default] commitMoves) = [3, 0] ∧
    (∀ m ∈ commitMoves, m.Tame Call.Tame) ∧
    ∀ later e earlier, history ⟨"c", .ofNat 1⟩ [default] commitMoves = later ++ e :: earlier →
      (∀ failure, e.event = .returned failure → failure = none) ∧
      (e.event.isOutlook → InProgress e.client earlier) := by
  have tame : ∀ m ∈ commitMoves, m.Tame Call.Tame := by
    simp [commitMoves, beginMoves, Move.Tame, Move.Civil, Call.Tame, Operation.Tame, Signal.Tame]
  exact ⟨by decide +kernel, tame, (run_in_progress tame).2⟩

/-- **The requests on each link are declares, each perhaps followed by its discharge.** What holds
whenever one is handed over is said by `HandedOver`; and at no moment are there two links that have
not closed. -/
theorem run_handed_over :
    (∀ l, Paired (requestsOn l (history session transactions moves))) ∧
    ∀ later e earlier, history session transactions moves = later ++ e :: earlier →
      Alone e.client ∧ ∀ l d r, e.event = .sent l d r → HandedOver l r e.client earlier := by
  have lawful : Lawful (Entry.Good .wild) (history session transactions moves) :=
    run_lawful fun _ _ => trivial
  refine ⟨fun l => paired_of_lawful lawful, fun later e earlier h => ?_⟩
  obtain ⟨alone, good⟩ := (h ▸ lawful).good
  refine ⟨alone, fun l d r he => ?_⟩
  obtain ⟨event, x⟩ := e
  cases he
  exact good

example : requestsOn 0 (history ⟨"c", .ofNat 1⟩ [default] commitMoves) =
    [.declare, .discharge ⟨[1]⟩ false] := by
  decide +kernel

end Transact.Adversary
