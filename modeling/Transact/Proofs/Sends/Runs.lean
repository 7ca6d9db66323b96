import Transact.Proofs.Sends.Control

/-! # Aggregates in every run

For all foreign code, and every list of moves: an aggregate of sends does nothing until its last send is
settled, and ends its transaction then. In between anything may happen: its link may close, the
transaction may end, and another one may be begun.

* `run_aggregated`: what becomes of an aggregate. -/

namespace Transact.Adversary

open Player

variable {session : SessionId} {transactions : List TransactionId} {moves : List (Move Call)}
  {later earlier between past : List Entry} {x : Client Nat} {a n id l d : Nat} {e : Event} {r : Request}
  {info : TransactionRef} {pending : Number} {commit : Bool} {failure : Option Failure}
  {failures : List (Option Failure)} {sends : Aggregation} {A : Aggregate Nat} {hooks : List Entry}
  {i : Entry}

/-! ### The count -/

theorem ends_clear (h : e.Clear) : ends a (⟨e, x⟩ :: past) = ends a past := by
  cases e with
  | signalled s => cases s <;> first | rfl | cases h
  | _ => rfl

theorem length_ends_le : (ends a past).length ≤ (ends a (between ++ past)).length := by
  induction between with
  | nil => exact Nat.le_refl _
  | cons i between ih =>
    refine Nat.le_trans ih ?_
    obtain ⟨e, x⟩ := i
    by_cases hc : e.Clear
    · exact Nat.le_of_eq (congrArg List.length (ends_clear hc)).symm
    cases e with
    | requested => exact Nat.le_refl _
    | signalled s =>
      cases s with
      | settleSend a' failure =>
        rw [List.cons_append, ends]
        split
        · rw [List.length_append]
          exact Nat.le_add_right _ _
        · exact Nat.le_refl _
      | _ => exact absurd trivial hc
    | _ => exact absurd trivial hc

theorem tabled_between (hs : Aggregation.ofSends pending commit = .ok sends) :
    (tabled (between ++ ⟨.requested (.aggregate info pending commit) id, x⟩ :: earlier))[
      (tabled earlier).size]? =
      some ⟨sends.settled (ends (tabled earlier).size between), 0, info, commit, .client id id⟩ := by
  induction between with
  | nil =>
    rw [List.nil_append, tabled, hs, Array.getElem?_push_size]
    rfl
  | cons i between ih =>
    obtain ⟨e, x'⟩ := i
    by_cases hc : e.Clear
    · rw [List.cons_append, tabled_clear hc, ends_clear hc]
      exact ih
    cases e with
    | requested o id' =>
      cases o with
      | aggregate info' pending' commit' =>
        rw [List.cons_append, tabled]
        split
        · exact ih
        · exact (Array.getElem?_push_lt (Array.getElem?_eq_some_iff.1 ih).1).trans
            ((Array.getElem?_eq_getElem _).symm.trans ih)
      | _ => exact ih
    | signalled s =>
      cases s with
      | settleSend a' failure =>
        rw [List.cons_append, tabled, Array.getElem?_modify, ends]
        by_cases ha : a' = (tabled earlier).size
        · rw [if_pos ha, if_pos ha, ih, Aggregation.settled_append]
          rfl
        · rw [if_neg ha, if_neg ha]
          exact ih
      | _ => exact absurd trivial hc
    | _ => exact absurd trivial hc

theorem isComplete_settled (hk : n ≤ Number.countLimit) (hn : failures.length ≤ n) :
    (({ pending := .ofIndex n, commit } : Aggregation).settled failures).isComplete =
      decide (failures.length = n) := by
  obtain ⟨m, hm, small, -⟩ : ∃ m,
      (({ pending := .ofIndex n, commit } : Aggregation).settled failures).pending = .ofIndex m ∧
        (n ≤ Number.countLimit → m = n - failures.length) ∧
        (Number.countLimit < n → Number.countLimit ≤ m + failures.length) :=
    Aggregation.settled_pending rfl
  have left := small hk
  rw [Aggregation.isComplete_ofIndex hm, decide_eq_decide]
  omega

/-! ### The next discharge -/

theorem getLast_requestsOn_append {r' : Request}
    (h : (requestsOn l (between ++ ⟨.sent l d r, x⟩ :: past)).getLast? = some r') :
    r' = r ∨ ∃ i ∈ between, ∃ d', i.event = .sent l d' r' := by
  induction between with
  | nil =>
    have next : requestsOn l (⟨.sent l d r, x⟩ :: past) = requestsOn l past ++ [r] := by
      simp [requestsOn, requests]
    rw [List.nil_append, next, List.getLast?_concat] at h
    exact .inl (Option.some.inj h).symm
  | cons i between ih =>
    have next : requestsOn l (i :: (between ++ ⟨.sent l d r, x⟩ :: past)) =
        requestsOn l (between ++ ⟨.sent l d r, x⟩ :: past) ∨ _ := requestsOn_cons
    rcases next with same | ⟨d', r'', he, next⟩
    · rw [List.cons_append, same] at h
      refine (ih h).imp_right ?_
      rintro ⟨j, hj, later⟩
      exact ⟨j, List.mem_cons_of_mem _ hj, later⟩
    · rw [List.cons_append, next, List.getLast?_concat] at h
      obtain rfl := Option.some.inj h
      exact .inr ⟨i, List.mem_cons_self, d', he⟩

/-- **A transaction is discharged once,** and the next discharge on its link is of one that was declared
later. -/
theorem declares_of_lawful {y : TxnId} {fail : Bool}
    (h : Lawful (Entry.Good .civil) (later ++ ⟨.sent l d (.discharge y fail), x⟩ :: past)) :
    Declares l later := by
  intro after e between d' y' fail' split he
  rw [split, List.append_assoc, List.cons_append] at h
  obtain ⟨-, good⟩ := h.good
  obtain ⟨event, x'⟩ := e
  cases he
  obtain ⟨d₀, hd⟩ := good.declared y' fail' rfl
  exact (getLast_requestsOn_append (getLast_requestsOn hd)).resolve_left (by simp)

/-! ### The decision -/

/-- Where all its completions are pending, the token is told. -/
theorem Tells.resolved {q : Token Nat} {r : Resolution Unit} (h : Tells x q r i)
    (hp : q.ids.Nodup ∧ ∀ j ∈ q.ids, x.Pending j) :
    i.event = .resolved q.completion (q.outcome r) := by
  rcases h with he | ⟨raised, -⟩
  · exact he
  · obtain ⟨j, hj, settled⟩ := raised hp.1
    exact absurd (hp.2 j hj) settled

theorem Tells.not_sent {q : Token Nat} {r : Resolution Unit} (h : Tells x q r i) {r' : Request} :
    i.event ≠ .sent l d r' := by
  rcases h with he | ⟨-, he⟩ <;> rw [he] <;> simp

theorem hint_of_protocolId {t : Nat} {y : TxnId} {o : Outside} (hc : (x.context 0).current = some t)
    (h : Context.protocolId 0 ⟨x, o⟩ = .ok (some y) (⟨x, o⟩ : State)) :
    (x.transaction t).hint = some y := by
  have current : (Act.context 0 : Play Context) ⟨x, o⟩ = .ok (x.context 0) ⟨x, o⟩ := rfl
  have named : (Act.transaction t : Play Transaction) ⟨x, o⟩ = .ok (x.transaction t) ⟨x, o⟩ := rfl
  unfold Context.protocolId at h
  simp only [bind, EStateM.bind, current, hc, named] at h
  exact (EStateM.Result.ok.inj h).1

/-- **What comes of the last send is what comes of the commit or the rollback that it leads to.** -/
theorem Finishes.of_ensues {x' : Client Nat} {ending : Ending} {q : Token Nat}
    (coherent : Coherent x past) (same : Untouched x x')
    (he : Ensues x' ending { info with inDoubt := info.inDoubt || failed x' } q hooks i)
    (hq : q.completion = id) (hd : x.Pending id → q.ids.Nodup ∧ ∀ j ∈ q.ids, x'.Pending j)
    (hc : ending = .commit ↔ commit = true ∧ ∀ failure ∈ failures, failure = none)
    (hl : (q.outcome (Context.answerUnbound ending true true)).Fits
      (if commit then some .rolledBack else none))
    (hu : ∀ doubt bound, commit = true ∨ doubt = false →
      ∃ f, q.outcome (Context.answerUnbound ending doubt bound) = .failed f)
    (hf : ∀ f, ∃ g, q.outcome (.failed f) = .failed g) :
    Finishes info commit id failures x hooks i := by
  have bound : Bound { info with inDoubt := info.inDoubt || failed x' } x' ↔ Bound info x :=
    same.bound_iff
  refine ⟨fun l hb hs hco ho => ?_, fun l hb hs hco hcl => ?_, fun hr => ?_⟩
  · have ⟨t, ht, _⟩ := hb
    obtain ⟨declare, y, -, -, -, hy⟩ := coherent.named t ht
    have hint := hint_of_protocolId ht (hy ⟨[], []⟩)
    obtain ⟨d, fail, hsent, hfail⟩ := he.sent t l y (bound.2 hb) (by rw [same.context, hs]; decide)
      (same.context ▸ ht) (same.context ▸ hco) (same.link ▸ ho) (same.transaction ▸ hint)
    refine ⟨t, y, d, fail, ht, hint, hsent, ?_⟩
    rw [hfail, hc, and_assoc]
  · have lost : failed x = true := by
      rw [failed, hco, Option.any_some, decide_eq_true_eq]
      exact hcl
    obtain ⟨concluded, told⟩ := he.lost (bound.2 hb) (by rw [same.context, hs]; decide)
      (same.failed.trans lost) (.inr (by rw [same.failed, lost, Bool.or_true]))
    refine ⟨fun _ _ _ => told.not_sent, same.context ▸ concluded, fun hp => ⟨_, ?_, hl⟩⟩
    rw [told.resolved (hd hp), hq]
  · by_cases hb : Bound info x
    · have discharging := hr.resolve_left (not_not_intro hb)
      obtain ⟨none, untouched, told⟩ := he.ended (bound.2 hb) (by rw [same.context, discharging])
      obtain ⟨g, hg⟩ := hf (Problem.endedTwice ending
        (x'.transaction info.transaction).id).toFailure
      refine ⟨fun _ _ _ => told.not_sent, none, same.trans untouched, fun hp => ⟨.failed g, ?_, fun _ =>
        ⟨g, rfl⟩⟩⟩
      rw [told.resolved (hd hp), hq, hg]
    · obtain ⟨none, untouched, told⟩ := he.unbound fun h => hb (bound.1 h)
      refine ⟨fun _ _ _ => told.not_sent, none, same.trans untouched, fun hp => ?_⟩
      have resolved := told.resolved (hd hp)
      rw [hq, same.failed] at resolved
      exact ⟨_, resolved, fun h => hu _ _ (h.imp_right fun h => h.resolve_left hb)⟩

theorem Finishes.of_decides {d : Decision} (coherent : Coherent x past) (hi : A.info = info)
    (hA : A.commit = commit) (hr : A.request = .client id id)
    (hd : d.commit = true ↔ commit = true ∧ ∀ failure ∈ failures, failure = none)
    (he : Decides (x.changeAggregate a sends) A d hooks i) :
    Finishes info commit id failures x hooks i := by
  subst hi hA
  unfold Decides at he
  rw [hr] at he
  split at he
  · next turned =>
    obtain ⟨asked, failed⟩ : A.commit = true ∧ d.commit = false := by simpa using turned
    have same : Untouched x (x.changeAggregate a sends).addCompletion := ⟨rfl, rfl, rfl⟩
    have he : Ensues (x.changeAggregate a sends).addCompletion .rollback { A.info with
        inDoubt := A.info.inDoubt || Adversary.failed (x.changeAggregate a sends).addCompletion }
        (.instead x.completions.size (Problem.sendFailed.toFailure d.earliestFailure) (.client id id))
        hooks i := he
    refine Finishes.of_ensues coherent same he rfl (fun hp => ⟨?_, fun j hj => ?_⟩) ?_ ?_
      (fun _ _ _ => ⟨_, rfl⟩) fun f => ⟨_, rfl⟩
    · have old : x.completions.size ≠ id := (Nat.ne_of_lt hp.lt).symm
      simp [Token.ids, old]
    · refine Client.pending_addCompletion.2 ?_
      rcases List.mem_cons.1 hj with rfl | hj
      · exact .inr rfl
      · exact .inl (List.mem_singleton.1 hj ▸ hp)
    · exact ⟨fun e => (by cases e), fun h => absurd (failed.symm.trans (hd.2 h)) Bool.false_ne_true⟩
    · rw [if_pos asked]
      exact ⟨_, rfl, rfl⟩
  · next kept =>
    have same : d.commit = A.commit := by
      cases hc : A.commit with
      | true => simpa [hc] using kept
      | false => exact Bool.eq_false_iff.2 fun h => Bool.false_ne_true (hc.symm.trans (hd.1 h).1)
    have untouched : Untouched x (x.changeAggregate a sends) := ⟨rfl, rfl, rfl⟩
    have he : Ensues (x.changeAggregate a sends) (Context.endingFor d.commit) { A.info with
        inDoubt := A.info.inDoubt || failed (x.changeAggregate a sends) } (.client id id) hooks i := he
    refine Finishes.of_ensues coherent untouched he rfl
      (fun hp => ⟨by simp [Token.ids], fun j hj => List.mem_singleton.1 hj ▸ hp⟩) ?_ ?_ ?_
      fun f => ⟨f, rfl⟩
    · rw [← hd]
      cases d.commit <;> simp [Context.endingFor]
    · rw [same]
      cases A.commit with
      | true => exact ⟨_, rfl, rfl⟩
      | false => rfl
    · intro doubt bound h
      rw [same]
      cases hc : A.commit with
      | true => cases doubt <;> cases bound <;> exact ⟨_, rfl⟩
      | false =>
        obtain rfl := h.resolve_left (by rw [hc]; exact Bool.false_ne_true)
        cases bound <;> exact ⟨_, rfl⟩

/-! ### One send -/

/-- A send that is not the last one is counted, and that is all. -/
theorem Settles.before (waiting : A.sends.isComplete = false)
    (more : (A.sends.settle failure).1.isComplete = false) (h : Settles a A failure x hooks i) :
    hooks = [] ∧ ∃ sends, i = ⟨.returned none, x.changeAggregate a sends⟩ := by
  unfold Settles at h
  rw [Aggregation.settle_result waiting, more] at h
  exact ⟨h.1, _, h.2⟩

/-- The last one ends the transaction. -/
theorem Settles.last (coherent : Coherent x past) (hi : A.info = info) (hA : A.commit = commit)
    (hr : A.request = .client id id) (waiting : A.sends.isComplete = false)
    (last : (A.sends.settle failure).1.isComplete = true)
    (hd : (A.sends.settle failure).1.commit = true ↔
      commit = true ∧ ∀ failure ∈ failures, failure = none)
    (h : Settles a A failure x hooks i) : Finishes info commit id failures x hooks i := by
  unfold Settles at h
  rw [Aggregation.settle_result waiting, last] at h
  exact .of_decides coherent hi hA hr hd h

theorem Outlook.coherent (h : Outlook x past) (hp : past ≠ [])
    (lawful : Lawful (Entry.Good .civil) (later ++ i :: past)) : ∃ earlier, Coherent x earlier := by
  obtain ⟨j, earlier, rfl, ho, rfl⟩ := h.resolve_left hp
  rw [List.append_cons] at lawful
  obtain ⟨-, good⟩ := lawful.good
  obtain ⟨event, x⟩ := j
  refine ⟨earlier, ?_⟩
  cases event with
  | returned => exact good.1 trivial
  | resolved => exact good.1 trivial
  | _ => cases ho

theorem known_of_fair {own : Prop} {after : List Entry}
    (hs : Aggregation.ofSends pending commit = .ok sends)
    (h : Lawful (Entry.Fair own) (after ++ i :: (between ++
      ⟨.requested (.aggregate info pending commit) id, x⟩ :: earlier))) :
    i.client.aggregates[x.aggregates.size]? =
      some ⟨sends.settled (ends x.aggregates.size between), 0, info, commit, .client id id⟩ := by
  have made : Lawful (Entry.Fair own) ((after ++ i :: between) ++
      ⟨.requested (.aggregate info pending commit) id, x⟩ :: earlier) := by
    rw [List.append_assoc, List.cons_append]
    exact h
  have size : x.aggregates.size = (tabled earlier).size := congrArg Array.size made.good.table
  rw [h.good.table, size]
  exact tabled_between hs

/-! ### Every run -/

/-- **The last send of an aggregate ends its transaction, and nothing happens before.** For up to
`countLimit` sends these are counted exactly. -/
theorem run_aggregated (civil : ∀ m ∈ moves, m.Civil) (hn : 1 ≤ n) (hk : n ≤ Number.countLimit)
    (h : history session transactions moves =
    later ++ ⟨.requested (.aggregate info (.ofIndex n) commit) id, x⟩ :: earlier) :
    Aggregated (∀ m ∈ moves, m.Calls Call.Own) info n commit id x later := by
  obtain ⟨tracked, followed⟩ : Tracked (∀ m ∈ moves, m.Calls Call.Own) (run session transactions moves) ∧
    Followed (history session transactions moves) := run_held civil fun o => o
  have fair : Lawful (Entry.Fair (∀ m ∈ moves, m.Calls Call.Own)) (history session transactions moves) :=
    tracked.faithful
  have lawful : Lawful (Entry.Good .civil) (history session transactions moves) := run_lawful civil
  rw [h] at followed fair lawful
  have made : Aggregation.ofSends (.ofIndex n) commit = .ok { pending := .ofIndex n, commit } :=
    Aggregation.ofSends_ofIndex
  refine ⟨?_, fun o after between split few i hi r he => ?_,
    fun after x' between failure split few => ?_⟩
  · refine (followed later _ earlier rfl).made rfl made ?_
    rw [Aggregation.isComplete_ofIndex rfl, decide_eq_false_iff_not]
    omega
  · obtain ⟨b₂, b₁, rfl⟩ := List.append_of_mem hi
    have fewer : (ends x.aggregates.size b₁).length ≤
        (ends x.aggregates.size ((b₂ ++ [i]) ++ b₁)).length := length_ends_le
    rw [List.append_assoc, List.singleton_append] at fewer
    rw [split, List.append_assoc, List.append_assoc, List.cons_append, ← List.append_assoc] at fair
    refine fair.good.told o id r he _ _ (known_of_fair made fair) ?_ rfl
    rw [isComplete_settled hk (Nat.le_of_lt (Nat.lt_of_le_of_lt fewer few)),
      decide_eq_false_iff_not]
    omega
  · rw [split, List.append_assoc, List.cons_append] at fair lawful followed
    have known := known_of_fair made fair
    have announced := fair.good.announced _ _ rfl
    obtain ⟨more, e, hooks, rfl, hh, settles⟩ := (followed after _ _ rfl).settled rfl known
    have waiting : (({ pending := .ofIndex n, commit } : Aggregation).settled
        (ends x.aggregates.size between)).isComplete = false := by
      rw [isComplete_settled hk (Nat.le_of_lt few), decide_eq_false_iff_not]
      omega
    have count : (({ pending := .ofIndex n, commit } : Aggregation).settled
        (ends x.aggregates.size between ++ [failure])).isComplete =
          decide ((ends x.aggregates.size between).length + 1 = n) := by
      have length : (ends x.aggregates.size between ++ [failure]).length =
        (ends x.aggregates.size between).length + 1 := List.length_append
      rw [isComplete_settled hk (length ▸ few), length]
    rw [Aggregation.settled_append] at count
    refine ⟨fun o => announced.pending o _ known waiting, more, e, hooks, rfl, hh, fun before => ?_,
      fun nth => ⟨?_, fun l d y fail he => ?_⟩⟩
    · exact settles.before waiting (count.trans (decide_eq_false (by omega)))
    · obtain ⟨past, coherent⟩ := announced.outlook.coherent (by simp) lawful
      refine settles.last coherent rfl rfl rfl waiting (count.trans (decide_eq_true nth)) ?_
      rw [← Aggregation.settled_append, Aggregation.settled_commit]
    · obtain ⟨event, x''⟩ := e
      cases he
      rw [List.append_assoc, List.cons_append] at lawful
      exact declares_of_lawful lawful

/-- The transaction is committed once two sends are settled. -/
example : requestsOn 0 (history ⟨"c", .ofNat 1⟩ [default] (beginMoves ++
    [.call (.request (.aggregate ⟨0, false⟩ (.ofIndex 2) true) none),
      .call (.signal (.settleSend 0 none)), .call (.signal (.settleSend 0 none)), .yield, .yield])) =
    [.declare, .discharge ⟨[1]⟩ false] := by
  decide +kernel

end Transact.Adversary
