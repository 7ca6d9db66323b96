import Transact.Proofs.Sends.Runs

/-! # What a context refuses

For all foreign code, and every list of moves: whether a begin, a commit or a rollback is refused,
answered without the coordinator, or carried out depends on four things only. These are the stage of
the context, whether the transaction that is named is bound, whether its link has closed, and whether
the caller knows that it is in doubt.

* `Declines`, `Abandons`: what it is to be answered without the coordinator.
* `Ended`: all cases of a commit or a rollback.
* `run_refusals`: what becomes of a begin, a commit and a rollback in every run. -/

namespace Transact.Adversary

open Player

/-- **Whoever asks is told at once, and nothing else is done.** In whatever surroundings, the operation
is no more than this answer; and the next entry is the answer, with the context and the links as they
were. -/
structure Declines (o : Operation) (r : Resolution Unit) (id : Nat) (x : Client Nat)
    (later : List Entry) : Prop where
  alone : ∀ (h : Surroundings) (q : Token Nat) (outside : Outside),
    o.perform h q ⟨x, outside⟩ = q.resolve h r ⟨x, outside⟩
  told : x.Pending id → ∃ more e, later = more ++ [e] ∧ e.event = .resolved id r ∧
    Untouched x e.client

/-- **The transaction is forgotten, and then whoever asks is told.** Nothing but hooks is called before,
and when the answer comes the context is idle, binds nothing and nobody is enrolled. -/
structure Abandons (o : Operation) (r : Resolution Unit) (id : Nat) (x : Client Nat)
    (later : List Entry) : Prop where
  alone : ∀ (h : Surroundings) (q : Token Nat) (outside : Outside), o.perform h q ⟨x, outside⟩ =
    (do Context.abandon h 0; q.resolve h r : Play Unit) ⟨x, outside⟩
  told : x.Pending id → ∃ more e hooks, later = more ++ e :: hooks ∧
    (∀ i ∈ hooks, i.event.isHook) ∧ e.event = .resolved id r ∧
    (e.client.context 0).stage = .idle ∧ (e.client.context 0).current = none ∧
    (e.client.context 0).accepted = none ∧ (e.client.context 0).enrolled = none ∧
    (e.client.context 0).registry.isEmpty = true

/-- How a commit or a rollback ends that need not ask the coordinator: one that is known to be in doubt
is gone. -/
def answerKind (ending : Ending) (inDoubt : Bool) : Option FailureKind :=
  if inDoubt then
    match ending with
    | .commit => some .rolledBack
    | .rollback => none
  else some .illegalState

/-- **What becomes of a commit or a rollback** that the client `x` is asked for with a pending completion.

* `placed`: these are all cases.
* `unbound`: another transaction is bound, or none.
* `twice`: the transaction is being discharged.
* `doubted`, `lost`: its link has closed.
* `sent`: its link is open, and the discharge is handed over after the hooks. -/
structure Ended (ending : Ending) (info : TransactionRef) (id : Nat) (x : Client Nat)
    (later : List Entry) : Prop where
  placed : Bound info x → ((x.context 0).stage = .active ∨ (x.context 0).stage = .discharging) ∧
    ∃ l, (x.context 0).coordinator = some l ∧
      ((x.link l).state = .opened ∨ (x.link l).state = .closed)
  unbound : ¬ Bound info x → ∃ r, r.Fits (answerKind ending info.inDoubt) ∧
    Declines (.finish ending info) r id x later
  twice : Bound info x → (x.context 0).stage = .discharging → ∃ r, r.Fits (some .illegalState) ∧
    Declines (.finish ending info) r id x later
  doubted : ∀ l, Bound info x → (x.context 0).stage = .active →
    (x.context 0).coordinator = some l → (x.link l).state = .closed →
    ending = .commit → info.inDoubt = false → ∃ r, r.Fits (some .illegalState) ∧
      Declines (.finish ending info) r id x later
  lost : ∀ l, Bound info x → (x.context 0).stage = .active →
    (x.context 0).coordinator = some l → (x.link l).state = .closed →
    ending = .rollback ∨ info.inDoubt = true → ∃ r, r.Fits (answerKind ending true) ∧
      Abandons (.finish ending info) r id x later
  sent : ∀ l, Bound info x → (x.context 0).stage = .active →
    (x.context 0).coordinator = some l → (x.link l).state = .opened →
    ∃ more e hooks d y fail, later = more ++ e :: hooks ∧ (∀ i ∈ hooks, i.event.isHook) ∧
      e.event = .sent l d (.discharge y fail) ∧ (fail = false ↔ ending = .commit ∧ Unraised hooks)

variable {session : SessionId} {transactions : List TransactionId} {moves : List (Move Call)}
  {later : List Entry} {x : Client Nat} {id t : Nat} {r : Resolution Unit} {ending : Ending}
  {info : TransactionRef} {p : Phase Nat} {co : Option Nat} {e : Entry}

/-! ### Answers -/

theorem answerUnbound_fits {bound : Bool} :
    (Context.answerUnbound ending info.inDoubt bound).Fits (answerKind ending info.inDoubt) := by
  unfold Context.answerUnbound answerKind
  cases info.inDoubt with
  | true =>
    cases ending with
    | commit => exact ⟨_, rfl, rfl⟩
    | rollback => rfl
  | false => cases bound <;> exact ⟨_, rfl, rfl⟩

/-- A completion of the surroundings that is pending is told. -/
theorem Tells.client (h : Tells x (.client id id) r e) (hp : x.Pending id) :
    e.event = .resolved id r :=
  h.resolved ⟨by simp [Token.ids], fun i hi => List.mem_singleton.1 hi ▸ hp⟩

theorem Declines.of_tells {o : Operation} {more : List Entry}
    (alone : ∀ (h : Surroundings) (q : Token Nat) (outside : Outside),
      o.perform h q ⟨x, outside⟩ = q.resolve h r ⟨x, outside⟩)
    (same : Untouched x e.client) (told : Tells x (.client id id) r e) :
    Declines o r id x (more ++ [e]) :=
  ⟨alone, fun hp => ⟨more, e, rfl, told.client hp, same⟩⟩

section
variable {h : Surroundings} {q : Token Nat} {outside : Outside}

theorem perform_begin (busy : (x.context 0).stage ≠ .idle) :
    (Operation.begin t).perform h q ⟨x, outside⟩ =
      q.resolve h (.failed (Problem.beginDuring (x.context 0).stage).toFailure) ⟨x, outside⟩ := by
  have context : (Act.context 0 : Play Context) ⟨x, outside⟩ = .ok (x.context 0) ⟨x, outside⟩ := rfl
  unfold Operation.perform Context.begin
  simp only [bind, EStateM.bind, context]
  rw [if_pos busy]

theorem perform_finish : (Operation.finish ending info).perform h q ⟨x, outside⟩ =
    (if (x.context 0).current.map (fun t => (x.transaction t).id) ≠
        some (x.transaction info.transaction).id then
      q.resolve h (Context.answerUnbound ending info.inDoubt (x.context 0).current.isSome)
    else if (x.context 0).stage = .discharging then
      q.resolve h (.failed (Problem.endedTwice ending
        (x.transaction info.transaction).id).toFailure)
    else if failed x = true then
      if ending = .rollback ∨ info.inDoubt = true then
        do Context.abandon h 0; q.resolve h (Context.answerUnbound ending true true)
      else q.resolve h (.failed (Problem.commitInDoubt
        (x.transaction info.transaction).id).toFailure)
    else Context.discharge h 0 ending q : Play Unit) ⟨x, outside⟩ := by
  have context : (Act.context 0 : Play Context) ⟨x, outside⟩ = .ok (x.context 0) ⟨x, outside⟩ := rfl
  have transaction (t : Nat) : (Act.transaction t : Play Transaction) ⟨x, outside⟩ =
    .ok (x.transaction t) ⟨x, outside⟩ := rfl
  have current : (Context.currentId 0 : Play (Option TransactionId)) ⟨x, outside⟩ =
      .ok ((x.context 0).current.map fun t => (x.transaction t).id) ⟨x, outside⟩ := by
    unfold Context.currentId
    simp only [bind, EStateM.bind, context]
    cases (x.context 0).current <;> rfl
  have lost : (Context.isFailed 0 : Play Bool) ⟨x, outside⟩ = .ok (failed x) ⟨x, outside⟩ := by
    unfold Context.isFailed failed
    simp only [bind, EStateM.bind, context]
    cases (x.context 0).coordinator <;> rfl
  unfold Operation.perform Context.finish
  simp only [bind, EStateM.bind, transaction, current, Option.isSome_map]
  split
  · rfl
  simp only [EStateM.bind, context]
  split
  · rfl
  simp only [EStateM.bind, lost]
  split
  · cases ending with
    | rollback => rfl
    | commit => cases info.inDoubt <;> rfl
  · rfl

end

/-! ### The phase that a request meets -/

theorem bound_placed (h : At whole p co x) (hb : Bound info x) :
    ((x.context 0).stage = .active ∨ (x.context 0).stage = .discharging) ∧
    ∃ l, (x.context 0).coordinator = some l ∧
      ((x.link l).state = .opened ∨ (x.link l).state = .closed) := by
  obtain ⟨k, hk, hk'⟩ : ∃ k, x.contexts[0]? = some k ∧ ContextAt p co k := h.context
  obtain ⟨t, ht, -⟩ := hb
  rw [Client.context_eq hk] at ht ⊢
  have bound : p.bound ≠ none := by
    intro none
    rw [hk'.current, none] at ht
    cases ht
  constructor
  · rw [hk'.stage]
    cases p with
    | active => exact .inl rfl
    | discharging => exact .inr rfl
    | _ => exact absurd rfl bound
  · obtain ⟨l, hl⟩ := Option.ne_none_iff_exists'.1 (h.bound bound)
    obtain ⟨-, m, hm, notBuilding⟩ := h.coordinator l hl
    refine ⟨l, hk'.coordinator.trans hl, ?_⟩
    rw [Client.link_eq hm]
    cases hs : m.state with
    | building => exact absurd hs notBuilding
    | opened => exact .inl rfl
    | closed => exact .inr rfl

theorem bound_named (h : At whole p co x) (ht : (x.context 0).current = some t) :
    ∃ y, (x.transaction t).hint = some y := by
  obtain ⟨k, hk, hk'⟩ : ∃ k, x.contexts[0]? = some k ∧ ContextAt p co k := h.context
  rw [Client.context_eq hk, hk'.current] at ht
  obtain ⟨⟨t', y⟩, hb, rfl⟩ := Option.map_eq_some_iff.1 ht
  exact ⟨y, h.hint t' y hb⟩

theorem failed_iff {l : Nat} (hl : (x.context 0).coordinator = some l) :
    failed x = true ↔ (x.link l).state = .closed := by
  rw [failed, hl, Option.any_some, decide_eq_true_eq]

/-! ### Every run -/

/-- **All cases of a commit or a rollback,** told apart by what comes next and by what the operation is
equal to. -/
theorem Ended.of_ensues {more hooks : List Entry} (h : At whole p co x)
    (hh : ∀ i ∈ hooks, i.event.isHook) (he : Ensues x ending info (.client id id) hooks e) :
    Ended ending info id x (more ++ e :: hooks) := by
  have bound : Bound info x ↔ _ := bound_iff
  have inactive (hs : (x.context 0).stage = .active) : (x.context 0).stage ≠ .discharging := by
    rw [hs]
    decide
  refine ⟨bound_placed h, fun hb => ?_, fun hb hs => ?_, fun l hb hs hl hc hcommit hd => ?_,
    fun l hb hs hl hc known => ?_, fun l hb hs hl ho => ?_⟩
  · obtain ⟨rfl, same, told⟩ := he.unbound hb
    refine ⟨_, answerUnbound_fits, .of_tells (fun h q outside => ?_) same told⟩
    rw [perform_finish, if_pos fun current => hb (bound.2 current)]
  · obtain ⟨rfl, same, told⟩ := he.ended hb hs
    refine ⟨_, ⟨_, rfl, rfl⟩, .of_tells (fun h q outside => ?_) same told⟩
    rw [perform_finish, if_neg (not_not_intro (bound.1 hb)), if_pos hs]
  · have lost := (failed_iff hl).2 hc
    obtain ⟨rfl, same, told⟩ := he.doubted hb (inactive hs) lost hcommit hd
    refine ⟨_, ⟨_, rfl, rfl⟩, .of_tells (fun h q outside => ?_) same told⟩
    have unknown : ¬ (ending = .rollback ∨ info.inDoubt = true) := by
      simp [hcommit, hd]
    rw [perform_finish, if_neg (not_not_intro (bound.1 hb)), if_neg (inactive hs), if_pos lost,
      if_neg unknown]
  · have lost := (failed_iff hl).2 hc
    obtain ⟨concluded, told⟩ := he.lost hb (inactive hs) lost known
    have fits : (Context.answerUnbound ending true true).Fits (answerKind ending true) := by
      cases ending with
      | commit => exact ⟨_, rfl, rfl⟩
      | rollback => rfl
    refine ⟨_, fits, fun h q outside => ?_, fun hp => ⟨more, e, hooks, rfl, hh, told.client hp, ?_⟩⟩
    · rw [perform_finish, if_neg (not_not_intro (bound.1 hb)), if_neg (inactive hs), if_pos lost,
        if_pos known]
    · rw [concluded]
      exact ⟨rfl, rfl, rfl, rfl, rfl⟩
  · have ⟨t, ht, _⟩ := hb
    obtain ⟨y, hy⟩ := bound_named h ht
    obtain ⟨d, fail, sent, hfail⟩ := he.sent t l y hb (inactive hs) ht hl ho hy
    exact ⟨more, e, hooks, d, y, fail, rfl, hh, sent, hfail⟩

/-- **When a context refuses what it is asked for, and what it does then.** A begin is refused while the
context is not idle, and a commit or a rollback as `Ended` tells; where nothing is handed over to the
coordinator the operation is no more than the answer, and nothing has changed when that comes. Nobody is
told of an illegal state in any other way: the entry before is a call that is refused, made with the same
completion. -/
theorem run_refusals (civil : ∀ m ∈ moves, m.Civil) :
    (∀ later t id x earlier, history session transactions moves =
        later ++ ⟨.requested (.begin t) id, x⟩ :: earlier → (x.context 0).stage ≠ .idle →
      ∃ r, r.Fits (some .illegalState) ∧ Declines (.begin t) r id x later) ∧
    (∀ later ending info id x earlier, history session transactions moves =
        later ++ ⟨.requested (.finish ending info) id, x⟩ :: earlier →
      Ended ending info id x later) ∧
    ∀ later id r x earlier, history session transactions moves =
      later ++ ⟨.resolved id r, x⟩ :: earlier → Blamed id r earlier := by
  obtain ⟨-, followed⟩ : Tracked False (run session transactions moves) ∧
    Followed (history session transactions moves) := run_held civil fun o => o.elim
  have founded : Lawful (Entry.Founded .civil) (history session transactions moves) :=
    run_founded civil
  refine ⟨fun later t id x earlier h busy => ?_, fun later ending info id x earlier h => ?_,
    fun later id r x earlier h => ?_⟩
  · obtain ⟨more, e, hooks, rfl, -, begins⟩ := (followed later _ earlier h).begun rfl
    obtain ⟨rfl, same, told⟩ := begins busy
    exact ⟨_, ⟨_, rfl, rfl⟩, .of_tells (fun _ _ _ => perform_begin busy) same told⟩
  · obtain ⟨more, e, hooks, rfl, hh, ensues⟩ := (followed later _ earlier h).ended rfl
    obtain ⟨p, co, phase⟩ := (h ▸ founded).good.phase _ _ rfl
    exact .of_ensues phase hh ensues
  · exact (h ▸ founded).good.blamed id r rfl

end Transact.Adversary
