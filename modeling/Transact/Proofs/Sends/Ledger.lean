import Transact.Proofs.Adversary.Runs
import Transact.Proofs.Client.Counting

/-! # What a history tells of aggregated sends

Reading the history of a run backwards: the aggregates that were made, and how their sends have ended.
Then what comes of a commit or a rollback, as it is to be seen in the entries that follow: the hooks that
are called first, and the first entry after them.

* `Ensues`: what comes of a commit or a rollback.
* `Settles`: what comes of a send that is settled.
* `Finishes`: what comes of the last send of an aggregate. -/

namespace Transact

/-- All completions that are settled when a token is resolved, in one way or another. -/
def Token.completions : Token Nat → List Nat
  | client id continuation => [id, continuation]
  | instead id _ request | discharging id _ _ request | declaring id _ _ request =>
    id :: request.completions
  | opening id _ _ _ next request => id :: (next.completions ++ request.completions)

namespace Adversary

/-! ### Aggregates -/

/-- The aggregates that were made, as their sends have left them. -/
def tabled : List Entry → Array (Aggregate Nat)
  | [] => #[]
  | ⟨.requested (.aggregate info pending commit) id, _⟩ :: past =>
    match Aggregation.ofSends pending commit with
    | .error _ => tabled past
    | .ok sends => (tabled past).push ⟨sends, 0, info, commit, .client id id⟩
  | ⟨.signalled (.settleSend a failure), _⟩ :: past =>
    (tabled past).modify a fun A => { A with sends := (A.sends.settle failure).1 }
  | _ :: past => tabled past

/-- How the sends of an aggregate have ended, the earliest first. -/
def ends (a : Nat) : List Entry → List (Option Failure)
  | [] => []
  | ⟨.signalled (.settleSend a' failure), _⟩ :: past =>
    if a' = a then ends a past ++ [failure] else ends a past
  | _ :: past => ends a past

/-! ### What comes of a commit or a rollback -/

/-- Whether a hook was called. -/
def Event.isHook : Event → Bool
  | hooked .. => true
  | _ => false

/-- None of these hooks is a preparation for a commit that has raised. -/
def Unraised (hooks : List Entry) : Prop :=
  ∀ i ∈ hooks, ∀ consumer f, i.event ≠ .hooked consumer .preCommit (some f)

/-- The token is told. If its completions are not all pending, that may raise instead. -/
inductive Tells (x : Client Nat) (q : Token Nat) (r : Resolution Unit) (e : Entry) : Prop
  | told (he : e.event = .resolved q.completion (q.outcome r))
  | raised (hi : q.ids.Nodup → ∃ i ∈ q.ids, ¬ x.Pending i) {f : Failure}
      (he : e.event = .returned (some f))

/-- What comes of a begin that the client `x` is asked for while a transaction is under way. -/
def Begins (x : Client Nat) (q : Token Nat) (hooks : List Entry) (e : Entry) : Prop :=
  (x.context 0).stage ≠ .idle → hooks = [] ∧ Untouched x e.client ∧
    Tells x q (.failed (Problem.beginDuring (x.context 0).stage).toFailure) e

/-- **What comes of a commit or a rollback** that the client `x` is asked for: first these hooks are
called, and the entry `e` is next.

* `unbound`: the transaction is not bound.
* `ended`: it is being discharged already.
* `lost`: its link has closed, and it is rolled back or known to be in doubt.
* `doubted`: its link has closed, and whoever asks for a commit does not know that.
* `sent`: its link is open. -/
structure Ensues (x : Client Nat) (ending : Ending) (info : TransactionRef) (q : Token Nat)
    (hooks : List Entry) (e : Entry) : Prop where
  unbound : ¬ Bound info x → hooks = [] ∧ Untouched x e.client ∧
    Tells x q (Context.answerUnbound ending info.inDoubt (x.context 0).current.isSome) e
  ended : Bound info x → (x.context 0).stage = .discharging →
    hooks = [] ∧ Untouched x e.client ∧ Tells x q
      (.failed (Problem.endedTwice ending (x.transaction info.transaction).id).toFailure) e
  lost : Bound info x → (x.context 0).stage ≠ .discharging → failed x = true →
    ending = .rollback ∨ info.inDoubt = true →
    e.client.context 0 = (x.context 0).concluded ∧
      Tells x q (Context.answerUnbound ending true true) e
  doubted : Bound info x → (x.context 0).stage ≠ .discharging → failed x = true →
    ending = .commit → info.inDoubt = false →
    hooks = [] ∧ Untouched x e.client ∧ Tells x q
      (.failed (Problem.commitInDoubt (x.transaction info.transaction).id).toFailure) e
  sent : ∀ t l y, Bound info x → (x.context 0).stage ≠ .discharging →
    (x.context 0).current = some t → (x.context 0).coordinator = some l →
    (x.link l).state = .opened → (x.transaction t).hint = some y →
    ∃ d fail, e.event = .sent l d (.discharge y fail) ∧
      (fail = false ↔ ending = .commit ∧ Unraised hooks)

/-! ### What comes of a send that is settled -/

/-- What comes of the decision of an aggregate. -/
def Decides (x : Client Nat) (A : Aggregate Nat) (d : Decision) (hooks : List Entry) (e : Entry) :
    Prop :=
  let info := { A.info with inDoubt := A.info.inDoubt || failed x }
  if A.commit && !d.commit then
    Ensues x.addCompletion .rollback info (.instead x.completions.size
      (Problem.sendFailed.toFailure d.earliestFailure) A.request) hooks e
  else Ensues x (Context.endingFor d.commit) info A.request hooks e

/-- What comes of it that the count of an aggregate has gone down, with this result. -/
def Counts (x : Client Nat) (A : Aggregate Nat) (r : Except Problem (Option Decision))
    (hooks : List Entry) (e : Entry) : Prop :=
  match r with
  | .error _ => True
  | .ok none => hooks = [] ∧ e = ⟨.returned none, x⟩
  | .ok (some d) => Decides x A d hooks e

/-- What comes of a send that is settled. -/
def Settles (a : Nat) (A : Aggregate Nat) (failure : Option Failure) (x : Client Nat)
    (hooks : List Entry) (e : Entry) : Prop :=
  Counts (x.changeAggregate a (A.sends.settle failure).1) A (A.sends.settle failure).2 hooks e

/-- **What follows an entry.** Something comes of a begin, and of a commit or a rollback. An aggregate
that waits for sends does nothing when it is made; and something comes of a send that is settled. -/
structure Entry.Follows (e : Entry) (later : List Entry) : Prop where
  begun : ∀ {t id : Nat}, e.event = .requested (.begin t) id →
    ∃ more after hooks, later = more ++ after :: hooks ∧ (∀ i ∈ hooks, i.event.isHook) ∧
      Begins e.client (.client id id) hooks after
  ended : ∀ {ending : Ending} {info : TransactionRef} {id : Nat},
    e.event = .requested (.finish ending info) id →
    ∃ more after hooks, later = more ++ after :: hooks ∧ (∀ i ∈ hooks, i.event.isHook) ∧
      Ensues e.client ending info (.client id id) hooks after
  made : ∀ {info : TransactionRef} {pending : Number} {commit : Bool} {id : Nat}
    {sends : Aggregation}, e.event = .requested (.aggregate info pending commit) id →
    Aggregation.ofSends pending commit = .ok sends → sends.isComplete = false →
    ∃ more, later = more ++
      [⟨.returned none, e.client.addAggregate ⟨sends, 0, info, commit, .client id id⟩⟩]
  settled : ∀ {a : Nat} {failure : Option Failure} {A : Aggregate Nat},
    e.event = .signalled (.settleSend a failure) → e.client.aggregates[a]? = some A →
    ∃ more after hooks, later = more ++ after :: hooks ∧ (∀ i ∈ hooks, i.event.isHook) ∧
      Settles a A failure e.client hooks after

/-- A history in which every entry is followed by what should follow it. -/
def Followed (past : List Entry) : Prop :=
  ∀ later e earlier, past = later ++ e :: earlier → e.Follows later

/-- Foreign code has seen the client as it is now, unless nothing has happened yet. -/
def Outlook (x : Client Nat) (past : List Entry) : Prop :=
  past = [] ∨ ∃ e earlier, past = e :: earlier ∧ e.event.isOutlook ∧ e.client = x

/-- Before a send is settled foreign code has seen the client as it is then. If every request has a
completion of its own, the one of an aggregate that waits for sends is pending. -/
structure Announced (own : Prop) (a : Nat) (x : Client Nat) (past : List Entry) : Prop where
  outlook : Outlook x past
  pending : own → ∀ A, x.aggregates[a]? = some A → A.sends.isComplete = false →
    x.Pending A.request.completion

/-- What is to be seen of aggregates at an entry, with all that went before. Who is told of something is
none of them, while it waits. -/
structure Entry.Fair (own : Prop) (e : Entry) (past : List Entry) : Prop where
  table : e.client.aggregates = tabled past
  told : own → ∀ id r, e.event = .resolved id r → ∀ (a : Nat) (A : Aggregate Nat),
    e.client.aggregates[a]? = some A → A.sends.isComplete = false → A.request.completion ≠ id
  announced : ∀ a failure, e.event = .signalled (.settleSend a failure) →
    Announced own a e.client past

/-! ### The last send -/

/-- **What comes of the last send of an aggregate** that was made with this completion, if its sends have
ended like that.

* `discharged`: the transaction is still active and its link is open. It is handed over, and committed if
  and only if that was asked for, no send has failed and no consumer has failed to prepare.
* `lost`: its link has closed. Nothing is sent, the context is idle and nobody is enrolled.
* `refused`: it is being discharged already, or is not bound any more. Nothing changes. -/
structure Finishes (info : TransactionRef) (commit : Bool) (id : Nat)
    (failures : List (Option Failure)) (x : Client Nat) (hooks : List Entry) (e : Entry) : Prop where
  discharged : ∀ l, Bound info x → (x.context 0).stage = .active →
    (x.context 0).coordinator = some l → (x.link l).state = .opened →
    ∃ t y d fail, (x.context 0).current = some t ∧ (x.transaction t).hint = some y ∧
      e.event = .sent l d (.discharge y fail) ∧
      (fail = false ↔ commit = true ∧ (∀ failure ∈ failures, failure = none) ∧ Unraised hooks)
  lost : ∀ l, Bound info x → (x.context 0).stage = .active →
    (x.context 0).coordinator = some l → (x.link l).state = .closed →
    (∀ l' d r, e.event ≠ .sent l' d r) ∧ e.client.context 0 = (x.context 0).concluded ∧
      (x.Pending id → ∃ r, e.event = .resolved id r ∧
        r.Fits (if commit then some .rolledBack else none))
  refused : ¬ Bound info x ∨ (x.context 0).stage = .discharging →
    (∀ l' d r, e.event ≠ .sent l' d r) ∧ hooks = [] ∧ Untouched x e.client ∧
      (x.Pending id → ∃ r, e.event = .resolved id r ∧
        (commit = true ∨ Bound info x ∨ (info.inDoubt || failed x) = false → ∃ f, r = .failed f))

/-- Before the next discharge on this link there is a declare. -/
def Declares (l : Nat) (later : List Entry) : Prop :=
  ∀ after e between d y fail, later = after ++ e :: between → e.event = .sent l d (.discharge y fail) →
    ∃ i ∈ between, ∃ d', i.event = .sent l d' .declare

/-- **What becomes of an aggregate** of `n` sends that the client `x` was asked to make with this
completion.

* `made`: nothing happens when it is made.
* `unresolved`: while it waits for sends its completion is not told of anything, if every request has a
  completion of its own.
* `settled`: nothing happens when one of its sends is settled, unless that is the last one. -/
structure Aggregated (own : Prop) (info : TransactionRef) (n : Nat) (commit : Bool) (id : Nat)
    (x : Client Nat) (later : List Entry) : Prop where
  made : ∃ more, later = more ++ [⟨.returned none, x.addAggregate
    ⟨{ pending := .ofIndex n, commit }, 0, info, commit, .client id id⟩⟩]
  unresolved : own → ∀ after between, later = after ++ between →
    (ends x.aggregates.size between).length < n → ∀ i ∈ between, ∀ r, i.event ≠ .resolved id r
  settled : ∀ after x' between failure,
    later = after ++ ⟨.signalled (.settleSend x.aggregates.size failure), x'⟩ :: between →
    (ends x.aggregates.size between).length < n →
    (own → x'.Pending id) ∧
    ∃ more e hooks, after = more ++ e :: hooks ∧ (∀ i ∈ hooks, i.event.isHook) ∧
      ((ends x.aggregates.size between).length + 1 < n → hooks = [] ∧
        ∃ sends, e = ⟨.returned none, x'.changeAggregate x.aggregates.size sends⟩) ∧
      ((ends x.aggregates.size between).length + 1 = n →
        Finishes info commit id (ends x.aggregates.size between ++ [failure]) x' hooks e ∧
        ∀ l d y fail, e.event = .sent l d (.discharge y fail) → Declares l more)

end Adversary

end Transact
