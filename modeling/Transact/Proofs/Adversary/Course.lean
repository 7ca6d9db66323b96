import Transact.Proofs.Adversary.Ledger
import Transact.Proofs.Roll

/-! # What a history tells of hooks

Reading the history of a run forwards, from the latest begin that found the context idle: whether a
transaction was bound, which consumers were enrolled in it while it was active, which hooks were called,
and whether its discharge was handed over.

* `values_roll`: a roll holds, for each name in the order of first registration, what was registered last.
* `Course.Fits`: how the course of a transaction fits the phase of the context. -/

namespace Transact

/-! ### Rolls -/

/-- The names that were registered, in the order of first registration. -/
def identities (es : List (String × Nat)) : List String := (es.map (·.1)).eraseDups

/-- For each of the names what was registered last under it. -/
def members (es : List (String × Nat)) : List Nat :=
  (identities es).filterMap fun name => es.reverse.lookup name

/-- A roll in which these were put one after the other. -/
def roll (es : List (String × Nat)) : Roll String Nat := es.foldl (fun r e => r.put e.1 e.2) {}

variable {es : List (String × Nat)} {e : String × Nat}

theorem roll_append : roll (es ++ [e]) = (roll es).put e.1 e.2 := Roll.ofList_append

/-- **A roll holds what was registered last under each name,** in the order of first registration. -/
theorem values_roll : (roll es).values = members es := by
  have known : (roll es).values.map some = (identities es).map (es.reverse.lookup ·) := Roll.values_ofList
  have members : members es = ((identities es).map (es.reverse.lookup ·)).filterMap id := by
    rw [List.filterMap_map]
    rfl
  rw [members, ← known, List.filterMap_map]
  exact List.filterMap_some.symm

/-- Hooks that are called once a transaction has ended. -/
def Hook.isLast : Hook → Bool
  | postCommit | postRollback => true
  | preCommit | preRollback => false

namespace Adversary

/-! ### The course of a transaction -/

/-- A hook that was called, and whether the context had forgotten the transaction by then. -/
structure HookCall where
  hook : Hook
  consumer : Nat
  forgotten : Bool
deriving DecidableEq

/-- Nothing names a transaction any more. -/
def forgotten (x : Client Nat) : Bool :=
  (x.context 0).current.isNone && (x.context 0).accepted.isNone && (x.context 0).enrolled.isNone

/-- What has become of a transaction since its begin.

* `bound`: its declare, which was outstanding, was answered with a name.
* `enrolled`: the consumers that were enrolled while it was active.
* `calls`: the hooks that were called, the earliest first.
* `unprepared`: a consumer has failed to prepare for the commit.
* `discharge`: its discharge was handed over, and says whether it is to fail. -/
structure Course where
  bound : Bool := false
  enrolled : List (String × Nat) := []
  calls : List HookCall := []
  unprepared : Bool := false
  discharge : Option Bool := none

namespace Course

/-- What an entry adds. -/
def next (c : Course) : Entry → Course
  | ⟨.requested (.begin _) _, x⟩ => if (x.context 0).stage = .idle then {} else c
  | ⟨.signalled (.settled l d (.declared (some _))), x⟩ =>
    if (x.context 0).stage = .declaring ∧ (x.link l).pending.any
        (fun e => e.1 = d ∧ e.2.transaction < x.transactions.size) then { c with bound := true }
    else c
  | ⟨.signalled (.enrolConsumer id n), x⟩ =>
    if (x.context 0).stage = .active then { c with enrolled := c.enrolled ++ [(id.text, n)] } else c
  | ⟨.hooked n k failure, x⟩ => { c with
    calls := c.calls ++ [⟨k, n, forgotten x⟩]
    unprepared := c.unprepared || (k = .preCommit && failure.isSome) }
  | ⟨.sent _ _ (.discharge _ fail), _⟩ => { c with discharge := some fail }
  | _ => c

/-- Some more hooks were called. -/
def add (c : Course) (calls : List HookCall) : Course := { c with calls := c.calls ++ calls }

/-- One call of a hook for each name that was enrolled. -/
def round (c : Course) (k : Hook) : List HookCall :=
  (members c.enrolled).map fun n => ⟨k, n, k.isLast⟩

/-- The hooks that are called, in this order: for a commit, for a commit that could not be prepared, and for
a rollback. -/
def hooks (c : Course) : List Hook :=
  if c.unprepared then [.preCommit, .preRollback, .postRollback]
  else if c.discharge = some false then [.preCommit, .postCommit]
  else [.preRollback, .postRollback]

end Course

/-- The course of the transaction that was begun last. -/
def course : List Entry → Course
  | [] => {}
  | e :: past => (course past).next e

variable {c : Course} {p : Phase Nat} {co : Option Nat} {x x' : Client Nat} {e : Event}
  {past : List Entry}

namespace Course

/-- A transaction is bound, and the consumers that were enrolled in it are there. -/
structure Open (c : Course) (x : Client Nat) : Prop where
  bound : c.bound = true
  enrolled : (x.context 0).registry.consumers = roll c.enrolled

/-- All hooks were called. A commit that could not be prepared was rolled back, and a transaction that was
not discharged was in doubt. -/
structure Ended (c : Course) (co : Option Nat) (x : Client Nat) : Prop where
  calls : c.calls = c.hooks.flatMap c.round
  unprepared : c.unprepared = true → c.discharge = some true
  doubt : c.discharge = none → ∃ l, co = some l ∧ x.Closed l

/-- No transaction is under way: none was bound, or the one that was has ended. Nobody is enrolled. -/
structure Rested (c : Course) (co : Option Nat) (x : Client Nat) : Prop where
  registry : (x.context 0).registry = {}
  unbound : c.bound = false → c.calls = []
  bound : c.bound = true → c.Ended co x

/-- The hooks were called that come before a discharge. -/
structure Called (c : Course) (x : Client Nat) (commit : Bool) : Prop where
  opened : c.Open x
  calls : c.calls = (if c.unprepared then [.preCommit, .preRollback]
    else [if commit then .preCommit else .preRollback]).flatMap c.round
  rollback : c.unprepared = true → commit = false

/-- How the course of a transaction fits the phase of the context. -/
def Fits (c : Course) (co : Option Nat) (x : Client Nat) : Phase Nat → Prop
  | .idle => c.Rested co x
  | .opening .. | .declaring .. => c = {} ∧ (x.context 0).registry = {}
  | .active .. => c.Open x ∧ c.calls = [] ∧ c.unprepared = false ∧ c.discharge = none
  | .discharging _ _ _ _ commit _ => c.Open x ∧ c.calls = c.hooks.dropLast.flatMap c.round ∧
    c.discharge = some (!commit) ∧ (c.unprepared = true → commit = false)

/-- **How the hooks of a transaction stand with the stage of the context.**

* `unbound`: a begin that has come to nothing calls no hook.
* `declaring`: while a begin waits, nothing has become of it.
* `active`: nor does a transaction call any that is not being ended.
* `discharging`: once the discharge is handed over, all hooks but the last were called.
* `ended`: then these were called too, and nobody is enrolled any more. -/
structure Conducted (c : Course) (x : Client Nat) : Prop where
  unbound : c.bound = false → c.calls = []
  declaring : (x.context 0).stage = .declaring → c = {}
  active : (x.context 0).stage = .active → c.Open x ∧ c.calls = []
  discharging : (x.context 0).stage = .discharging →
    c.Open x ∧ c.calls = c.hooks.dropLast.flatMap c.round ∧ c.discharge.isSome ∧
      (c.unprepared = true → c.discharge = some true)
  ended : (x.context 0).stage = .idle → c.bound = true →
    c.calls = c.hooks.flatMap c.round ∧ (x.context 0).registry = {} ∧
      (c.discharge = none → failed x = true) ∧ (c.unprepared = true → c.discharge = some true)

theorem Fits.congr (h : c.Fits co x p) (hr : (x'.context 0).registry = (x.context 0).registry)
    (hc : ∀ l, x.Closed l → x'.Closed l) : c.Fits co x' p := by
  cases p with
  | idle =>
    refine ⟨hr.trans h.registry, h.unbound, fun bound => ?_⟩
    have ended := h.bound bound
    refine ⟨ended.calls, ended.unprepared, fun hd => ?_⟩
    obtain ⟨l, hl, closed⟩ := ended.doubt hd
    exact ⟨l, hl, hc l closed⟩
  | opening | declaring => exact ⟨h.1, hr.trans h.2⟩
  | active | discharging =>
    obtain ⟨⟨bound, enrolled⟩, rest⟩ := h
    exact ⟨⟨bound, (congrArg (·.consumers) hr).trans enrolled⟩, rest⟩

theorem Fits.registry (h : c.Fits co x p) (hb : p.bound = none) : (x.context 0).registry = {} := by
  cases p with
  | idle => exact Rested.registry h
  | opening | declaring => exact h.2
  | _ => cases hb

theorem Open.values (h : c.Open x) {k : Hook} :
    (x.context 0).registry.consumers.values.map (⟨k, ·, k.isLast⟩) = c.round k := by
  rw [h.enrolled, values_roll]
  rfl

/-- Everyone is prepared, unless some have failed to. -/
def prepared (c : Course) (failed : Bool) : Course :=
  { c.add (c.round .preCommit) with unprepared := c.unprepared || failed }

section
variable {t : Nat} {y : TxnId}

theorem Fits.rollback (h : c.Fits co x (.active t y)) : (c.add (c.round .preRollback)).Called x false := by
  obtain ⟨⟨bound, enrolled⟩, calls, prepared, -⟩ := h
  refine ⟨⟨bound, enrolled⟩, ?_, fun _ => rfl⟩
  show c.calls ++ c.round _ = (if c.unprepared then _ else _ : List Hook).flatMap c.round
  simp [calls, prepared]

theorem Fits.commit (h : c.Fits co x (.active t y)) : (c.prepared false).Called x true := by
  obtain ⟨⟨bound, enrolled⟩, calls, prepared, -⟩ := h
  refine ⟨⟨bound, enrolled⟩, ?_, fun hu => ?_⟩
  · show c.calls ++ c.round _ = (if c.unprepared || false then _ else _ : List Hook).flatMap c.round
    simp [calls, prepared]
  · exact absurd (hu.symm.trans (Bool.or_false _) |>.trans prepared) nofun

theorem Fits.unprepared (h : c.Fits co x (.active t y)) :
    ((c.prepared true).add (c.round .preRollback)).Called x false := by
  obtain ⟨⟨bound, enrolled⟩, calls, -, -⟩ := h
  refine ⟨⟨bound, enrolled⟩, ?_, fun _ => rfl⟩
  show (c.calls ++ c.round _) ++ c.round _ =
    (if c.unprepared || true then _ else _ : List Hook).flatMap c.round
  simp [calls]

end

theorem Called.congr {commit : Bool} (h : c.Called x commit)
    (hr : (x'.context 0).registry.consumers = (x.context 0).registry.consumers) :
    c.Called x' commit :=
  ⟨⟨h.opened.bound, hr.trans h.opened.enrolled⟩, h.calls, h.rollback⟩

theorem Called.discharges {commit : Bool} {slot : Option (Nat × Nat)} {t id : Nat} {y : TxnId}
    {q : Token Nat} (h : c.Called x commit) :
    ({ c with discharge := some (!commit) } : Course).Fits co x
      (.discharging slot t y id commit q) := by
  obtain ⟨⟨bound, enrolled⟩, calls, rollback⟩ := h
  refine ⟨⟨bound, enrolled⟩, ?_, rfl, rollback⟩
  show c.calls = (Course.hooks _).dropLast.flatMap c.round
  rw [calls]
  unfold Course.hooks
  cases hu : c.unprepared with
  | true => rfl
  | false => cases commit <;> rfl

theorem Fits.ends {slot : Option (Nat × Nat)} {t id : Nat} {y : TxnId} {commit : Bool} {q : Token Nat}
    (h : c.Fits co x (.discharging slot t y id commit q)) (hr : (x'.context 0).registry = {}) :
    (c.add (c.round (if commit then .postCommit else .postRollback))).Fits co x' .idle := by
  obtain ⟨⟨bound, -⟩, calls, discharge, unprepared⟩ := h
  have hooks : c.hooks = c.hooks.dropLast ++ [if commit then .postCommit else .postRollback] := by
    unfold Course.hooks
    cases hu : c.unprepared with
    | true => rw [unprepared hu]; rfl
    | false => cases commit <;> simp [discharge]
  refine ⟨hr, fun unbound => absurd (bound.symm.trans unbound) nofun,
    fun _ => ⟨?_, fun hu => ?_, fun hd => ?_⟩⟩
  · show c.calls ++ c.round _ = c.hooks.flatMap c.round
    rw [calls, hooks, List.dropLast_concat, List.flatMap_append]
    simp
  · show c.discharge = some true
    rw [discharge, unprepared hu]
    rfl
  · cases discharge.symm.trans hd

/-- A transaction in doubt is rolled back without a discharge. -/
theorem Fits.abandons {t l : Nat} {y : TxnId} (h : c.Fits (some l) x (.active t y))
    (hc : x'.Closed l) (hr : (x'.context 0).registry = {}) :
    ((c.add (c.round .preRollback)).add (c.round .postRollback)).Fits (some l) x' .idle := by
  obtain ⟨⟨bound, -⟩, calls, prepared, discharge⟩ := h
  have hooks : c.hooks = [.preRollback, .postRollback] := by
    simp [Course.hooks, prepared, discharge]
  refine ⟨hr, fun unbound => absurd (bound.symm.trans unbound) nofun, fun _ => ⟨?_, fun hu => ?_,
    fun _ => ⟨l, rfl, hc⟩⟩⟩
  · show (c.calls ++ c.round _) ++ c.round _ = c.hooks.flatMap c.round
    rw [calls, hooks]
    simp
  · cases prepared.symm.trans hu

theorem Fits.begun (h : c = {}) (hr : (x.context 0).registry = {}) : c.Fits co x .idle := by
  subst h
  exact ⟨hr, fun _ => rfl, nofun⟩

theorem Fits.loose (h : c.Fits co x p) : c.Fits co x p.loose := by
  cases p with
  | _ => exact h

end Course

/-! ### Entries that add nothing -/

/-- A settlement binds a transaction only if its declare is outstanding. -/
theorem course_settled {l d : Nat} {s : Settlement} (h : (x.context 0).stage = .declaring →
    ∀ e ∈ (x.link l).pending, e.1 = d → x.transactions.size ≤ e.2.transaction) :
    course (⟨.signalled (.settled l d s), x⟩ :: past) = course past := by
  cases s with
  | declared y =>
    cases y with
    | none => rfl
    | some y =>
      refine if_neg fun ⟨declaring, outstanding⟩ => ?_
      obtain ⟨e, he, there⟩ := List.any_eq_true.1 outstanding
      obtain ⟨hd, lt⟩ := of_decide_eq_true there
      exact absurd (h declaring e he hd) (Nat.not_le_of_lt lt)
  | _ => rfl

/-! ### Hooks -/

/-- A hook that has raised. -/
def Event.fails : Event → Bool
  | hooked _ _ (some _) => true
  | _ => false

@[simp] theorem Event.fails_hooked {n : Nat} {k : Hook} {f : Option Failure} :
    (Event.hooked n k f).fails = f.isSome := by
  cases f <;> rfl

/-- This hook was called on each of the consumers, in their order; the latest event is first. -/
inductive Rung (k : Hook) : List Nat → List Event → Prop
  | nil : Rung k [] []
  | cons {n : Nat} {ns : List Nat} {es : List Event} (f : Option Failure) : Rung k ns es →
    Rung k (n :: ns) (es ++ [.hooked n k f])

theorem Rung.hooked {k : Hook} {ns : List Nat} {es : List Event} (h : Rung k ns es) (he : e ∈ es) :
    ∃ n f, e = .hooked n k f := by
  induction h with
  | nil => cases he
  | cons f _ ih =>
    rcases List.mem_append.1 he with he | he
    · exact ih he
    · exact ⟨_, f, List.mem_singleton.1 he⟩

/-- **What a round of hooks adds.** -/
theorem course_rung {k : Hook} {ns : List Nat} {es : List Event} (h : Rung k ns es) :
    course (es.map (⟨·, x⟩) ++ past) = { course past with
      calls := (course past).calls ++ ns.map (⟨k, ·, forgotten x⟩)
      unprepared := (course past).unprepared || (k = .preCommit && es.any (·.fails)) } := by
  induction h generalizing past with
  | nil => simp
  | @cons n ns es f _ ih =>
    have first : course (⟨.hooked n k f, x⟩ :: past) = { course past with
        calls := (course past).calls ++ [⟨k, n, forgotten x⟩]
        unprepared := (course past).unprepared || (k = .preCommit && f.isSome) } := rfl
    rw [List.map_append, List.append_assoc, List.map_singleton, List.singleton_append, ih, first]
    simp only [List.map_cons, List.append_assoc, List.singleton_append, List.any_append, List.any_cons,
      List.any_nil, Bool.or_false, Event.fails_hooked, Bool.or_assoc, ← Bool.and_or_distrib_left]
    rw [Bool.or_comm f.isSome]

theorem course_rung_of_ne {k : Hook} {ns : List Nat} {es : List Event} (h : Rung k ns es)
    (hk : k ≠ .preCommit) : course (es.map (⟨·, x⟩) ++ past) =
      (course past).add (ns.map (⟨k, ·, forgotten x⟩)) := by
  rw [course_rung h]
  simp [Course.add, hk]

end Adversary

end Transact
