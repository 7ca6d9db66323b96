import Transact.Loop.Basic
import Transact.Proofs.Outcome

/-! # How many tasks there are to run

A drain runs the tasks of a loop until none is left, and it is refused if that takes more tasks than
its limit allows. So what comes of it depends on how many tasks there are in all, those included that
are scheduled meanwhile.

* `Reaches`: where the tasks with certain labels lead. `Reaches.drainFrom`: a drain goes on from there.
* `Settles`: after so many tasks the loop is empty for the first time.
* `Settles.drain`, `Settles.refused`: what a drain does in the two cases. -/

namespace Transact.Loop

open Run

variable {σ τ : Type} [HasLoop σ τ] {exec : String → τ → Run σ Unit} {P P' : σ → Prop}
  {Q : Nat → σ → Prop} {k n allowed ran : Nat} {s t u : σ} {limit : Number} {next : String}

/-- After so many tasks the loop is empty, for the first time, and `P` holds. -/
def Settles (exec : String → τ → Run σ Unit) (P : σ → Prop) : Nat → σ → Prop
  | 0, s => (HasLoop.loop s).tasks.toList = [] ∧ P s
  | k + 1, s => After (runOne exec) s (fun started t => started = true ∧ Settles exec P k t)
    fun _ _ => False

namespace Settles

theorem mono (h : Settles exec P k s) (hp : ∀ t, P t → P' t) : Settles exec P' k s := by
  induction k generalizing s with
  | zero => exact h.imp_right (hp s)
  | succ k ih => exact After.mono h (fun _ t ht => ht.imp_right ih) fun _ _ => id

end Settles

/-! ### Starting a task -/

section
variable {l l' : Loop τ} {task : String × τ}

theorem start?_eq_none (h : l.start? = none) : l.tasks.toList = [] :=
  Queue.popFront?_eq_none (Option.map_eq_none_iff.1 h)

theorem start?_eq_some (h : l.start? = some (task, l')) :
    l.tasks.toList = task :: l'.tasks.toList ∧ l'.executed = l.executed + 1 := by
  obtain ⟨⟨first, rest⟩, popped, same⟩ := Option.map_eq_some_iff.1 h
  obtain ⟨rfl, rfl⟩ := Prod.mk.inj same
  exact ⟨Queue.popFront?_eq_some popped, rfl⟩

end

theorem after_get {Q : Loop τ → σ → Prop} {R : Halt → σ → Prop} :
    After (get : Run σ (Loop τ)) s Q R ↔ Q (HasLoop.loop s) s := Iff.rfl

theorem after_add {label : String} {task : τ} {Q : Unit → σ → Prop} {R : Halt → σ → Prop} :
    After (add label task : Run σ Unit) s Q R ↔
      Q () (HasLoop.setLoop ((HasLoop.loop s).schedule label task) s) := Iff.rfl

/-- Either nothing is waiting, or the oldest task is run in the loop in which it has started. -/
theorem after_runOne {Q : Bool → σ → Prop} {R : Halt → σ → Prop} :
    After (runOne exec) s Q R ↔ match (HasLoop.loop s).start? with
      | none => Q false s
      | some ((label, task), l) =>
        After (exec label task) (HasLoop.setLoop l s) (fun _ t => Q true t) R := by
  unfold runOne
  rw [after_bind, after_get]
  rcases (HasLoop.loop s).start? with _ | ⟨⟨label, task⟩, l⟩
  · exact after_pure
  · exact after_bind.trans after_bind

theorem after_runOne_empty {Q : Bool → σ → Prop} {R : Halt → σ → Prop}
    (h : (HasLoop.loop s).tasks.toList = []) : After (runOne exec) s Q R ↔ Q false s := by
  rw [after_runOne]
  cases e : (HasLoop.loop s).start? with
  | none => exact Iff.rfl
  | some x => cases h.symm.trans (start?_eq_some e).1

/-! ### So many tasks -/

theorem allowance_natural (h : limit.value = n) : allowance limit = n := by
  rw [allowance, h]
  rfl

theorem drainFrom_empty (h : (HasLoop.loop s).tasks.toList = []) :
    drainFrom exec limit allowed ran s = .ok ran s := by
  rw [← after_eq]
  cases allowed with
  | zero =>
    have none : (HasLoop.loop s).peek? = none := by
      rw [peek?, Queue.head?_eq, h]
      rfl
    unfold drainFrom
    rw [after_bind, after_get, none]
    exact after_pure.2 rfl
  | succ allowed =>
    unfold drainFrom
    rw [after_bind, after_runOne_empty h]
    exact after_pure.2 rfl

/-- A drain is refused where a task is waiting and nothing more is allowed. -/
theorem drainFrom_waiting (h : (HasLoop.loop s).peek? = some next) :
    drainFrom exec limit 0 ran s = .error (.raised (Problem.loopUnsettled limit next).toFailure) s := by
  rw [← after_eq]
  unfold drainFrom
  rw [after_bind, after_get, h]
  exact after_refuse.2 rfl

/-- **One task after the other is run,** each under its label and none of which raises: where they lead. -/
inductive Reaches (exec : String → τ → Run σ Unit) : List String → σ → σ → Prop
  | nil {s : σ} : Reaches exec [] s s
  | cons {label : String} {labels : List String} {task : τ} {l : Loop τ} {s s' t : σ}
    (oldest : (HasLoop.loop s).start? = some ((label, task), l))
    (runs : exec label task (HasLoop.setLoop l s) = .ok () s')
    (rest : Reaches exec labels s' t) : Reaches exec (label :: labels) s t

variable {labels labels' : List String}

theorem Reaches.append (h : Reaches exec labels s t) (h' : Reaches exec labels' t u) :
    Reaches exec (labels ++ labels') s u := by
  induction h with
  | nil => exact h'
  | cons oldest runs _ ih => exact .cons oldest runs (ih h')

/-- A drain goes on from where the tasks lead that it has run. -/
theorem Reaches.drainFrom (h : Reaches exec labels s t) (limit : Number) (allowed ran : Nat) :
    drainFrom exec limit (labels.length + allowed) ran s =
      drainFrom exec limit allowed (ran + labels.length) t := by
  induction h generalizing ran with
  | nil => rw [List.length_nil, Nat.zero_add, Nat.add_zero]
  | @cons label labels task l s s' t oldest runs _ ih =>
    have first : runOne exec s = .ok true s' := by
      rw [← after_eq, after_runOne, oldest]
      exact after_of_eq runs rfl
    have one : Loop.drainFrom exec limit (labels.length + allowed + 1) ran s =
        Loop.drainFrom exec limit (labels.length + allowed) (ran + 1) s' := by
      rw [Loop.drainFrom]
      simp only [bind, EStateM.bind, first]
      rfl
    have total : labels.length + 1 + allowed = labels.length + allowed + 1 := by omega
    rw [List.length_cons, total, one, ih, Nat.add_assoc, Nat.add_comm 1]

namespace Settles

theorem waits (h : Settles exec P (k + 1) s) : ∃ next, (HasLoop.loop s).peek? = some next := by
  cases e : (HasLoop.loop s).peek? with
  | some next => exact ⟨next, rfl⟩
  | none =>
    have empty : (HasLoop.loop s).tasks.toList = [] := by
      rw [peek?, Option.map_eq_none_iff, Queue.head?_eq, List.head?_eq_none_iff] at e
      exact e
    obtain ⟨started, -⟩ := (after_runOne_empty empty).1 h
    cases started

theorem drainFrom_zero (h : Settles exec P k s) :
    After (drainFrom exec limit 0 ran) s (fun n t => k = 0 ∧ n = ran ∧ P t)
      fun e _ => 0 < k ∧ ∃ next, e = .raised (Problem.loopUnsettled limit next).toFailure := by
  cases k with
  | zero => exact after_of_eq (drainFrom_empty h.1) ⟨rfl, rfl, h.2⟩
  | succ k =>
    obtain ⟨next, waits⟩ := h.waits
    refine (after_eq.2 (drainFrom_waiting waits)).mono (fun _ _ returns => ?_) fun _ _ stops => ?_
    · cases returns
    · cases stops
      exact ⟨Nat.succ_pos k, next, rfl⟩

/-- **By induction on what is allowed:** a drain runs all tasks, or is refused if there are more. -/
theorem drainFrom (h : Settles exec P k s) :
    After (drainFrom exec limit allowed ran) s (fun n t => k ≤ allowed ∧ n = ran + k ∧ P t)
      fun e _ => allowed < k ∧ ∃ next, e = .raised (Problem.loopUnsettled limit next).toFailure := by
  induction allowed generalizing k s ran with
  | zero =>
    refine h.drainFrom_zero.mono (fun n t ht => ?_) fun _ _ => id
    obtain ⟨rfl, rfl, last⟩ := ht
    exact ⟨Nat.le_refl 0, rfl, last⟩
  | succ allowed ih =>
    unfold Loop.drainFrom
    rw [after_bind]
    cases k with
    | zero =>
      rw [after_runOne_empty h.1]
      exact ⟨Nat.zero_le _, rfl, h.2⟩
    | succ k =>
      refine After.mono h (fun started t ht => ?_) fun _ _ => False.elim
      obtain ⟨rfl, rest⟩ := ht
      refine (ih rest).mono (fun n t' hn => ?_) fun e t' he => ?_
      · obtain ⟨le, rfl, last⟩ := hn
        exact ⟨Nat.succ_le_succ le, by omega, last⟩
      · exact ⟨Nat.succ_lt_succ he.1, he.2⟩

/-- **All tasks are run,** if there are no more than the limit allows. -/
theorem drain (h : Settles exec P k s) (hk : k ≤ allowance limit) :
    After (Loop.drain exec limit) s (fun n t => n = k ∧ P t) fun _ _ => False := by
  refine h.drainFrom.mono (fun n t ht => ?_) fun e t he => ?_
  · obtain ⟨-, rfl, last⟩ := ht
    exact ⟨Nat.zero_add k, last⟩
  · exact absurd he.1 (Nat.not_lt.2 hk)

/-- **A drain is refused** if there are more tasks than that. -/
theorem refused (h : Settles exec P k s) (hk : allowance limit < k) :
    After (Loop.drain exec limit) s (fun _ _ => False)
      fun e _ => ∃ next, e = .raised (Problem.loopUnsettled limit next).toFailure :=
  h.drainFrom.mono (fun _ _ ht => absurd ht.1 (Nat.not_le.2 hk)) fun _ _ => And.right

end Settles

end Transact.Loop
