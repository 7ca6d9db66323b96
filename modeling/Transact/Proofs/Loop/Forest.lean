import Transact.Loop.Script
import Transact.Proofs.Loop
import Mathlib.Data.List.Forall2

/-! # Draining a forest

Tasks of which each schedules so many others that nothing is left to do in the end. Such a task is a tree:
below it are the tasks that it schedules. What is waiting in a loop is then a forest.

A loop takes the oldest task first, and what that schedules goes to the end of the queue. So a forest is
run one generation after the other.

* `breadthFirst_cons`: the order of the generations is that of the queue.
* `Holds.reaches`: where so many tasks of a forest lead.
* `drain_forest`: what becomes of a drain with a limit, and of the drain after it.
* `Script.grows_job`: scripted tasks that come to trees. -/

namespace Transact.Loop

open Run

/-! ### Forests -/

/-- A task, by its label, with the tasks that it schedules. -/
inductive Tree where
  | node (label : String) (children : List Tree)

namespace Tree

/-- The label at the root. -/
def label : Tree → String
  | node label _ => label

/-- The trees below the root. -/
def children : Tree → List Tree
  | node _ children => children

mutual

/-- The number of tasks in a tree. -/
def size : Tree → Nat
  | node _ children => total children + 1

/-- The number of tasks in a forest. -/
def total : List Tree → Nat
  | [] => 0
  | t :: rest => t.size + total rest

end

variable {t : Tree} {a b forest rest : List Tree} {n : Nat}

theorem total_append : total (a ++ b) = total a + total b := by
  induction a with
  | nil => exact (Nat.zero_add _).symm
  | cons t a ih => rw [List.cons_append, total, total, ih, Nat.add_assoc]

theorem total_cons : total (t :: rest) = total (rest ++ t.children) + 1 := by
  obtain ⟨_, children⟩ := t
  rw [total_append, total, size, Tree.children]
  omega

theorem total_eq : total forest = forest.length + total (forest.flatMap children) := by
  induction forest with
  | nil => rfl
  | cons t rest ih =>
    obtain ⟨_, children⟩ := t
    rw [total, size, ih, List.flatMap_cons, total_append, List.length_cons, Tree.children]
    omega

theorem total_below (h : forest ≠ []) : total (forest.flatMap children) < total forest := by
  have roots : 0 < forest.length := List.length_pos_iff.2 h
  have whole : total forest = forest.length + total (forest.flatMap children) := total_eq
  omega

/-- **The tasks of a forest, one generation after the other.** -/
def breadthFirst : List Tree → List Tree
  | [] => []
  | t :: rest => t :: rest ++ breadthFirst ((t :: rest).flatMap children)
termination_by forest => total forest
decreasing_by exact total_below (List.cons_ne_nil t rest)

theorem breadthFirst_eq : breadthFirst forest = forest ++ breadthFirst (forest.flatMap children) := by
  cases forest with
  | nil => rw [List.flatMap_nil, breadthFirst, List.append_nil]
  | cons t rest => rw [breadthFirst]

theorem length_breadthFirst : (breadthFirst forest).length = total forest := by
  fun_induction breadthFirst forest with
  | case1 => rfl
  | case2 t rest ih => rw [List.length_append, ih, ← total_eq]

/-- **By induction on the size:** the roots may be taken in two steps, the second one with what is below
the first. -/
theorem breadthFirst_append :
    breadthFirst (a ++ b) = a ++ breadthFirst (b ++ a.flatMap children) := by
  induction h : total (a ++ b) using Nat.strongRecOn generalizing a b with
  | ind size ih =>
    cases a with
    | nil => rw [List.flatMap_nil, List.append_nil, List.nil_append, List.nil_append]
    | cons t rest =>
      have smaller : total (b ++ (t :: rest).flatMap children) < size := by
        have below : total ((t :: rest).flatMap children) < total (t :: rest) :=
          total_below (List.cons_ne_nil t rest)
        rw [total_append] at h ⊢
        omega
      calc breadthFirst (t :: rest ++ b)
        _ = t :: rest ++ (b ++ breadthFirst ((t :: rest).flatMap children ++ b.flatMap children)) := by
            rw [breadthFirst_eq, List.flatMap_append, List.append_assoc]
        _ = t :: rest ++ breadthFirst (b ++ (t :: rest).flatMap children) := by
            rw [ih _ smaller rfl]

/-- The order of the generations is that of a queue. -/
theorem breadthFirst_cons : breadthFirst (t :: rest) = t :: breadthFirst (rest ++ t.children) := by
  have split : breadthFirst ([t] ++ rest) = [t] ++ breadthFirst (rest ++ [t].flatMap children) :=
    breadthFirst_append
  rw [List.flatMap_singleton] at split
  exact split

/-- What is waiting once `n` tasks were run: all that was scheduled until then, in order, without those. -/
def waiting (forest : List Tree) (n : Nat) : List Tree :=
  (forest ++ ((breadthFirst forest).take n).flatMap children).drop n

theorem waiting_zero : waiting forest 0 = forest := by
  unfold waiting
  rw [List.take_zero, List.flatMap_nil, List.append_nil, List.drop_zero]

theorem waiting_cons : waiting (t :: rest) (n + 1) = waiting (rest ++ t.children) n := by
  unfold waiting
  rw [breadthFirst_cons, List.take_succ_cons, List.flatMap_cons, List.cons_append, List.drop_succ_cons,
    List.append_assoc]

theorem total_waiting (h : n ≤ total forest) : total (waiting forest n) = total forest - n := by
  induction n generalizing forest with
  | zero => rw [waiting_zero, Nat.sub_zero]
  | succ n ih =>
    cases forest with
    | nil => cases h
    | cons t rest =>
      rw [total_cons] at h ⊢
      rw [waiting_cons, ih (Nat.le_of_succ_le_succ h), Nat.add_sub_add_right]

end Tree

/-! ### Tasks that grow into trees -/

open Transact.Loop.Tree

/-- These tasks were scheduled, and nothing else has happened to the loop. -/
structure Planted {τ : Type} (heirs : List (String × τ)) (l l' : Loop τ) : Prop where
  tasks : l'.tasks.toList = l.tasks.toList ++ heirs
  executed : l'.executed = l.executed

section
variable {τ : Type} {heirs heirs' : List (String × τ)} {l l' l'' : Loop τ}

theorem Planted.nothing : Planted [] l l := ⟨(List.append_nil _).symm, rfl⟩

theorem Planted.trans (first : Planted heirs l l') (second : Planted heirs' l' l'') :
    Planted (heirs ++ heirs') l l'' where
  tasks := by rw [second.tasks, first.tasks, List.append_assoc]
  executed := second.executed.trans first.executed

end

section
variable {σ τ : Type} [HasLoop σ τ]

/-- **A task that comes to a tree.** Wherever it is started, it schedules what comes to the trees below, in
this order, does nothing else to the loop, and does not raise. -/
inductive Grows (exec : String → τ → Run σ Unit) : String × τ → Tree → Prop
  | node {label : String} {task : τ} {children : List Tree}
    (heirs : Loop τ → σ → List (String × τ))
    (plants : ∀ l s, After (exec label task) (HasLoop.setLoop l s)
      (fun _ t => Planted (heirs l s) l (HasLoop.loop t)) fun _ _ => False)
    (below : ∀ l s, List.Forall₂ (Grows exec) (heirs l s) children) :
    Grows exec (label, task) (.node label children)

/-- The tasks that wait come to this forest. -/
def Holds (exec : String → τ → Run σ Unit) (forest : List Tree) (s : σ) : Prop :=
  List.Forall₂ (Grows exec) (HasLoop.loop s).tasks.toList forest

/-- So many tasks of a forest were run, one generation after the other, and the others wait. -/
structure Ran (exec : String → τ → Run σ Unit) (forest : List Tree) (n : Nat) (s s' : σ) : Prop where
  started : Reaches exec (((breadthFirst forest).take n).map Tree.label) s s'
  waits : Holds exec (waiting forest n) s'
  executed : (HasLoop.loop s').executed = (HasLoop.loop s).executed + n

variable {exec : String → τ → Run σ Unit} {t : Tree} {forest rest : List Tree} {s : σ} {n : Nat}
  {limit : Number}

/-! ### So many tasks -/

/-- The oldest task is run. -/
theorem Holds.first (h : Holds exec (t :: rest) s) : ∃ s', Reaches exec [t.label] s s' ∧
    Holds exec (rest ++ t.children) s' ∧
    (HasLoop.loop s').executed = (HasLoop.loop s).executed + 1 := by
  cases found : (HasLoop.loop s).start? with
  | none =>
    rw [Holds, start?_eq_none found] at h
    cases h
  | some x =>
    obtain ⟨⟨label, task⟩, l⟩ := x
    obtain ⟨tasks, counted⟩ := start?_eq_some found
    rw [Holds, tasks] at h
    cases h with
    | cons grows others =>
      obtain ⟨heirs, plants, below⟩ := grows
      obtain ⟨_, s', runs, planted⟩ := (plants l s).returns
      refine ⟨s', .cons found runs .nil, ?_, ?_⟩
      · rw [Holds, planted.tasks]
        exact List.rel_append others (below l s)
      · rw [planted.executed, counted]

/-- **So many tasks of a forest can be run,** and lead to the forest that is left. By induction on how
many they are, for all forests, since each task changes the forest. -/
theorem Holds.reaches (h : Holds exec forest s) (hn : n ≤ total forest) :
    ∃ s', Ran exec forest n s s' := by
  induction n generalizing forest s with
  | zero =>
    refine ⟨s, .nil, ?_, rfl⟩
    rw [waiting_zero]
    exact h
  | succ n ih =>
    cases forest with
    | nil => cases hn
    | cons t rest =>
      obtain ⟨s₁, first, holds, executed⟩ := h.first
      rw [total_cons] at hn
      obtain ⟨s', ran⟩ := ih holds (Nat.le_of_succ_le_succ hn)
      refine ⟨s', ?_, ?_, ?_⟩
      · rw [breadthFirst_cons, List.take_succ_cons, List.map_cons]
        exact first.append ran.started
      · rw [waiting_cons]
        exact ran.waits
      · rw [ran.executed, executed]
        omega

/-! ### Drains -/

theorem Holds.empty (h : Holds exec forest s) (none : total forest = 0) :
    (HasLoop.loop s).tasks.toList = [] := by
  cases forest with
  | nil => exact List.forall₂_nil_right_iff.1 h
  | cons t rest =>
    rw [total_cons] at none
    cases none

theorem Holds.next (h : Holds exec forest s) (some_ : 0 < total forest) :
    ∃ next, (HasLoop.loop s).peek? = some next := by
  cases forest with
  | nil => cases some_
  | cons t rest =>
    obtain ⟨task, others, -, -, tasks⟩ := List.forall₂_cons_right_iff.1 h
    refine ⟨task.1, ?_⟩
    rw [peek?, Queue.head?_eq, tasks]
    rfl

theorem length_labels (h : n ≤ total forest) :
    (((breadthFirst forest).take n).map Tree.label).length = n := by
  rw [List.length_map, List.length_take_of_le]
  rw [length_breadthFirst]
  exact h

theorem Holds.drainFrom_whole {allowed : Nat} (h : Holds exec forest s)
    (enough : total forest ≤ allowed) : ∃ s', Ran exec forest (total forest) s s' ∧
      (HasLoop.loop s').tasks.toList = [] ∧ ∀ limit ran,
        drainFrom exec limit allowed ran s = .ok (ran + total forest) s' := by
  obtain ⟨s', whole⟩ := h.reaches (Nat.le_refl _)
  have emptied : (HasLoop.loop s').tasks.toList = [] := by
    refine whole.waits.empty ?_
    rw [total_waiting (Nat.le_refl _), Nat.sub_self]
  refine ⟨s', whole, emptied, fun limit ran => ?_⟩
  have goes_on := whole.started.drainFrom limit (allowed - total forest) ran
  rw [length_labels (Nat.le_refl _), Nat.add_sub_cancel' enough] at goes_on
  exact goes_on.trans (drainFrom_empty emptied)

theorem Holds.drainFrom_cut (h : Holds exec forest s) (few : n < total forest) :
    ∃ next s', Ran exec forest n s s' ∧ (HasLoop.loop s').peek? = some next ∧ ∀ limit ran,
      drainFrom exec limit n ran s =
        .error (.raised (Problem.loopUnsettled limit next).toFailure) s' := by
  obtain ⟨s', part⟩ := h.reaches (Nat.le_of_lt few)
  obtain ⟨next, waits⟩ : ∃ next, (HasLoop.loop s').peek? = some next := by
    refine part.waits.next ?_
    rw [total_waiting (Nat.le_of_lt few)]
    omega
  refine ⟨next, s', part, waits, fun limit ran => ?_⟩
  have goes_on := part.started.drainFrom limit 0 ran
  rw [length_labels (Nat.le_of_lt few)] at goes_on
  exact goes_on.trans (drainFrom_waiting waits)

/-- **The drain with the limit `more` in the state `s'` is what is left of the drain with the limit `both`
in the state `s`,** which has run the tasks `done` by then: what the first one runs, the second one runs
after these, and it returns in the same state, or is refused in the same state. -/
def Resumes (exec : String → τ → Run σ Unit) (both more : Number) (done : List String) (s s' : σ) :
    Prop :=
  ∃ labels u, Reaches exec labels s' u ∧ Reaches exec (done ++ labels) s u ∧
    (drain exec more s' = .ok labels.length u ∧ drain exec both s = .ok (done ++ labels).length u ∨
      ∃ next, drain exec more s' = .error (.raised (Problem.loopUnsettled more next).toFailure) u ∧
        drain exec both s = .error (.raised (Problem.loopUnsettled both next).toFailure) u)

/-- What becomes of a drain with a limit.

* `whole`: it returns exactly if there are no more tasks than that, and has run them all.
* `cut`: else it is refused once so many tasks were run, and the next drain goes on from there. -/
structure Drained (exec : String → τ → Run σ Unit) (forest : List Tree) (s : σ) (limit : Number)
    (n : Nat) : Prop where
  whole : total forest ≤ n ↔ ∃ s', drain exec limit s = .ok (total forest) s' ∧
    (HasLoop.loop s').tasks.toList = [] ∧ Ran exec forest (total forest) s s'
  cut : n < total forest → ∃ next s',
    drain exec limit s = .error (.raised (Problem.loopUnsettled limit next).toFailure) s' ∧
    (HasLoop.loop s').peek? = some next ∧ Ran exec forest n s s' ∧
    ∀ (more both : Number) (k : Nat), more.value = k → both.value = (n + k : Nat) →
      Resumes exec both more (((breadthFirst forest).take n).map Tree.label) s s'

/-- **A drain runs a forest one generation after the other,** all of it exactly if its limit allows, and
else as much as that; the next drain does what is left. -/
theorem drain_forest (h : Holds exec forest s) (hn : limit.value = n) :
    Drained exec forest s limit n where
  whole := by
    constructor
    · intro enough
      obtain ⟨s', ran, emptied, ends⟩ := h.drainFrom_whole enough
      refine ⟨s', ?_, emptied, ran⟩
      rw [drain, allowance_natural hn, ends, Nat.zero_add]
    · rintro ⟨s', ends, -⟩
      by_contra few
      obtain ⟨next, s'', -, -, refused⟩ := h.drainFrom_cut (Nat.lt_of_not_le few)
      rw [drain, allowance_natural hn, refused] at ends
      cases ends
  cut few := by
    obtain ⟨next, s', part, waits, refused⟩ := h.drainFrom_cut few
    refine ⟨next, s', ?_, waits, part, fun more both k hm hb => ?_⟩
    · rw [drain, allowance_natural hn, refused]
    -- Both drains go on in the same state, with the same number of tasks allowed.
    have done : (((breadthFirst forest).take n).map Tree.label).length = n :=
      length_labels (Nat.le_of_lt few)
    have forth : drain exec both s = drainFrom exec both k (0 + n) s' := by
      have goes_on := part.started.drainFrom both k 0
      rw [done] at goes_on
      rw [drain, allowance_natural hb, goes_on]
    have rest : drain exec more s' = drainFrom exec more k 0 s' := by
      rw [drain, allowance_natural hm]
    rcases Nat.lt_or_ge k (total (waiting forest n)) with short | enough
    · obtain ⟨next', u, further, -, stops⟩ := part.waits.drainFrom_cut short
      exact ⟨_, u, further.started, part.started.append further.started,
        .inr ⟨next', rest.trans (stops more _), forth.trans (stops both _)⟩⟩
    · obtain ⟨u, further, -, ends⟩ := part.waits.drainFrom_whole enough
      refine ⟨_, u, further.started, part.started.append further.started, .inl ⟨?_, ?_⟩⟩
      · rw [rest, ends, length_labels (Nat.le_refl _), Nat.zero_add]
      · rw [forth, ends, List.length_append, done, length_labels (Nat.le_refl _), Nat.zero_add]

end

/-! ### Scripted tasks -/

namespace Script

/-- The jobs that come of running a job again. -/
def Job.again : Job → List Job
  | .mk label spawns budget calls failure =>
    match budget with
    | none => []
    | some n => if n = .ofNat 0 then [] else [.mk label spawns (some n.pred) calls failure]

/-- A job as it waits in a loop. -/
def Job.queued (job : Job) : String × Job := (job.label, job)

variable {job : Job} {jobs spawns : List Job} {label : String} {budget : Option Number}
  {children : List Tree} {s : State} {depth : Nat}

theorem schedule_plants : After (schedule job) s
    (fun _ s' => Planted [job.queued] s.loop s'.loop) fun _ _ => False := by
  unfold schedule
  rw [after_add]
  exact ⟨Queue.toList_pushBack, rfl⟩

theorem scheduleAll_plants : After (jobs.forM schedule) s
    (fun _ s' => Planted (jobs.map Job.queued) s.loop s'.loop) fun _ _ => False := by
  induction jobs generalizing s with
  | nil => exact .nothing
  | cons job jobs ih =>
    simp only [List.forM, after_bind]
    exact schedule_plants.mono (fun _ _ first => ih.mono (fun _ _ => first.trans) fun _ _ => id)
      fun _ _ => id

theorem respawn_plants : After (respawn job) s
    (fun _ s' => Planted (job.again.map Job.queued) s.loop s'.loop) fun _ _ => False := by
  obtain ⟨label, spawns, budget, calls, failure⟩ := job
  unfold respawn Job.again
  cases budget with
  | none => exact .nothing
  | some n =>
    by_cases spent : n = .ofNat 0
    · simp only [if_pos spent]
      exact .nothing
    · simp only [if_neg spent]
      exact schedule_plants

theorem calls_plant {e : String → Job → Run State Unit} :
    After ((jobs.map Call.schedule).forM fun call => do note (.returned (← perform e call))) s
      (fun _ s' => Planted (jobs.map Job.queued) s.loop s'.loop) fun _ _ => False := by
  induction jobs generalizing s with
  | nil => exact .nothing
  | cons job jobs ih =>
    simp only [List.map_cons, List.forM, perform, after_bind]
    exact schedule_plants.mono (fun _ _ first => ih.mono (fun _ _ => first.trans) fun _ _ => id)
      fun _ _ => id

/-- **A job comes to a tree** if it does not raise, its only calls schedule jobs, and all that it schedules
comes to the trees below. -/
theorem grows_job (asked : List Job) (below : List.Forall₂ (Grows (exec (depth + 1)))
      ((spawns ++ Job.again (.mk label spawns budget (asked.map .schedule) none) ++ asked).map Job.queued)
      children) :
    Grows (exec (depth + 1)) (Job.queued (.mk label spawns budget (asked.map .schedule) none))
      (.node label children) := by
  refine .node _ (fun l s => ?_) fun _ _ => below
  unfold exec
  rw [after_bind]
  show After (spawns.forM schedule >>= _) _ _ _
  rw [after_bind]
  refine scheduleAll_plants.mono (fun _ s₁ first => ?_) fun _ _ => id
  rw [after_bind]
  refine respawn_plants.mono (fun _ s₂ second => ?_) fun _ _ => id
  rw [after_bind]
  refine calls_plant.mono (fun _ s₃ third => ?_) fun _ _ => id
  rw [List.map_append, List.map_append]
  exact (first.trans second).trans third

/-- Two tasks. The first schedules another one, and itself once more; the second makes a call that
schedules one. -/
def grove : List Job :=
  [.mk "a" [.mk "c" [] none [] none] (some (.ofNat 1)) [] none,
    .mk "b" [] none [.schedule (.mk "d" [] none [] none)] none]

/-- What comes of them: run again, the first task schedules the other one again. -/
def groveTrees : List Tree :=
  [.node "a" [.node "c" [], .node "a" [.node "c" []]], .node "b" [.node "d" []]]

theorem grows_leaf : Grows (exec 1) (Job.queued (.mk label [] none [] none)) (.node label []) :=
  grows_job [] .nil

theorem grove_grows : List.Forall₂ (Grows (exec 1)) (grove.map Job.queued) groveTrees := by
  have last : Grows (exec 1) (Job.queued (.mk "a" [.mk "c" [] none [] none] (some (.ofNat 0)) [] none))
      (.node "a" [.node "c" []]) := by
    have spent : Job.again (.mk "a" [.mk "c" [] none [] none] (some (.ofNat 0)) [] none) = [] := by
      rw [Job.again]
      exact if_pos rfl
    refine grows_job [] ?_
    rw [List.map_nil, spent]
    exact .cons grows_leaf .nil
  have first : Grows (exec 1) (Job.queued (.mk "a" [.mk "c" [] none [] none] (some (.ofNat 1)) [] none))
      (.node "a" [.node "c" [], .node "a" [.node "c" []]]) := by
    have once : Job.again (.mk "a" [.mk "c" [] none [] none] (some (.ofNat 1)) [] none) =
        [.mk "a" [.mk "c" [] none [] none] (some (.ofNat 0)) [] none] := by
      have budget : (Number.ofNat 1).pred = .ofNat 0 := Number.pred_ofNat (by decide)
      have more : Number.ofNat 1 ≠ .ofNat 0 := by decide
      rw [Job.again]
      exact (if_neg more).trans (by rw [budget])
    refine grows_job [] ?_
    rw [List.map_nil, once]
    exact .cons grows_leaf (.cons last .nil)
  have second : Grows (exec 1)
      (Job.queued (.mk "b" [] none [.schedule (.mk "d" [] none [] none)] none))
      (.node "b" [.node "d" []]) :=
    grows_job [.mk "d" [] none [] none] (.cons grows_leaf .nil)
  exact .cons first (.cons second .nil)

/-- Of six tasks a drain runs four, and the next one the others. -/
theorem drain_forest_grove :
    Holds (exec 1) groveTrees ({ loop := { tasks := .ofList (grove.map Job.queued) } } : State) ∧
      (Number.ofNat 4).value = (4 : Nat) ∧ total groveTrees = 6 ∧
      Drained (exec 1) groveTrees ({ loop := { tasks := .ofList (grove.map Job.queued) } } : State)
        (.ofNat 4) 4 := by
  have waits : Holds (exec 1) groveTrees
      ({ loop := { tasks := .ofList (grove.map Job.queued) } } : State) := by
    show List.Forall₂ _ (Queue.ofList (grove.map Job.queued)).toList _
    rw [Queue.toList_ofList]
    exact grove_grows
  have four : (Number.ofNat 4).value = (4 : Nat) := by decide
  exact ⟨waits, four, rfl, drain_forest waits four⟩

example : (breadthFirst groveTrees).map Tree.label = ["a", "b", "c", "a", "d", "c"] := by
  cbv

end Script

end Transact.Loop
