import Transact.Proofs.History
import Transact.Proofs.Loop
import Transact.Proofs.Player

/-! # A loop on its own

One loop, and foreign code on both sides of it: whoever schedules tasks and runs them, and the tasks
themselves. All of it plays one list of moves. So a task may schedule others, run the very loop that runs
it, to any depth, catch what comes of that, and raise.

Whatever happens is noted together with the loop as it was then.

* `exec_keeps`, `runOne_keeps`, `drainFrom_keeps`: what one task, one call and a drain keep.
* `body_keeps`: foreign code keeps the invariant.
* `run_in_order`: at every moment of every run the tasks that were started and those that wait are, in
  this order, the tasks that were scheduled. -/

namespace Transact.Loop.Order

open Run Player

/-! ### Moves -/

/-- A task: its label, and a number that stands for what it does. -/
abbrev Task := String × Nat

/-- What is asked of the loop. -/
inductive Call where
  | schedule (task : Task)
  | run
  | drain (limit : Number)

/-- What happens, as far as it is noted. -/
inductive Event where
  | scheduled (task : Task)
  | started (task : Task)
  /-- A task is over, and has raised or not. -/
  | ended (task : Task) (failure : Option Failure)
  /-- A call that runs tasks is over, and has raised or not. -/
  | returned (failure : Option Failure)

/-- An event, with the loop as it was then. -/
structure Entry where
  event : Event
  loop : Loop Nat

/-- The loop, and what is played with it. -/
structure State extends Part Call Entry where
  loop : Loop Nat := {}

instance : HasLoop State Nat where
  loop := State.loop
  setLoop loop w := { w with loop }

instance : Plays State Call Event Entry where
  part := State.toPart
  setPart part w := { w with toPart := part }
  entry e w := ⟨e, w.loop⟩
  part_setPart _ _ := rfl

/-- What happens between the loop and its tasks. -/
abbrev Play := Run State

/-- A task does what its body does, and raises what that raises. -/
def exec (body : Play Unit) (label : String) (n : Nat) : Play Unit := do
  note (.started (label, n))
  report (.ended (label, n)) body

/-- Makes a call of the loop whose tasks do this. -/
def Call.perform (body : Play Unit) : Call → Play Unit
  | .schedule task => do
    Loop.add task.1 task.2
    note (.scheduled task)
  | .run => watch .returned (discard (Loop.runOne (exec body)))
  | .drain limit => watch .returned (discard (Loop.drain (exec body) limit))

/-- Foreign code, with leave to nest so many levels of tasks. A task that is run meanwhile goes on with
the moves of whoever runs it. -/
def body : (depth : Nat) → Play Unit
  | 0 => exhausted
  | depth + 1 => play (fun _ => true) (Call.perform (body depth)) (depth + 1) false

/-- What a list of moves leads to, for a new loop. -/
def run (moves : List (Move Call)) : Except Halt Unit × State :=
  (body (moves.length + 1)).observe { moves }

/-! ### What is seen -/

/-- The tasks that were scheduled, the earliest first. -/
def scheduled : List Entry → List Task
  | [] => []
  | ⟨.scheduled task, _⟩ :: past => scheduled past ++ [task]
  | _ :: past => scheduled past

/-- The tasks that were started, the earliest first. -/
def started : List Entry → List Task
  | [] => []
  | ⟨.started task, _⟩ :: past => started past ++ [task]
  | _ :: past => started past

/-- **What is to be seen of the loop.** No task is lost, none is run twice, and none overtakes another. -/
structure InOrder (l : Loop Nat) (past : List Entry) : Prop where
  tasks : started past ++ l.tasks.toList = scheduled past
  executed : l.executed = (started past).length

/-- What is to be seen of a run.

* `moments`: at each moment the loop is in order.
* `used`: a task that raises was started, and so is used up; the next thing is that the call which runs
  it is over, and raises the same, with the loop unchanged. -/
structure Ordered (history : List Entry) : Prop where
  moments : ∀ later e earlier, history = later ++ e :: earlier → InOrder e.loop (e :: earlier)
  used : ∀ later task f l earlier, history = later ++ ⟨.ended task (some f), l⟩ :: earlier →
    task ∈ started earlier ∧ ∃ later', later = later' ++ [⟨.returned (some f), l⟩]

/-! ### The invariant -/

variable {e : Entry} {past : List Entry} {w w' v : State} {l : Loop Nat} {task : Task} {f : Failure}
  {flying : Option Failure} {code : Play Unit} {m n : Nat}

theorem started_mono {past' : List Entry} (h : past <:+ past') (hs : task ∈ started past) :
    task ∈ started past' := by
  obtain ⟨later, rfl⟩ := h
  induction later with
  | nil => exact hs
  | cons e later ih =>
    obtain ⟨event, l⟩ := e
    cases event with
    | started _ => exact List.mem_append_left _ ih
    | _ => exact ih

/-- What has to come next: what a task has raised is raised by the call that runs it. -/
def due : List Entry → Option Entry
  | ⟨.ended _ (some f), l⟩ :: _ => some ⟨.returned (some f), l⟩
  | _ => none

/-- An event of a history is as it should be after what came before. -/
structure Entry.Good (e : Entry) (past : List Entry) : Prop where
  order : InOrder e.loop (e :: past)
  ended : ∀ task failure, e.event = .ended task failure → task ∈ started past
  raised : ∀ next, due past = some next → e = next

/-- What holds at each moment, `flying` being what a task has just raised. -/
structure Inv (flying : Option Failure) (w : State) : Prop where
  order : InOrder w.loop w.history
  lawful : Lawful Entry.Good w.history
  due : due w.history = flying.map fun f => ⟨.returned (some f), w.loop⟩

/-! ### Events -/

theorem Inv.allows (hi : Inv none w) (order : InOrder e.loop (e :: w.history))
    (known : ∀ task failure, e.event = .ended task failure → task ∈ started w.history) :
    Lawful Entry.Good (e :: w.history) := by
  refine .cons ⟨order, known, fun next h => ?_⟩ hi.lawful
  rw [hi.due] at h
  cases h

/-- A task was scheduled. -/
theorem Inv.schedule (hi : Inv none w) :
    Inv none (noting (.scheduled task) { w with loop := w.loop.schedule task.1 task.2 }) := by
  have order : InOrder (w.loop.schedule task.1 task.2)
      (⟨.scheduled task, w.loop.schedule task.1 task.2⟩ :: w.history) := by
    constructor
    · show started w.history ++ (w.loop.tasks.pushBack task).toList = scheduled w.history ++ [task]
      rw [Queue.toList_pushBack, ← List.append_assoc, hi.order.tasks]
    · exact hi.order.executed
  exact ⟨order, hi.allows order nofun, rfl⟩

theorem Inv.start (hi : Inv none w) (h : w.loop.start? = some (task, l)) :
    Inv none (noting (.started task) { w with loop := l }) := by
  obtain ⟨tasks, executed⟩ := Loop.start?_eq_some h
  have order : InOrder l (⟨.started task, l⟩ :: w.history) := by
    constructor
    · show started w.history ++ [task] ++ l.tasks.toList = scheduled w.history
      rw [List.append_assoc, List.singleton_append, ← tasks]
      exact hi.order.tasks
    · show l.executed = (started w.history ++ [task]).length
      rw [executed, hi.order.executed, List.length_append, List.length_singleton]
  exact ⟨order, hi.allows order nofun, rfl⟩

theorem Inv.ended (hi : Inv none w) (hs : task ∈ started w.history) :
    Inv flying (noting (.ended task flying) w) := by
  have order : InOrder w.loop (⟨.ended task flying, w.loop⟩ :: w.history) :=
    ⟨hi.order.tasks, hi.order.executed⟩
  have known : ∀ task' failure, Event.ended task flying = .ended task' failure →
      task' ∈ started w.history := by
    rintro _ _ ⟨⟩
    exact hs
  have follows : Order.due (⟨.ended task flying, w.loop⟩ :: w.history) =
      flying.map fun f => ⟨.returned (some f), w.loop⟩ := by
    cases flying <;> rfl
  exact ⟨order, hi.allows order known, follows⟩

/-- A call is over, and has raised what was flying, if anything was. -/
theorem Inv.returned {failure : Option Failure} (hi : Inv flying w)
    (hf : ∀ f, flying = some f → failure = some f) : Inv none (noting (.returned failure) w) := by
  have order : InOrder w.loop (⟨.returned failure, w.loop⟩ :: w.history) :=
    ⟨hi.order.tasks, hi.order.executed⟩
  have answers : ∀ next, Order.due w.history = some next → ⟨.returned failure, w.loop⟩ = next := by
    intro next h
    rw [hi.due] at h
    obtain ⟨f, known, rfl⟩ := Option.map_eq_some_iff.1 h
    rw [hf f known]
  exact ⟨order, .cons ⟨order, nofun, answers⟩ hi.lawful, rfl⟩

/-! ### Tasks and calls -/

/-- Foreign code with so many moves keeps the invariant, also if it raises. -/
def Keeps (m : Nat) (code : Play Unit) : Prop :=
  ∀ w, Inv none w → (moves w).length ≤ m → After code w (fun _ w' => Kept (Inv none) w w')
    fun e w' => ∃ f, e = .raised f ∧ Kept (Inv none) w w'

/-- A computation in the loop keeps the invariant. It raises what a task has raised, or for a reason of
its own. -/
def Runs {α : Type} (x : Play α) (w : State) : Prop :=
  After x w (fun _ w' => Kept (Inv none) w w')
    fun e w' => ∃ f flying, e = .raised f ∧ (∀ g, flying = some g → f = g) ∧ Kept (Inv flying) w w'

section
variable (hc : Keeps m code)

include hc

/-- A task that has been started is over in the end, whatever its body does. -/
theorem exec_keeps (hi : Inv none w) (hm : (moves w).length ≤ m)
    (h : w.loop.start? = some (task, l)) :
    After (exec code task.1 task.2) { w with loop := l } (fun _ w' => Kept (Inv none) w w')
      fun e w' => ∃ f, e = .raised f ∧ Kept (Inv (some f)) w w' := by
  have begun : Kept (Inv none) w (noting (.started task) { w with loop := l }) :=
    ⟨⟨List.suffix_refl _, List.suffix_cons _ _⟩, hi.start h⟩
  have latest : task ∈ started (⟨.started task, l⟩ :: w.history) :=
    List.mem_append_right _ (List.mem_singleton.2 rfl)
  have ends {v : State} {flying : Option Failure}
      (kept : Kept (Inv none) (noting (.started task) { w with loop := l }) v) :
      Kept (Inv flying) w (noting (.ended task flying) v) := by
    have noted : ⟨.started task, l⟩ :: w.history <:+ v.history := kept.history
    exact (begun.trans kept).noted (kept.inv.ended (started_mono noted latest))
  unfold exec
  rw [after_bind, after_note, after_report]
  refine (hc _ begun.inv (Nat.le_trans begun.fewer hm)).mono (fun _ v kept => ends kept) ?_
  rintro _ v ⟨f, rfl, kept⟩
  exact ⟨f, rfl, ends kept⟩

/-- **Running the oldest task** keeps the invariant. -/
theorem runOne_keeps (hi : Inv none w) (hm : (moves w).length ≤ m) :
    Runs (Loop.runOne (exec code)) w := by
  unfold Runs
  rw [Loop.after_runOne]
  cases h : (HasLoop.loop w : Loop Nat).start? with
  | none => exact .refl hi
  | some x =>
    obtain ⟨⟨label, n⟩, l⟩ := x
    refine (exec_keeps hc hi hm h).mono (fun _ _ kept => kept) ?_
    rintro _ v ⟨f, rfl, kept⟩
    exact ⟨f, some f, rfl, fun _ => Option.some.inj, kept⟩

/-- **So does a drain,** by induction on the tasks that it is allowed. -/
theorem drainFrom_keeps {limit : Number} {allowed ran : Nat} (hi : Inv none w)
    (hm : (moves w).length ≤ m) : Runs (Loop.drainFrom (exec code) limit allowed ran) w := by
  induction allowed generalizing w ran with
  | zero =>
    unfold Runs Loop.drainFrom
    rw [after_bind, Loop.after_get]
    cases (HasLoop.loop w : Loop Nat).peek? with
    | none => exact .refl hi
    | some next => exact ⟨_, none, rfl, (fun _ e => by cases e), .refl hi⟩
  | succ allowed ih =>
    unfold Runs Loop.drainFrom
    rw [after_bind]
    refine (runOne_keeps hc hi hm).mono (fun ran v kept => ?_) fun _ _ => id
    cases ran with
    | false => exact kept
    | true =>
      refine (ih kept.inv (Nat.le_trans kept.fewer hm)).mono (fun _ _ rest => kept.trans rest) ?_
      rintro _ w' ⟨f, flying, rfl, same, rest⟩
      exact ⟨f, flying, rfl, same, kept.trans rest⟩

omit hc in
theorem watch_keeps {x : Play Unit} (h : Runs x w) :
    After (watch .returned x) w (fun _ w' => Kept (Inv none) w w') fun _ _ => False := by
  rw [after_watch]
  refine After.mono h (fun _ v kept => kept.noted (kept.inv.returned nofun)) ?_
  rintro _ v ⟨f, flying, rfl, same, kept⟩
  exact kept.noted (kept.inv.returned fun g flown => congrArg some (same g flown))

/-- **Every call keeps the invariant,** and whoever makes it goes on. -/
theorem call_keeps {c : Call} (hi : Inv none w) (hm : (moves w).length ≤ m) :
    After (c.perform code) w (fun _ w' => Kept (Inv none) w w') fun _ _ => False := by
  cases c with
  | schedule task =>
    unfold Call.perform
    rw [after_bind, Loop.after_add]
    exact ⟨⟨List.suffix_refl _, List.suffix_cons _ _⟩, hi.schedule⟩
  | run =>
    refine watch_keeps ?_
    unfold Runs
    rw [after_discard]
    exact runOne_keeps hc hi hm
  | drain limit =>
    refine watch_keeps ?_
    unfold Runs Loop.drain
    rw [after_discard]
    exact drainFrom_keeps hc hi hm

end

/-- **Foreign code keeps the invariant.** By induction on the depth: a task that is run by a call has
fewer moves left than whoever makes the call. -/
theorem body_keeps (n : Nat) : ∀ m < n, Keeps m (body n) := by
  induction n with
  | zero => nofun
  | succ n ih =>
    intro m hm w hi hw
    have enough : (moves w).length < n + 1 := Nat.lt_of_le_of_lt hw hm
    refine play_keeps (fun _ _ hi => ⟨hi.order, hi.lawful, hi.due⟩) (fun u c _ hi _ few => ?_) hi enough
      (Nat.le_of_lt_succ enough)
    exact call_keeps (ih (moves u).length few) hi (Nat.le_refl _)

/-! ### Whole runs -/

theorem Inv.ordered (hi : Inv none w) : Ordered w.history where
  moments later e earlier split := (split ▸ hi.lawful).good.order
  used later task f l earlier split := by
    have lawful : Lawful Entry.Good (later ++ ⟨.ended task (some f), l⟩ :: earlier) :=
      split ▸ hi.lawful
    refine ⟨lawful.good.ended task (some f) rfl, ?_⟩
    rcases lawful.next with rfl | ⟨later', e, rfl, good⟩
    · have caught := hi.due
      rw [split] at caught
      cases caught
    · exact ⟨later', by rw [good.raised _ rfl]⟩

/-- **A loop runs its tasks in the order in which they were scheduled.** Whatever is made of it from
outside and by the tasks themselves, a run comes to its end, with the loop in order; so it was at every
moment before, and every task that raises is used up. -/
theorem run_in_order {moves : List (Move Call)} : (run moves).1 ≠ .error .exhausted ∧
    InOrder (run moves).2.loop (run moves).2.history ∧ Ordered (run moves).2.history := by
  have fresh : Inv none ({ moves } : State) := ⟨⟨rfl, rfl⟩, .nil, rfl⟩
  obtain ⟨ends, hi⟩ : (run moves).1 ≠ .error .exhausted ∧ Inv none (run moves).2 := by
    refine After.observed (P := fun r w => r ≠ .error .exhausted ∧ Inv none w)
      ((body_keeps _ _ (Nat.lt_succ_self _) _ fresh (Nat.le_refl _)).mono
        (fun _ _ kept => ⟨nofun, kept.inv⟩) ?_)
    rintro _ w ⟨f, rfl, kept⟩
    exact ⟨nofun, kept.inv⟩
  exact ⟨ends, hi.order, hi.ordered⟩

/-- A task drains the loop that runs it, and the first task of that drain raises: the one behind it still
waits, before the one that was scheduled last. -/
example : (fun l : Loop Nat => (l.tasks.toList, l.executed)) (run [.call (.schedule ("a", 0)),
    .call (.schedule ("b", 1)), .call (.schedule ("c", 2)), .call .run, .call (.schedule ("d", 3)),
    .call (.drain (.ofNat 5)), .throw (.general "b"), .yield]).2.loop = ([("c", 2), ("d", 3)], 2) := by
  decide +kernel

end Transact.Loop.Order
