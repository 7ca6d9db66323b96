import Transact.Queue
import Transact.Run

/-! # The protocol loop

A single-threaded loop of labelled tasks. Tasks run one at a time, in the order in which they were
scheduled; what a task schedules goes to the end of the queue. What a task does is up to whoever
owns the loop, so the loop is a part of the owner's state. -/

namespace Transact

/-- The tasks that wait to be run, each under its label, and how many were started. -/
structure Loop (τ : Type) where
  tasks : Queue (String × τ) := {}
  executed : Nat := 0
deriving Inhabited

namespace Loop

variable {τ : Type}

/-- How many tasks wait. -/
def pending (l : Loop τ) : Nat := l.tasks.size

/-- The label of the oldest task that waits. -/
def peek? (l : Loop τ) : Option String := l.tasks.head?.map (·.1)

/-- Puts a task behind all others. -/
def schedule (label : String) (task : τ) (l : Loop τ) : Loop τ :=
  { l with tasks := l.tasks.pushBack (label, task) }

/-- The oldest task and the loop in which it has started. -/
def start? (l : Loop τ) : Option ((String × τ) × Loop τ) :=
  l.tasks.popFront?.map fun (task, tasks) => (task, { tasks, executed := l.executed + 1 })

end Loop

/-- A state that has a loop in it. -/
class HasLoop (σ : Type) (τ : outParam Type) where
  loop : σ → Loop τ
  setLoop : Loop τ → σ → σ

namespace Loop

variable {σ τ : Type} [HasLoop σ τ]

/-- The loop in the state. -/
def get : Run σ (Loop τ) := do return HasLoop.loop (← MonadState.get)

/-- Replaces the loop in the state. -/
def set (l : Loop τ) : Run σ Unit := modify (HasLoop.setLoop l)

/-- Schedules a task in the loop of the state. -/
def add (label : String) (task : τ) : Run σ Unit := do
  set ((← get).schedule label task)

/-- Runs the oldest task; false if there was none. **A task counts as started before it runs,** so
one that raises is used up. -/
def runOne (exec : String → τ → Run σ Unit) : Run σ Bool := do
  match (← get).start? with
  | none => return false
  | some ((label, task), l) =>
    set l
    exec label task
    return true

/-- Runs tasks until none is left, with leave for `allowed` more of them after `ran`. -/
def drainFrom (exec : String → τ → Run σ Unit) (limit : Number) :
    (allowed : Nat) → (ran : Nat) → Run σ Nat
  | 0, ran => do
    match (← get).peek? with
    | none => return ran
    | some next => Run.refuse (.loopUnsettled limit next)
  | allowed + 1, ran => do
    if ← runOne exec then drainFrom exec limit allowed (ran + 1) else return ran

/-- The number of tasks that a limit allows: the least natural number that is not below it. -/
def allowance (limit : Number) : Nat := limit.value.ceil.toNat

/-- The limit of a drain that names none. -/
def defaultLimit : Number := .ofNat 10000

/-- Runs tasks, also those scheduled meanwhile, until none is left; the number of tasks that were
run is returned. It is refused once more tasks than the limit would have to run. -/
def drain (exec : String → τ → Run σ Unit) (limit : Number) : Run σ Nat :=
  drainFrom exec limit (allowance limit) 0

end Loop

end Transact
