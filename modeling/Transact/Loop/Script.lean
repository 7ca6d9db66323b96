import Transact.Loop.Basic

/-! # Scripted tasks

Tasks that are given as data: a task notes its label, schedules further tasks, perhaps schedules
itself again, makes calls on the very loop that runs it, and may raise at the end. -/

namespace Transact.Loop.Script

mutual

/-- A task. `respawn` is its budget: a task whose budget is not zero schedules itself again with one
less, so that a negative budget never ends. -/
inductive Job where
  | mk (label : String) (spawns : List Job) (respawn : Option Number) (calls : List Call)
      (failure : Option Failure)

/-- A call on the loop. A drain without a limit has the usual one. -/
inductive Call where
  | schedule (job : Job)
  | run
  | drain (limit : Option Number)

end

/-- The label of a job. -/
def Job.label : Job → String
  | mk label .. => label

/-- What a call returns. -/
inductive Reply where
  | nothing
  | flag (b : Bool)
  | count (n : Nat)
deriving DecidableEq, Inhabited

/-- What a script sees. -/
inductive Event where
  | started (label : String)
  | returned (reply : Reply)
deriving DecidableEq, Inhabited

/-- A loop, and what was seen of it. -/
structure State where
  loop : Loop Job := {}
  log : Array Event := #[]

instance : HasLoop State Job where
  loop := State.loop
  setLoop l s := { s with loop := l }

/-- Notes an event. -/
def note (e : Event) : Run State Unit := modify fun s => { s with log := s.log.push e }

/-- Schedules a job under its label. -/
def schedule (job : Job) : Run State Unit := Loop.add job.label job

/-- One call on the loop, with `exec` to run its tasks. -/
def perform (exec : String → Job → Run State Unit) : Call → Run State Reply
  | .schedule job => do schedule job; return .nothing
  | .run => do return .flag (← Loop.runOne exec)
  | .drain limit => do return .count (← Loop.drain exec (limit.getD Loop.defaultLimit))

/-- Schedules a task again if its budget allows. -/
def respawn : Job → Run State Unit
  | .mk label spawns budget calls failure =>
    match budget with
    | none => return
    | some n =>
      if n = .ofNat 0 then return
      else schedule (.mk label spawns (some n.pred) calls failure)

/-- Runs a task that may call the loop, so many levels deep. -/
def exec : (depth : Nat) → String → Job → Run State Unit
  | 0, _, _ => Run.exhausted
  | depth + 1, _, .mk label spawns budget calls failure => do
    note (.started label)
    spawns.forM schedule
    respawn (.mk label spawns budget calls failure)
    calls.forM fun call => do note (.returned (← perform (exec depth) call))
    match failure with
    | none => return
    | some f => Run.raise f

/-- The depth to which tasks are followed that run the loop which runs them. -/
def maxDepth : Nat := 4000

/-- A call from outside, with a log of its own. -/
def call (c : Call) (s : State) : Except Halt Reply × State :=
  (perform (exec maxDepth) c).observe { s with log := #[] }

end Transact.Loop.Script
