import Transact.Client.Context
import Transact.Proofs.Player

/-! # A context and foreign code that does as it likes

A context meets foreign code in many places: its callers, the continuations of their completions, the
hooks of enrolled consumers and the endpoint behind its links. Here all of it plays one list of moves.

Every call, every return and every request is noted together with the client as it was then. -/

namespace Transact.Adversary

open Player

/-! ### Moves -/

/-- What is asked of the context with a completion that is told how it ended. -/
inductive Operation where
  | begin (transaction : Nat)
  | finish (ending : Ending) (info : TransactionRef)
  | aggregate (info : TransactionRef) (pending : Number) (commit : Bool)

/-- Everything else that can be done: a send of an aggregate is settled, a consumer or producer is
enrolled, the endpoint raises an event on a link, or the coordinator is closed from this side. -/
inductive Signal where
  | settleSend (aggregate : Nat) (failure : Option Failure)
  | enrolConsumer (id : MemberId) (consumer : Nat)
  | enrolProducer (id : MemberId) (producer : Nat)
  | opened (link : Nat)
  | closed (link : Nat) (error : Option Condition)
  | settled (link delivery : Nat) (settlement : Settlement)
  | closeCoordinator

/-- Whether a signal is an event of the endpoint. -/
def Signal.isEvent : Signal → Bool
  | opened _ | closed .. | settled .. => true
  | _ => false

/-- A call. A request is made with a new completion, or with one that was handed over before. -/
inductive Call where
  | request (operation : Operation) (again : Option Nat)
  | signal (s : Signal)

/-- Whether a call is an event of the endpoint. -/
def Call.isEvent : Call → Bool
  | request .. => false
  | signal s => s.isEvent

/-! ### Manners -/

/-- No aggregate is made. -/
def Operation.Tame : Operation → Prop
  | aggregate .. => False
  | _ => True

/-- No send is settled. -/
def Signal.Tame : Signal → Prop
  | settleSend .. => False
  | _ => True

/-- Every request has a completion of its own. -/
def Call.Tame : Call → Prop
  | request operation again => operation.Tame ∧ again = none
  | signal s => s.Tame

/-- How far it is known of foreign code what it does: nothing is known of it, or that all its moves are
civil, or tame. -/
inductive Manners where
  | wild
  | civil
  | tame

namespace Manners

/-- What is raised can be reported. -/
def Civil : Manners → Prop
  | wild => False
  | civil | tame => True

/-- Besides, every request has a completion of its own, and nothing is raised but where it is expected.
-/
def Tame : Manners → Prop
  | wild | civil => False
  | tame => True

/-- The moves that foreign code may make. -/
def Allows : Manners → Move Call → Prop
  | wild, _ => True
  | civil, m => m.Civil
  | tame, m => m.Tame Call.Tame

variable {how : Manners} {m : Move Call}

theorem Tame.civil (h : how.Tame) : how.Civil := by
  cases how with
  | tame => trivial
  | _ => exact h.elim

theorem Allows.tame (h : how.Allows m) (ht : how.Tame) : m.Tame Call.Tame := by
  cases how with
  | tame => exact h
  | _ => exact ht.elim

theorem Allows.civil (h : how.Allows m) (hc : how.Civil) : m.Civil := by
  cases how with
  | wild => exact hc.elim
  | civil => exact h
  | tame => exact Move.Tame.civil h

end Manners

/-! ### What is noted -/

/-- What happens, as far as it is noted. -/
inductive Event where
  /-- A request is made with this completion. -/
  | requested (operation : Operation) (completion : Nat)
  | signalled (s : Signal)
  /-- A request or a signal is over, and has raised or not. -/
  | returned (failure : Option Failure)
  | resolved (completion : Nat) (r : Resolution Unit)
  /-- A hook was called, and has raised or not. -/
  | hooked (consumer : Nat) (hook : Hook) (failure : Option Failure)
  | attached (link : Nat) (name : String)
  | detached (link : Nat)
  | sent (link delivery : Nat) (request : Request)
  /-- The endpoint has raised instead of sending. -/
  | refused (link delivery : Nat) (f : Failure)

/-- An event, with the client as it was then. -/
structure Entry where
  event : Event
  client : Client Nat

/-- What foreign code has still to do, and what was noted. -/
abbrev Outside := Part Call Entry

/-- One context, and foreign code around it. -/
abbrev State := World Outside Nat

/-- What happens between the context and foreign code. -/
abbrev Play := Act Outside Nat

/-- What the context finds around it. -/
abbrev Surroundings := Host Outside Nat

instance : Plays State Call Event Entry where
  part := World.outside
  setPart part w := { w with outside := part }
  entry e w := ⟨e, w.client⟩
  part_setPart _ _ := rfl

/-- The completions handed over so far, the latest first. -/
def handed : List Entry → List Nat
  | [] => []
  | ⟨.requested _ id, _⟩ :: past => id :: handed past
  | _ :: past => handed past

/-! ### Calls -/

/-- The completion of a request: a new one, or one that was handed over before. -/
def completion (again : Option Nat) : Play Nat := do
  match again.bind ((handed (← Act.outside).history)[·]?) with
  | some id => return id
  | none => Act.newCompletion

/-- Asks the context for something. -/
def Operation.perform (h : Surroundings) (request : Token Nat) : Operation → Play Unit
  | .begin t => Context.begin h 0 t request
  | .finish ending info => Context.finish h 0 ending info request
  | .aggregate info pending commit => discard (Context.finishAfter h 0 info pending request commit)

/-- Members are enrolled only in an active transaction. -/
def Signal.perform (h : Surroundings) : Signal → Play Unit
  | .settleSend a failure => Context.settleSend h a failure
  | .enrolConsumer id consumer => do
    if (← Act.context 0).stage = .active then Context.enrolConsumer 0 id consumer
  | .enrolProducer id producer => do
    if (← Act.context 0).stage = .active then Context.enrolProducer 0 id producer
  | .opened l => Link.opened h l
  | .closed l error => Link.closed h l error
  | .settled l delivery settlement => Link.settled h l delivery settlement
  | .closeCoordinator => do
    match (← Act.context 0).coordinator with
    | none => return
    | some l => Link.close h l

/-- Makes a call. What is done is announced first, and how it ended is noted. -/
def Call.perform (h : Surroundings) : Call → Play Unit
  | .request operation again => do
    let id ← completion again
    note (.requested operation id)
    watch .returned (operation.perform h (.client id id))
  | .signal s => do
    note (.signalled s)
    watch .returned (s.perform h)

/-! ### Control -/

/-- Foreign code that makes the calls that `may` allows. -/
abbrev control (may : Call → Bool) (h : Surroundings) : (fuel : Nat) → (refusing : Bool) → Play Unit :=
  play may (Call.perform h)

/-- Foreign code that can only return or raise. -/
def answer (h : Surroundings) (fuel : Nat) : Play Unit := control (fun _ => false) h fuel true

/-- The endpoint attaches a link, or raises. -/
def attach (h : Surroundings) (fuel : Nat) (name : String) (l : Nat) : Play Nat := do
  answer h fuel
  note (.attached l name)
  return l

/-- While it takes a request, the endpoint may raise events. -/
def send (h : Surroundings) (fuel l delivery : Nat) (request : Request) : Play Unit := do
  note (.sent l delivery request)
  match ← Run.attempt (control Call.isEvent h fuel true) with
  | .ok () => return
  | .error f =>
    note (.refused l delivery f)
    Run.raise f

/-- A hook returns or raises, and that is noted. -/
def hook (h : Surroundings) (fuel consumer : Nat) (k : Hook) : Play Unit :=
  report (.hooked consumer k) (answer h fuel)

/-- A continuation may make any call. -/
def resume (h : Surroundings) (fuel id : Nat) (r : Resolution Unit) : Play Unit := do
  note (.resolved id r)
  control (fun _ => true) h fuel false

/-- The surroundings, with leave to nest so many levels of foreign code. -/
def host : (depth : Nat) → Surroundings
  | 0 => {
    attach := fun _ _ => Run.exhausted
    send := fun _ _ _ => Run.exhausted
    detach := fun _ => Run.exhausted
    hook := fun _ _ => Run.exhausted
    resume := fun _ _ => Run.exhausted }
  | depth + 1 => {
    attach := attach (host depth) (depth + 1)
    send := send (host depth) (depth + 1)
    detach := fun l => note (.detached l)
    hook := hook (host depth) (depth + 1)
    resume := resume (host depth) (depth + 1) }

/-! ### Runs -/

/-- A client with one context and these transactions, before the first move. -/
def start (session : SessionId) (transactions : List TransactionId) (moves : List (Move Call)) : State where
  client := {
    contexts := #[{ session }]
    transactions := (transactions.map fun id => { id : Transaction }).toArray }
  outside := { moves }

/-- Where a list of moves leads. Each level of nesting takes a move, so that there is depth enough
for all of them. -/
def run (session : SessionId) (transactions : List TransactionId) (moves : List (Move Call)) : State :=
  let depth := moves.length + 1
  ((control (fun _ => true) (host depth) depth false).observe (start session transactions moves)).2

/-- What happened in a run, the latest first. -/
def history (session : SessionId) (transactions : List TransactionId) (moves : List (Move Call)) :
    List Entry :=
  (run session transactions moves).outside.history

end Transact.Adversary
