import Transact.Client.Link
import Transact.Proofs.Player

/-! # A link on its own

One coordinator link, and foreign code on all sides of it: whoever uses the link, the continuations of
their completions, the endpoint, and others who write into the transactions. All of it plays one list
of moves.

Every call, every return and every request is noted together with the client as it was then. -/

namespace Transact.Link

open Player

/-! ### Moves -/

/-- What is asked of the link with a new completion that is told how it ended. -/
inductive Operation where
  | establish
  | declare (transaction : Nat)
  | discharge (transaction : Nat) (commit : Bool)
deriving DecidableEq

/-- Everything else that can be done: the endpoint raises an event, the link is closed from this side,
or somebody writes the coordinator's name of a transaction. -/
inductive Signal where
  | opened
  | closed (error : Option Condition)
  | settled (delivery : Nat) (settlement : Settlement)
  | close
  | name (transaction : Nat) (hint : Option TxnId)

/-- Whether a signal is an event of the endpoint. -/
def Signal.isEvent : Signal → Bool
  | opened | closed _ | settled .. => true
  | close | name .. => false

/-- A request, which is made with a new completion, or a signal. -/
inductive Call where
  | request (operation : Operation)
  | signal (s : Signal)

/-- Whether a call is an event of the endpoint. -/
def Call.isEvent : Call → Bool
  | request _ => false
  | signal s => s.isEvent

/-! ### What is noted -/

/-- What happens, as far as it is noted. -/
inductive Event where
  /-- A request is made with this completion. -/
  | requested (operation : Operation) (completion : Nat)
  | signalled (s : Signal)
  /-- A call is over, and has raised or not. -/
  | returned (c : Call) (failure : Option Failure)
  | resolved (completion : Nat) (r : Resolution Unit)
  | sent (delivery : Nat) (request : Request)
  /-- The endpoint has raised instead of sending. -/
  | refused (delivery : Nat)
  /-- The endpoint has raised instead of attaching the link. -/
  | unattached
  /-- The endpoint has let go of the link. -/
  | detached

/-- An event, with the client as it was then. -/
structure Entry where
  event : Event
  client : Client Nat

/-- What foreign code has still to do, and what was noted. -/
abbrev Outside := Part Call Entry

/-- One link, and foreign code around it. -/
abbrev State := World Outside Nat

/-- What happens between the link and foreign code. -/
abbrev Play := Act Outside Nat

/-- What the link finds around it. -/
abbrev Surroundings := Host Outside Nat

instance : Plays State Call Event Entry where
  part := World.outside
  setPart part w := { w with outside := part }
  entry e w := ⟨e, w.client⟩
  part_setPart _ _ := rfl

/-! ### Calls -/

/-- Asks the link for something. -/
def Operation.perform (h : Surroundings) (request : Token Nat) : Operation → Play Unit
  | .establish => Link.establish h 0 request
  | .declare t => Link.declare h 0 t request
  | .discharge t commit => Link.discharge h 0 t request commit

/-- Does anything else. -/
def Signal.perform (h : Surroundings) : Signal → Play Unit
  | .opened => Link.opened h 0
  | .closed error => Link.closed h 0 error
  | .settled delivery settlement => Link.settled h 0 delivery settlement
  | .close => Link.close h 0
  | .name t hint => Act.setHint t hint

/-- Makes a call, and notes how it ended. -/
def Call.perform (h : Surroundings) (c : Call) : Play Unit :=
  match c with
  | .request operation => do
    let id ← Act.newCompletion
    note (.requested operation id)
    watch (.returned c) (operation.perform h (.client id id))
  | .signal s => do
    note (.signalled s)
    watch (.returned c) (s.perform h)

/-! ### Control -/

/-- Foreign code that makes the calls that `may` allows. -/
abbrev control (may : Call → Bool) (h : Surroundings) : (fuel : Nat) → (refusing : Bool) → Play Unit :=
  play may (Call.perform h)

/-- While it attaches a link, the endpoint may raise events. -/
def attach (h : Surroundings) (fuel : Nat) (l : Nat) : Play Nat := do
  match ← Run.attempt (control Call.isEvent h fuel true) with
  | .ok () => return l
  | .error f =>
    note .unattached
    Run.raise f

/-- So it may while it takes a request. -/
def send (h : Surroundings) (fuel delivery : Nat) (request : Request) : Play Unit := do
  note (.sent delivery request)
  match ← Run.attempt (control Call.isEvent h fuel true) with
  | .ok () => return
  | .error f =>
    note (.refused delivery)
    Run.raise f

/-- And so it may before it lets go of the link. -/
def detach (h : Surroundings) (fuel : Nat) : Play Unit := do
  control Call.isEvent h fuel false
  note .detached

/-- A continuation may make any call. -/
def resume (h : Surroundings) (fuel id : Nat) (r : Resolution Unit) : Play Unit := do
  note (.resolved id r)
  control (fun _ => true) h fuel false

/-- The surroundings, with leave to nest so many levels of foreign code. -/
def host : (depth : Nat) → Surroundings
  | 0 => {
    attach := fun _ _ => Run.exhausted
    send := fun _ _ _ => Run.exhausted
    detach := fun _ => Run.exhausted
    hook := fun _ _ => Run.exhausted
    resume := fun _ _ => Run.exhausted }
  | depth + 1 => {
    attach := fun _ => attach (host depth) (depth + 1)
    send := fun _ => send (host depth) (depth + 1)
    detach := fun _ => detach (host depth) (depth + 1)
    hook := fun _ _ => Run.exhausted
    resume := resume (host depth) (depth + 1) }

/-! ### Runs -/

/-- A client with one link and these transactions, before the first move. -/
def start (name : String) (transactions : List TransactionId) (moves : List (Move Call)) : State where
  client := {
    links := #[{ name }]
    transactions := (transactions.map fun id => { id : Transaction }).toArray }
  outside := { moves }

/-- What a list of moves leads to, from outside of all foreign code. Each level of nesting takes a
move, so that there is depth enough for all of them. -/
def run (name : String) (transactions : List TransactionId) (moves : List (Move Call)) :
    Except Halt Unit × State :=
  let depth := moves.length + 1
  (control (fun _ => true) (host depth) depth false).observe (start name transactions moves)

end Transact.Link
