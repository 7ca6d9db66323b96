import Transact.Aggregation
import Transact.Completion.Basic
import Transact.Enrollment
import Transact.Protocol
import Transact.Run

/-! # The client's tables

A client keeps completions, transactions, coordinator links, contexts and aggregations in tables and
names each by its place there. Whoever waits for the end of something holds a token: the number of a
completion, and what is to be done once it is settled. Tokens are data, nested as far as one step of
the protocol leads to the next, and end in a continuation of type `κ` that only the surroundings of
the client understand.

The surroundings are a `Host`: the endpoint that carries requests, the hooks of enrolled consumers,
and the code behind continuations. All of it is foreign code, which may call the client again. -/

namespace Transact

/-! ## Tokens -/

/-- What is to be told how something ended, each with the number of its completion.

* `client`: a completion of the client's own surroundings.
* `instead`: reports this failure where the end is a success, because a rollback took the place of
  a commit.
* `discharging`: the discharge of a context's transaction.
* `declaring`: the declare that begins a transaction.
* `opening`: the opening of a link on which a transaction is then declared. -/
inductive Token (κ : Type) where
  | client (completion : Nat) (continuation : κ)
  | instead (completion : Nat) (failure : Failure) (request : Token κ)
  | discharging (completion : Nat) (context : Nat) (commit : Bool) (request : Token κ)
  | declaring (completion : Nat) (context transaction : Nat) (request : Token κ)
  | opening (completion : Nat) (context transaction link : Nat) (next request : Token κ)
deriving Inhabited

/-! ## Tables -/

/-- A transaction as the client knows it: its name, and the coordinator's name once declared. -/
structure Transaction where
  id : TransactionId
  hint : Option TxnId := none
deriving DecidableEq, Inhabited

/-- A request that was sent on a link and has not been settled. -/
structure Exchange (κ : Type) where
  /-- Whether this is a discharge, and then whether it commits. -/
  discharge : Option Bool
  transaction : Nat
  request : Token κ
deriving Inhabited

/-- A link to the transaction coordinator. -/
structure Link (κ : Type) where
  name : String
  state : LinkState := .building
  /-- The endpoint's side of the link, once attached. -/
  sender : Option Nat := none
  /-- Who waits for the link to open. -/
  opening : Option (Token κ) := none
  nextDelivery : Nat := 0
  /-- The outstanding exchanges under their delivery numbers, oldest first. -/
  pending : List (Nat × Exchange κ) := []
  closeError : Option Condition := none
deriving Inhabited

/-- The transaction control of one session. -/
structure Context where
  session : SessionId
  stage : Stage := .idle
  current : Option Nat := none
  accepted : Option DeliveryState := none
  enrolled : Option DeliveryState := none
  coordinator : Option Nat := none
  linksBuilt : Nat := 0
  registry : Registry Nat Nat := {}
deriving Inhabited

/-- Outstanding sends of a transaction, and how it is to end once they are settled. -/
structure Aggregate (κ : Type) where
  sends : Aggregation
  context : Nat
  info : TransactionRef
  /-- Whether a commit was asked for. -/
  commit : Bool
  request : Token κ

/-- Everything that a client holds, in tables. An entry is known by its number. -/
structure Client (κ : Type) where
  completions : Array (Status Unit) := #[]
  transactions : Array Transaction := #[]
  links : Array (Link κ) := #[]
  contexts : Array Context := #[]
  aggregates : Array (Aggregate κ) := #[]

instance {κ : Type} : Inhabited (Client κ) := ⟨{}⟩

/-- The client and what its surroundings remember. -/
structure World (ε κ : Type) where
  client : Client κ := {}
  outside : ε

/-- What a client does: a computation on the client and its surroundings. -/
abbrev Act (ε κ α : Type) := Run (World ε κ) α

/-- **The surroundings of a client.** A link is attached under its name and yields the number of the
endpoint's side; requests are sent there under their delivery number. A consumer is called by its
place among those that the surroundings know. -/
structure Host (ε κ : Type) where
  attach : (name : String) → (link : Nat) → Act ε κ Nat
  send : (sender : Nat) → (delivery : Nat) → Request → Act ε κ Unit
  detach : (sender : Nat) → Act ε κ Unit
  hook : (consumer : Nat) → Hook → Act ε κ Unit
  resume : κ → Resolution Unit → Act ε κ Unit

namespace Act

variable {ε κ : Type}

/-! ## Access to the tables -/

/-- The tables. -/
def client : Act ε κ (Client κ) := do return (← get).client

/-- Changes the tables. -/
def modifyClient (f : Client κ → Client κ) : Act ε κ Unit :=
  modify fun w => { w with client := f w.client }

/-- What is outside of the client. -/
def outside : Act ε κ ε := do return (← get).outside

/-- Changes what is outside of the client. -/
def modifyOutside (f : ε → ε) : Act ε κ Unit :=
  modify fun w => { w with outside := f w.outside }

/-- Looks up a link. -/
def link (l : Nat) : Act ε κ (Link κ) := do return (← client).links[l]?.getD default

/-- Changes a link. -/
def modifyLink (l : Nat) (f : Link κ → Link κ) : Act ε κ Unit :=
  modifyClient fun c => { c with links := c.links.modify l f }

/-- Looks up a context. -/
def context (c : Nat) : Act ε κ Context := do return (← client).contexts[c]?.getD default

/-- Changes a context. -/
def modifyContext (c : Nat) (f : Context → Context) : Act ε κ Unit :=
  modifyClient fun x => { x with contexts := x.contexts.modify c f }

/-- Looks up a transaction. -/
def transaction (t : Nat) : Act ε κ Transaction := do
  return (← client).transactions[t]?.getD default

/-- Writes or clears the coordinator's name for a transaction. -/
def setHint (t : Nat) (hint : Option TxnId) : Act ε κ Unit :=
  modifyClient fun x => { x with
    transactions := x.transactions.modify t fun entry => { entry with hint } }

/-! ## New entries -/

/-- A new completion, still pending. -/
def newCompletion : Act ε κ Nat := modifyGet fun w =>
  (w.client.completions.size,
    { w with client := { w.client with completions := w.client.completions.push .pending } })

/-- Makes a transaction. -/
def newTransaction (id : TransactionId) : Act ε κ Nat := modifyGet fun w =>
  (w.client.transactions.size,
    { w with client := { w.client with transactions := w.client.transactions.push { id } } })

/-- Makes a link, which is not attached yet. -/
def newLink (name : String) : Act ε κ Nat := modifyGet fun w =>
  (w.client.links.size,
    { w with client := { w.client with links := w.client.links.push { name } } })

/-- Makes a context. -/
def newContext (session : SessionId) : Act ε κ Nat := modifyGet fun w =>
  (w.client.contexts.size,
    { w with client := { w.client with contexts := w.client.contexts.push { session } } })

/-- Makes an aggregate. -/
def newAggregate (a : Aggregate κ) : Act ε κ Nat := modifyGet fun w =>
  (w.client.aggregates.size,
    { w with client := { w.client with aggregates := w.client.aggregates.push a } })

/-! ## Settling -/

/-- The status of a completion. -/
def status (completion : Nat) : Act ε κ (Status Unit) := do
  return (← client).completions[completion]?.getD .pending

/-- Settles a completion, or raises if it was settled before. -/
def settle (completion : Nat) (r : Resolution Unit) : Act ε κ Unit := do
  match (← status completion).settle r with
  | .error p => Run.refuse p
  | .ok s => modifyClient fun x => { x with
    completions := x.completions.setIfInBounds completion s }

end Act

end Transact
