import Transact.Proofs.Client.Tables
import Transact.Proofs.History
import Transact.Proofs.Link.Basic

/-! # What a history tells of a link

Reading the history of a run backwards: the state of the link; the requests that were made and the
completions that were told how something ended; the exchanges that were handed to the endpoint, with
their answers. Then what is to be seen of every history.

* `standing`: the state of the link, by what happened to it.
* `Sent.verdict`: how an exchange ends, by its answer.
* `Told`: why a completion is told what it is told.
* `outcome`: and what it is told.
* `Awaits`: what a completion waits for that was told nothing yet.
* `Orderly`: all that is to be seen of a run. -/

namespace Transact.Link

/-! ### The state of the link -/

/-- **The state of the link, by what happened to it.** It opens once, when the remote opens it while it is
building. It is closed as soon as the remote has closed it or the endpoint could not attach it; one that
is closed from this side, as soon as the endpoint has let go of it, if it was attached. -/
def standing : List Entry → LinkState
  | [] => .building
  | ⟨event, x⟩ :: past =>
    match event with
    | .signalled .opened => if standing past = .building then .opened else standing past
    | .signalled (.closed _) | .unattached | .detached | .returned (.signal .close) _ => .closed
    | .signalled .close => if (x.link 0).sender.isNone then .closed else standing past
    | _ => standing past

/-! ### Requests -/

/-- The requests that were made, each with its completion, the latest first. -/
def asked : List Entry → List (Operation × Nat)
  | [] => []
  | ⟨.requested operation id, _⟩ :: past => (operation, id) :: asked past
  | _ :: past => asked past

/-- Whether a request to attach the link is too late: it is attached already, or is not building. -/
def Taken (k : Link Nat) : Prop := k.sender.isSome ∨ k.state ≠ .building

instance (k : Link Nat) : Decidable (Taken k) := inferInstanceAs (Decidable (_ ∨ _))

/-- The completion of the request by which the link was to be attached. -/
def opener : List Entry → Option Nat
  | [] => none
  | ⟨.requested .establish id, x⟩ :: past =>
    (opener past).or (if Taken (x.link 0) then none else some id)
  | _ :: past => opener past

/-- The completions that were told how something ended, the latest first. -/
def told : List Entry → List Nat
  | [] => []
  | ⟨.resolved id _, _⟩ :: past => id :: told past
  | _ :: past => told past

/-- The delivery numbers under which requests were handed to the endpoint, the latest first. -/
def deliveries : List Entry → List Nat
  | [] => []
  | ⟨.sent d _, _⟩ :: past => d :: deliveries past
  | _ :: past => deliveries past

/-! ### Exchanges -/

/-- What became of an exchange: its settlement, or that it could not be sent, or that its link closed
first. -/
inductive Answer where
  | settled (s : Settlement)
  | refused
  | closed

/-- A request that was handed to the endpoint. -/
structure Sent where
  delivery : Nat
  operation : Operation
  completion : Nat
  answer : Option Answer := none

namespace Sent

/-- The first answer is the one that counts. -/
def answered (d : Nat) (a : Answer) (q : Sent) : Sent :=
  if q.delivery = d ∧ q.answer.isNone then { q with answer := some a } else q

/-- The link closes. -/
def shut (q : Sent) : Sent := { q with answer := some (q.answer.getD .closed) }

/-- The failure of an exchange with this answer, if it fails. -/
def verdict : Operation → Answer → Option FailureKind
  | .declare _, .settled (.declared _) => none
  | .discharge .., .settled .accepted => none
  | .discharge _ true, .settled (.rejected _) => some .rolledBack
  | _, _ => some .protocol

end Sent

/-- If the link has closed, no exchange is without an answer. -/
def shutIf (x : Client Nat) (qs : List Sent) : List Sent :=
  if (x.link 0).state = .closed then qs.map Sent.shut else qs

/-- The exchanges so far, the latest first. An exchange belongs to the latest request. -/
def sent : List Entry → List Sent
  | [] => []
  | ⟨event, x⟩ :: past =>
    match event with
    | .sent d _ => ((asked past).head?.map fun (o, id) => ⟨d, o, id, none⟩).toList ++
      shutIf x (sent past)
    | .signalled (.settled d s) => (shutIf x (sent past)).map (·.answered d (.settled s))
    | .refused d => (shutIf x (sent past)).map (·.answered d .refused)
    | _ => shutIf x (sent past)

/-- The exchanges as they are when the link is as in `x`. -/
def exchanges (x : Client Nat) (past : List Entry) : List Sent := shutIf x (sent past)

/-! ### What is to be seen -/

/-- **Why a completion is told what it is told.** (What that is follows from the history alone: `outcome`.)

* `opened`, `unopened`: its request was to attach the link, and the link has opened, or is closed.
* `attached`: it asked for that too late.
* `undeclared`: it asked for a discharge, and the coordinator has no name for the transaction.
* `unsent`: it asked for an exchange, and the link is not open. An exchange is not sent in either case.
* `answered`: its exchange has got an answer. A declare that succeeds has left the coordinator's name
  with its transaction. -/
inductive Told (x : Client Nat) (past : List Entry) (id : Nat) (r : Resolution Unit) : Prop
  | opened (ho : opener past = some id) (hs : (x.link 0).state = .opened) (hr : r.Fits none)
  | unopened (ho : opener past = some id) (hs : (x.link 0).state = .closed)
    (hr : r.Fits (some .protocol))
  | attached (ha : (.establish, id) ∈ asked past) (ho : opener past ≠ some id) (hs : Taken (x.link 0))
    (hr : r.Fits (some .illegalState))
  | undeclared {t : Nat} {commit : Bool} (ha : (.discharge t commit, id) ∈ asked past)
    (hq : ∀ q ∈ exchanges x past, q.completion ≠ id) (hn : (x.transaction t).hint = none)
    (hr : r.Fits (some .illegalState))
  | unsent {o : Operation} (ha : (o, id) ∈ asked past) (ho : o ≠ .establish)
    (hq : ∀ q ∈ exchanges x past, q.completion ≠ id)
    (hn : ∀ t commit, o = .discharge t commit → (x.transaction t).hint ≠ none)
    (hs : (x.link 0).sender = none ∨ (x.link 0).state ≠ .opened) (hr : r.Fits (some .protocol))
  | answered {q : Sent} {a : Answer} (hq : q ∈ exchanges x past) (hid : q.completion = id)
    (ha : q.answer = some a) (hr : r.Fits (Sent.verdict q.operation a))
    (hint : ∀ t y, q.operation = .declare t → a = .settled (.declared y) →
      t < x.transactions.size → (x.transaction t).hint = y)

/-- **How a completion ends** that is told now, by the request that it was made for. -/
def outcome (x : Client Nat) (past : List Entry) (id : Nat) : Operation → Option FailureKind
  | .establish =>
    if opener past = some id then if (x.link 0).state = .opened then none else some .protocol
    else some .illegalState
  | o => match (exchanges x past).find? (·.completion = id), o with
    | some q, _ => q.answer.bind (Sent.verdict q.operation)
    | none, .discharge t _ => if (x.transaction t).hint = none then some .illegalState else some .protocol
    | none, _ => some .protocol

/-- The request is what the operation asks for; a discharge carries the coordinator's name of the
transaction. -/
def Carries (x : Client Nat) : Operation → Request → Prop
  | .establish, _ => False
  | .declare _, r => r = .declare
  | .discharge t commit, r => ∃ y, (x.transaction t).hint = some y ∧ r = .discharge y (!commit)

/-- **What holds whenever a request is handed over:** the link is open, the delivery has the next
number, and the request is the one that was asked for last. -/
structure Handed (d : Nat) (r : Request) (x : Client Nat) (past : List Entry) : Prop where
  opened : (x.link 0).state = .opened
  number : d = (exchanges x past).length
  request : ∃ o id, (asked past).head? = some (o, id) ∧ Carries x o r

/-- **What comes of a settlement:** the one exchange of its delivery number is told, if it has had no
answer yet; and else nothing happens. -/
def Follows (d : Nat) (s : Settlement) (before : Entry) (past : List Entry) (after : Entry) : Prop :=
  (∃ q ∈ exchanges before.client past, q.delivery = d ∧ q.answer = none ∧
      ∃ r, after.event = .resolved q.completion r) ∨
    (∀ q ∈ exchanges before.client past, q.delivery = d → q.answer.isSome) ∧
      after = ⟨.returned (.signal (.settled d s)) none, before.client⟩

/-- What is to be seen at an entry, with all that went before. -/
structure Entry.Good (e : Entry) (past : List Entry) : Prop where
  state : (e.client.link 0).state = standing past
  returned : ∀ c failure, e.event = .returned c failure → failure = none
  sent : ∀ d r, e.event = .sent d r → Handed d r e.client past
  told : ∀ id r, e.event = .resolved id r → Told e.client past id r
  follows : ∀ d s before earlier, past = before :: earlier →
    before.event = .signalled (.settled d s) → Follows d s before earlier e

/-- **What a completion waits for** that was told nothing yet: the opening of a link that builds, or the
answer to an exchange on a link that is open. -/
def Awaits (x : Client Nat) (past : List Entry) (id : Nat) : Prop :=
  (x.link 0).state = .building ∧ opener past = some id ∨
    (x.link 0).state = .opened ∧ ∃ q ∈ exchanges x past, q.completion = id ∧ q.answer = none

/-- **What is to be seen outside of all foreign code.**

* `state`: the link is in the state in which events have left it.
* `distinct`, `requested`, `single`: requests and exchanges each have a completion of their own.
* `known`, `once`: what is told are completions of requests, none of them twice.
* `waits`: those that were told nothing are those that wait. Nobody waits for a closed link.
* `numbers`: the requests were handed over under the numbers 0, 1, 2 and so on.
* `good`: at every entry there is to be seen what should be. -/
structure Orderly (x : Client Nat) (past : List Entry) : Prop where
  state : (x.link 0).state = standing past
  distinct : ((asked past).map (·.2)).Nodup
  requested : ∀ q ∈ exchanges x past, (q.operation, q.completion) ∈ asked past
  single : ((exchanges x past).map (·.completion)).Nodup
  known : ∀ id ∈ told past, ∃ o, (o, id) ∈ asked past
  once : (told past).Nodup
  waits : ∀ o id, (o, id) ∈ asked past → (id ∉ told past ↔ Awaits x past id)
  numbers : deliveries past = (List.range (deliveries past).length).reverse
  good : ∀ later e earlier, past = later ++ e :: earlier → e.Good earlier

end Transact.Link
