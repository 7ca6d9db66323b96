import Transact.Identity

/-! # Requests and settlements

What travels between a client and the transaction coordinator: the two requests, the settlements
that answer them, the error conditions that a rejection or a closure may carry, and the delivery
states that tie a message to a transaction. -/

namespace Transact

/-! ## Error conditions -/

/-- Why the remote has closed or rejected something. -/
structure Condition where
  condition : String
  description : Option String := none
deriving DecidableEq, Inhabited

/-- The text of a condition; an empty description is not shown. -/
def Condition.describe : Option Condition → String
  | none => "no error condition"
  | some e => match e.description with
    | none | some "" => e.condition
    | some d => s!"{e.condition}: {d}"

/-! ## Delivery states -/

/-- How a delivery may end. -/
inductive DeliveryOutcome where
  | accepted
  | rejected (error : Option Condition)
deriving DecidableEq, Inhabited

/-- The word for an outcome. -/
def DeliveryOutcome.word : DeliveryOutcome → String
  | accepted => "accepted"
  | rejected _ => "rejected"

/-- **A delivery state** that names a transaction. With an outcome it acknowledges a delivery;
without one it makes an outgoing message part of the transaction. -/
structure DeliveryState where
  txnId : TxnId
  outcome : Option DeliveryOutcome := none
deriving DecidableEq, Inhabited

namespace DeliveryState

/-- The state of a delivery that is accepted in this transaction. -/
def acknowledging (txnId : TxnId) : DeliveryState := ⟨txnId, some .accepted⟩

/-- The state of a message that is sent in this transaction. -/
def enrolling (txnId : TxnId) : DeliveryState := ⟨txnId, none⟩

end DeliveryState

/-! ## The coordinator link -/

/-- What is asked of the coordinator. -/
inductive Request where
  | declare
  | discharge (txnId : TxnId) (fail : Bool)
deriving DecidableEq, Inhabited

/-- The word for a request. -/
def Request.word : Request → String
  | declare => "declare"
  | discharge .. => "discharge"

/-- The remote answer to a request. A settlement of any other type is carried by its name. -/
inductive Settlement where
  | declared (txnId : Option TxnId)
  | accepted
  | rejected (error : Option Condition)
  | other (type : String)
deriving DecidableEq, Inhabited

/-- The word for a settlement. -/
def Settlement.word : Settlement → String
  | declared _ => "declared"
  | accepted => "accepted"
  | rejected _ => "rejected"
  | other type => type

/-- The states of a link. -/
inductive LinkState where
  | building
  | opened
  | closed
deriving DecidableEq, Inhabited

/-- The word for the state of a link. -/
def LinkState.word : LinkState → String
  | building => "building"
  | opened => "open"
  | closed => "closed"

/-! ## The life of a transaction -/

/-- **The stage of a context.** In doubt is no stage of its own: it is an active or discharging
transaction whose coordinator link has closed. -/
inductive Stage where
  | idle
  | declaring
  | active
  | discharging
deriving DecidableEq, Inhabited

/-- The word for a stage. -/
def Stage.word : Stage → String
  | idle => "idle"
  | declaring => "declaring"
  | active => "active"
  | discharging => "discharging"

/-- The two ways to end a transaction. -/
inductive Ending where
  | commit
  | rollback
deriving DecidableEq, Inhabited

/-- The word for an ending that begins a sentence. -/
def Ending.title : Ending → String
  | commit => "Commit"
  | rollback => "Rollback"

/-- The word for an ending within a sentence. -/
def Ending.verb : Ending → String
  | commit => "commit"
  | rollback => "rollback"

/-- The four moments at which an enrolled consumer is called. -/
inductive Hook where
  | preCommit
  | postCommit
  | preRollback
  | postRollback
deriving DecidableEq, Inhabited

/-- All hooks. -/
def Hook.list : List Hook := [.preCommit, .postCommit, .preRollback, .postRollback]

/-- The word for a hook. -/
def Hook.word : Hook → String
  | preCommit => "preCommit"
  | postCommit => "postCommit"
  | preRollback => "preRollback"
  | postRollback => "postRollback"

end Transact
