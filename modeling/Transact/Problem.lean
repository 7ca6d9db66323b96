import Transact.Failure
import Transact.Protocol

/-! # Problems

Everything this library itself reports as a failure: what went wrong, of which kind it is, and in
which words it is told. -/

namespace Transact

/-- What can go wrong, with what is to be said about it. -/
inductive Problem where
  -- misuse by the caller
  | alreadySettled (status : String)
  | sendsSettled
  | alreadyAttached (link : String)
  | notDeclared (tx : TransactionId)
  | beginDuring (stage : Stage)
  | nothingToEnd (ending : Ending)
  | otherTransaction (ending : Ending)
  | endedTwice (ending : Ending) (tx : TransactionId)
  | commitInDoubt (tx : TransactionId)
  | nothingBound
  | sessionStarted (session : SessionId)
  | noDestination (producer : MemberId)
  | sendDuringDischarge
  | sendOutside
  | endDuringDischarge (ending : Ending)
  | receiveOutside (consumer : MemberId)
  -- the transaction is gone
  | lostInDoubt
  | sendFailed
  | prepareFailed
  | commitRejected (tx : TransactionId) (error : Option Condition)
  | sendInDoubt
  -- the link or the coordinator
  | attachFailed (link : String)
  | closedLocally (link : String)
  | closedByRemote (link : String) (error : Option Condition)
  | linkNotOpen (link : String) (state : LinkState)
  | transmitFailed (request : Request) (link : String)
  | declareRejected (tx : TransactionId) (error : Option Condition)
  | rollbackRejected (tx : TransactionId) (error : Option Condition)
  | unexpectedSettlement (type : String) (request : String) (tx : TransactionId)
  | declaredWithoutId (tx : TransactionId)
  | transferRejected (index : Nat) (address : String)
  | transferUnknown (index : Nat) (txnId : TxnId)
  -- the peer
  | endpointNotOpen (link : String)
  | unknownDelivery (tag : Number)
  | loopUnsettled (limit : Number) (next : String)
  -- values out of range
  | sendCount (count : Number)
  | flagExpected (key value : String)
  | noText
deriving DecidableEq

namespace Problem

/-- The kind that a problem is reported as. -/
def kind : Problem → FailureKind
  | alreadySettled _ | sendsSettled | alreadyAttached _ | notDeclared _ | beginDuring _
  | nothingToEnd _ | otherTransaction _ | endedTwice .. | commitInDoubt _ | nothingBound
  | sessionStarted _ | noDestination _ | sendDuringDischarge | sendOutside | endDuringDischarge _
  | receiveOutside _ => .illegalState
  | lostInDoubt | sendFailed | prepareFailed | commitRejected .. | sendInDoubt => .rolledBack
  | attachFailed _ | closedLocally _ | closedByRemote .. | linkNotOpen .. | transmitFailed ..
  | declareRejected .. | rollbackRejected .. | unexpectedSettlement .. | declaredWithoutId _
  | transferRejected .. | transferUnknown .. => .protocol
  | endpointNotOpen _ | unknownDelivery _ | loopUnsettled .. => .general
  | sendCount _ => .range
  | flagExpected .. | noText => .type

/-- What is said about a problem. -/
def message : Problem → String
  | alreadySettled status => s!"Completion already {status}"
  | sendsSettled => "All aggregated sends have already resolved"
  | alreadyAttached link => s!"Coordinator link {link} has already been attached"
  | notDeclared tx => s!"Transaction {tx.text} has not been declared"
  | beginDuring stage => s!"Begin called while a transaction is still {stage.word}"
  | nothingToEnd ending => s!"{ending.title} called with no active transaction"
  | otherTransaction ending =>
    s!"Attempt to {ending.verb} a transaction other than the current one"
  | endedTwice ending tx =>
    s!"{ending.title} called while {tx.text} is already being discharged"
  | commitInDoubt tx =>
    s!"Commit of {tx.text} requested while its coordinator link is closed; " ++
      "the transaction is in doubt"
  | nothingBound => "Discharge requested with no bound transaction"
  | sessionStarted session => s!"Session {session.text} already started"
  | noDestination producer => s!"Producer {producer.text} has no destination"
  | sendDuringDischarge => "Send attempted while the transaction is completing"
  | sendOutside => "Send attempted with no active transaction"
  | endDuringDischarge ending =>
    s!"{ending.title} called while the transaction is completing"
  | receiveOutside consumer =>
    s!"Consumer {consumer.text} cannot receive outside an active transaction"
  | lostInDoubt => "Transaction in doubt and cannot be committed"
  | sendFailed => "Transaction rolled back: a transactional send failed"
  | prepareFailed => "Transaction rolled back: a consumer failed to prepare for commit"
  | commitRejected tx error =>
    s!"Commit of {tx.text} rejected, transaction rolled back ({Condition.describe error})"
  | sendInDoubt => "Transaction in doubt; send discarded"
  | attachFailed link => s!"Failed to attach coordinator link {link}"
  | closedLocally link => s!"Coordinator link {link} closed locally"
  | closedByRemote link error =>
    s!"Coordinator link {link} closed by remote ({Condition.describe error})"
  | linkNotOpen link state => s!"Coordinator link {link} is {state.word}"
  | transmitFailed request link => s!"Failed to send {request.word} on {link}"
  | declareRejected tx error =>
    s!"Declare of {tx.text} rejected ({Condition.describe error})"
  | rollbackRejected tx error =>
    s!"Rollback of {tx.text} rejected ({Condition.describe error})"
  | unexpectedSettlement type request tx =>
    s!"Unexpected '{type}' outcome for {request} of {tx.text}"
  | declaredWithoutId tx =>
    s!"Coordinator declared {tx.text} without a transaction id"
  | transferRejected index address => s!"Transfer {index} to {address} rejected"
  | transferUnknown index txnId =>
    s!"Transfer {index} names unknown transaction {txnId.text}"
  | endpointNotOpen link => s!"Link {link} is not open"
  | unknownDelivery tag => s!"Unknown delivery {tag.text}"
  | loopUnsettled limit next =>
    s!"Protocol loop did not settle within {limit.text} tasks (next: {next})"
  | sendCount count => s!"pendingSends must be a non-negative integer, got {count.text}"
  | flagExpected key value => s!"Property {key} expects true or false, got '{value}'"
  | noText => "Cannot convert object to primitive value"

/-- The failure that reports a problem, with the cause behind it if there is one. -/
def toFailure (p : Problem) (cause : Option Failure := none) : Failure :=
  .report p.kind p.message cause

end Problem

end Transact
