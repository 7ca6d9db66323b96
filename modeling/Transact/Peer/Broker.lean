import Transact.Completion.Basic
import Transact.Problem
import Transact.Protocol
import Transact.Queue
import Transact.Roll

/-! # The broker

The remote side in one process: a transaction coordinator and its message queues. A transaction
belongs to the link that declared it. Messages sent in it are staged and reach their queues when it
commits; messages acknowledged in it return to the head of their queues when it is rolled back. -/

namespace Transact.Peer

/-- A message on its way: its tag tells it from all others. -/
structure Delivery where
  tag : Nat
  address : String
  body : String
deriving DecidableEq, Inhabited

/-- A live transaction. -/
structure Record where
  /-- The link that declared it. -/
  link : Nat
  /-- The messages to be published when it commits. -/
  staged : Queue Delivery := {}
  /-- The messages consumed if it commits, returned if it does not. -/
  acknowledged : List Delivery := []
deriving Inhabited

/-- Everything that the broker holds. -/
structure Broker where
  transactions : Roll TxnId Record := {}
  queues : Roll String (Queue Delivery) := {}
  /-- The messages handed out and not yet acknowledged or released. -/
  inflight : Roll Nat Delivery := {}
  transfersToFail : List Number := []
  txnCounter : Nat := 1
  tagCounter : Nat := 1
  declaresToReject : Nat := 0
  dischargesToReject : Nat := 0
deriving Inhabited

namespace Broker

/-! ## Queues -/

/-- The queue at an address, empty if there was none yet. -/
def queue (address : String) (b : Broker) : Queue Delivery := (b.queues.get? address).getD {}

/-- Replaces the queue at an address. -/
def setQueue (address : String) (q : Queue Delivery) (b : Broker) : Broker :=
  { b with queues := b.queues.put address q }

/-- Puts a message at the tail of its queue. -/
def publish (b : Broker) (d : Delivery) : Broker :=
  b.setQueue d.address ((b.queue d.address).pushBack d)

/-- Puts a message back at the head of its queue. -/
def giveBack (d : Delivery) (b : Broker) : Broker :=
  b.setQueue d.address ((b.queue d.address).pushFront d)

/-- The bodies that wait at an address, first one first. -/
def queued (address : String) (b : Broker) : List String :=
  (b.queue address).toList.map (·.body)

/-! ## Transactions -/

/-- Undoes a transaction: what was acknowledged returns in its old order, what was staged is
dropped. -/
def rollBack (record : Record) (b : Broker) : Broker :=
  record.acknowledged.foldr giveBack b

/-- Undoes the transactions of a link that has gone away, oldest first. -/
def forgetLink (link : Nat) (b : Broker) : Broker :=
  let mine := b.transactions.values.filter (·.link = link)
  let others := b.transactions.entries.filter (·.2.link ≠ link)
  mine.foldl (fun b record => b.rollBack record) { b with transactions := ⟨others⟩ }

/-- Why a declare is rejected that was told to be. -/
def declareRefused : Condition := ⟨"amqp:resource-limit-exceeded", some "declare refused"⟩

/-- Why a discharge is rejected that was told to be. -/
def dischargeRefused : Condition := ⟨"amqp:transaction:rollback", some "discharge refused"⟩

/-- Why a discharge of an unknown transaction is rejected. -/
def unknownTransaction (txnId : TxnId) : Condition :=
  ⟨"amqp:transaction:unknown-id", some txnId.text⟩

/-- Answers a declare on a link. The new transaction is named by a counter of four bytes. -/
def declare (link : Nat) (b : Broker) : Settlement × Broker :=
  if 0 < b.declaresToReject then
    (.rejected declareRefused, { b with declaresToReject := b.declaresToReject - 1 })
  else
    let txnId := TxnId.ofCounter b.txnCounter
    (.declared txnId, { b with
      txnCounter := b.txnCounter + 1
      transactions := b.transactions.put txnId { link } })

/-- Answers a discharge. **A rejected discharge ends the transaction too:** it is rolled back. -/
def discharge (txnId : TxnId) (fail : Bool) (b : Broker) : Settlement × Broker :=
  match b.transactions.get? txnId with
  | none => (.rejected (unknownTransaction txnId), b)
  | some record =>
    let b := { b with transactions := b.transactions.erase txnId }
    if 0 < b.dischargesToReject then
      (.rejected dischargeRefused,
        { b with dischargesToReject := b.dischargesToReject - 1 }.rollBack record)
    else if fail then (.accepted, b.rollBack record)
    else (.accepted, record.staged.toList.foldl publish b)

/-- Answers a request on a link. -/
def answer (link : Nat) (request : Request) (b : Broker) : Settlement × Broker :=
  match request with
  | .declare => b.declare link
  | .discharge txnId fail => b.discharge txnId fail

/-! ## Message traffic -/

/-- Takes in the transfer of this index. A transfer outside any transaction is published at once. -/
def transfer (index : Nat) (address body : String) (state : Option DeliveryState) (b : Broker) :
    Resolution Unit × Broker :=
  if b.transfersToFail.contains (.ofNat index) then
    (.failed (Problem.transferRejected index address).toFailure, { b with
      transfersToFail := b.transfersToFail.filter (· ≠ .ofNat index) })
  else
    let d : Delivery := ⟨b.tagCounter, address, body⟩
    let b := { b with tagCounter := b.tagCounter + 1 }
    match state with
    | none => (.succeeded (), b.publish d)
    | some { txnId, .. } =>
      match b.transactions.get? txnId with
      | none => (.failed (Problem.transferUnknown index txnId).toFailure, b)
      | some record =>
        (.succeeded (), { b with
          transactions := b.transactions.put txnId { record with
            staged := record.staged.pushBack d } })

/-- Hands out the first message at an address. -/
def fetch (address : String) (b : Broker) : Option Delivery × Broker :=
  match (b.queue address).popFront? with
  | none => (none, b)
  | some (d, rest) =>
    (some d, { b.setQueue address rest with inflight := b.inflight.put d.tag d })

/-- Takes back a message that was handed out. -/
def takeBack (tag : Number) (b : Broker) : Except Problem (Delivery × Broker) :=
  match tag.toNat?.bind b.inflight.get? with
  | none => .error (.unknownDelivery tag)
  | some d => .ok (d, { b with inflight := b.inflight.erase d.tag })

/-- Returns a message to the head of its queue. -/
def release (tag : Number) (b : Broker) : Except Problem Broker := do
  let (d, b) ← b.takeBack tag
  return b.giveBack d

/-- Acknowledges a message in a transaction. Outside a live one, or with any other outcome than
accepted, the message is released. -/
def acknowledge (tag : Number) (state : DeliveryState) (b : Broker) : Except Problem Broker := do
  let (d, b) ← b.takeBack tag
  match b.transactions.get? state.txnId, state.outcome with
  | some record, some .accepted =>
    return { b with
      transactions := b.transactions.put state.txnId { record with
        acknowledged := record.acknowledged ++ [d] } }
  | _, _ => return b.giveBack d

end Broker

end Transact.Peer
