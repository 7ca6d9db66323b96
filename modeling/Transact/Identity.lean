import Transact.Number.Text

/-! # Identities

Names of sessions, of the consumers and producers of a session, and of transactions. A name is
compared by its parts; its text joins them by colons. -/

namespace Transact

/-- A session, by its connection and its number there. -/
structure SessionId where
  connection : String
  number : Number
deriving DecidableEq, Inhabited

/-- How the name of a session is written. -/
def SessionId.text (s : SessionId) : String := s!"{s.connection}:{s.number.text}"

/-! ## Members of a transaction -/

/-- The two kinds of members of a session. -/
inductive MemberKind where
  | consumer
  | producer
deriving DecidableEq, Inhabited

/-- What tells the two kinds apart in a name. -/
def MemberKind.mark : MemberKind → String
  | consumer => "c"
  | producer => "p"

/-- A consumer or producer of a session. -/
structure MemberId where
  kind : MemberKind
  session : SessionId
  number : Number
deriving DecidableEq, Inhabited

/-- How the name of a member is written. -/
def MemberId.text (m : MemberId) : String := s!"{m.session.text}:{m.kind.mark}{m.number.text}"

/-! ## Transactions -/

/-- The client's name for a transaction. -/
structure TransactionId where
  session : SessionId
  sequence : Number
deriving DecidableEq, Inhabited

/-- How the name of a transaction is written. -/
def TransactionId.text (t : TransactionId) : String := s!"{t.session.text}:t{t.sequence.text}"

/-- The coordinator's name for a declared transaction: any bytes, also none at all. -/
structure TxnId where
  bytes : List UInt8
deriving DecidableEq, Inhabited

namespace TxnId

/-- The two hexadecimal digits of a byte. -/
def hexDigits (b : UInt8) : List Char :=
  [Nat.digitChar (b.toNat / 16), Nat.digitChar (b.toNat % 16)]

/-- Two lower-case hexadecimal digits for each byte. -/
def text (t : TxnId) : String := .ofList (t.bytes.flatMap hexDigits)

/-- The text shown where a transaction may not have been declared yet. -/
def shown : Option TxnId → String
  | none => "-"
  | some t => t.text

/-- The four bytes of a counter, highest first; the counter wraps at `2 ^ 32`. -/
def ofCounter (n : Nat) : TxnId :=
  ⟨[.ofNat (n / 0x1000000), .ofNat (n / 0x10000), .ofNat (n / 0x100), .ofNat n]⟩

end TxnId

/-- What a caller hands to commit and rollback: the transaction, as the client's table holds it, and
whether the caller has already seen the coordinator link fail. -/
structure TransactionRef where
  transaction : Nat
  inDoubt : Bool := false
deriving DecidableEq, Inhabited

end Transact
