import Transact.Value

/-! # Failures

What a completion reports when it does not succeed, and what foreign code may raise. A failure is
mostly a report, whose kind separates misuse by the caller, a definitive rollback and a fault of the
link or the remote coordinator; the kinds `general`, `type` and `range` are those of other code.
Foreign code may also raise a plain value. Then `Failure.toReport?` makes a report of its text; a value
that has none cannot be reported.

* `toReport?_report`: a report is passed on as it was raised. -/

namespace Transact

/-- The kinds of failures that are told apart. -/
inductive FailureKind where
  | illegalState
  | rolledBack
  | protocol
  | general
  | type
  | range
deriving DecidableEq, Inhabited

namespace FailureKind

/-- The word for a kind in a report. -/
def word : FailureKind → String
  | illegalState => "illegal-state"
  | rolledBack => "rolled-back"
  | protocol => "protocol"
  | general => "Error"
  | type => "TypeError"
  | range => "RangeError"

/-- The kinds that this library reports by itself about transactions. -/
def isTransactional : FailureKind → Bool
  | illegalState | rolledBack | protocol => true
  | general | type | range => false

end FailureKind

/-- A report, perhaps with the failure that caused it, or a plain value raised in its place. -/
inductive Failure where
  | report (kind : FailureKind) (message : String) (cause : Option Failure)
  | value (v : Value)
deriving Inhabited

namespace Failure

/-- A report without a cause, as foreign code raises it. -/
def general (message : String) : Failure := report .general message none

/-- A report stays as it is; the text of a plain value becomes the message of a general report. -/
def toReport? : Failure → Option Failure
  | report kind message cause => some (report kind message cause)
  | value v => v.toText?.map general

/-- Whether this can be reported. -/
def isReportable (f : Failure) : Bool := f.toReport?.isSome

@[simp]
theorem toReport?_report (kind : FailureKind) (message : String) (cause : Option Failure) :
    (report kind message cause).toReport? = some (report kind message cause) := rfl

/-- The kind of a report; a plain value has none. -/
def kind? : Failure → Option FailureKind
  | report kind _ _ => some kind
  | value _ => none

/-- What a failure says. -/
def message : Failure → String
  | report _ message _ => message
  | value _ => ""

/-- Whether this is a report of the given kind, or of any transactional kind. -/
def isTransactional (f : Failure) (kind : Option FailureKind := none) : Bool :=
  match f.kind? with
  | none => false
  | some k => k.isTransactional && (kind.isNone || kind = some k)

/-- Whether this is the one plain value that stands for nothing. -/
def isAbsent : Failure → Bool
  | value .null => true
  | _ => false

end Failure

end Transact
