/-
  Errors on the wire.

  A call that fails is answered with a status: a code, a text, and the two round numbers of a stale
  update as metadata.  `FederationError.toStatus` and `Status.toError` are the two directions.
-/
import Federation.Error
import Federation.Numeric.Decimal

namespace Federation.Wire

inductive StatusCode where
  | ok
  | cancelled
  | unknown
  | invalidArgument
  | deadlineExceeded
  | notFound
  | alreadyExists
  | permissionDenied
  | resourceExhausted
  | failedPrecondition
  | aborted
  | outOfRange
  | unimplemented
  | internal
  | unavailable
  | dataLoss
  | unauthenticated
  deriving DecidableEq, Repr

namespace StatusCode

/-- Codes in the order of their numbers, which begin at zero. -/
def numbered : List StatusCode :=
  [ok, cancelled, unknown, invalidArgument, deadlineExceeded, notFound, alreadyExists,
    permissionDenied, resourceExhausted, failedPrecondition, aborted, outOfRange, unimplemented,
    internal, unavailable, dataLoss, unauthenticated]

/-- The code with a number. -/
def ofNumber (n : Int) : StatusCode :=
  if 0 ≤ n then numbered.getD n.toNat unknown else unknown

def name : StatusCode → String
  | ok => "Ok"
  | cancelled => "Cancelled"
  | unknown => "Unknown"
  | invalidArgument => "InvalidArgument"
  | deadlineExceeded => "DeadlineExceeded"
  | notFound => "NotFound"
  | alreadyExists => "AlreadyExists"
  | permissionDenied => "PermissionDenied"
  | resourceExhausted => "ResourceExhausted"
  | failedPrecondition => "FailedPrecondition"
  | aborted => "Aborted"
  | outOfRange => "OutOfRange"
  | unimplemented => "Unimplemented"
  | internal => "Internal"
  | unavailable => "Unavailable"
  | dataLoss => "DataLoss"
  | unauthenticated => "Unauthenticated"

end StatusCode

structure Status where
  code : StatusCode
  message : String
  /-- The round numbers of a stale update, in decimal. -/
  baseRound : Option String
  currentRound : Option String
  deriving DecidableEq, Repr

namespace Status

def plain (code : StatusCode) (message : String) : Status := ⟨code, message, none, none⟩

/-- The aggregator's answer to a call that failed. -/
def ofError (e : FederationError) : Status :=
  match e with
  | .unknownCollaborator _ => plain .notFound e.message
  | .membershipDenied _ => plain .permissionDenied e.message
  | .invalidArgument _ => plain .invalidArgument e.message
  | .staleUpdate base current =>
    ⟨.failedPrecondition, e.message, some (toString base), some (toString current)⟩
  | .aggregation _ => plain .aborted e.message
  | .cancelled => plain .cancelled e.message
  | .configuration _ | .trainingFailure _ | .transport _ => plain .internal e.message

/-- A round number from metadata; one that is missing or no number is zero. -/
def roundOf (value : Option String) : Nat := (value.bind (parseUnsigned limit64)).getD 0

/-- What the collaborator makes of a status.  Codes that say nothing about the federation count as
failures of the transport. -/
def toError (s : Status) : FederationError :=
  match s.code with
  | .notFound => .unknownCollaborator s.message
  | .permissionDenied => .membershipDenied s.message
  | .invalidArgument => .invalidArgument s.message
  | .failedPrecondition => .staleUpdate (roundOf s.baseRound) (roundOf s.currentRound)
  | .aborted => .aggregation (.remote s.message)
  | code => .transport (code.name ++ ": " ++ s.message)

end Status

end Federation.Wire
