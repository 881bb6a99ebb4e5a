/-
  What can go wrong in a federation, and what is said about it.

  An error is a constructor with the facts it carries; the text is computed from them in one place.
  The same errors are seen on both ends of the link (`Federation.Wire.Status`).
-/

namespace Federation

/-- Why a round could not be aggregated. -/
inductive AggregationError where
  /-- Nothing to aggregate. -/
  | emptyRound
  /-- A blob of `bytes` bytes is not a whole number of weights. -/
  | malformedBlob (bytes : Nat)
  /-- An update with another number of weights than the rest. -/
  | lengthMismatch (collaborator : String) (expected actual : Nat)
  | unknownAlgorithm (name : String)
  /-- Reported by the aggregator at the other end of the link. -/
  | remote (text : String)
  deriving DecidableEq, Repr

inductive FederationError where
  /-- Bad or missing configuration or security material; fatal at startup. -/
  | configuration (text : String)
  /-- An operation on an identity that never joined; joining again recovers. -/
  | unknownCollaborator (id : String)
  | membershipDenied (id : String)
  /-- The trainer failed, or its files could not be read or written. -/
  | trainingFailure (text : String)
  | transport (text : String)
  /-- Refused before reaching the round state or the trainer. -/
  | invalidArgument (text : String)
  | staleUpdate (baseRound currentRound : Nat)
  | aggregation (error : AggregationError)
  | cancelled
  deriving DecidableEq, Repr

namespace AggregationError

def message : AggregationError → String
  | emptyRound => "no updates to aggregate"
  | malformedBlob n => s!"model blob of {n} bytes is not a whole number of f32 weights"
  | lengthMismatch id expected actual =>
    "update from `" ++ id ++ s!"` has {actual} weights, expected {expected}"
  | unknownAlgorithm name => "unsupported aggregation algorithm `" ++ name ++ "`"
  | remote text => "aggregation failed on the aggregator: " ++ text

end AggregationError

namespace FederationError

def message : FederationError → String
  | configuration text => "configuration error: " ++ text
  | unknownCollaborator id => "unknown collaborator `" ++ id ++ "`"
  | membershipDenied id => "collaborator `" ++ id ++ "` is not listed in the federation plan"
  | trainingFailure text => "training failed: " ++ text
  | transport text => "transport failure: " ++ text
  | invalidArgument text => "invalid argument: " ++ text
  | staleUpdate base current =>
    s!"stale update: trained against round {base}, aggregator is at round {current}"
  | aggregation e => e.message
  | cancelled => "operation cancelled"

/-- Errors a collaborator may recover from without ending its run. -/
def isRecoverable : FederationError → Bool
  | unknownCollaborator _ | staleUpdate _ _ => true
  | _ => false

/-- Errors that are worth sending the same request again for. -/
def isTransport : FederationError → Bool
  | transport _ => true
  | _ => false

end FederationError

end Federation
