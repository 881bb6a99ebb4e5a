/-
  The messages of the federation's calls.

  A call is a request from a collaborator and an answer from the aggregator: joining, submitting an
  update, and asking for the latest model.
-/
import Federation.Model

namespace Federation.Wire

structure JoinRequest where
  collaboratorId : String
  deriving DecidableEq, Repr

structure JoinResponse where
  model : Blob
  currentRound : Nat
  modelVersion : Nat
  newlyJoined : Bool
  deriving DecidableEq, Repr

structure UpdateMessage where
  collaboratorId : String
  weights : Blob
  /-- The round the update was trained in; zero when it is not known. -/
  baseRound : Nat
  sampleCount : Nat
  deriving DecidableEq, Repr

structure SubmitAck where
  accepted : Bool
  currentRound : Nat
  roundClosed : Bool
  pending : Nat
  deriving DecidableEq, Repr

structure GetModelRequest where
  collaboratorId : String
  minRound : Nat
  /-- In milliseconds; zero is not at all. -/
  waitMs : Nat
  deriving DecidableEq, Repr

structure ModelSnapshot where
  model : Blob
  currentRound : Nat
  modelVersion : Nat
  deriving DecidableEq, Repr

/-! ## Between messages and models -/

/-- An update as it is sent. -/
def UpdateMessage.ofUpdate (id : String) (u : ModelUpdate) : UpdateMessage :=
  ⟨id, u.model, u.baseRound.getD 0, u.sampleCount⟩

/-- An update as it is received. -/
def UpdateMessage.toUpdate (m : UpdateMessage) : ModelUpdate :=
  ((ModelUpdate.ofModel m.weights).trainedOn m.baseRound).withSamples m.sampleCount

/-- A request for the latest model.  A longer wait than a message can tell is cut to the longest. -/
def GetModelRequest.ofWait (id : String) (minRound wait : Nat) : GetModelRequest :=
  ⟨id, minRound, min wait (counterLimit - 1)⟩

def JoinResponse.view (r : JoinResponse) : ModelView := ⟨r.model, r.currentRound, r.modelVersion⟩

def ModelSnapshot.ofView (v : ModelView) : ModelSnapshot := ⟨v.model, v.round, v.version⟩

def ModelSnapshot.view (s : ModelSnapshot) : ModelView := ⟨s.model, s.currentRound, s.modelVersion⟩

end Federation.Wire
