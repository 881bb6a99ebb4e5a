/-
  Models on their way between the aggregator and the collaborators.
-/

namespace Federation

/-- Serialized weights.  Only the aggregation strategies look inside. -/
abbrev Blob := List UInt8

/-- Round and version numbers and sample counts are 64-bit words: `counterLimit` is one past the
largest. -/
def counterLimit : Nat := 18446744073709551616

/-- The next value of a 64-bit counter, which wraps around. -/
def bump (n : Nat) : Nat := (n + 1) % counterLimit

/-- The aggregator's current model with its coordinates. -/
structure ModelView where
  model : Blob
  round : Nat
  version : Nat
  deriving DecidableEq, Repr, Inhabited

/-- One collaborator's training result for one round. -/
structure ModelUpdate where
  model : Blob
  /-- The round of the model this update was trained on, when known. -/
  baseRound : Option Nat
  sampleCount : Nat
  deriving DecidableEq, Repr, Inhabited

namespace ModelUpdate

/-- An update about which nothing is known yet. -/
def ofModel (model : Blob) : ModelUpdate := ⟨model, none, 0⟩

/-- Round zero means that the round is not known. -/
def trainedOn (u : ModelUpdate) (round : Nat) : ModelUpdate :=
  { u with baseRound := if round = 0 then none else some round }

def withSamples (u : ModelUpdate) (samples : Nat) : ModelUpdate := { u with sampleCount := samples }

end ModelUpdate

end Federation
