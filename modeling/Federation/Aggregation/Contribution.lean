/-
  What one aggregation works on.

  * `Contribution`: one collaborator's update as a strategy sees it;
  * `decodeRound`: the prior model and the updates of a round as weight vectors of one length;
  * `weightedMean`: their mean, coordinate by coordinate.
-/
import Federation.Aggregation.Weights

namespace Federation

/-- One collaborator's update as a strategy sees it. -/
structure Contribution where
  collaborator : String
  model : Blob
  sampleCount : Nat
  /-- Rounds between the model this update was trained on and now. -/
  staleness : Nat
  deriving DecidableEq, Repr, Inhabited

/-! ## Decoding a round -/

/-- A round's vectors.  There is no prior before the first model. -/
structure DecodedRound where
  prior : Option (List Single)
  updates : List (List Single)

/-- Decode updates in order; each must have `expected` weights, and the first one fixes the number
when none is expected yet. -/
def decodeUpdates :
    Option Nat → List Contribution → Except AggregationError (List (List Single))
  | _, [] => .ok []
  | expected, u :: us => do
    let w ← decodeWeights u.model
    match expected with
    | some n =>
      if n = w.length then
        let ws ← decodeUpdates (some n) us
        return w :: ws
      else .error (.lengthMismatch u.collaborator n w.length)
    | none =>
      let ws ← decodeUpdates (some w.length) us
      return w :: ws

/-- Decode a round.  An empty current model means that there is none yet. -/
def decodeRound (current : Blob) (updates : List Contribution) :
    Except AggregationError DecodedRound := do
  if updates.isEmpty then .error .emptyRound
  else
    let prior ← if current.isEmpty then pure none else some <$> decodeWeights current
    let ws ← decodeUpdates (prior.map List.length) updates
    return ⟨prior, ws⟩

/-! ## Means -/

/-- Add `weight` times a vector to the sums. -/
def accumulate (weight : Double) : List Double → List Single → List Double
  | a :: as, x :: xs => (a + x.toDouble * weight) :: accumulate weight as xs
  | as, _ => as

/-- Weights, summed in order. -/
def totalWeight (weights : List Double) : Double := weights.foldl (· + ·) Double.zero

/-- The weighted mean, summed in order and divided by the total weight at the end. -/
def weightedMean (vectors : List (List Single)) (weights : List Double) : List Single :=
  let dim := (vectors.head?.map List.length).getD 0
  let total := totalWeight weights
  let sums := (vectors.zip weights).foldl (fun acc v => accumulate v.2 acc v.1)
    (List.replicate dim Double.zero)
  sums.map fun a => Single.ofDouble (a / total)

/-- Every update counts the same. -/
def equalWeights (n : Nat) : List Double := List.replicate n Double.one

/-- Updates count by their samples, or all the same as soon as one of them reports none. -/
def sampleWeights (updates : List Contribution) : List Double :=
  if updates.any (·.sampleCount = 0) then equalWeights updates.length
  else updates.map fun u => Double.ofNat u.sampleCount

/-- The sample-weighted mean of a decoded round. -/
def sampleMean (d : DecodedRound) (updates : List Contribution) : List Single :=
  weightedMean d.updates (sampleWeights updates)

end Federation
