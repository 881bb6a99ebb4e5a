/-
  Aggregation strategies: how a prior model and a round's updates become the next model.

  * `AggregationStrategy`: what the round engine asks of a strategy;
  * `Strategy`: the strategies a plan can name, `blend` wrapping another one;
  * `AlgorithmConfig.build`: the strategy a plan names.

  A strategy has state of its own, and `aggregate` hands back the state it leaves whether it
  succeeds or not.
-/
import Federation.Aggregation.Optimizer

namespace Federation

/-- What the round engine asks of a strategy: a name, and an aggregation that also says which state
the strategy is left in. -/
class AggregationStrategy (σ : Type) where
  name : σ → String
  aggregate : σ → Blob → List Contribution → Except AggregationError Blob × σ

/-- How the effect of stale updates is reduced when every update is applied on its own. -/
structure AsyncConfig where
  /-- Updates trained on a model more than this many rounds old are refused. -/
  maxStaleness : Option Nat
  /-- What is left of an update's influence per round of staleness. -/
  stalenessWeight : Double
  /-- Fraction of the way the model moves toward a fresh update. -/
  mixingRate : Double
  deriving DecidableEq, Repr

def AsyncConfig.default : AsyncConfig := ⟨none, Double.one, Double.one⟩

/-- The strategy a plan asks for. -/
structure AlgorithmConfig where
  name : String
  hyperparameters : NameMap Double
  deriving DecidableEq

def AlgorithmConfig.default : AlgorithmConfig := ⟨"mean", .empty⟩

/-- The built-in strategies. -/
inductive Strategy where
  /-- Equal-weight mean of the updates. -/
  | mean
  /-- Sample-weighted mean. -/
  | fedAvg
  /-- Sample-weighted mean pulled toward the prior model by `mu / (1 + mu)`. -/
  | fedProx (mu : Double)
  | fedOpt (optimizer : Optimizer)
  /-- Part of the way toward the inner strategy's result, less the staler the update is. -/
  | blend (inner : Strategy) (mixingRate stalenessWeight : Double)
  deriving DecidableEq, Repr, Inhabited

/-! ## Blending -/

/-- The fraction of the way to move for an update this many rounds old. -/
def mixFor (mixingRate stalenessWeight : Double) (staleness : Nat) : Double :=
  mixingRate * stalenessWeight.powi (min staleness maxInt32 : Nat)

/-- `p + mix * (c - p)`, rounded to a weight at the end. -/
def mixWeights (mix : Double) (prior next : List Single) : List Single :=
  (prior.zip next).map fun (p, c) =>
    Single.ofDouble (p.toDouble + mix * (c.toDouble - p.toDouble))

/-- What the pull `mu` is divided by. -/
def pullDivisor (mu : Double) : Double := Double.one + mu

/-- `(1 - alpha) * a + alpha * p`, rounded to a weight at the end. -/
def pullToward (alpha : Double) (mean prior : List Single) : List Single :=
  (mean.zip prior).map fun (a, p) =>
    Single.ofDouble ((Double.one - alpha) * a.toDouble + alpha * p.toDouble)

def maxStaleness (updates : List Contribution) : Nat :=
  updates.foldl (fun n u => max n u.staleness) 0

namespace Strategy

def name : Strategy → String
  | mean => "mean"
  | fedAvg => "fedavg"
  | fedProx _ => "fedprox"
  | fedOpt _ => "fedopt"
  | blend inner _ _ => inner.name

/-- The default pull of `fedProx`, 0.01. -/
def defaultMu : Double := ⟨0x3f847ae147ae147b⟩

/-- Mean of the updates with the given weights. -/
def aggregateMean (weights : List Contribution → List Double) (current : Blob)
    (updates : List Contribution) : Except AggregationError Blob := do
  let d ← decodeRound current updates
  return encodeWeights (weightedMean d.updates (weights updates))

def aggregateProx (mu : Double) (current : Blob) (updates : List Contribution) :
    Except AggregationError Blob := do
  let d ← decodeRound current updates
  let mean := sampleMean d updates
  match d.prior with
  | none => return encodeWeights mean
  | some prior => return encodeWeights (pullToward (mu / pullDivisor mu) mean prior)

/-- Without a prior model there is nothing to take a step from, and the optimizer is left alone. -/
def aggregateOpt (o : Optimizer) (current : Blob) (updates : List Contribution) :
    Except AggregationError Blob × Optimizer :=
  match decodeRound current updates with
  | .error e => (.error e, o)
  | .ok d =>
    let mean := sampleMean d updates
    match d.prior with
    | none => (.ok (encodeWeights mean), o)
    | some prior =>
      let (next, o) := o.advance mean prior
      (.ok (encodeWeights next), o)

/-- Move only part of the way to a candidate.  Without a prior model, or with nothing to hold back,
the candidate itself is the answer. -/
def blendWith (mix : Double) (current candidate : Blob) : Except AggregationError Blob := do
  if current.isEmpty || Double.one.le mix then return candidate
  else
    let prior ← decodeWeights current
    let next ← decodeWeights candidate
    return encodeWeights (mixWeights mix prior next)

def aggregate : Strategy → Blob → List Contribution → Except AggregationError Blob × Strategy
  | mean, current, updates =>
    (aggregateMean (fun us => equalWeights us.length) current updates, mean)
  | fedAvg, current, updates => (aggregateMean sampleWeights current updates, fedAvg)
  | fedProx mu, current, updates => (aggregateProx mu current updates, fedProx mu)
  | fedOpt o, current, updates =>
    let (result, o) := aggregateOpt o current updates
    (result, fedOpt o)
  | blend inner mixingRate stalenessWeight, current, updates =>
    let (result, inner) := inner.aggregate current updates
    let mix := mixFor mixingRate stalenessWeight (maxStaleness updates)
    (result.bind (blendWith mix current), blend inner mixingRate stalenessWeight)

instance : AggregationStrategy Strategy := ⟨name, aggregate⟩

/-- Wrap a strategy so that stale updates count for less. -/
def blended (inner : Strategy) (config : AsyncConfig) : Strategy :=
  blend inner config.mixingRate config.stalenessWeight

end Strategy

/-- Names are matched without regard to case. -/
def AlgorithmConfig.build (config : AlgorithmConfig) : Except AggregationError Strategy :=
  let name := config.name.map Char.toLower
  if name = "mean" then .ok .mean
  else if name = "fedavg" then .ok .fedAvg
  else if name = "fedprox" then
    .ok (.fedProx ((config.hyperparameters.find? "mu").getD Strategy.defaultMu))
  else if name = "fedopt" then .ok (.fedOpt (.ofHyperparameters config.hyperparameters))
  else .error (.unknownAlgorithm name)

end Federation
