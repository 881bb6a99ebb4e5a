/-
  The server-side optimizer: momentum and second-moment estimates over the difference between the
  mean update and the prior model.
-/
import Federation.Aggregation.Contribution
import Federation.NameMap

namespace Federation

/-- The optimizer's settings and what it remembers between rounds. -/
structure Optimizer where
  learningRate : Double
  beta1 : Double
  beta2 : Double
  epsilon : Double
  /-- Steps taken with the current number of weights, a signed 32-bit counter. -/
  step : Int
  momentum : List Double
  velocity : List Double
  deriving DecidableEq, Repr, Inhabited

namespace Optimizer

/-- Defaults: learning rate 1, decay 0.9 and 0.999, epsilon 1e-7. -/
def default : Optimizer where
  learningRate := Double.one
  beta1 := ⟨0x3feccccccccccccd⟩
  beta2 := ⟨0x3feff7ced916872b⟩
  epsilon := ⟨0x3e7ad7f29abcaf48⟩
  step := 0
  momentum := []
  velocity := []

def ofHyperparameters (params : NameMap Double) : Optimizer :=
  { default with
    learningRate := (params.find? "server_learning_rate").getD default.learningRate
    beta1 := (params.find? "beta1").getD default.beta1
    beta2 := (params.find? "beta2").getD default.beta2
    epsilon := (params.find? "epsilon").getD default.epsilon }

/-- The counter after a step; it wraps around past the largest 32-bit number. -/
def nextStep (n : Int) : Int := if n = maxInt32 then -maxInt32 - 1 else n + 1

/-- Forget everything when the number of weights has changed. -/
def fitTo (o : Optimizer) (dim : Nat) : Optimizer :=
  if o.momentum.length = dim then o
  else
    { o with
      step := 0, momentum := List.replicate dim Double.zero
      velocity := List.replicate dim Double.zero }

/-- What a moment is divided by at a step, for it starts out from zero. -/
def bias (beta : Double) (step : Int) : Double := Double.one - beta.powi step

/-- One coordinate: the new weight and the new moments. -/
def moveCoordinate (o : Optimizer) (bias1 bias2 : Double) (mean prior : Single)
    (m v : Double) : Single × Double × Double :=
  let g := mean.toDouble - prior.toDouble
  let m := o.beta1 * m + (Double.one - o.beta1) * g
  let v := o.beta2 * v + (Double.one - o.beta2) * g * g
  let mHat := m / bias1
  let vHat := v / bias2
  (Single.ofDouble (prior.toDouble + o.learningRate * mHat / (vHat.sqrt + o.epsilon)), m, v)

/-- Every coordinate on its own. -/
def moveAll (o : Optimizer) (bias1 bias2 : Double) :
    List Single → List Single → List Double → List Double → List (Single × Double × Double)
  | a :: as, p :: ps, m :: ms, v :: vs =>
    o.moveCoordinate bias1 bias2 a p m v :: moveAll o bias1 bias2 as ps ms vs
  | _, _, _, _ => []

/-- One step from the prior model toward the mean of the updates. -/
def advance (o : Optimizer) (mean prior : List Single) : List Single × Optimizer :=
  let o := o.fitTo prior.length
  let step := nextStep o.step
  let bias1 := bias o.beta1 step
  let bias2 := bias o.beta2 step
  let moved := o.moveAll bias1 bias2 mean prior o.momentum o.velocity
  (moved.map (·.1),
    { o with step := step, momentum := moved.map (·.2.1), velocity := moved.map (·.2.2) })

end Optimizer

end Federation
