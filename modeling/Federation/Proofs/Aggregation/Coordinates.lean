/-
  Models, one coordinate at a time.

  Everything that is averaged or moved goes through lists of equal length in step.  These lemmas say
  what that comes to at one index, with nothing there past the end of the shortest list.

  * `getElem?_accumulate`, `getElem?_weightedMean`: a coordinate of a mean, from that coordinate of
    the vectors;
  * `sampleWeights_eq`: the weights of updates come from their samples alone;
  * `Optimizer.getElem?_moveAll`: a coordinate of a step, from that coordinate of the mean, the prior
    model and the moments;
  * `Optimizer.stepAt`: a coordinate of a step, from what was sent in and remembered.
-/
import Federation.Proofs.Aggregation.Outcome

namespace Federation

/-- A weight of a model by its number. -/
def weightAt (i : Nat) (model : Blob) : Option Single := (weightChunks model)[i]?

/-! ## Means -/

/-- What a vector adds to a coordinate of the sums. -/
def addAt (a : Double) (x : Option Single × Double) : Double :=
  x.1.elim a fun w => a + w.toDouble * x.2

theorem getElem?_accumulate (weight : Double) (as : List Double) (xs : List Single) (i : Nat) :
    (accumulate weight as xs)[i]? = as[i]?.map (addAt · (xs[i]?, weight)) := by
  induction as generalizing xs i with
  | nil => simp [accumulate]
  | cons a as ih =>
    cases xs with
    | nil => simp [accumulate, addAt]
    | cons x xs =>
      cases i with
      | zero => rfl
      | succ i => simpa [accumulate] using ih xs i

theorem getElem?_foldl_accumulate (vs : List (List Single × Double)) (as : List Double) (i : Nat) :
    (vs.foldl (fun acc v => accumulate v.2 acc v.1) as)[i]? =
      as[i]?.map fun a => (vs.map fun v => (v.1[i]?, v.2)).foldl addAt a := by
  induction vs generalizing as with
  | nil => simp
  | cons v vs ih =>
    rw [List.foldl_cons, ih, getElem?_accumulate, Option.map_map]
    rfl

/-- A coordinate of a mean, from that coordinate of the vectors; the first of them says whether
there is one. -/
def meanAt (xs : List (Option Single)) (weights : List Double) : Option Single :=
  xs.head?.join.map fun _ =>
    Single.ofDouble ((xs.zip weights).foldl addAt Double.zero / totalWeight weights)

theorem getElem?_weightedMean (vectors : List (List Single)) (weights : List Double) (i : Nat) :
    (weightedMean vectors weights)[i]? = meanAt (vectors.map (·[i]?)) weights := by
  unfold weightedMean meanAt
  rw [List.getElem?_map, getElem?_foldl_accumulate, List.zip_map_left]
  cases vectors with
  | nil => simp
  | cons v vs =>
    simp only [List.head?_cons, Option.map_some, Option.getD_some, List.map_cons, Option.join_some,
      List.getElem?_replicate]
    by_cases hi : i < v.length
    · rw [if_pos hi, List.getElem?_eq_getElem hi]
      rfl
    · rw [if_neg hi, List.getElem?_eq_none (Nat.not_lt.1 hi)]
      rfl

/-- The weights that go with these numbers of samples. -/
def weightsOf (samples : List Nat) : List Double :=
  if samples.any (· = 0) then equalWeights samples.length else samples.map Double.ofNat

theorem sampleWeights_eq (updates : List Contribution) :
    sampleWeights updates = weightsOf (updates.map (·.sampleCount)) := by
  unfold sampleWeights weightsOf
  rw [List.any_map, List.length_map, List.map_map]
  rfl

/-! ## Steps of the optimizer -/

namespace Optimizer

theorem getElem?_moveAll (o : Optimizer) (b₁ b₂ : Double) :
    ∀ (as ps : List Single) (ms vs : List Double) (i : Nat),
      (o.moveAll b₁ b₂ as ps ms vs)[i]? = do
        return o.moveCoordinate b₁ b₂ (← as[i]?) (← ps[i]?) (← ms[i]?) (← vs[i]?)
  | a :: as, p :: ps, m :: ms, v :: vs, 0 => rfl
  | a :: as, p :: ps, m :: ms, v :: vs, i + 1 => by
    simpa [moveAll] using getElem?_moveAll o b₁ b₂ as ps ms vs i
  | [], _, _, _, _ => by simp [moveAll]
  | a :: as, [], _, _, i => by cases (a :: as)[i]? <;> simp [moveAll]
  | a :: as, p :: ps, [], _, i => by
    cases (a :: as)[i]? <;> cases (p :: ps)[i]? <;> simp [moveAll]
  | a :: as, p :: ps, m :: ms, [], i => by
    cases (a :: as)[i]? <;> cases (p :: ps)[i]? <;> cases (m :: ms)[i]? <;> simp [moveAll]

/-- The moment that a step starts out from: the first one with a number of weights from zero, any
other one from what is remembered. -/
def momentAt (step : Int) (remembered : Option Double) : Option Double :=
  if step = 1 then some Double.zero else remembered

/-- A coordinate of a step: the new weight and the new moments, from that coordinate of the prior
model, the updates and the moments, the number of the step and the samples. -/
def stepAt (o : Optimizer) (step : Int) (samples : List Nat) (prior : Option Single)
    (updates : List (Option Single)) (m v : Option Double) : Option (Single × Double × Double) := do
  return o.moveCoordinate (bias o.beta1 step) (bias o.beta2 step)
    (← meanAt updates (weightsOf samples)) (← prior) (← momentAt step m) (← momentAt step v)

end Optimizer

end Federation
