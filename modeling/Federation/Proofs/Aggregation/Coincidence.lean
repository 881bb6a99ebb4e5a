/-
  Where strategies come to the same, bit for bit.

  * `aggregateMean_sampleWeights`: as soon as one update reports no samples, samples count for
    nothing;
  * `aggregateProx_nil`, `aggregateOpt_nil`: without a prior model there is nothing to pull toward
    and nothing to take a step from;
  * `Blended`: blending around any strategy, of which the built-in blend is an instance;
  * `Blended.aggregate_of_whole_way`: with nothing to hold back it is as if there were no blending;
  * `strategies_coincide`: all of them.
-/
import Federation.Proofs.Aggregation.Outcome

namespace Federation

/-! ## Means -/

theorem sampleWeights_of_unsampled {updates : List Contribution}
    (h : ∃ u ∈ updates, u.sampleCount = 0) : sampleWeights updates = equalWeights updates.length :=
  if_pos (by simpa using h)

namespace Strategy

/-- As soon as one update reports no samples, samples count for nothing. -/
theorem aggregateMean_sampleWeights {updates : List Contribution}
    (h : ∃ u ∈ updates, u.sampleCount = 0) (current : Blob) :
    aggregateMean sampleWeights current updates =
      aggregateMean (fun us => equalWeights us.length) current updates := by
  simp only [aggregateMean, sampleWeights_of_unsampled h]

/-! ## Without a prior model -/

theorem aggregateProx_nil (mu : Double) (updates : List Contribution) :
    aggregateProx mu [] updates = aggregateMean sampleWeights [] updates := by
  unfold aggregateProx aggregateMean
  cases hd : decodeRound [] updates with
  | error err => rfl
  | ok d =>
    simp only [bind, Except.bind, prior_of_decodeRound_nil hd]
    rfl

theorem aggregateOpt_nil (o : Optimizer) (updates : List Contribution) :
    aggregateOpt o [] updates = (aggregateMean sampleWeights [] updates, o) := by
  unfold aggregateOpt aggregateMean
  cases hd : decodeRound [] updates with
  | error err => rfl
  | ok d =>
    simp only [bind, Except.bind, prior_of_decodeRound_nil hd]
    rfl

end Strategy

/-! ## Blending around any strategy -/

/-- A strategy whose results are blended into the prior model. -/
structure Blended (σ : Type) where
  inner : σ
  mixingRate : Double
  stalenessWeight : Double

namespace Blended

variable {σ : Type}

/-- The fraction of the way that the model is moved in a round. -/
def mix (b : Blended σ) (updates : List Contribution) : Double :=
  mixFor b.mixingRate b.stalenessWeight (maxStaleness updates)

variable [AggregationStrategy σ]

instance : AggregationStrategy (Blended σ) where
  name b := AggregationStrategy.name b.inner
  aggregate b current updates :=
    let (result, inner) := AggregationStrategy.aggregate b.inner current updates
    (result.bind (Strategy.blendWith (b.mix updates) current), { b with inner })

/-- With nothing to hold back it is as if there were no blending. -/
theorem aggregate_of_whole_way (b : Blended σ) {current : Blob} {updates : List Contribution}
    (h : current = [] ∨ Double.one.le (b.mix updates) = true) :
    AggregationStrategy.aggregate b current updates =
      ((AggregationStrategy.aggregate b.inner current updates).1,
        { b with inner := (AggregationStrategy.aggregate b.inner current updates).2 }) := by
  have hwhole : Strategy.blendWith (b.mix updates) current = .ok := by
    funext candidate
    exact if_pos (by simpa using h)
  refine Prod.ext ?_ rfl
  simp only [AggregationStrategy.aggregate, hwhole]
  cases (AggregationStrategy.aggregate b.inner current updates).1 <;> rfl

/-- A blend of a built-in strategy, which is a built-in strategy itself. -/
def toStrategy (b : Blended Strategy) : Strategy :=
  .blend b.inner b.mixingRate b.stalenessWeight

theorem aggregate_toStrategy (b : Blended Strategy) (current : Blob)
    (updates : List Contribution) :
    b.toStrategy.aggregate current updates =
      ((AggregationStrategy.aggregate b current updates).1,
        (AggregationStrategy.aggregate b current updates).2.toStrategy) := rfl

end Blended

namespace Strategy

/-- **Where strategies coincide.**  On every round, down to the last bit and in what is told of a
round that fails: the sample-weighted mean is the mean as soon as one update reports no samples;
without a prior model all sample-weighted strategies give the sample-weighted mean, and the
optimizer is left alone; and blending around any strategy, the built-in ones included, changes
neither its result nor what becomes of it when there is no prior model or nothing is held back from
the stalest update. -/
theorem strategies_coincide (current : Blob) (updates : List Contribution) :
    ((∃ u ∈ updates, u.sampleCount = 0) →
      (fedAvg.aggregate current updates).1 = (mean.aggregate current updates).1) ∧
    (∀ mu, ((fedProx mu).aggregate [] updates).1 = (fedAvg.aggregate [] updates).1) ∧
    (∀ o, (fedOpt o).aggregate [] updates = ((fedAvg.aggregate [] updates).1, fedOpt o)) ∧
    (∀ {σ : Type} [AggregationStrategy σ] (b : Blended σ),
      current = [] ∨ Double.one.le (b.mix updates) = true →
      AggregationStrategy.aggregate b current updates =
        ((AggregationStrategy.aggregate b.inner current updates).1,
          { b with inner := (AggregationStrategy.aggregate b.inner current updates).2 })) ∧
    (∀ inner rate weight,
      current = [] ∨ Double.one.le (mixFor rate weight (maxStaleness updates)) = true →
      (blend inner rate weight).aggregate current updates =
        ((inner.aggregate current updates).1,
          blend (inner.aggregate current updates).2 rate weight)) := by
  refine ⟨fun h => aggregateMean_sampleWeights h current, fun mu => aggregateProx_nil mu updates,
    fun o => ?_, fun b h => b.aggregate_of_whole_way h, fun inner rate weight h => ?_⟩
  · simp only [aggregate, aggregateOpt_nil]
  · have hblend := (⟨inner, rate, weight⟩ : Blended Strategy).aggregate_of_whole_way h
    have hstrategy := (⟨inner, rate, weight⟩ : Blended Strategy).aggregate_toStrategy current updates
    rw [hblend] at hstrategy
    exact hstrategy

/-- An update without samples in front of one with five, and an optimizer that is blended in all
the way. -/
theorem coincide_of_unsampled :
    let current : Blob := [0, 0, 128, 63]
    let updates : List Contribution := [⟨"a", [0, 0, 0, 64], 0, 0⟩, ⟨"b", [0, 0, 128, 64], 5, 2⟩]
    let b : Blended Strategy := ⟨fedOpt .default, Double.one, Double.one⟩
    (∃ u ∈ updates, u.sampleCount = 0) ∧ Double.one.le (b.mix updates) = true ∧
      (mean.aggregate current updates).1 = .ok [0, 0, 64, 64] ∧
      (fedAvg.aggregate current updates).1 = .ok [0, 0, 64, 64] ∧
      (AggregationStrategy.aggregate b current updates).1 =
        ((fedOpt .default).aggregate current updates).1 := by
  intro current updates b
  have hunsampled : ∃ u ∈ updates, u.sampleCount = 0 := ⟨_, List.mem_cons_self, rfl⟩
  have hwhole : Double.one.le (b.mix updates) = true := by decide +kernel
  have hmean : (mean.aggregate current updates).1 = .ok [0, 0, 64, 64] := by decide +kernel
  obtain ⟨havg, -, -, hblended, -⟩ := strategies_coincide current updates
  exact ⟨hunsampled, hwhole, hmean, (havg hunsampled).trans hmean,
    congrArg Prod.fst (hblended b (Or.inr hwhole))⟩

end Strategy

end Federation
