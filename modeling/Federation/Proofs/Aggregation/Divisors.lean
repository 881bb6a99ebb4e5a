/-
  Four divisors of the aggregator: the total weight of a mean, one and the pull `mu`, and the two
  bias corrections of the optimizer, one less a power of `beta1` and one less a power of `beta2`.

  * `Divisor`, `Divisor.computed`, `Divisor.exact`: one of them, as the program computes it and as
    it is without rounding;
  * `Strategy.divisors`: those of one aggregation;
  * `computed_eq_zero_iff`: rounding makes no divisor zero that is not;
  * `Stepped`, `stepped_aggregate`: what an aggregation changes in a strategy;
  * `Strategy.Divisible`, `AlgorithmConfig.Divisible`: settings of which no divisor can be zero, and
    hyperparameters that make such settings;
  * `never_divides_by_zero_iff`: these are all the hyperparameters that are safe, and no plan is
    refused because of the others.

  The optimizer also divides by the root of the second moment plus its epsilon, in each coordinate.
  Nothing is said about that here.
-/
import Federation.Proofs.Aggregation.Requests
import Federation.Proofs.Numeric.Vanishing
import Federation.Round.Engine

namespace Federation

/-! ## Divisors -/

/-- A divisor of the aggregator that the settings and the weights of a round decide.  The root plus
epsilon that the optimizer divides by is none of these. -/
inductive Divisor where
  /-- The weights of a mean, taken together. -/
  | total (weights : List Double)
  /-- One and the pull `mu`. -/
  | pull (mu : Double)
  /-- One less a power of the decay `beta`, which is the `beta1` or the `beta2` of the optimizer. -/
  | bias (beta : Double) (step : Int)
  deriving DecidableEq, Repr

namespace Divisor

def computed : Divisor → Double
  | total weights => totalWeight weights
  | pull mu => pullDivisor mu
  | bias beta step => Optimizer.bias beta step

/-- Numbers, added up without rounding. -/
def exactSum : List Double → Option ℚ
  | [] => some 0
  | w :: ws => do return (← w.value) + (← exactSum ws)

/-- Without rounding; none when it is made of something that is no number. -/
def exact : Divisor → Option ℚ
  | total weights => exactSum weights
  | pull mu => mu.value.map (1 + ·)
  | bias beta step => beta.value.map (1 - · ^ step)

/-- Made at a step that is counted from one on; the counter of the optimizer wraps around when it
has come to its end. -/
def Counted : Divisor → Prop
  | bias _ step => 0 < step
  | total _ | pull _ => True

/-- A divisor as the aggregator makes them. -/
def WellMade : Divisor → Prop
  | total weights => weights ≠ [] ∧ ∀ w ∈ weights, Double.AtLeastOne w
  | pull _ => True
  | bias _ step => 0 < step ∧ step ≤ maxInt32

theorem of_exactSum_cons {w : Double} {ws : List Double} {q : ℚ}
    (h : exactSum (w :: ws) = some q) :
    ∃ a b, w.value = some a ∧ exactSum ws = some b ∧ q = a + b := by
  simp only [exactSum, bind, Option.bind_eq_some_iff, pure, Option.some.injEq] at h
  obtain ⟨a, ha, b, hb, rfl⟩ := h
  exact ⟨a, b, ha, hb, rfl⟩

theorem exactSum_nonneg {weights : List Double} (h : ∀ w ∈ weights, Double.AtLeastOne w) {q : ℚ}
    (hq : exactSum weights = some q) : 0 ≤ q := by
  induction weights generalizing q with
  | nil => exact (Option.some.inj hq).le
  | cons w ws ih =>
    obtain ⟨a, b, ha, hb, rfl⟩ := of_exactSum_cons hq
    have hone := h w List.mem_cons_self a ha
    have hrest := ih (fun y hy => h y (List.mem_cons_of_mem w hy)) hb
    linarith

theorem one_le_exactSum {weights : List Double} (hne : weights ≠ [])
    (h : ∀ w ∈ weights, Double.AtLeastOne w) {q : ℚ} (hq : exactSum weights = some q) :
    1 ≤ q := by
  obtain ⟨w, ws, rfl⟩ := List.exists_cons_of_ne_nil hne
  obtain ⟨a, b, ha, hb, rfl⟩ := of_exactSum_cons hq
  have hone := h w List.mem_cons_self a ha
  have hrest := exactSum_nonneg (fun y hy => h y (List.mem_cons_of_mem w hy)) hb
  linarith

theorem atLeastOne_totalWeight {weights : List Double} (hne : weights ≠ [])
    (h : ∀ w ∈ weights, Double.AtLeastOne w) : Double.AtLeastOne (totalWeight weights) := by
  obtain ⟨w, ws, rfl⟩ := List.exists_cons_of_ne_nil hne
  exact (h w List.mem_cons_self).sum fun y hy => h y (List.mem_cons_of_mem w hy)

theorem exact_pull_eq_zero_iff {mu : Double} :
    (pull mu).exact = some 0 ↔ mu.value = some (-1) := by
  rw [exact, Option.map_eq_some_iff]
  constructor
  · rintro ⟨q, hq, hzero⟩
    rw [hq, eq_neg_of_add_eq_zero_right hzero]
  · exact fun h => ⟨-1, h, by norm_num⟩

theorem exact_bias_eq_zero_iff {beta : Double} {step : Int} :
    (bias beta step).exact = some 0 ↔ ∃ b, beta.value = some b ∧ b ^ step = 1 := by
  rw [exact, Option.map_eq_some_iff]
  exact exists_congr fun b => and_congr_right fun _ => by rw [sub_eq_zero, eq_comm]

/-- Rounding makes no divisor zero that is not, and loses no zero. -/
theorem computed_eq_zero_iff {d : Divisor} (h : d.WellMade) :
    d.computed.value = some 0 ↔ d.exact = some 0 := by
  cases d with
  | total weights =>
    refine iff_of_false (fun hzero => ?_) fun hzero => ?_
    · exact absurd (atLeastOne_totalWeight h.1 h.2 0 hzero) (by norm_num)
    · exact absurd (one_le_exactSum h.1 h.2 hzero) (by norm_num)
  | pull mu =>
    rw [exact_pull_eq_zero_iff, computed, pullDivisor, Double.value_add_eq_zero_iff]
    simp [Double.value_one]
  | bias beta step =>
    have hlt : step < 2 ^ 64 := h.2.trans_lt (by decide)
    rw [exact_bias_eq_zero_iff, computed, Optimizer.bias, Double.value_sub_eq_zero_iff,
      ← Double.value_powi_eq_one_iff h.1 hlt]
    simp [Double.value_one]

end Divisor

/-! ## The divisors of an aggregation -/

/-- The bias corrections of the optimizer's next step. -/
def Optimizer.divisors (o : Optimizer) (prior : List Single) : List Divisor :=
  let step := nextStep (o.fitTo prior.length).step
  [.bias o.beta1 step, .bias o.beta2 step]

namespace Strategy

/-- Those of a round that has been decoded. -/
def divisorsOf (d : DecodedRound) (updates : List Contribution) : Strategy → List Divisor
  | mean => [.total (equalWeights updates.length)]
  | fedAvg => [.total (sampleWeights updates)]
  | fedProx mu => .total (sampleWeights updates) :: (d.prior.map fun _ => .pull mu).toList
  | fedOpt o => .total (sampleWeights updates) :: (d.prior.map o.divisors).getD []
  | blend inner _ _ => inner.divisorsOf d updates

/-- The four divisors as far as an aggregation comes to them: the total weight, one and the pull,
and the two bias corrections; none at all when it is refused. -/
def divisors (s : Strategy) (r : AggregationRequest) : List Divisor :=
  match decodeRound r.current r.updates with
  | .error _ => []
  | .ok d => s.divisorsOf d r.updates

/-! ## What an aggregation changes in a strategy -/

/-- What can become of a strategy in an aggregation: the optimizer may take a step, from where it
is or from the start. -/
inductive Stepped : Strategy → Strategy → Prop
  | same {s : Strategy} : Stepped s s
  | step {o o' : Optimizer} : o'.beta1 = o.beta1 → o'.beta2 = o.beta2 →
      o'.step = Optimizer.nextStep o.step ∨ o'.step = 1 → Stepped (fedOpt o) (fedOpt o')
  | blend {inner inner' : Strategy} {mixingRate stalenessWeight : Double} :
      Stepped inner inner' →
        Stepped (blend inner mixingRate stalenessWeight) (blend inner' mixingRate stalenessWeight)

theorem step_fitTo (o : Optimizer) (dim : Nat) :
    (o.fitTo dim).step = o.step ∨ (o.fitTo dim).step = 0 := by
  unfold Optimizer.fitTo
  split
  · exact .inl rfl
  · exact .inr rfl

theorem betas_fitTo (o : Optimizer) (dim : Nat) :
    (o.fitTo dim).beta1 = o.beta1 ∧ (o.fitTo dim).beta2 = o.beta2 := by
  unfold Optimizer.fitTo
  split <;> exact ⟨rfl, rfl⟩

theorem stepped_aggregate (s : Strategy) (current : Blob) (updates : List Contribution) :
    Stepped s (s.aggregate current updates).2 := by
  induction s with
  | mean | fedAvg | fedProx mu => exact .same
  | fedOpt o =>
    rw [aggregate, aggregateOpt]
    rcases decodeRound current updates with err | ⟨_ | prior, ws⟩
    · exact .same
    · exact .same
    · obtain ⟨h₁, h₂⟩ := betas_fitTo o prior.length
      refine .step h₁ h₂ ((step_fitTo o prior.length).imp (fun h => ?_) fun h => ?_)
      · exact congrArg Optimizer.nextStep h
      · exact congrArg Optimizer.nextStep h
  | blend inner mixingRate stalenessWeight ih => exact .blend ih

/-! ## The step counter -/

/-- Where the counter of the optimizer stands, if there is one. -/
def counter : Strategy → ℤ
  | mean | fedAvg | fedProx _ => 0
  | fedOpt o => o.step
  | blend inner _ _ => inner.counter

/-- The counter is a signed 32-bit number. -/
def InRange (s : Strategy) : Prop := -maxInt32 - 1 ≤ s.counter ∧ s.counter ≤ maxInt32

theorem Stepped.counter {s s' : Strategy} (h : Stepped s s') :
    s'.counter = s.counter ∨ s'.counter = Optimizer.nextStep s.counter ∨ s'.counter = 1 := by
  induction h with
  | same => exact .inl rfl
  | step _ _ h => exact .inr h
  | blend _ ih => exact ih

theorem nextStep_inRange {n : ℤ} (h : -maxInt32 - 1 ≤ n ∧ n ≤ maxInt32) :
    -maxInt32 - 1 ≤ Optimizer.nextStep n ∧ Optimizer.nextStep n ≤ maxInt32 := by
  unfold Optimizer.nextStep
  split_ifs <;> omega

theorem Stepped.inRange {s s' : Strategy} (h : Stepped s s') (hs : s.InRange) : s'.InRange := by
  unfold InRange
  rcases h.counter with he | he | he <;> rw [he]
  · exact hs
  · exact nextStep_inRange hs
  · decide

/-- The counter counts one step at most for each aggregation, until it has come to its end. -/
theorem Stepped.counter_le {s s' : Strategy} (h : Stepped s s') {n : Nat} (hn : n < maxInt32)
    (hs : 0 ≤ s.counter ∧ s.counter ≤ n) : 0 ≤ s'.counter ∧ s'.counter ≤ (n + 1 : Nat) := by
  have hnext : Optimizer.nextStep s.counter = s.counter + 1 := if_neg (by omega)
  rcases h.counter with he | he | he <;> omega

/-! ## Settings that are safe -/

/-- A pull that does not cancel out with one. -/
def SafePull (mu : Double) : Prop := mu.value ≠ some (-1)

/-- A decay none of whose powers is one. -/
def SafeDecay (beta : Double) : Prop := beta.value ≠ some 1 ∧ beta.value ≠ some (-1)

instance : DecidablePred SafePull := fun _ => inferInstanceAs (Decidable (_ ≠ _))

instance : DecidablePred SafeDecay := fun _ => inferInstanceAs (Decidable (_ ∧ _))

/-- No divisor that is made of the settings can be zero. -/
def Divisible : Strategy → Prop
  | mean | fedAvg => True
  | fedProx mu => SafePull mu
  | fedOpt o => ∀ beta ∈ [o.beta1, o.beta2], SafeDecay beta
  | blend inner _ _ => inner.Divisible

/-- An aggregation leaves the settings alone. -/
theorem Stepped.divisible {s s' : Strategy} (h : Stepped s s') : s'.Divisible ↔ s.Divisible := by
  induction h with
  | same => exact .rfl
  | step h₁ h₂ _ => rw [Divisible, Divisible, h₁, h₂]
  | blend _ ih => exact ih

/-- What holds at first, and after each aggregation if it did before, holds after all of them. -/
theorem after_induction {P : Strategy → Prop} (step : ∀ {s s'}, Stepped s s' → P s → P s')
    {s : Strategy} (hs : P s) (rs : List AggregationRequest) :
    P (AggregationStrategy.after s rs) := by
  induction rs generalizing s with
  | nil => exact hs
  | cons r rs ih => exact ih (step (stepped_aggregate s r.current r.updates) hs)

theorem counter_after {s : Strategy} (hs : s.counter = 0) {rs : List AggregationRequest}
    (hrs : rs.length ≤ maxInt32) :
    0 ≤ (AggregationStrategy.after s rs).counter ∧
      (AggregationStrategy.after s rs).counter ≤ rs.length := by
  induction rs using List.reverseRecOn with
  | nil => exact ⟨hs.ge, hs.le⟩
  | append_singleton rs r ih =>
    rw [List.length_append, List.length_singleton] at hrs ⊢
    rw [AggregationStrategy.after_append]
    exact (stepped_aggregate _ r.current r.updates).counter_le (by omega) (ih (by omega))

/-! ## The divisors of a strategy -/

theorem equalWeights_wellMade {n : Nat} (hn : 0 < n) : (Divisor.total (equalWeights n)).WellMade :=
  ⟨by simp [equalWeights, hn.ne'], fun w hw => by
    rw [List.eq_of_mem_replicate hw]
    exact Double.atLeastOne_one⟩

theorem sampleWeights_wellMade {updates : List Contribution} (hu : updates ≠ []) :
    (Divisor.total (sampleWeights updates)).WellMade := by
  unfold sampleWeights
  split_ifs with hany
  · exact equalWeights_wellMade (List.length_pos_iff.2 hu)
  · refine ⟨by simpa using hu, fun w hw => ?_⟩
    obtain ⟨u, hmem, rfl⟩ := List.mem_map.1 hw
    refine Double.atLeastOne_ofNat (Nat.pos_of_ne_zero fun hzero => hany ?_)
    exact List.any_eq_true.2 ⟨u, hmem, decide_eq_true hzero⟩

/-- A divisor is the weight of the round, or it is made of the settings and the next step. -/
inductive Divides (s : Strategy) : Divisor → Prop
  | total {weights : List Double} : (Divisor.total weights).WellMade → Divides s (.total weights)
  | pull {mu : Double} : (s.Divisible → SafePull mu) → Divides s (.pull mu)
  | bias {beta : Double} {step : ℤ} : (s.Divisible → SafeDecay beta) →
      step = Optimizer.nextStep s.counter ∨ step = 1 → Divides s (.bias beta step)

theorem divides_of_mem {s : Strategy} {r : AggregationRequest} {x : Divisor}
    (hx : x ∈ s.divisors r) : Divides s x := by
  unfold divisors at hx
  cases hd : decodeRound r.current r.updates with
  | error err => rw [hd] at hx; cases hx
  | ok d =>
    rw [hd] at hx
    have hu := (decodeRound_ok hd).1
    have hsample := sampleWeights_wellMade hu
    clear hd
    change x ∈ s.divisorsOf d r.updates at hx
    induction s with
    | mean =>
      rw [List.mem_singleton.1 hx]
      exact .total (equalWeights_wellMade (List.length_pos_iff.2 hu))
    | fedAvg =>
      rw [List.mem_singleton.1 hx]
      exact .total hsample
    | fedProx mu =>
      rcases List.mem_cons.1 hx with rfl | hx
      · exact .total hsample
      · obtain ⟨prior, -, rfl⟩ := Option.map_eq_some_iff.1 (Option.mem_toList.1 hx)
        exact .pull id
    | fedOpt o =>
      rcases List.mem_cons.1 hx with rfl | hx
      · exact .total hsample
      · cases hp : d.prior with
        | none => rw [hp] at hx; cases hx
        | some prior =>
          rw [hp] at hx
          have hnext := (step_fitTo o prior.length).imp (congrArg Optimizer.nextStep)
            (congrArg Optimizer.nextStep)
          simp only [Option.map_some, Option.getD_some, Optimizer.divisors, List.mem_cons,
            List.not_mem_nil, or_false] at hx
          rcases hx with rfl | rfl
          · exact .bias (fun hs => hs _ List.mem_cons_self) hnext
          · exact .bias (fun hs => hs _ (List.mem_cons_of_mem _ List.mem_cons_self)) hnext
    | blend inner mixingRate stalenessWeight ih =>
      cases ih hx with
      | total h => exact .total h
      | pull h => exact .pull h
      | bias h hstep => exact .bias h hstep

section
variable {s : Strategy} {r : AggregationRequest} {x : Divisor}

theorem wellMade_of_mem (hx : x ∈ s.divisors r) (hs : s.InRange) (hc : x.Counted) :
    x.WellMade := by
  cases divides_of_mem hx with
  | total h => exact h
  | pull => trivial
  | bias _ hstep =>
    refine ⟨hc, ?_⟩
    rcases hstep with rfl | rfl
    · exact (nextStep_inRange hs).2
    · decide

theorem counted_of_mem (hx : x ∈ s.divisors r) (hs : 0 ≤ s.counter ∧ s.counter < maxInt32) :
    x.Counted := by
  cases divides_of_mem hx with
  | total | pull => trivial
  | bias _ hstep =>
    have hnext : Optimizer.nextStep s.counter = s.counter + 1 := if_neg (by omega)
    change 0 < _
    rcases hstep with rfl | rfl <;> omega

/-- A number whose power is one is one, but for its sign. -/
theorem eq_one_or_of_zpow {b : ℚ} {n : ℤ} (hn : 0 < n) (h : b ^ n = 1) : b = 1 ∨ b = -1 := by
  obtain ⟨k, rfl⟩ := Int.eq_ofNat_of_zero_le hn.le
  rw [zpow_natCast] at h
  rcases pow_eq_one_iff_cases.1 h with hk | hb | ⟨hb, -⟩
  · omega
  · exact .inl hb
  · exact .inr hb

/-- With safe settings no divisor is zero. -/
theorem exact_ne_zero_of_mem (hx : x ∈ s.divisors r) (hs : s.Divisible) (hc : x.Counted) :
    x.exact ≠ some 0 := by
  intro hzero
  cases divides_of_mem hx with
  | total h => exact absurd (Divisor.one_le_exactSum h.1 h.2 hzero) (by norm_num)
  | pull h => exact h hs (Divisor.exact_pull_eq_zero_iff.1 hzero)
  | bias h _ =>
    obtain ⟨b, hb, hpow⟩ := Divisor.exact_bias_eq_zero_iff.1 hzero
    rcases eq_one_or_of_zpow hc hpow with rfl | rfl
    · exact (h hs).1 hb
    · exact (h hs).2 hb

end

/-! ## Settings that are not -/

/-- No step has been taken. -/
def Fresh : Strategy → Prop
  | mean | fedAvg | fedProx _ => True
  | fedOpt o => o.step = 0 ∧ o.momentum = [] ∧ o.velocity = []
  | blend inner _ _ => inner.Fresh

theorem after_blend (inner : Strategy) (mixingRate stalenessWeight : Double)
    (rs : List AggregationRequest) :
    AggregationStrategy.after (blend inner mixingRate stalenessWeight) rs =
      blend (AggregationStrategy.after inner rs) mixingRate stalenessWeight := by
  induction rs generalizing inner with
  | nil => rfl
  | cons r rs ih => exact ih _

/-- A round with a model has a prior of one or more weights, and a mean as long. -/
theorem prior_of_model {r : AggregationRequest} {d : DecodedRound}
    (hd : decodeRound r.current r.updates = .ok d) (hne : r.current ≠ []) :
    ∃ prior, d.prior = some prior ∧ prior ≠ [] ∧
      (sampleMean d r.updates).length = prior.length := by
  obtain ⟨hu, prior, hdecode, hprior, hlength, hw⟩ := decodeRound_prior hd hne
  refine ⟨prior, hprior, ?_, length_weightedMean _ ?_ hw⟩
  · rintro rfl
    have := (decodeWeights_ok hdecode).2
    exact hne (List.length_eq_zero_iff.1 this)
  · intro he
    rw [he] at hlength
    exact hu (List.length_eq_zero_iff.1 hlength.symm)

theorem bias_mem_divisors {o : Optimizer} {r : AggregationRequest} {d : DecodedRound}
    {prior : List Single} (hd : decodeRound r.current r.updates = .ok d)
    (hprior : d.prior = some prior) {beta : Double} (hbeta : beta ∈ [o.beta1, o.beta2]) :
    .bias beta (Optimizer.nextStep (o.fitTo prior.length).step) ∈ (fedOpt o).divisors r := by
  simp only [List.mem_cons, List.not_mem_nil, or_false] at hbeta
  simp only [divisors, hd, divisorsOf, hprior, Option.map_some, Option.getD_some,
    Optimizer.divisors, List.mem_cons, List.not_mem_nil, or_false]
  rcases hbeta with rfl | rfl
  · exact .inr (.inl rfl)
  · exact .inr (.inr rfl)

theorem fitTo_fresh {o : Optimizer} (h : (fedOpt o).Fresh) {dim : Nat} (hdim : dim ≠ 0) :
    (o.fitTo dim).step = 0 := by
  unfold Optimizer.fitTo
  rw [h.2.1, if_neg (by simpa using hdim.symm)]

/-- The optimizer after its first step. -/
theorem first_step {o : Optimizer} (h : (fedOpt o).Fresh) {r : AggregationRequest}
    {d : DecodedRound} {prior : List Single} (hd : decodeRound r.current r.updates = .ok d)
    (hprior : d.prior = some prior) (hne : prior ≠ [])
    (hlength : (sampleMean d r.updates).length = prior.length) :
    ∃ o', AggregationStrategy.after (fedOpt o) [r] = fedOpt o' ∧ o'.beta1 = o.beta1 ∧
      o'.beta2 = o.beta2 ∧ (o'.fitTo prior.length).step = 1 := by
  have hdim : prior.length ≠ 0 := fun he => hne (List.length_eq_zero_iff.1 he)
  have hafter : AggregationStrategy.after (fedOpt o) [r] =
      fedOpt (o.advance (sampleMean d r.updates) prior).2 := by
    change (aggregate (fedOpt o) r.current r.updates).2 = _
    simp only [aggregate, aggregateOpt, hd, hprior]
  obtain ⟨h₁, h₂⟩ := betas_fitTo o prior.length
  refine ⟨_, hafter, h₁, h₂, ?_⟩
  -- the moments have the length of the prior, so nothing is forgotten
  have hsame : (o.advance (sampleMean d r.updates) prior).2.momentum.length = prior.length := by
    rw [← Optimizer.length_advance (by rw [h.2.1, h.2.2]) hlength]
    simp [Optimizer.advance]
  have hstep : (o.advance (sampleMean d r.updates) prior).2.step =
      Optimizer.nextStep (o.fitTo prior.length).step := rfl
  rw [Optimizer.fitTo, if_pos hsame, hstep, fitTo_fresh h hdim]
  rfl

/-- With other settings a divisor is zero the first or the second time that a round with a model is
aggregated. -/
theorem exists_zero_divisor {s : Strategy} (hs : ¬ s.Divisible) (hfresh : s.Fresh)
    {r : AggregationRequest} {d : DecodedRound} (hd : decodeRound r.current r.updates = .ok d)
    (hne : r.current ≠ []) :
    ∃ n ≤ 1, ∃ x ∈ (AggregationStrategy.after s (List.replicate n r)).divisors r,
      x.Counted ∧ x.exact = some 0 := by
  obtain ⟨prior, hprior, hprior_ne, hlength⟩ := prior_of_model hd hne
  induction s with
  | mean | fedAvg => exact absurd trivial hs
  | fedProx mu =>
    refine ⟨0, by decide, .pull mu, ?_, trivial,
      Divisor.exact_pull_eq_zero_iff.2 (not_not.1 hs)⟩
    simp [AggregationStrategy.after, divisors, hd, divisorsOf, hprior]
  | fedOpt o =>
    have hdim : prior.length ≠ 0 := fun he => hprior_ne (List.length_eq_zero_iff.1 he)
    obtain ⟨beta, hbeta, hone⟩ : ∃ beta ∈ [o.beta1, o.beta2],
        beta.value = some 1 ∨ beta.value = some (-1) := by
      by_contra hnone
      exact hs fun beta hbeta => not_or.1 fun hone => hnone ⟨beta, hbeta, hone⟩
    rcases hone with hone | hone
    · refine ⟨0, by decide, _, bias_mem_divisors hd hprior hbeta, ?_⟩
      rw [fitTo_fresh hfresh hdim]
      exact ⟨(by decide : 0 < Optimizer.nextStep 0),
        Divisor.exact_bias_eq_zero_iff.2 ⟨1, hone, one_zpow _⟩⟩
    · obtain ⟨o', hafter, h₁, h₂, hstep⟩ := first_step hfresh hd hprior hprior_ne hlength
      rw [← h₁, ← h₂] at hbeta
      refine ⟨1, le_rfl, _, hafter ▸ bias_mem_divisors hd hprior hbeta, ?_⟩
      rw [hstep]
      exact ⟨(by decide : 0 < Optimizer.nextStep 1),
        Divisor.exact_bias_eq_zero_iff.2 ⟨-1, hone, by decide +kernel⟩⟩
  | blend inner mixingRate stalenessWeight ih =>
    obtain ⟨n, hn, x, hx, hrest⟩ := ih hs hfresh
    refine ⟨n, hn, x, ?_, hrest⟩
    rw [after_blend]
    exact hx

end Strategy

/-! ## Plans -/

/-- Hyperparameters of which no divisor can be zero. -/
structure AlgorithmConfig.Divisible (config : AlgorithmConfig) : Prop where
  pull : config.name.map Char.toLower = "fedprox" →
    ∀ mu, config.hyperparameters.find? "mu" = some mu → Strategy.SafePull mu
  decay : config.name.map Char.toLower = "fedopt" →
    ∀ key ∈ ["beta1", "beta2"], ∀ beta, config.hyperparameters.find? key = some beta →
      Strategy.SafeDecay beta

/-- What holds of the number that stands in for a missing one holds of the number that is used if
and only if it holds of the one that is given. -/
theorem getD_iff {α : Type} {P : α → Prop} {a : α} (h : P a) (o : Option α) :
    P (o.getD a) ↔ ∀ b, o = some b → P b := by
  cases o with
  | none => exact iff_of_true h nofun
  | some b => simp

/-- The numbers that stand in for missing ones are safe. -/
theorem divisible_defaults : Strategy.SafePull Strategy.defaultMu ∧
    Strategy.SafeDecay Optimizer.default.beta1 ∧ Strategy.SafeDecay Optimizer.default.beta2 := by
  decide +kernel

theorem divisible_ofHyperparameters (params : NameMap Double) :
    (Strategy.fedOpt (.ofHyperparameters params)).Divisible ↔
      ∀ key ∈ ["beta1", "beta2"], ∀ beta, params.find? key = some beta →
        Strategy.SafeDecay beta := by
  have h₁ := getD_iff divisible_defaults.2.1 (params.find? "beta1")
  have h₂ := getD_iff divisible_defaults.2.2 (params.find? "beta2")
  simp only [Strategy.Divisible, Optimizer.ofHyperparameters, List.forall_mem_cons, h₁, h₂]
  simp

/-- The strategy of a configuration has taken no step, and its settings are safe exactly when the
hyperparameters are. -/
theorem of_build {config : AlgorithmConfig} {s : Strategy} (h : config.build = .ok s) :
    s.Fresh ∧ s.counter = 0 ∧ (s.Divisible ↔ config.Divisible) := by
  have hdivisible : config.Divisible ↔
      (config.name.map Char.toLower = "fedprox" →
        Strategy.SafePull ((config.hyperparameters.find? "mu").getD Strategy.defaultMu)) ∧
      (config.name.map Char.toLower = "fedopt" →
        (Strategy.fedOpt (.ofHyperparameters config.hyperparameters)).Divisible) := by
    rw [getD_iff divisible_defaults.1, divisible_ofHyperparameters]
    exact ⟨fun hc => ⟨hc.pull, hc.decay⟩, fun hc => ⟨hc.1, hc.2⟩⟩
  rw [hdivisible]
  unfold AlgorithmConfig.build at h
  simp only at h
  split_ifs at h with hmean havg hprox hopt <;> cases h
  · simp [Strategy.Fresh, Strategy.counter, Strategy.Divisible, hmean]
  · simp [Strategy.Fresh, Strategy.counter, Strategy.Divisible, havg]
  · simp [Strategy.Fresh, Strategy.counter, Strategy.Divisible, hprox]
  · simp [Strategy.Fresh, Strategy.counter, hopt, Optimizer.ofHyperparameters, Optimizer.default]

namespace FederationPlan

open AggregationStrategy

theorem validate_algorithm (p : FederationPlan) (algorithm : AlgorithmConfig) :
    { p with algorithm := algorithm }.validate = p.validate := rfl

theorem of_strategy {p : FederationPlan} {s : Strategy} (h : p.strategy = .ok s) :
    s.Fresh ∧ s.counter = 0 ∧ (s.Divisible ↔ p.algorithm.Divisible) := by
  unfold strategy at h
  cases hb : p.algorithm.build with
  | error err => rw [hb] at h; cases h
  | ok base =>
    rw [hb] at h
    obtain rfl := Except.ok.inj h
    have hbase := of_build hb
    split <;> exact hbase

/-- **When the aggregator divides by zero.**  The divisors meant are the total weight, one and the
pull, and the two bias corrections.  Take any plan whose algorithm can be built.  Over all runs of
aggregations, of any length, none of these is zero in exact arithmetic at a step that is counted
from one on, if and only if the hyperparameters are safe; one is computed to be zero exactly when it
is so in exact arithmetic; and all steps are counted until there have been as many as a 32-bit
number can tell.  No plan is refused because of its hyperparameters. -/
theorem never_divides_by_zero_iff {p : FederationPlan} {s : Strategy} (h : p.strategy = .ok s) :
    ((∀ rs r, ∀ x ∈ (after s rs).divisors r, x.Counted → x.exact ≠ some 0) ↔
        p.algorithm.Divisible) ∧
      (∀ rs r, ∀ x ∈ (after s rs).divisors r, x.Counted →
        (x.computed.value = some 0 ↔ x.exact = some 0)) ∧
      (∀ rs r, rs.length < maxInt32 → ∀ x ∈ (after s rs).divisors r, x.Counted) ∧
      ∀ algorithm, { p with algorithm := algorithm }.validate = p.validate := by
  obtain ⟨hfresh, hcounter, hdivisible⟩ := of_strategy h
  refine ⟨⟨fun hall => ?_, fun hsafe rs r x hx hc => ?_⟩, fun rs r x hx hc => ?_,
    fun rs r hrs x hx => ?_, p.validate_algorithm⟩
  · by_contra hnot
    let r : AggregationRequest := ⟨[0, 0, 0, 0], [⟨"a", [0, 0, 0, 0], 1, 0⟩]⟩
    have hround : decodeRound r.current r.updates = .ok _ :=
      decodeRound_of_lengths (n := 1) rfl (by simp [r]) (by simp [r]) (by simp [r])
    obtain ⟨n, -, x, hx, hc, hzero⟩ :=
      Strategy.exists_zero_divisor (hnot ∘ hdivisible.1) hfresh hround (by simp [r])
    exact hall _ _ x hx hc hzero
  · have hs := Strategy.after_induction (P := Strategy.Divisible) (fun hstep => hstep.divisible.2)
      (hdivisible.2 hsafe) rs
    exact Strategy.exact_ne_zero_of_mem hx hs hc
  · have hs : s.InRange := by
      unfold Strategy.InRange
      rw [hcounter]
      decide
    exact Divisor.computed_eq_zero_iff (Strategy.wellMade_of_mem hx
      (Strategy.after_induction (P := Strategy.InRange) (fun hstep => hstep.inRange) hs
        rs) hc)
  · obtain ⟨hlow, hhigh⟩ := Strategy.counter_after hcounter hrs.le
    exact Strategy.counted_of_mem hx ⟨hlow, by omega⟩

/-- A plan that says nothing but where the aggregator is and what it does. -/
def plain (algorithm : AlgorithmConfig) : FederationPlan where
  rounds := 0
  collaborators := []
  aggregator := ⟨"a:1", none⟩
  initialModel := none
  outputModel := none
  train := .default
  mode := .sync
  asyncConfig := .default
  algorithm := algorithm
  membership := .default
  collaborator := .default
  security := ⟨.default⟩
  healthPort := none

/-- An optimizer with its usual settings. -/
theorem never_divides_by_zero_usual :
    (plain ⟨"fedopt", .empty⟩).validate = .ok () ∧
      (plain ⟨"fedopt", .empty⟩).strategy = .ok (.fedOpt .default) ∧
      ∀ rs r, ∀ x ∈ (after (Strategy.fedOpt .default) rs).divisors r,
        x.Counted → x.exact ≠ some 0 := by
  have hs : (plain ⟨"fedopt", .empty⟩).strategy = .ok (.fedOpt .default) := by decide +kernel
  have hsafe : AlgorithmConfig.Divisible ⟨"fedopt", .empty⟩ := ⟨nofun, nofun⟩
  exact ⟨by decide +kernel, hs, (never_divides_by_zero_iff hs).1.2 hsafe⟩

/-- A plan with the pull -1 is accepted, its strategy divides by zero, and the first model that
comes of it is no number. -/
theorem pull_divided_by_zero :
    let p := plain ⟨"fedprox", NameMap.empty.insert "mu" ⟨0xbff0000000000000⟩⟩
    let s := Strategy.fedProx ⟨0xbff0000000000000⟩
    let r : AggregationRequest := ⟨[0, 0, 0, 0], [⟨"a", [0, 0, 0, 64], 1, 0⟩]⟩
    p.validate = .ok () ∧ p.strategy = .ok s ∧
      (∃ x ∈ s.divisors r, x.Counted ∧ x.exact = some 0 ∧ x.computed.value = some 0) ∧
      AggregationStrategy.answer s r = .ok [0, 0, 192, 127] := by
  let x : Divisor := .pull ⟨0xbff0000000000000⟩
  have hzero : x.exact = some 0 := by decide +kernel
  have hcomputed : x.computed.value = some 0 := by decide +kernel
  exact ⟨by decide +kernel, by decide +kernel,
    ⟨x, by decide +kernel, trivial, hzero, hcomputed⟩, by decide +kernel⟩

end FederationPlan

end Federation
