/-
  When the built-in strategies succeed, and what they leave behind.

  All of them decode the round first and can fail in nothing else.

  * `aggregate_of_decodeRound_error`: a round that cannot be decoded is refused with the decoder's
    error, and the strategy stays as it was;
  * `aggregate_of_decodeRound_ok`: every other round gets a model of whole weights;
  * `aggregate_of_lengths`: so does one whose updates are as long as the model;
  * `aggregate_eq_error_iff`: so failures are those of the decoder, and leave the strategy alone;
  * `aggregate_error_iff`: what is told is the first fault of the round;
  * `FailsSafely`, `Strategy.failsSafely`: a failed aggregation leaves the strategy as it was;
  * `Strategy.Sound`: the moments of the optimizer have one length;
  * `sound_aggregate`: an aggregation leaves a sound strategy sound, whatever comes of it;
  * `length_aggregate`: a sound strategy keeps the length of a model that is there, and stays sound;
  * `Strategy.BuiltIn`: the strategies that can be built, all of them sound.
-/
import Federation.Aggregation.Strategy
import Federation.Proofs.Aggregation.Decoding

namespace Federation

/-! ## Lengths of vectors -/

theorem length_accumulate (weight : Double) (as : List Double) (xs : List Single) :
    (accumulate weight as xs).length = as.length := by
  induction as generalizing xs with
  | nil => cases xs <;> rfl
  | cons a as ih => cases xs with
    | nil => rfl
    | cons x xs => simp [accumulate, ih]

theorem length_foldl_accumulate (vs : List (List Single × Double)) (as : List Double) :
    (vs.foldl (fun acc v => accumulate v.2 acc v.1) as).length = as.length := by
  induction vs generalizing as with
  | nil => rfl
  | cons v vs ih => rw [List.foldl_cons, ih, length_accumulate]

/-- A mean is as long as the vectors are. -/
theorem length_weightedMean {n : Nat} {vectors : List (List Single)} (weights : List Double)
    (hne : vectors ≠ []) (h : ∀ v ∈ vectors, v.length = n) :
    (weightedMean vectors weights).length = n := by
  obtain ⟨v, vs, rfl⟩ := List.exists_cons_of_ne_nil hne
  simp [weightedMean, length_foldl_accumulate, h v List.mem_cons_self]

theorem length_pullToward (alpha : Double) (mean prior : List Single) :
    (pullToward alpha mean prior).length = min mean.length prior.length := by
  simp [pullToward]

theorem length_mixWeights (mix : Double) (prior next : List Single) :
    (mixWeights mix prior next).length = min prior.length next.length := by
  simp [mixWeights]

namespace Optimizer

theorem length_moveAll (o : Optimizer) (b₁ b₂ : Double) :
    ∀ (as ps : List Single) (ms vs : List Double), ps.length = as.length → ms.length = as.length →
      vs.length = as.length → (o.moveAll b₁ b₂ as ps ms vs).length = as.length
  | [], ps, ms, vs, _, _, _ => by simp [moveAll]
  | a :: as, [], ms, vs, h, _, _ => by simp at h
  | a :: as, p :: ps, [], vs, _, h, _ => by simp at h
  | a :: as, p :: ps, m :: ms, [], _, _, h => by simp at h
  | a :: as, p :: ps, m :: ms, v :: vs, h₁, h₂, h₃ => by
    simp only [List.length_cons, Nat.add_right_cancel_iff] at h₁ h₂ h₃
    simp [moveAll, length_moveAll o b₁ b₂ as ps ms vs h₁ h₂ h₃]

theorem fitTo_lengths {o : Optimizer} (ho : o.velocity.length = o.momentum.length) (dim : Nat) :
    (o.fitTo dim).momentum.length = dim ∧ (o.fitTo dim).velocity.length = dim := by
  unfold fitTo
  split
  · next h => exact ⟨h, ho.trans h⟩
  · simp

/-- A step keeps the number of weights. -/
theorem length_advance {o : Optimizer} (ho : o.velocity.length = o.momentum.length)
    {mean prior : List Single} (h : mean.length = prior.length) :
    (o.advance mean prior).1.length = prior.length := by
  obtain ⟨hm, hv⟩ := fitTo_lengths ho prior.length
  simp only [advance, List.length_map]
  rw [length_moveAll _ _ _ _ _ _ _ h.symm (hm.trans h.symm) (hv.trans h.symm), h]

/-- The moments of a step are computed together. -/
theorem length_velocity_advance (o : Optimizer) (mean prior : List Single) :
    (o.advance mean prior).2.velocity.length = (o.advance mean prior).2.momentum.length := by
  simp [advance]

end Optimizer

namespace Strategy

/-! ## Success and failure -/

/-- A round that cannot be decoded changes nothing. -/
theorem aggregate_of_decodeRound_error {current : Blob} {updates : List Contribution}
    {err : AggregationError} (h : decodeRound current updates = .error err) (s : Strategy) :
    s.aggregate current updates = (.error err, s) := by
  induction s with
  | mean => simp [aggregate, aggregateMean, h, bind, Except.bind]
  | fedAvg => simp [aggregate, aggregateMean, h, bind, Except.bind]
  | fedProx mu => simp [aggregate, aggregateProx, h, bind, Except.bind]
  | fedOpt o => simp [aggregate, aggregateOpt, h]
  | blend inner mixingRate stalenessWeight ih => simp [aggregate, ih, Except.bind]

/-- Blending whole weights into whole weights cannot fail. -/
theorem blendWith_of_whole (mix : Double) {current candidate : Blob}
    (hc : current.length % 4 = 0) (hn : candidate.length % 4 = 0) :
    ∃ model, blendWith mix current candidate = .ok model ∧ model.length % 4 = 0 := by
  unfold blendWith
  split
  · exact ⟨candidate, rfl, hn⟩
  · rw [decodeWeights_of_whole hc, decodeWeights_of_whole hn]
    exact ⟨_, rfl, by rw [length_encodeWeights]; omega⟩

/-- A round that can be decoded gets a model of whole weights. -/
theorem aggregate_of_decodeRound_ok {current : Blob} {updates : List Contribution}
    {d : DecodedRound} (h : decodeRound current updates = .ok d) (s : Strategy) :
    ∃ model s', s.aggregate current updates = (.ok model, s') ∧ model.length % 4 = 0 := by
  have whole : ∀ ws : List Single, (encodeWeights ws).length % 4 = 0 := fun ws => by
    rw [length_encodeWeights]; omega
  induction s with
  | mean =>
    simp only [aggregate, aggregateMean, h, bind, Except.bind]
    exact ⟨_, _, rfl, whole _⟩
  | fedAvg =>
    simp only [aggregate, aggregateMean, h, bind, Except.bind]
    exact ⟨_, _, rfl, whole _⟩
  | fedProx mu =>
    simp only [aggregate, aggregateProx, h, bind, Except.bind]
    cases d.prior with
    | none => exact ⟨_, _, rfl, whole _⟩
    | some prior => exact ⟨_, _, rfl, whole _⟩
  | fedOpt o =>
    simp only [aggregate, aggregateOpt, h]
    cases d.prior with
    | none => exact ⟨_, _, rfl, whole _⟩
    | some prior => exact ⟨_, _, rfl, whole _⟩
  | blend inner mixingRate stalenessWeight ih =>
    obtain ⟨candidate, inner', hin, hw⟩ := ih
    obtain ⟨-, hc, -⟩ := decodeRound_ok h
    obtain ⟨model, hm, hl⟩ :=
      blendWith_of_whole (mixFor mixingRate stalenessWeight (maxStaleness updates)) hc hw
    exact ⟨model, _, by simp only [aggregate, hin, Except.bind, hm]; rfl, hl⟩

/-- An aggregation fails with what the decoder tells and with nothing else, and then the strategy is
as it was: what has been decoded can be blended, so nothing fails once the innermost strategy has
taken its step. -/
theorem aggregate_eq_error_iff {s s' : Strategy} {current : Blob} {updates : List Contribution}
    {err : AggregationError} :
    s.aggregate current updates = (.error err, s') ↔
      decodeRound current updates = .error err ∧ s' = s := by
  cases hd : decodeRound current updates with
  | error fault =>
    rw [aggregate_of_decodeRound_error hd]
    simp [eq_comm]
  | ok d =>
    obtain ⟨model, s'', hag, -⟩ := aggregate_of_decodeRound_ok hd s
    rw [hag]
    simp

theorem strategy_of_aggregate_error {s s' : Strategy} {current : Blob}
    {updates : List Contribution} {err : AggregationError}
    (h : s.aggregate current updates = (.error err, s')) : s' = s :=
  (aggregate_eq_error_iff.1 h).2

/-- Updates as long as a model of whole weights can be aggregated. -/
theorem aggregate_of_lengths (s : Strategy) {size : Nat} {current : Blob}
    {updates : List Contribution} (hwhole : size % 4 = 0) (hc : current.length = size)
    (hne : current ≠ []) (hu : updates ≠ []) (h : ∀ u ∈ updates, u.model.length = size) :
    ∃ model s', s.aggregate current updates = (.ok model, s') := by
  have hsize : 4 * (size / 4) = size := by omega
  have hd := decodeRound_of_lengths (hc.trans hsize.symm) hne hu fun u hu =>
    (h u hu).trans hsize.symm
  obtain ⟨model, s', hag, -⟩ := aggregate_of_decodeRound_ok hd s
  exact ⟨model, s', hag⟩

/-- An aggregation fails with the first fault of the round, and with nothing else. -/
theorem aggregate_error_iff {s s' : Strategy} {n : Nat} {current : Blob}
    {updates : List Contribution} {err : AggregationError} (hc : current.length = 4 * n)
    (hne : current ≠ []) (hu : updates ≠ []) :
    s.aggregate current updates = (.error err, s') ↔
      faultIn n updates = some err ∧ s' = s := by
  have hn : roundLength current updates / 4 = n := by
    rw [roundLength_of_prior hne]
    omega
  rw [aggregate_eq_error_iff, decodeRound_eq_error_iff_faultIn hu (by omega), hn]

end Strategy

/-- A failed aggregation leaves the strategy as it was. -/
def AggregationStrategy.FailsSafely (σ : Type) [AggregationStrategy σ] : Prop :=
  ∀ (s : σ) current cs err s',
    AggregationStrategy.aggregate s current cs = (.error err, s') → s' = s

theorem Strategy.failsSafely : AggregationStrategy.FailsSafely Strategy :=
  fun _ _ _ _ _ h => Strategy.strategy_of_aggregate_error h

namespace Strategy

/-! ## Lengths of models -/

/-- The moments of the optimizer, if there is one, have one length. -/
def Sound : Strategy → Prop
  | mean | fedAvg | fedProx _ => True
  | fedOpt o => o.velocity.length = o.momentum.length
  | blend inner _ _ => inner.Sound

/-- An aggregation leaves a sound strategy sound, whatever comes of it. -/
theorem sound_aggregate {s : Strategy} (hs : s.Sound) (current : Blob)
    (updates : List Contribution) : (s.aggregate current updates).2.Sound := by
  induction s with
  | mean | fedAvg | fedProx mu => trivial
  | fedOpt o =>
    show (aggregateOpt o current updates).2.velocity.length =
      (aggregateOpt o current updates).2.momentum.length
    unfold aggregateOpt
    rcases decodeRound current updates with err | ⟨prior | prior, ws⟩
    · exact hs
    · exact hs
    · exact o.length_velocity_advance ..
  | blend inner mixingRate stalenessWeight ih => exact ih hs

/-- Blending keeps the length that model and candidate have in common. -/
theorem length_blendWith {mix : Double} {current candidate model : Blob}
    (hlength : candidate.length = current.length)
    (h : blendWith mix current candidate = .ok model) : model.length = current.length := by
  unfold blendWith at h
  split at h
  · cases h
    exact hlength
  · cases hp : decodeWeights current with
    | error err => rw [hp] at h; cases h
    | ok prior =>
      obtain ⟨hwhole, hprior⟩ := decodeWeights_ok hp
      rw [hp, decodeWeights_of_whole (hlength ▸ hwhole)] at h
      cases h
      rw [length_encodeWeights, length_mixWeights, length_weightChunks]
      omega

/-- A sound strategy keeps the length of a model that is there, and stays sound. -/
theorem length_aggregate {s s' : Strategy} (hs : s.Sound) {current model : Blob}
    {updates : List Contribution} (hne : current ≠ [])
    (h : s.aggregate current updates = (.ok model, s')) :
    model.length = current.length ∧ s'.Sound := by
  have hsound : s'.Sound := by
    have := sound_aggregate hs current updates
    rwa [h] at this
  refine ⟨?_, hsound⟩
  clear hsound
  cases hd : decodeRound current updates with
  | error e => rw [aggregate_of_decodeRound_error hd] at h; cases h
  | ok d =>
    obtain ⟨hu, prior, hp, hdp, hlen, hws⟩ := decodeRound_prior hd hne
    have hdu : d.updates ≠ [] := fun he => hu (by simpa [he] using hlen.symm)
    obtain ⟨-, hcl⟩ := decodeWeights_ok hp
    have hmean : ∀ weights, (weightedMean d.updates weights).length = prior.length :=
      fun weights => length_weightedMean weights hdu hws
    induction s generalizing s' model with
    | mean | fedAvg =>
      simp only [aggregate, aggregateMean, hd, bind, Except.bind] at h
      cases h
      rw [length_encodeWeights, hmean, hcl]
    | fedProx mu =>
      simp only [aggregate, aggregateProx, hd, hdp, bind, Except.bind, sampleMean] at h
      cases h
      rw [length_encodeWeights, length_pullToward, hmean, Nat.min_self, hcl]
    | fedOpt o =>
      simp only [aggregate, aggregateOpt, hd, hdp, sampleMean] at h
      cases h
      rw [length_encodeWeights, Optimizer.length_advance hs (hmean (sampleWeights updates)), hcl]
    | blend inner mixingRate stalenessWeight ih =>
      simp only [aggregate] at h
      rcases hin : inner.aggregate current updates with ⟨r, inner'⟩
      rw [hin] at h
      cases r with
      | error e => cases h
      | ok candidate =>
        simp only [Except.bind, Prod.mk.injEq] at h
        exact length_blendWith (ih hs hin) h.1

/-- The strategies that can be built. -/
inductive BuiltIn : Strategy → Prop where
  | built {config : AlgorithmConfig} {s} : config.build = .ok s → BuiltIn s
  | blended {s} (config : AsyncConfig) : BuiltIn s → BuiltIn (s.blended config)

theorem BuiltIn.sound {s : Strategy} (h : s.BuiltIn) : s.Sound := by
  induction h with
  | built hb =>
    unfold AlgorithmConfig.build at hb
    simp only at hb
    split_ifs at hb <;> cases hb <;> trivial
  | blended config _ ih => exact ih

end Strategy

end Federation
