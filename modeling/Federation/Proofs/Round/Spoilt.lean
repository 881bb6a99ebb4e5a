/-
  Models that are no numbers any more.

  Nothing that is computed from what is no number is a number.  A strategy that starts out from the
  prior model, as `fedProx` and `fedOpt` do, therefore keeps a model spoilt once it is.

  * `Single.Lost`: a weight that is no number;
  * `Strategy.Anchored`, `Strategy.leading`: strategies that start out from the prior model, and the
    divisor that every weight of theirs depends on;
  * `lost_aggregate`: no weight is a number when that divisor is zero, or when the prior has none;
  * `Spoilt`, `spoilt_forever`: so a model in which no weight is a number stays so over every run;
  * `spoilt_by_zero`: and one round with that divisor zero is enough.
-/
import Federation.Proofs.Aggregation.Divisors
import Federation.Proofs.Round.Dimension

namespace Federation

/-! ## Weights -/

namespace Single

/-- A weight that is no number. -/
def Lost (w : Single) : Prop := w.unpack.value = none

theorem lost_ofDouble {x : Double} (h : x.value = none) : (ofDouble x).Lost := by
  cases hx : x.unpack with
  | nan =>
    rw [ofDouble, hx]
    exact (by decide : nan.unpack.value = none)
  | infinite neg =>
    rw [ofDouble, hx]
    cases neg
    · exact (by decide : (⟨0x7f800000⟩ : Single).unpack.value = none)
    · exact (by decide : (⟨0xff800000⟩ : Single).unpack.value = none)
  | finite neg m e => simp [Double.value, hx, Unpacked.value] at h

theorem Lost.toDouble {w : Single} (h : w.Lost) : w.toDouble.value = none := by
  unfold Lost at h
  cases hw : w.unpack with
  | nan =>
    rw [Single.toDouble, hw]
    exact Double.value_nan
  | infinite neg =>
    rw [Single.toDouble, hw]
    exact Double.value_infinite neg
  | finite neg m e => simp [hw, Unpacked.value] at h

end Single

theorem lost_pullToward {alpha : Double} {mean prior : List Single}
    (h : alpha.value = none ∨ ∀ p ∈ prior, p.Lost) : ∀ w ∈ pullToward alpha mean prior, w.Lost := by
  intro w hw
  obtain ⟨⟨a, p⟩, hmem, rfl⟩ := List.mem_map.1 hw
  have hp : (alpha * p.toDouble).value = none :=
    Double.value_mul_of_none (h.imp_right fun hlost => (hlost p (List.of_mem_zip hmem).2).toDouble)
  exact Single.lost_ofDouble (Double.value_add_of_none (.inr hp))

theorem lost_mixWeights (mix : Double) (prior : List Single) {next : List Single}
    (h : ∀ c ∈ next, c.Lost) : ∀ w ∈ mixWeights mix prior next, w.Lost := by
  intro w hw
  obtain ⟨⟨p, c⟩, hmem, rfl⟩ := List.mem_map.1 hw
  have hc : (c.toDouble - p.toDouble).value = none :=
    Double.value_add_of_none (.inl (h c (List.of_mem_zip hmem).2).toDouble)
  exact Single.lost_ofDouble (Double.value_add_of_none (.inr (Double.value_mul_of_none (.inr hc))))

namespace Optimizer

/-- A weight is lost when it was, or when its first moment is divided by zero. -/
theorem lost_moveCoordinate (o : Optimizer) {bias1 : Double} (bias2 : Double) (mean : Single)
    {prior : Single} (m v : Double) (h : bias1.value = some 0 ∨ prior.Lost) :
    (o.moveCoordinate bias1 bias2 mean prior m v).1.Lost := by
  refine Single.lost_ofDouble (Double.value_add_of_none ?_)
  rcases h with hzero | hlost
  · exact .inr (Double.value_div_of_none (Double.value_mul_of_none
      (.inr (Double.value_div_zero hzero))))
  · exact .inl hlost.toDouble

theorem lost_moveAll (o : Optimizer) {bias1 : Double} (bias2 : Double) :
    ∀ (as ps : List Single) (ms vs : List Double), (bias1.value = some 0 ∨ ∀ p ∈ ps, p.Lost) →
      ∀ x ∈ o.moveAll bias1 bias2 as ps ms vs, x.1.Lost
  | a :: as, p :: ps, m :: ms, v :: vs, h, x, hx => by
    rcases List.mem_cons.1 hx with rfl | hx
    · exact o.lost_moveCoordinate bias2 a m v (h.imp_right fun hp => hp p List.mem_cons_self)
    · exact lost_moveAll o bias2 as ps ms vs
        (h.imp_right fun hp q hq => hp q (List.mem_cons_of_mem p hq)) x hx
  | [], _, _, _, _, _, hx => by simp [moveAll] at hx
  | _ :: _, [], _, _, _, _, hx => by simp [moveAll] at hx
  | _ :: _, _ :: _, [], _, _, _, hx => by simp [moveAll] at hx
  | _ :: _, _ :: _, _ :: _, [], _, _, hx => by simp [moveAll] at hx

end Optimizer

/-! ## Strategies -/

namespace Strategy

/-- A strategy whose result starts out from the prior model. -/
def Anchored : Strategy → Prop
  | mean | fedAvg => False
  | fedProx _ | fedOpt _ => True
  | blend inner _ _ => inner.Anchored

/-- The divisor that every weight of the result depends on. -/
def leading (prior : List Single) : Strategy → Option Divisor
  | mean | fedAvg => none
  | fedProx mu => some (.pull mu)
  | fedOpt o => (o.divisors prior).head?
  | blend inner _ _ => inner.leading prior

theorem Stepped.anchored {s s' : Strategy} (h : Stepped s s') : s'.Anchored ↔ s.Anchored := by
  induction h with
  | same => exact .rfl
  | step _ _ _ => exact .rfl
  | blend _ ih => exact ih

/-- A leading divisor of zero, or a prior that has no number. -/
def Spoils (s : Strategy) (prior : List Single) : Prop :=
  (∃ x, s.leading prior = some x ∧ x.computed.value = some 0) ∨ ∀ p ∈ prior, p.Lost

theorem lost_blendWith {mix : Double} {current candidate model : Blob}
    (hlost : ∀ w ∈ weightChunks candidate, w.Lost)
    (h : blendWith mix current candidate = .ok model) : ∀ w ∈ weightChunks model, w.Lost := by
  unfold blendWith at h
  split at h
  · cases h
    exact hlost
  · cases hp : decodeWeights current with
    | error err => rw [hp] at h; cases h
    | ok prior =>
      cases hn : decodeWeights candidate with
      | error err => rw [hp, hn] at h; cases h
      | ok next =>
        rw [hp, hn] at h
        cases h
        rw [weightChunks_encodeWeights]
        refine lost_mixWeights mix prior fun c hc => hlost c ?_
        unfold decodeWeights at hn
        split at hn <;> cases hn
        exact hc

theorem lost_aggregate {s s' : Strategy} (hs : s.Anchored) {current model : Blob}
    {updates : List Contribution} {d : DecodedRound} {prior : List Single}
    (hd : decodeRound current updates = .ok d) (hprior : d.prior = some prior)
    (hspoils : s.Spoils prior) (h : s.aggregate current updates = (.ok model, s')) :
    ∀ w ∈ weightChunks model, w.Lost := by
  induction s generalizing s' model with
  | mean | fedAvg => exact hs.elim
  | fedProx mu =>
    simp only [aggregate, aggregateProx, hd, hprior, bind, Except.bind] at h
    cases h
    rw [weightChunks_encodeWeights]
    refine lost_pullToward (hspoils.imp_left ?_)
    rintro ⟨x, hx, hzero⟩
    cases hx
    exact Double.value_div_zero hzero
  | fedOpt o =>
    simp only [aggregate, aggregateOpt, hd, hprior] at h
    cases h
    rw [weightChunks_encodeWeights]
    intro w hw
    obtain ⟨moved, hmoved, rfl⟩ := List.mem_map.1 hw
    refine Optimizer.lost_moveAll _ _ _ _ _ _ (hspoils.imp_left ?_) moved hmoved
    rintro ⟨x, hx, hzero⟩
    cases hx
    rwa [(betas_fitTo o prior.length).1]
  | blend inner mixingRate stalenessWeight ih =>
    simp only [aggregate] at h
    rcases hin : inner.aggregate current updates with ⟨r, inner'⟩
    rw [hin] at h
    cases r with
    | error e => cases h
    | ok candidate =>
      simp only [Except.bind, Prod.mk.injEq] at h
      exact lost_blendWith (ih hs hspoils hin) h.1

end Strategy

/-- A model that is there and in which no weight is a number. -/
structure Spoilt (model : Blob) : Prop where
  there : model ≠ []
  lost : ∀ w ∈ weightChunks model, w.Lost

theorem Strategy.spoilt_aggregate {s s' : Strategy} (hs : s.Anchored) (hsound : s.Sound)
    {current model : Blob} {updates : List Contribution} (hne : current ≠ [])
    (hspoils : s.Spoils (weightChunks current))
    (h : s.aggregate current updates = (.ok model, s')) : Spoilt model := by
  have hlength := (length_aggregate hsound hne h).1
  refine ⟨?_, ?_⟩
  · rw [← List.length_pos_iff, hlength]
    exact List.length_pos_iff.2 hne
  · cases hd : decodeRound current updates with
    | error err =>
      rw [aggregate_of_decodeRound_error hd] at h
      cases h
    | ok d =>
      have hprior := (decodeRound_ok hd).2.2.1
      rw [if_neg hne] at hprior
      exact lost_aggregate hs hd hprior hspoils h

/-! ## Engines -/

namespace RoundEngine

variable {e e' : RoundEngine Strategy} {r : Except FederationError RoundAnswer}

/-- An engine whose strategy starts out from the prior model, and is sound. -/
structure Rooted (e : RoundEngine Strategy) : Prop where
  anchored : e.state.strategy.Anchored
  sound : e.state.strategy.Sound

theorem Renews.rooted (h : e.Renews r e') (he : e.Rooted) : e'.Rooted where
  anchored := h.keeps (P := Strategy.Anchored)
    (fun s current cs hs => (Strategy.stepped_aggregate s current cs).anchored.2 hs) he.anchored
  sound := h.sound he.sound

theorem Renews.spoilt (h : e.Renews r e') (he : e.Rooted) (hm : Spoilt e.state.model) :
    Spoilt e'.state.model := by
  cases h with
  | left hview | failed _ hview => rwa [show e'.state.model = _ from congrArg (·.model) hview]
  | renewed hag hview =>
    rw [show e'.state.model = _ from congrArg (·.model) hview]
    exact Strategy.spoilt_aggregate he.anchored he.sound hm.there (.inr hm.lost) hag

/-- A model in which no weight is a number stays so over all calls. -/
theorem spoilt_forever (he : e.Rooted) (hm : Spoilt e.state.model)
    (calls : List (Nat × RoundCall)) : Spoilt (e.after calls).state.model :=
  (after_induction (P := fun e : RoundEngine Strategy => e.Rooted ∧ Spoilt e.state.model) ⟨he, hm⟩
    (fun ⟨he, hm⟩ ht => ⟨ht.renews.rooted he, ht.renews.spoilt he hm⟩) calls).2

/-- **One division by zero is for good.**  When a call closes a round with a model while the leading
divisor of the strategy is zero, no weight of the new model is a number, and none is after any
further calls. -/
theorem spoilt_by_zero {now : Nat} {call : RoundCall} (he : e.Rooted) (hne : e.state.model ≠ [])
    {x : Divisor} (hx : e.state.strategy.leading (weightChunks e.state.model) = some x)
    (hzero : x.computed.value = some 0) (ht : e.Transition now call r e') {answer : RoundAnswer}
    (hr : r = .ok answer) (hclosed : answer.closed? ≠ none) (later : List (Nat × RoundCall)) :
    Spoilt (e'.after later).state.model := by
  refine spoilt_forever (ht.renews.rooted he) ?_ later
  cases ht.renews with
  | left _ _ hopen => exact absurd (hopen answer hr) hclosed
  | failed _ _ herr => rw [hr] at herr; cases herr
  | renewed hag hview =>
    rw [show e'.state.model = _ from congrArg (·.model) hview]
    exact Strategy.spoilt_aggregate he.anchored he.sound hne (.inl ⟨x, hx, hzero⟩) hag

end RoundEngine

end Federation
