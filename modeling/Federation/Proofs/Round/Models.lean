/-
  The models of an engine, one after the other.

  The model of round `k + 1` is what the `k`-th successful aggregation made, and the first one is
  what the engine began with.

  * `Recorded.made`, `Recorded.models`: the aggregations that succeeded, and the models there were;
  * `Transition.renews`: a call makes one new model, or leaves the one that is there;
  * `Renews.keeps`: what every aggregation keeps of a strategy is kept by a call;
  * `Transition.view`: a model that a call shows is the current one;
  * `IsNth`: a view of the `k`-th model, with the round and the version it had;
  * `Counted`: the model that is current is the last of them, and round and version count them;
  * `Transition.calls_prefix`, `Counted.transition`: calls keep the record and the count.
-/
import Federation.Proofs.Aggregation.Recorded
import Federation.Proofs.Round.Invariant

namespace Federation

/-! ## Models on record -/

namespace Recorded

variable {σ : Type}

/-- The aggregations that made a new model. -/
def made (r : Recorded σ) : List AggregationCall := r.calls.filter fun c => c.result.isOk

/-- The models there were, if the first one was `initial`. -/
def models (initial : Blob) (r : Recorded σ) : List Blob :=
  initial :: r.calls.filterMap fun c => c.result.toOption

theorem length_made (r : Recorded σ) : r.made.length = r.closes :=
  List.countP_eq_length_filter.symm

theorem length_models (initial : Blob) (r : Recorded σ) :
    (r.models initial).length = r.closes + 1 := by
  unfold models closes
  rw [List.length_cons, List.length_filterMap_eq_countP]
  congr 2
  funext c
  cases c.result <;> rfl

section
variable {r r' : Recorded σ} {current : Blob} {cs : List Contribution}

/-- A record that goes on has no fewer successes. -/
theorem closes_le (h : r.calls <+: r'.calls) : r.closes ≤ r'.closes := h.sublist.countP_le

theorem made_of_calls {result : Except AggregationError Blob}
    (h : r'.calls = r.calls ++ [⟨current, cs, result⟩]) :
    r'.made = if result.isOk then r.made ++ [⟨current, cs, result⟩] else r.made := by
  unfold made
  rw [h, List.filter_append]
  cases result <;> simp [Except.isOk, Except.toBool]

theorem models_of_calls {result : Except AggregationError Blob} (initial : Blob)
    (h : r'.calls = r.calls ++ [⟨current, cs, result⟩]) :
    r'.models initial = r.models initial ++ result.toOption.toList := by
  unfold models
  rw [h, List.filterMap_append]
  cases result <;> simp [Except.toOption]

end

end Recorded

/-- A view of the `k`-th model after the first, with the round and the version it had. -/
structure IsNth {σ : Type} (initial : Blob) (r : Recorded σ) (k : Nat) (v : ModelView) : Prop where
  model : (r.models initial)[k]? = some v.model
  round : v.round = k + 1
  version : v.version = k + 1

/-- What was the `k`-th model stays the `k`-th model. -/
theorem IsNth.mono {σ : Type} {initial : Blob} {r r' : Recorded σ} {k : Nat} {v : ModelView}
    (h : IsNth initial r k v) (hr : r.calls <+: r'.calls) : IsNth initial r' k v := by
  have hmodels : r.models initial <+: r'.models initial :=
    (List.prefix_cons_inj initial).2 (hr.filterMap _)
  obtain ⟨later, hlater⟩ := hmodels
  obtain ⟨hk, -⟩ := List.getElem?_eq_some_iff.1 h.model
  refine ⟨?_, h.round, h.version⟩
  rw [← hlater, List.getElem?_append_left hk]
  exact h.model

namespace RoundEngine

variable {σ : Type}

/-! ## Rounds that count -/

/-- The current model is the last of those there were, and round and version count them. -/
structure Counted (initial : Blob) (e : RoundEngine (Recorded σ)) : Prop where
  model : (e.state.strategy.models initial)[e.state.strategy.closes]? = some e.state.model
  round : e.state.round = (e.state.strategy.closes + 1) % counterLimit
  version : e.state.version = (e.state.strategy.closes + 1) % counterLimit

namespace Counted

theorem create (now : Nat) (rules : RoundRules) (model : Blob) (strategy : σ) :
    Counted model (RoundEngine.create now rules model (Recorded.fresh strategy)) :=
  ⟨rfl, rfl, rfl⟩

/-- As long as the counters can count the models, the current view is one of them. -/
theorem isNth {initial : Blob} {e : RoundEngine (Recorded σ)} (h : Counted initial e)
    (hcloses : e.state.strategy.closes < counterLimit - 1) :
    IsNth initial e.state.strategy e.state.strategy.closes e.state.view := by
  have hmod : (e.state.strategy.closes + 1) % counterLimit = e.state.strategy.closes + 1 :=
    Nat.mod_eq_of_lt (by omega)
  exact ⟨h.model, h.round.trans hmod, h.version.trans hmod⟩

/-- As long as the counters can count the rounds, a round that opens is a later one. -/
theorem round_lt {initial : Blob} {e e' : RoundEngine (Recorded σ)} (h : Counted initial e)
    (h' : Counted initial e')
    (hcalls : e.state.strategy.calls <+: e'.state.strategy.calls)
    (hcloses : e'.state.strategy.closes < counterLimit - 1)
    (hround : e'.state.round = bump e.state.round) : e.state.round < e'.state.round := by
  have hle := Recorded.closes_le hcalls
  have hr := (h.isNth (hle.trans_lt hcloses)).round
  have hr' := (h'.isNth hcloses).round
  simp only [RoundState.view] at hr hr'
  have hbump : bump (e.state.strategy.closes + 1) ≠ e.state.strategy.closes + 1 := by
    simp only [bump, counterLimit]
    omega
  rw [hr, hr'] at hround ⊢
  omega

end Counted

/-! ## What a call does to the model -/

section
variable (e : RoundEngine σ) (now : Nat)

@[simp] theorem view_enrolled (id : String) : (e.enrolled now id).state.view = e.state.view := by
  simp [RoundState.view]

@[simp] theorem view_credit (id : String) (closed : Bool) :
    (e.credit now id closed).state.view = e.state.view := by
  cases closed <;> rfl

@[simp] theorem view_advanced (model : Blob) (s : σ) :
    (e.advanced now model s).state.view =
      ⟨model, bump e.state.round, bump e.state.version⟩ := rfl

end

variable [AggregationStrategy σ]

/-- What a call comes to for the model and the strategy. -/
inductive Renews (e : RoundEngine σ) (r : Except FederationError RoundAnswer)
    (e' : RoundEngine σ) : Prop where
  /-- The strategy is not asked. -/
  | left : e'.state.view = e.state.view → e'.state.strategy = e.state.strategy →
      (∀ answer, r = .ok answer → answer.closed? = none) → Renews e r e'
  | failed {cs err} :
      AggregationStrategy.aggregate e.state.strategy e.state.model cs =
        (.error err, e'.state.strategy) →
      e'.state.view = e.state.view → r = .error (.aggregation err) → Renews e r e'
  | renewed {cs model answer} :
      AggregationStrategy.aggregate e.state.strategy e.state.model cs =
        (.ok model, e'.state.strategy) →
      e'.state.view = ⟨model, bump e.state.round, bump e.state.version⟩ →
      r = .ok answer → answer.closed? = some e'.state.view → Renews e r e'

section
variable {e e' : RoundEngine σ} {now : Nat} {call : RoundCall}
  {r : Except FederationError RoundAnswer}

/-- A call makes one new model, or leaves the one that is there. -/
theorem Transition.renews (ht : e.Transition now call r e') : e.Renews r e' := by
  cases ht with
  | refused => exact .left rfl rfl nofun
  | joined | shown | passed => exact .left rfl rfl (by rintro _ ⟨⟩; rfl)
  | stale => exact .left (view_enrolled ..) (enrolled_strategy ..) nofun
  | held =>
    refine .left ?_ ?_ (by rintro _ ⟨⟩; rfl)
    · rw [view_credit]
      exact view_enrolled ..
    · rw [credit_strategy]
      exact enrolled_strategy ..
  | spoiled _ _ _ hag => exact .failed hag (view_enrolled ..) rfl
  | completed _ _ _ hag =>
    refine .renewed (by rw [credit_strategy]; exact hag) ?_ rfl ?_
    · simp
    · simp [RoundAnswer.closed?]
  | jammed _ _ _ hag => exact .failed hag rfl rfl
  | closed _ _ _ hag => exact .renewed hag rfl rfl rfl

/-- What every aggregation keeps of a strategy is kept by a call. -/
theorem Renews.keeps {P : σ → Prop}
    (hP : ∀ s current cs, P s → P (AggregationStrategy.aggregate s current cs).2)
    (h : e.Renews r e') (hs : P e.state.strategy) : P e'.state.strategy := by
  cases h with
  | left _ hstrategy => exact hstrategy ▸ hs
  | @failed cs _ hag | @renewed cs _ _ hag =>
    have hkept := hP e.state.strategy e.state.model cs hs
    rwa [hag] at hkept

/-- A call that closes no round leaves the model as it is. -/
theorem Renews.view_of_open (h : e.Renews r e')
    (hopen : ∀ answer, r = .ok answer → answer.closed? = none) :
    e'.state.view = e.state.view := by
  cases h with
  | left hview | failed _ hview => exact hview
  | renewed _ _ hr hclosed =>
    rw [hopen _ hr] at hclosed
    cases hclosed

/-- A model that a call shows is the current one when the call is over. -/
theorem Transition.view {answer : RoundAnswer} (ht : e.Transition now call (.ok answer) e')
    {v : ModelView} (hv : answer.view? = some v) : v = e'.state.view := by
  cases ht with
  | joined | shown => exact (Option.some.inj hv).symm
  | held | passed => cases hv
  | completed => simpa [RoundAnswer.view?, eq_comm] using hv
  | closed => exact (Option.some.inj hv).symm

end

/-- What a call adds to the record: nothing but failures, or the model that is current then. -/
theorem Renews.recorded {e e' : RoundEngine (Recorded σ)} {r : Except FederationError RoundAnswer}
    (h : e.Renews r e') :
    (e'.state.view = e.state.view ∧ e'.state.strategy.made = e.state.strategy.made ∧
      (∀ initial, e'.state.strategy.models initial = e.state.strategy.models initial) ∧
      ∀ answer, r = .ok answer → answer.closed? = none) ∨
    ∃ cs model answer,
      e'.state.strategy.calls = e.state.strategy.calls ++ [⟨e.state.model, cs, .ok model⟩] ∧
      e'.state.view = ⟨model, bump e.state.round, bump e.state.version⟩ ∧
      r = .ok answer ∧ answer.closed? = some e'.state.view := by
  cases h with
  | left hview hstrategy hanswer =>
    rw [hstrategy]
    exact Or.inl ⟨hview, rfl, fun _ => rfl, hanswer⟩
  | failed hag hview hr =>
    have hcalls := Recorded.calls_of_aggregate hag
    refine Or.inl ⟨hview, ?_, fun initial => ?_, by rintro _ rfl; cases hr⟩
    · exact Recorded.made_of_calls hcalls
    · simpa [Except.toOption] using Recorded.models_of_calls initial hcalls
  | renewed hag hview hr hclosed =>
    exact Or.inr ⟨_, _, _, Recorded.calls_of_aggregate hag, hview, hr, hclosed⟩

/-- What is on record stays on record. -/
theorem Transition.calls_prefix {e e' : RoundEngine (Recorded σ)} {now : Nat} {call : RoundCall}
    {r : Except FederationError RoundAnswer} (ht : e.Transition now call r e') :
    e.state.strategy.calls <+: e'.state.strategy.calls := by
  cases ht.renews with
  | left _ hstrategy => rw [hstrategy]
  | failed hag | renewed hag =>
    rw [Recorded.calls_of_aggregate hag]
    exact List.prefix_append ..

/-- A call keeps the count. -/
theorem Counted.transition {initial : Blob} {e e' : RoundEngine (Recorded σ)}
    (h : Counted initial e) {now : Nat} {call : RoundCall}
    {r : Except FederationError RoundAnswer} (ht : e.Transition now call r e') :
    Counted initial e' := by
  rcases ht.renews.recorded with ⟨hview, hmade, hmodels, -⟩ | ⟨cs, model, answer, hcalls, hview, -⟩
  · have hcloses : e'.state.strategy.closes = e.state.strategy.closes := by
      rw [← Recorded.length_made, hmade, Recorded.length_made]
    simp only [RoundState.view, ModelView.mk.injEq] at hview
    obtain ⟨hmodel, hround, hversion⟩ := hview
    refine ⟨?_, ?_, ?_⟩
    · rw [hmodels, hcloses, hmodel]
      exact h.model
    · rw [hcloses, hround]
      exact h.round
    · rw [hcloses, hversion]
      exact h.version
  · have hcloses : e'.state.strategy.closes = e.state.strategy.closes + 1 := by
      rw [← Recorded.length_made, Recorded.made_of_calls hcalls, ← Recorded.length_made]
      simp [Except.isOk, Except.toBool]
    have hmodels : e'.state.strategy.models initial =
        e.state.strategy.models initial ++ [model] := by
      simpa [Except.toOption] using Recorded.models_of_calls initial hcalls
    simp only [RoundState.view, ModelView.mk.injEq] at hview
    obtain ⟨hmodel, hround, hversion⟩ := hview
    refine ⟨?_, ?_, ?_⟩
    · rw [hmodels, hcloses, hmodel, ← Recorded.length_models initial]
      simp
    · rw [hcloses, hround, h.round]
      simp [bump]
    · rw [hcloses, hversion, h.version]
      simp [bump]

theorem Counted.after {initial : Blob} {e : RoundEngine (Recorded σ)} (h : Counted initial e)
    (calls : List (Nat × RoundCall)) : Counted initial (e.after calls) :=
  after_induction h (fun he ht => he.transition ht) calls

end RoundEngine

end Federation
