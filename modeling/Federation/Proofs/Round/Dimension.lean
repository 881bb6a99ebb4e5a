/-
  The number of weights of a model, from its first round to its last.

  A strategy is handed the current model with every round, and what it makes of the updates takes
  the place of that model.  So whatever a strategy does to the length of a model adds up over all
  rounds.

  * `Strategy.aggregate_of_broken`: with a model that is no whole number of weights none succeeds;
  * `Renews.length`: a call leaves a model that is there as long as it was;
  * `Renews.broken`: and does nothing to one that is no whole number of weights;
  * `model_dimension_fixed`: both, over every run.
-/
import Federation.Proofs.Aggregation.Outcome
import Federation.Proofs.Round.Models
import Federation.Proofs.Round.SyncRound

namespace Federation

/-! ## Single aggregations -/

namespace Strategy

/-- With a model that is no whole number of weights no aggregation succeeds. -/
theorem aggregate_of_broken {current : Blob} (hbroken : current.length % 4 ≠ 0) (s : Strategy)
    (updates : List Contribution) :
    ∃ err, s.aggregate current updates = (.error err, s) := by
  by_cases hu : updates = []
  · subst hu
    exact ⟨_, aggregate_of_decodeRound_error rfl s⟩
  · exact ⟨_, aggregate_of_decodeRound_error (decodeRound_of_broken hu hbroken) s⟩

end Strategy

/-! ## Single calls -/

namespace RoundEngine

variable {e e' : RoundEngine Strategy} {r : Except FederationError RoundAnswer}

theorem Renews.sound (h : e.Renews r e') (hs : e.state.strategy.Sound) :
    e'.state.strategy.Sound :=
  h.keeps (P := Strategy.Sound) (fun _ current cs hs => Strategy.sound_aggregate hs current cs) hs

/-- A call leaves a model that is there as long as it was. -/
theorem Renews.length (h : e.Renews r e') (hs : e.state.strategy.Sound)
    (hne : e.state.model ≠ []) : e'.state.model.length = e.state.model.length := by
  cases h with
  | left hview | failed _ hview => exact congrArg (·.model.length) hview
  | renewed hag hview =>
    rw [show e'.state.model = _ from congrArg (·.model) hview]
    exact (Strategy.length_aggregate hs hne hag).1

/-- A call does nothing to a model that is no whole number of weights. -/
theorem Renews.broken (h : e.Renews r e') (hbroken : e.state.model.length % 4 ≠ 0) :
    e'.state.view = e.state.view ∧ ∀ answer, r = .ok answer → answer.closed? = none := by
  cases h with
  | left hview _ hopen => exact ⟨hview, hopen⟩
  | failed _ hview hr => exact ⟨hview, by rintro answer rfl; cases hr⟩
  | @renewed cs model _ hag =>
    obtain ⟨err, herr⟩ := e.state.strategy.aggregate_of_broken hbroken cs
    rw [show e.state.strategy.aggregate e.state.model cs = _ from hag] at herr
    cases herr

/-! ## All calls -/

theorem sound_after (hs : e.state.strategy.Sound) (calls : List (Nat × RoundCall)) :
    (e.after calls).state.strategy.Sound :=
  after_induction (P := fun e' : RoundEngine Strategy => e'.state.strategy.Sound) hs
    (fun he ht => ht.renews.sound he) calls

/-- A model that is there is as long after any calls as before them. -/
theorem length_after (hs : e.state.strategy.Sound) (hne : e.state.model ≠ [])
    (calls : List (Nat × RoundCall)) :
    (e.after calls).state.model.length = e.state.model.length := by
  refine (after_induction (P := fun e' : RoundEngine Strategy =>
    e'.state.strategy.Sound ∧ e'.state.model.length = e.state.model.length) ⟨hs, rfl⟩
    (fun {e' _ _ _ _} he ht => ⟨ht.renews.sound he.1, ?_⟩) calls).2
  have hne' : e'.state.model ≠ [] := by
    rw [← List.length_pos_iff, he.2]
    exact List.length_pos_iff.2 hne
  exact (ht.renews.length he.1 hne').trans he.2

/-- A model that is no whole number of weights stays, and no call closes a round. -/
theorem broken_after (hbroken : e.state.model.length % 4 ≠ 0) (calls : List (Nat × RoundCall)) :
    (∀ ev ∈ (e.history calls).1, ev.closes = false) ∧
      (e.after calls).state.view = e.state.view := by
  refine history_induction (P := fun events e' => (∀ ev ∈ events, ev.closes = false) ∧
    e'.state.view = e.state.view) ⟨nofun, rfl⟩
    (fun {events e' _ _ r _} ⟨hopen, hview⟩ ht => ?_) calls
  have hmodel : e'.state.model = e.state.model := congrArg (·.model) hview
  obtain ⟨hview', hanswer⟩ := ht.renews.broken (hmodel ▸ hbroken)
  refine ⟨fun ev hev => ?_, hview'.trans hview⟩
  rcases List.mem_append.1 hev with hev | hev
  · exact hopen ev hev
  · obtain rfl := List.mem_singleton.1 hev
    exact Event.closes_eq_false hanswer

/-- **The number of weights is fixed.**  Take any calls on a new engine with a built-in strategy, in
either mode, and any later calls.  A model of `n` weights has `n` weights for good.  A model that is
there but is no whole number of weights is there for good: no aggregation with it succeeds, no call
closes a round, and model, round and version stay as they are. -/
theorem model_dimension_fixed (start : Nat) (rules : RoundRules) (model : Blob)
    {strategy : Strategy} (hstrategy : strategy.BuiltIn) (calls later : List (Nat × RoundCall)) :
    let e := (RoundEngine.create start rules model strategy).after calls
    let e' := e.after later
    (∀ n, e.state.model ≠ [] → e.state.model.length = 4 * n →
      e'.state.model.length = 4 * n) ∧
    (e.state.model ≠ [] → e.state.model.length % 4 ≠ 0 →
      (∀ cs, ∃ err, AggregationStrategy.aggregate e'.state.strategy e'.state.model cs =
        (.error err, e'.state.strategy)) ∧
      (∀ ev ∈ (e.history later).1, ev.closes = false) ∧
      e'.state.view = e.state.view) := by
  intro e e'
  have hsound : e.state.strategy.Sound := sound_after hstrategy.sound calls
  refine ⟨fun n hne hn => (length_after hsound hne later).trans hn, fun _ hbroken => ?_⟩
  obtain ⟨hopen, hview⟩ := broken_after hbroken later
  have hmodel : e'.state.model = e.state.model := congrArg (·.model) hview
  refine ⟨fun cs => ?_, hopen, hview⟩
  exact e'.state.strategy.aggregate_of_broken (hmodel ▸ hbroken) cs

/-- An optimizer whose results are blended in, and one update that fits and one that does not: two
weights stay two, and a model of one weight and a half stays as it is. -/
theorem two_weights_of_optimizer :
    let blend : Strategy := (Strategy.fedOpt .default).blended ⟨none, Double.one, Double.one⟩
    let e := (RoundEngine.create 0 ⟨.async none, .default, []⟩ [0, 0, 128, 63, 0, 0, 128, 63]
      blend).after [(0, .join "a")]
    let broken := (RoundEngine.create 0 ⟨.async none, .default, []⟩ [0, 0, 128, 63, 0, 0]
      blend).after [(0, .join "a")]
    let later := [(1, RoundCall.submit "a" (.ofModel [0, 0, 0, 64, 0, 0, 0, 64])),
      (2, .submit "a" (.ofModel [1, 2, 3]))]
    blend.BuiltIn ∧
      (e.state.model ≠ [] ∧ e.state.model.length = 4 * 2 ∧
        (e.after later).state.round = 2 ∧ (e.after later).state.model.length = 4 * 2) ∧
      broken.state.model ≠ [] ∧ broken.state.model.length % 4 ≠ 0 ∧
        (∀ cs, ∃ err, AggregationStrategy.aggregate (broken.after later).state.strategy
          (broken.after later).state.model cs = (.error err, (broken.after later).state.strategy)) ∧
        (∀ ev ∈ (broken.history later).1, ev.closes = false) ∧
        (broken.after later).state.view = broken.state.view := by
  intro blend e broken later
  have hblend : blend.BuiltIn :=
    .blended _ (.built (show AlgorithmConfig.build ⟨"fedopt", .empty⟩ = .ok (.fedOpt .default) by
      decide +kernel))
  have hne : e.state.model ≠ [] := by decide +kernel
  have hlength : e.state.model.length = 4 * 2 := by decide +kernel
  have hthere : broken.state.model ≠ [] := by decide +kernel
  have hbroken : broken.state.model.length % 4 ≠ 0 := by decide +kernel
  refine ⟨hblend, ⟨hne, hlength, by decide +kernel, ?_⟩, hthere, hbroken, ?_⟩
  · exact (model_dimension_fixed 0 ⟨.async none, .default, []⟩ [0, 0, 128, 63, 0, 0, 128, 63]
      hblend [(0, .join "a")] later).1 2 hne hlength
  · exact (model_dimension_fixed 0 ⟨.async none, .default, []⟩ [0, 0, 128, 63, 0, 0]
      hblend [(0, .join "a")] later).2 hthere hbroken

end RoundEngine

end Federation
