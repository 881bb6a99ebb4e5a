/-
  Rounds of single updates.

  An asynchronous engine puts every update that it accepts into the model at once.  What the model
  becomes depends on the accepted updates alone, and on the order in which they were accepted.

  * `ModelUpdate.age`, `contributionsFrom`: the contributions of accepted updates, each as old as
    the round it meets says;
  * `absorb`: a strategy and a model after one more contribution;
  * `Folds`: aggregations each of which takes up the model that the one before it made;
  * `stale_iff`: which updates of a member are refused as stale;
  * `Applies`, `Applies.transition`: the record of the strategy against the accepted updates;
  * `async_round_refinement`: what one submission comes to, and what all of them come to.
-/
import Federation.Proofs.Aggregation.Outcome
import Federation.Proofs.Round.Models
import Federation.Proofs.Round.SyncRound

namespace Federation

/-! ## Accepted updates as contributions -/

/-- Rounds between the model an update was trained on and a round; none when it is not known. -/
def ModelUpdate.age (u : ModelUpdate) (round : Nat) : Nat :=
  match u.baseRound with
  | some base => round - base
  | none => 0

/-- The contribution of an update that meets a round. -/
def ModelUpdate.contribution (id : String) (u : ModelUpdate) (round : Nat) : Contribution :=
  ⟨id, u.model, u.sampleCount, u.age round⟩

/-- The contributions of updates, the first of which meets a round, and each other one the next. -/
def contributionsFrom : Nat → List (String × ModelUpdate) → List Contribution
  | _, [] => []
  | round, (id, u) :: rest => u.contribution id round :: contributionsFrom (round + 1) rest

theorem length_contributionsFrom (round : Nat) (accepted : List (String × ModelUpdate)) :
    (contributionsFrom round accepted).length = accepted.length := by
  induction accepted generalizing round with
  | nil => rfl
  | cons a rest ih => simp [contributionsFrom, ih]

theorem contributionsFrom_append (round : Nat) (accepted : List (String × ModelUpdate))
    (id : String) (u : ModelUpdate) :
    contributionsFrom round (accepted ++ [(id, u)]) =
      contributionsFrom round accepted ++ [u.contribution id (round + accepted.length)] := by
  induction accepted generalizing round with
  | nil => rfl
  | cons a rest ih =>
    simp only [List.cons_append, contributionsFrom, ih, List.length_cons]
    rw [Nat.add_assoc, Nat.add_comm 1]

/-! ## Aggregations one after the other -/

/-- Aggregations that lead from one model to another, each from the model the last one made. -/
inductive Folds (initial : Blob) : List AggregationCall → Blob → Prop where
  | nil : Folds initial [] initial
  | snoc {calls current cs model} : Folds initial calls current →
      Folds initial (calls ++ [⟨current, cs, .ok model⟩]) model

/-- A strategy and a model after one more contribution, which may fail. -/
def absorb {σ : Type} [AggregationStrategy σ] (s : σ × Blob) (c : Contribution) : σ × Blob :=
  match AggregationStrategy.aggregate s.1 s.2 [c] with
  | (.ok model, strategy) => (strategy, model)
  | (.error _, strategy) => (strategy, s.2)

namespace RoundEngine

/-! ## Single submissions -/

section
variable {σ : Type} {e : RoundEngine σ} {limit : Option Nat}

theorem staleness_eq_age (e : RoundEngine σ) (u : ModelUpdate) :
    e.staleness u = u.age e.state.round := rfl

theorem staleBase_async (hmode : e.rules.mode = .async limit) (u : ModelUpdate) (base : Nat) :
    e.staleBase u = some base ↔
      u.baseRound = some base ∧ ∃ m, limit = some m ∧ m < e.state.round - base := by
  unfold staleBase tooStale
  rw [hmode]
  cases limit with
  | none => simp
  | some m =>
    cases hb : u.baseRound with
    | none => simp
    | some b =>
      simp only [Option.some.injEq, exists_eq_left']
      constructor
      · intro h
        split at h
        · next hlt => cases h; exact ⟨rfl, hlt⟩
        · cases h
      · rintro ⟨rfl, hlt⟩
        exact if_pos hlt

variable [AggregationStrategy σ]

/-- An update of a member is refused as stale iff it is too many rounds behind, and known to be. -/
theorem stale_iff (hc : e.Consistent) (hmode : e.rules.mode = .async limit) {id : String}
    (hm : e.isMember id = true) (now : Nat) (u : ModelUpdate) (base current : Nat) :
    (e.submit now id u).1 = .error (.staleUpdate base current) ↔
      current = e.state.round ∧ u.baseRound = some base ∧
        ∃ m, limit = some m ∧ m < e.state.round - base := by
  rw [← staleBase_async hmode u base]
  have ht := e.transition_submit now id u
  generalize (e.submit now id u).2 = e' at ht
  cases hr : (e.submit now id u).1 with
  | ok o =>
    rw [hr] at ht
    refine ⟨nofun, fun ⟨_, hs⟩ => ?_⟩
    cases ht with
    | held _ hnone | completed _ hnone => rw [hnone] at hs; cases hs
  | error err =>
    rw [hr] at ht
    cases ht with
    | refused href => exact absurd href (hc.not_refusal hm)
    | stale _ hs =>
      rw [hs]
      simp only [Except.error.injEq, FederationError.staleUpdate.injEq, Option.some.injEq]
      exact ⟨fun ⟨h₁, h₂⟩ => ⟨h₂.symm, h₁⟩, fun ⟨h₂, h₁⟩ => ⟨h₁, h₂.symm⟩⟩
    | spoiled _ hnone => rw [hnone]; exact ⟨nofun, nofun⟩
    | jammed hclosing => cases hclosing

/-- What a call of an asynchronous engine comes to: an update goes into the model by itself, or
nothing is accepted. -/
theorem Transition.async_cases {e' : RoundEngine σ} {now : Nat} {call : RoundCall}
    {r : Except FederationError RoundAnswer} (ht : e.Transition now call r e')
    (hmode : e.rules.mode = .async limit) :
    (Event.accepted? ⟨now, call, r⟩ = none ∧ ∀ answer, r = .ok answer → answer.closed? = none) ∨
    ∃ id u model, Event.accepted? ⟨now, call, r⟩ = some (id, u) ∧
      AggregationStrategy.aggregate e.state.strategy e.state.model
        [u.contribution id e.state.round] = (.ok model, e'.state.strategy) ∧
      e'.state.view = ⟨model, bump e.state.round, bump e.state.version⟩ ∧
      ∃ answer, r = .ok answer ∧ answer.closed? = some e'.state.view := by
  cases ht with
  | refused | stale | spoiled | jammed =>
    exact Or.inl ⟨by simp [Event.accepted?], by rintro _ ⟨⟩⟩
  | joined | shown => exact Or.inl ⟨rfl, by rintro _ ⟨⟩; rfl⟩
  | passed hcall =>
    refine Or.inl ⟨?_, by rintro _ ⟨⟩; rfl⟩
    rcases hcall with rfl | ⟨timeout, rfl⟩ <;> rfl
  | held _ _ hsync => rw [hmode] at hsync; cases hsync
  | closed _ hsync => rw [hmode] at hsync; cases hsync
  | @completed id u cs model s _ _ hcs hag =>
    cases hcs with
    | complete hsync => rw [enrolled_rules, hmode] at hsync; cases hsync
    | single =>
      rw [staleness_eq_age, enrolled_round] at hag
      refine Or.inr ⟨id, u, model, rfl, ?_, by simp, _, rfl, by simp [RoundAnswer.closed?]⟩
      rw [credit_strategy]
      exact hag

end

/-! ## All submissions -/

/-- A call that closes no round leaves the model as it is.  The strategy stays too, unless it is
asked and does not fail safely. -/
theorem Renews.kept {σ : Type} [AggregationStrategy σ] {e e' : RoundEngine (Recorded σ)}
    {r : Except FederationError RoundAnswer} (h : e.Renews r e')
    (hopen : ∀ answer, r = .ok answer → answer.closed? = none) :
    e'.state.view = e.state.view ∧ e'.state.strategy.made = e.state.strategy.made ∧
      ((∀ err, r ≠ .error (.aggregation err)) → e'.state.strategy = e.state.strategy) ∧
      (AggregationStrategy.FailsSafely σ → e'.state.strategy.inner = e.state.strategy.inner) := by
  have hrecord := h.recorded
  cases h with
  | left hview hstrategy =>
    exact ⟨hview, by rw [hstrategy], fun _ => hstrategy, fun _ => by rw [hstrategy]⟩
  | failed hag hview hr =>
    rcases hrecord with ⟨-, hmade, -⟩ | ⟨_, _, _, -, -, hok, -⟩
    · exact ⟨hview, hmade, fun hne => absurd hr (hne _), fun hsafe =>
        hsafe _ _ _ _ _ (Recorded.inner_of_aggregate hag)⟩
    · rw [hr] at hok
      cases hok
  | renewed _ _ hr hclosed =>
    rw [hopen _ hr] at hclosed
    cases hclosed

/-- The record of the strategy against the accepted updates: each of them was aggregated once, by
itself, with the model that the one before it made. -/
structure Applies {σ : Type} [AggregationStrategy σ] (limit : Option Nat) (model : Blob)
    (strategy : σ) (events : List Event) (e : RoundEngine (Recorded σ)) : Prop where
  mode : e.rules.mode = .async limit
  counted : Counted model e
  contributions : e.state.strategy.made.map (·.contributions) =
    (contributionsFrom 1 (acceptedIn events)).map ([·])
  folds : Folds model e.state.strategy.made e.state.model
  folded : AggregationStrategy.FailsSafely σ →
    (e.state.strategy.inner, e.state.model) =
      (contributionsFrom 1 (acceptedIn events)).foldl absorb (strategy, model)

namespace Applies

variable {σ : Type} [AggregationStrategy σ] {limit : Option Nat} {model : Blob} {strategy : σ}
  {events : List Event} {e e' : RoundEngine (Recorded σ)} {now : Nat} {call : RoundCall}
  {r : Except FederationError RoundAnswer}

theorem create (start : Nat) (limit : Option Nat) (membership : MembershipPolicy)
    (expected : List String) (model : Blob) (strategy : σ) :
    Applies limit model strategy []
      (RoundEngine.create start ⟨.async limit, membership, expected⟩ model
        (Recorded.fresh strategy)) :=
  ⟨rfl, Counted.create .., rfl, .nil, fun _ => rfl⟩

theorem closes_eq (h : Applies limit model strategy events e) :
    e.state.strategy.closes = (acceptedIn events).length := by
  have := congrArg List.length h.contributions
  simpa [Recorded.length_made, length_contributionsFrom] using this

/-- Round and version count the accepted updates. -/
theorem rounds (h : Applies limit model strategy events e)
    (hbound : (acceptedIn events).length < counterLimit - 1) :
    e.state.round = 1 + (acceptedIn events).length ∧
      e.state.version = 1 + (acceptedIn events).length := by
  have hn := h.counted.isNth (by rw [h.closes_eq]; exact hbound)
  rw [h.closes_eq] at hn
  exact ⟨by rw [Nat.add_comm]; exact hn.round, by rw [Nat.add_comm]; exact hn.version⟩

theorem transition (h : Applies limit model strategy events e) (ht : e.Transition now call r e')
    (hbound : (acceptedIn events).length < counterLimit - 1) :
    Applies limit model strategy (events ++ [⟨now, call, r⟩]) e' := by
  have hmode : e'.rules.mode = .async limit := by rw [ht.rules, h.mode]
  have hcounted := h.counted.transition ht
  have haccepted := acceptedIn_append events ⟨now, call, r⟩
  rcases ht.async_cases h.mode with ⟨hnone, hopen⟩ | ⟨id, u, next, hsome, hag, hview, -⟩
  · rw [hnone, Option.toList_none, List.append_nil] at haccepted
    obtain ⟨hview, hmade, -, hinner⟩ := ht.renews.kept hopen
    have hmodel : e'.state.model = e.state.model := congrArg (·.model) hview
    refine ⟨hmode, hcounted, ?_, ?_, fun hsafe => ?_⟩
    · rw [hmade, haccepted]
      exact h.contributions
    · rw [hmade, hmodel]
      exact h.folds
    · rw [haccepted, hinner hsafe, hmodel]
      exact h.folded hsafe
  · rw [hsome, Option.toList_some] at haccepted
    rw [(h.rounds hbound).1] at hag
    have hmade := Recorded.made_of_calls (Recorded.calls_of_aggregate hag)
    simp only [Except.isOk, Except.toBool, if_true] at hmade
    have hmodel : e'.state.model = next := congrArg (·.model) hview
    refine ⟨hmode, hcounted, ?_, ?_, fun hsafe => ?_⟩
    · rw [hmade, haccepted, contributionsFrom_append, List.map_append, List.map_append,
        h.contributions]
      rfl
    · rw [hmade, hmodel]
      exact h.folds.snoc
    · rw [haccepted, contributionsFrom_append, List.foldl_append, ← h.folded hsafe, hmodel]
      simp only [List.foldl_cons, List.foldl_nil, absorb, Recorded.inner_of_aggregate hag]

theorem history (start : Nat) (limit : Option Nat) (membership : MembershipPolicy)
    (expected : List String) (model : Blob) (strategy : σ) (calls : List (Nat × RoundCall)) :
    let first := RoundEngine.create start ⟨.async limit, membership, expected⟩ model
      (Recorded.fresh strategy)
    (acceptedIn (first.history calls).1).length < counterLimit - 1 →
      Applies limit model strategy (first.history calls).1 (first.after calls) := by
  intro first
  refine history_induction (P := fun events e =>
    (acceptedIn events).length < counterLimit - 1 → Applies limit model strategy events e)
    (fun _ => .create ..) (fun {events e now call r e'} ih ht hbound => ?_) calls
  have hlt : (acceptedIn events).length < counterLimit - 1 := by
    rw [acceptedIn_append, List.length_append] at hbound
    omega
  exact (ih hlt).transition ht hlt

end Applies

/-- **Refinement of asynchronous rounds.**  Whatever was called on a new asynchronous engine: an
update of a member is refused as stale iff it is known to be too many rounds behind; an update that
is accepted is aggregated once, by itself, with the model that is current then; every other one
changes no model.  All that were accepted have been folded into the model in the order of their
acceptance, and round and version count them. -/
theorem async_round_refinement {σ : Type} [AggregationStrategy σ] (start : Nat)
    (limit : Option Nat) (membership : MembershipPolicy) (expected : List String) (model : Blob)
    (strategy : σ) (calls : List (Nat × RoundCall)) :
    let first := RoundEngine.create start ⟨.async limit, membership, expected⟩ model
      (Recorded.fresh strategy)
    let e := first.after calls
    let accepted := acceptedIn (first.history calls).1
    (∀ now id u, let r := e.submit now id u
      (∀ base current, e.isMember id = true →
        (r.1 = .error (.staleUpdate base current) ↔
          current = e.state.round ∧ u.baseRound = some base ∧
            ∃ m, limit = some m ∧ m < e.state.round - base)) ∧
      (∀ outcome, r.1 = .ok outcome → ∃ next,
        r.2.state.strategy.calls = e.state.strategy.calls ++
          [⟨e.state.model, [u.contribution id e.state.round], .ok next⟩] ∧
        r.2.state.view = ⟨next, bump e.state.round, bump e.state.version⟩ ∧
        outcome.closed = some r.2.state.view) ∧
      (∀ error, r.1 = .error error →
        r.2.state.view = e.state.view ∧ r.2.state.strategy.made = e.state.strategy.made ∧
        ((∀ err, error ≠ .aggregation err) → r.2.state.strategy = e.state.strategy) ∧
        (AggregationStrategy.FailsSafely σ →
          r.2.state.strategy.inner = e.state.strategy.inner))) ∧
    (accepted.length < counterLimit - 1 →
      e.state.round = 1 + accepted.length ∧ e.state.version = 1 + accepted.length ∧
      e.state.strategy.made.map (·.contributions) = (contributionsFrom 1 accepted).map ([·]) ∧
      Folds model e.state.strategy.made e.state.model ∧
      (AggregationStrategy.FailsSafely σ →
        (e.state.strategy.inner, e.state.model) =
          (contributionsFrom 1 accepted).foldl absorb (strategy, model))) := by
  intro first e accepted
  have hc : e.Consistent := Reachable.consistent ⟨start, _, model, _, calls, rfl⟩
  have hmode : e.rules.mode = .async limit :=
    after_induction (P := fun e => e.rules.mode = .async limit) rfl
      (fun h ht => by rw [ht.rules, h]) calls
  refine ⟨fun now id u => ⟨fun base current hm => stale_iff hc hmode hm now u base current,
    fun outcome hr => ?_, fun error hr => ?_⟩, fun hbound => ?_⟩
  · have ht := e.transition_submit now id u
    rw [hr] at ht
    rcases ht.async_cases hmode with ⟨hnone, -⟩ | ⟨_, _, next, hsome, hag, hview, _, ⟨⟩, hclosed⟩
    · cases hnone
    · cases hsome
      exact ⟨next, Recorded.calls_of_aggregate hag, hview, hclosed⟩
  · have hrenews := (e.transition_submit now id u).renews
    rw [hr] at hrenews
    obtain ⟨hview, hmade, hstrategy, hinner⟩ := hrenews.kept nofun
    exact ⟨hview, hmade, fun hne => hstrategy fun err herr => hne err (by cases herr; rfl), hinner⟩
  · have h := Applies.history start limit membership expected model strategy calls hbound
    exact ⟨(h.rounds hbound).1, (h.rounds hbound).2, h.contributions, h.folds, h.folded⟩

/-- Half of the way for an update of the current model, half of that for an update one round
behind, and nothing for one two rounds behind or for one that is no model. -/
theorem async_round_of_two :
    let half : Double := ⟨0x3fe0000000000000⟩
    let first := RoundEngine.create 0 ⟨.async (some 1), .default, []⟩ [0, 0, 0, 0]
      (Recorded.fresh (Strategy.mean.blended ⟨some 1, half, half⟩))
    let two : ModelUpdate := ⟨[0, 0, 0, 64], some 1, 0⟩
    let calls := [(0, .join "a"), (1, .join "b"), (2, .submit "a" two), (3, .submit "b" two),
      (4, .submit "b" two), (5, .submit "a" (.ofModel [1, 2, 3]))]
    let e := first.after calls
    (e.submit 6 "a" two).1 = .error (.staleUpdate 1 3) ∧ e.state.round = 1 + 2 ∧
      e.state.model = [0, 0, 160, 63] ∧
      e.state.strategy.made.map (·.contributions) =
        [[⟨"a", [0, 0, 0, 64], 0, 0⟩], [⟨"b", [0, 0, 0, 64], 0, 1⟩]] ∧
      (e.state.strategy.inner, e.state.model) =
        [⟨"a", [0, 0, 0, 64], 0, 0⟩, ⟨"b", [0, 0, 0, 64], 0, 1⟩].foldl absorb
          (Strategy.mean.blended ⟨some 1, half, half⟩, [0, 0, 0, 0]) := by
  intro half first two calls e
  have hcs : contributionsFrom 1 (acceptedIn (first.history calls).1) =
      [⟨"a", [0, 0, 0, 64], 0, 0⟩, ⟨"b", [0, 0, 0, 64], 0, 1⟩] := by decide +kernel
  have hlength : (acceptedIn (first.history calls).1).length = 2 := by decide +kernel
  have hmember : e.isMember "a" = true := by decide +kernel
  have hmodel : e.state.model = [0, 0, 160, 63] := by decide +kernel
  obtain ⟨hone, hall⟩ := async_round_refinement 0 (some 1) .default [] [0, 0, 0, 0]
    (Strategy.mean.blended ⟨some 1, half, half⟩) calls
  obtain ⟨hround, -, hmade, -, hfold⟩ := hall (by rw [hlength]; decide)
  rw [hlength] at hround
  rw [hcs] at hmade hfold
  simp only [List.map_cons, List.map_nil] at hmade
  have hstale := (hone 6 "a" two).1 1 3 hmember
  rw [hround] at hstale
  have hrefused := hstale.2 ⟨rfl, rfl, 1, rfl, by decide⟩
  have hfolded := hfold Strategy.failsSafely
  with_reducible exact ⟨hrefused, hround, hmodel, hmade, hfolded⟩

end RoundEngine

end Federation
