/-
  Where the contributions of synchronous rounds come from.

  * `Logged`: everything the strategy has got so far was made by trainers of the model it got;
  * `Logged.transition`: calls of the engine keep this;
  * `contributions_trained_on_current`: it holds after every run.
-/
import Federation.Proofs.Fleet.Fit
import Federation.Proofs.Round.Models

namespace Federation

open Disk (Location Tree)
open WorkDir (Home)

variable {σ : Type}

/-- Every contribution the strategy has got was made by a trainer of the model it got with it, and
the round counter goes with the aggregations that succeeded. -/
structure Logged (w : World (Recorded σ)) : Prop where
  counted : w.engine.state.round = (w.engine.state.strategy.closes + 1) % counterLimit
  fed : ∀ call ∈ w.engine.state.strategy.calls, ∀ c ∈ call.contributions,
    TrainedOn w.trainings c.collaborator c.model call.current

section
variable {w : World (Recorded σ)} {e' : RoundEngine (Recorded σ)}

theorem Logged.keep (h : Logged w) (hround : e'.state.round = w.engine.state.round)
    (hstrategy : e'.state.strategy = w.engine.state.strategy) : Logged (w.setEngine e') where
  counted := by
    show e'.state.round = (e'.state.strategy.closes + 1) % counterLimit
    rw [hround, hstrategy]
    exact h.counted
  fed call hc := by
    have hc : call ∈ e'.state.strategy.calls := hc
    rw [hstrategy] at hc
    exact h.fed call hc

variable [AggregationStrategy σ]

theorem trainedOn_contributions {ts : List Training} {model : Blob} {slots : List PendingSlot}
    (h : ∀ slot ∈ slots, TrainedOn ts slot.collaborator slot.update.model model) :
    ∀ c ∈ roundContributions slots, TrainedOn ts c.collaborator c.model model := by
  intro c hc
  obtain ⟨slot, hs, rfl⟩ := List.mem_map.1 hc
  exact h slot hs

/-- One more aggregation. -/
theorem Logged.aggregate (h : Logged w) {slots : List PendingSlot}
    (hslots : ∀ slot ∈ slots,
      TrainedOn w.trainings slot.collaborator slot.update.model w.engine.state.model)
    {result : Except AggregationError Blob} {s : Recorded σ}
    (hag : AggregationStrategy.aggregate w.engine.state.strategy w.engine.state.model
      (roundContributions slots) = (result, s))
    (hstrategy : e'.state.strategy = s)
    (hround : e'.state.round =
      if result.isOk then bump w.engine.state.round else w.engine.state.round) :
    Logged (w.setEngine e') where
  counted := by
    show e'.state.round = (e'.state.strategy.closes + 1) % counterLimit
    rw [hround, hstrategy, Recorded.closes, Recorded.calls_of_aggregate hag, List.countP_append,
      h.counted]
    cases result with
    | error e => rfl
    | ok model => simp [bump, Recorded.closes, Except.isOk, Except.toBool]
  fed call hc c hcc := by
    have hc : call ∈ e'.state.strategy.calls := hc
    rw [hstrategy, Recorded.calls_of_aggregate hag] at hc
    rcases List.mem_append.1 hc with hc | hc
    · exact h.fed call hc c hcc
    · obtain rfl := List.mem_singleton.1 hc
      exact trainedOn_contributions hslots c hcc

/-- Calls of the engine keep this, as long as the submissions among them are traced. -/
theorem Logged.transition (h : Logged w) (hs : Sourced w) {now : Nat} {call : RoundCall}
    {r : Except FederationError RoundAnswer} (ht : w.engine.Transition now call r e')
    (hcall : ∀ id u, call = .submit id u → Traced w id u) : Logged (w.setEngine e') := by
  have hands : ∀ {id u cs}, (w.engine.enrolled now id).Hands id u cs →
      cs = roundContributions (mergeSlot id u w.engine.state.pending) := by
    intro id u cs hcs
    cases hcs with
    | complete => rw [RoundEngine.enrolled_pending]
    | single hmode => rw [RoundEngine.enrolled_rules, hs.mode] at hmode; cases hmode
  cases ht with
  | refused | joined | shown | passed => exact h.keep rfl rfl
  | stale => exact h.keep (RoundEngine.enrolled_round ..) (RoundEngine.enrolled_strategy ..)
  | held =>
    refine h.keep ?_ ?_
    · simp [RoundEngine.credit, RoundEngine.setMembers, RoundEngine.holding]
    · simp [RoundEngine.holding]
  | @spoiled id u cs err s hadm hst hcs hag =>
    rw [hands hcs] at hag
    exact h.aggregate (hs.merged (hcall id u rfl) hst) hag rfl (RoundEngine.enrolled_round ..)
  | @completed id u cs model s hadm hst hcs hag =>
    rw [hands hcs] at hag
    refine h.aggregate (hs.merged (hcall id u rfl) hst) hag ?_ ?_
    · rw [RoundEngine.credit_strategy]
      rfl
    · simp [RoundEngine.credit, RoundEngine.setMembers, RoundEngine.advanced, RoundState.advance,
        RoundState.announce, Except.isOk, Except.toBool]
  | jammed _ _ _ hag => exact h.aggregate hs.slots hag rfl rfl
  | closed _ _ _ hag => exact h.aggregate hs.slots hag rfl rfl

end

/-! ## Runs -/

section
variable [AggregationStrategy σ] {ι : Type} [DecidableEq ι]

/-- Aggregations are never forgotten. -/
theorem Fleet.closes_act (f : Fleet ι (Recorded σ)) (a : Action ι) :
    f.world.engine.state.strategy.closes ≤ (f.act a).world.engine.state.strategy.closes := by
  rcases f.act_engine a with he | ⟨now, call, r, ht, -⟩
  · rw [he]
  · exact Recorded.closes_le ht.calls_prefix

theorem Fleet.closes_run (f : Fleet ι (Recorded σ)) (actions : List (Action ι)) :
    f.world.engine.state.strategy.closes ≤
      (f.run actions).world.engine.state.strategy.closes := by
  induction actions generalizing f with
  | nil => exact le_rfl
  | cons a actions ih => exact (f.closes_act a).trans (ih (f.act a))

variable {f : Fleet ι (Recorded σ)} {place : ι → Location}

/-- One action. -/
theorem Good.act_logged (h : Good f place) (hl : Logged f.world)
    (hplace : Function.Injective place) (a : Action ι)
    (hcloses : (f.act a).world.engine.state.strategy.closes < counterLimit - 1) :
    Good (f.act a) place ∧ Logged (f.act a).world := by
  -- the record is judged by the engine after the action, and the trainings before it
  have hlogged : Logged (f.world.setEngine (f.act a).world.engine) := by
    rcases f.act_engine a with he | ⟨now, call, r, ht, hcall⟩
    · rw [he]
      exact hl.keep rfl rfl
    · exact hl.transition h.sourced ht fun id u hc => h.traced (hcall id u hc)
  have hround : (f.act a).world.engine.state.round ≠ 0 := by
    have hc := hlogged.counted
    have hlt : (f.act a).world.engine.state.strategy.closes + 1 < counterLimit := by omega
    rw [World.setEngine, Nat.mod_eq_of_lt hlt] at hc
    simp only at hc
    omega
  obtain ⟨hgood, hts⟩ := h.act hplace a hround
  exact ⟨hgood, hlogged.counted, fun call hc c hcc => (hlogged.fed call hc c hcc).mono hts⟩

theorem Good.run_logged (h : Good f place) (hl : Logged f.world)
    (hplace : Function.Injective place) (actions : List (Action ι))
    (hcloses : (f.run actions).world.engine.state.strategy.closes < counterLimit - 1) :
    Good (f.run actions) place ∧ Logged (f.run actions).world := by
  induction actions generalizing f with
  | nil => exact ⟨h, hl⟩
  | cons a actions ih =>
    have ha : (f.act a).world.engine.state.strategy.closes < counterLimit - 1 :=
      ((f.act a).closes_run actions).trans_lt hcloses
    obtain ⟨h, hl⟩ := h.act_logged hl hplace a ha
    exact ih h hl hcloses

end

/-- **Contributions are trained on the current model.**  Take any collaborators, with working
directories at different places, around a new synchronous engine, and let anything happen, but fewer
aggregations than the round counter can count.  Whenever the strategy is asked for an aggregation,
each contribution is a blob that a trainer of that identity has left, which was started when
`model.bin` held exactly the model the strategy gets with it, and found no earlier output. -/
theorem contributions_trained_on_current [AggregationStrategy σ] {ι : Type} [DecidableEq ι]
    (now : Nat) (membership : MembershipPolicy) (expected : List String) (model : Blob)
    (strategy : σ) (t : Tree) (config : ι → CollaboratorConfig) (workDir : ι → WorkDir)
    (place : ι → Location) (hplace : Function.Injective place)
    (hhome : ∀ i, Home t (workDir i) (place i)) (actions : List (Action ι)) :
    let e := RoundEngine.create now ⟨.sync, membership, expected⟩ model (Recorded.fresh strategy)
    let w := ((Fleet.start e t config workDir).run actions).world
    w.engine.state.strategy.closes < counterLimit - 1 →
      ∀ call ∈ w.engine.state.strategy.calls, ∀ c ∈ call.contributions,
        ∃ training ∈ w.trainings, training.identity = c.collaborator ∧
          training.input = some call.current ∧ training.stale = false ∧
          training.output = some c.model := by
  intro e w hcloses
  have hgood : Good (Fleet.start e t config workDir) place :=
    .start (.create now membership expected model (Recorded.fresh strategy)) hhome
  have hlogged : Logged (Fleet.start e t config workDir).world := ⟨rfl, nofun⟩
  exact (hgood.run_logged hlogged hplace actions hcloses).2.fed

/-- Two collaborators and two rounds.  The first update of one of them comes over the network, and
comes a second time when its round is over.  Each of them is heard again in the second round, with
what it has trained on the model that the first round made. -/
theorem contributions_of_two_rounds :
    let e := RoundEngine.create 0 ⟨.sync, .default, []⟩ [0, 0, 128, 63]
      (Recorded.fresh Strategy.mean)
    let t : Tree := ⟨[(["a"], .directory 0o700), (["b"], .directory 0o700)], []⟩
    let name : Bool → String := fun i => bif i then "b" else "a"
    let f : Fleet Bool (Recorded Strategy) :=
      .start e t (fun i => ⟨name i, .sync, 2, .default⟩) (fun i => ⟨name i⟩)
    let first : List (Action Bool) :=
      (Move.firstRound [0, 0, 128, 64]).dropLast.map (Action.move false) ++
        (Move.firstRound [0, 0, 0, 0]).dropLast.map (Action.move true) ++
          [Action.move false .send, Action.deliver 1 0, Action.move true (.submit 1)]
    let second : List (Action Bool) :=
      [Action.move false (.hear (.receipt (.ok ⟨1, false⟩))), Action.move false .wake,
          Action.move false (.poll 2 2), Action.move false .resume, Action.move true .resume,
          Action.move true .wake, Action.move true (.hear (.view 4))] ++
        (Move.nextRound [0, 0, 160, 64]).map (Action.move false) ++
          (Move.nextRound [0, 0, 64, 64]).map (Action.move true)
    let late : ModelUpdate := ⟨[0, 0, 128, 64], some 1, 0⟩
    let actions := first ++ Action.deliver 2 0 :: second
    (f.run first).world.sent = [("a", late)] ∧
      ((f.run first).world.engine.submit 2 "a" late).1 = .error (.staleUpdate 1 2) ∧
      (f.run actions).world.engine.state.strategy.calls.map
          (fun call => (call.current, call.contributions)) =
        [([0, 0, 128, 63], [⟨"a", [0, 0, 128, 64], 0, 0⟩, ⟨"b", [0, 0, 0, 0], 0, 0⟩]),
          ([0, 0, 0, 64], [⟨"a", [0, 0, 160, 64], 0, 0⟩, ⟨"b", [0, 0, 64, 64], 0, 0⟩])] ∧
      ∀ call ∈ (f.run actions).world.engine.state.strategy.calls, ∀ c ∈ call.contributions,
        ∃ training ∈ (f.run actions).world.trainings, training.identity = c.collaborator ∧
          training.input = some call.current ∧ training.stale = false ∧
          training.output = some c.model := by
  intro e t name f first second late actions
  have hhome : ∀ i, Home t ⟨name i⟩ [name i] := by
    intro i
    cases i <;> exact ⟨by decide +kernel, 0o700, by decide +kernel⟩
  have hplace : Function.Injective fun i => [name i] := by decide
  have hcloses : (f.run actions).world.engine.state.strategy.closes < counterLimit - 1 := by
    decide +kernel
  have h := contributions_trained_on_current 0 .default [] [0, 0, 128, 63] Strategy.mean t
    (fun i => ⟨name i, .sync, 2, .default⟩) (fun i => ⟨name i⟩) _ hplace hhome actions
  refine ⟨by decide +kernel, by decide +kernel, by decide +kernel, ?_⟩
  simp only [f, e] at hcloses ⊢
  exact h hcloses

end Federation
