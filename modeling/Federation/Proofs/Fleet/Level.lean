/-
  A synchronous engine among its members, when all updates are as long as the model.

  * `Level`: the model and the outputs of the trainers have one length;
  * `Level.transition`: calls of the engine keep this;
  * `SameRound`: engines with the same open round and the same members;
  * `Receives`: what the update of a member comes to;
  * `Level.receives`: an update of a member is late, or has a slot, or completes the round.
-/
import Federation.Proofs.Fleet.Fit
import Federation.Proofs.Aggregation.Outcome
import Federation.Proofs.Round.SyncRound

namespace Federation

/-! ## One length -/

/-- The model is as long as what the trainers have left, and a whole number of weights. -/
structure Level (size : Nat) (w : World Strategy) : Prop where
  positive : 0 < size
  whole : size % 4 = 0
  model : w.engine.state.model.length = size
  trained : ∀ t ∈ w.trainings, ∀ b, t.output = some b → b.length = size
  sound : w.engine.state.strategy.Sound

namespace Level

variable {size : Nat} {w w' : World Strategy} {e' : RoundEngine Strategy}

theorem ne_nil (h : Level size w) : w.engine.state.model ≠ [] := by
  have := h.positive
  rw [← h.model] at this
  exact List.ne_nil_of_length_pos this

theorem trainedOn (h : Level size w) {id : String} {b model : Blob}
    (hb : TrainedOn w.trainings id b model) : b.length = size := by
  obtain ⟨t, ht, -, -, -, hout⟩ := hb
  exact h.trained t ht b hout

theorem keep (h : Level size w) (htrainings : w'.trainings = w.trainings)
    (hmodel : w'.engine.state.model = w.engine.state.model)
    (hstrategy : w'.engine.state.strategy = w.engine.state.strategy) : Level size w' :=
  ⟨h.positive, h.whole, hmodel ▸ h.model, htrainings ▸ h.trained, hstrategy ▸ h.sound⟩

theorem addTraining (h : Level size w) {t : Training}
    (ht : ∀ b, t.output = some b → b.length = size) : Level size (w.addTraining t) where
  positive := h.positive
  whole := h.whole
  model := h.model
  trained t' ht' := by
    rcases List.mem_append.1 ht' with ht' | ht'
    · exact h.trained t' ht'
    · obtain rfl := List.mem_singleton.1 ht'
      exact ht
  sound := h.sound

/-- An aggregation that succeeds. -/
theorem aggregate (h : Level size w) {cs : List Contribution} {model : Blob} {s : Strategy}
    (hag : AggregationStrategy.aggregate w.engine.state.strategy w.engine.state.model cs =
      (.ok model, s))
    (hmodel : e'.state.model = model) (hstrategy : e'.state.strategy = s) :
    Level size (w.setEngine e') := by
  obtain ⟨hlength, hsound⟩ := Strategy.length_aggregate h.sound h.ne_nil hag
  refine ⟨h.positive, h.whole, ?_, h.trained, ?_⟩
  · show e'.state.model.length = size
    rw [hmodel, hlength, h.model]
  · show e'.state.strategy.Sound
    rw [hstrategy]
    exact hsound

/-- One that fails. -/
theorem aggregate_error (h : Level size w) {cs : List Contribution} {err : AggregationError}
    {s : Strategy}
    (hag : AggregationStrategy.aggregate w.engine.state.strategy w.engine.state.model cs =
      (.error err, s))
    (hmodel : e'.state.model = w.engine.state.model) (hstrategy : e'.state.strategy = s) :
    Level size (w.setEngine e') :=
  h.keep rfl hmodel (hstrategy.trans (Strategy.strategy_of_aggregate_error hag))

/-- Calls of the engine keep the lengths. -/
theorem transition (h : Level size w) {now : Nat} {call : RoundCall}
    {r : Except FederationError RoundAnswer} (ht : w.engine.Transition now call r e') :
    Level size (w.setEngine e') := by
  cases ht with
  | refused | joined | shown | passed => exact h.keep rfl rfl rfl
  | stale => exact h.keep rfl (RoundEngine.enrolled_model ..) (RoundEngine.enrolled_strategy ..)
  | held =>
    refine h.keep rfl ?_ ?_
    · simp [World.setEngine, RoundEngine.credit, RoundEngine.setMembers, RoundEngine.holding]
    · simp [World.setEngine, RoundEngine.holding]
  | spoiled _ _ _ hag => exact h.aggregate_error hag (RoundEngine.enrolled_model ..) rfl
  | completed _ _ _ hag =>
    exact h.aggregate hag rfl (RoundEngine.credit_strategy ..)
  | jammed _ _ _ hag => exact h.aggregate_error hag rfl rfl
  | closed _ _ _ hag => exact h.aggregate hag rfl rfl

/-- A round whose updates were all trained on the current model can be aggregated. -/
theorem aggregates (h : Level size w) {slots : List PendingSlot} (hne : slots ≠ [])
    (hslots : ∀ slot ∈ slots,
      TrainedOn w.trainings slot.collaborator slot.update.model w.engine.state.model) :
    ∃ model s, AggregationStrategy.aggregate w.engine.state.strategy w.engine.state.model
      (roundContributions slots) = (.ok model, s) := by
  refine Strategy.aggregate_of_lengths _ h.whole h.model h.ne_nil ?_ fun c hc => ?_
  · simpa [roundContributions] using hne
  · obtain ⟨slot, hs, rfl⟩ := List.mem_map.1 hc
    exact h.trainedOn (hslots slot hs)

end Level

/-! ## Calls of members -/

namespace RoundEngine

variable {σ : Type}

/-- The same open round, with the same members. -/
structure SameRound (e e' : RoundEngine σ) : Prop where
  round : e'.state.round = e.state.round
  model : e'.state.model = e.state.model
  pending : e'.state.pending = e.state.pending
  strategy : e'.state.strategy = e.state.strategy
  members : ∀ k, e'.isMember k = e.isMember k

theorem SameRound.refl (e : RoundEngine σ) : e.SameRound e := ⟨rfl, rfl, rfl, rfl, fun _ => rfl⟩

section
variable {e e' : RoundEngine σ} {now : Nat} {id : String}

theorem join_of_member (hc : e.Consistent) (hm : e.isMember id = true)
    {r : Except FederationError JoinOutcome} (h : e.join now id = (r, e')) :
    (∃ o, r = .ok o) ∧ e.SameRound e' := by
  unfold join at h
  rw [hc.admitted id hm] at h
  cases h
  refine ⟨⟨_, rfl⟩, rfl, rfl, rfl, rfl, fun k => ?_⟩
  show (e.welcomed now id).isMember k = e.isMember k
  rw [isMember_welcomed]
  by_cases hk : k = id
  · subst hk
    simp [hm]
  · simp [hk]

theorem latest_of_member (hc : e.Consistent) (hm : e.isMember id = true)
    {r : Except FederationError ModelView} (h : e.latest now id = (r, e')) :
    (∃ v, r = .ok v) ∧ e.SameRound e' := by
  rcases hc.latest_cases now id with ⟨-, hok⟩ | ⟨hn, -⟩
  · rw [h] at hok
    cases hok
    exact ⟨⟨_, rfl⟩, rfl, rfl, rfl, rfl, isMember_noticed e now id⟩
  · rw [hm] at hn
    cases hn

end

/-- What the update of a member for the round `base` comes to. -/
inductive Receives (e : RoundEngine σ) (id : String) (base : Nat) :
    Except FederationError SubmitOutcome → RoundEngine σ → Prop
  | late {base' round e'} : e.SameRound e' →
      Receives e id base (.error (.staleUpdate base' round)) e'
  | held {o e'} : base = e.state.round → e'.state.round = e.state.round →
      (∀ k, e'.HasSlot k ↔ k = id ∨ e.HasSlot k) → (∀ k, e'.isMember k = e.isMember k) →
      Receives e id base (.ok o) e'
  | completed {o e'} : base = e.state.round → e'.state.round = bump e.state.round →
      e'.state.pending = [] → (∀ k, e.isMember k = true → k = id ∨ e.HasSlot k) →
      (∀ k, e'.isMember k = e.isMember k) → Receives e id base (.ok o) e'

end RoundEngine

open RoundEngine (SameRound Receives) in
/-- **What the update of a member comes to**, when it was trained on a model that was shown. -/
theorem Level.receives {size : Nat} {w : World Strategy} (h : Level size w) (hs : Sourced w)
    {now : Nat} {id : String} {u : ModelUpdate} {base : Nat} (hm : w.engine.isMember id = true)
    (hu : Traced w id u) (hbase : u.baseRound = some base)
    {r : Except FederationError SubmitOutcome} {e' : RoundEngine Strategy}
    (hsub : w.engine.submit now id u = (r, e')) : w.engine.Receives id base r e' := by
  have hsettles := hs.consistent.settles hs.mode hm now u
  rw [hsub] at hsettles
  have hstale : w.engine.staleBase u = w.engine.isLate u := by simp [RoundEngine.staleBase, hs.mode]
  -- an update that is not late is for the open round
  have hopen : w.engine.isLate u = none → base = w.engine.state.round := by
    intro hl
    obtain ⟨v, hv, hvb, -⟩ := hu
    obtain rfl : base = v.round := Option.some.inj (hbase.symm.trans hvb)
    have hge : ¬ v.round < w.engine.state.round := by simpa [RoundEngine.isLate, hvb] using hl
    exact Nat.le_antisymm (hs.shown v hv).notAhead (Nat.not_lt.1 hge)
  cases hsettles with
  | late => exact .late (.refl _)
  | waits hl =>
    exact .held (hopen hl) rfl (fun k => RoundEngine.hasSlot_mergeSlot)
      (RoundEngine.isMember_credit (w.engine.holding now id u) now id · false)
  | spoils hl _ hag =>
    obtain ⟨model, s', hok⟩ := h.aggregates (mergeSlot_ne_nil id u _)
      (hs.merged hu (hstale.trans hl))
    rw [hok] at hag
    cases hag
  | @completes model s hl hfull =>
    have hfull' := RoundEngine.pending_full_iff hs.consistent now id u
    rw [RoundEngine.enrolled_of_isMember hm] at hfull'
    exact .completed (hopen hl) rfl rfl
      (fun k hk => RoundEngine.hasSlot_mergeSlot.1 (hfull'.1 hfull k hk))
      (RoundEngine.isMember_credit (w.engine.advanced now model s) now id · true)

end Federation
