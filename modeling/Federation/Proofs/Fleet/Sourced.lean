/-
  What the engine and the network hold of the trainers' work.

  * `Aligned`: a model of the open round is the current one, any other is older;
  * `Traced`: an update was trained on a model that was shown, and says so;
  * `Sourced`: every pending update was trained on the current model, and what was sent is traced;
  * `Sourced.transition`: calls of the engine keep this.
-/
import Federation.Proofs.Fleet.Standing
import Federation.Proofs.Round.Invariant

namespace Federation

variable {σ : Type}

/-! ## The engine -/

/-- A model that is the current one when it is the open round's, and else is older. -/
structure Aligned (e : RoundEngine σ) (v : ModelView) : Prop where
  positive : 0 < v.round
  notAhead : v.round ≤ e.state.round
  current : v.round = e.state.round → v.model = e.state.model

/-- An update that was trained on a model that was shown, and says so. -/
def Traced (w : World σ) (id : String) (u : ModelUpdate) : Prop :=
  ∃ v ∈ w.shown, u.baseRound = some v.round ∧ TrainedOn w.trainings id u.model v.model

/-- What every slot and every submission comes from. -/
structure Sourced (w : World σ) : Prop where
  mode : w.engine.rules.mode = .sync
  consistent : w.engine.Consistent
  bounded : w.engine.state.round < counterLimit
  current : w.engine.state.view ∈ w.shown
  shown : ∀ v ∈ w.shown, Aligned w.engine v
  slots : ∀ slot ∈ w.engine.state.pending,
    TrainedOn w.trainings slot.collaborator slot.update.model w.engine.state.model
  sent : ∀ s ∈ w.sent, Traced w s.1 s.2

/-- An update that is not stale was trained on the current model. -/
theorem Sourced.trainedOn {w : World σ} (h : Sourced w) {id : String} {u : ModelUpdate}
    (hu : Traced w id u) (hs : w.engine.staleBase u = none) :
    TrainedOn w.trainings id u.model w.engine.state.model := by
  obtain ⟨v, hv, hbase, ht⟩ := hu
  have ha := h.shown v hv
  have hge : w.engine.state.round ≤ v.round := by
    simpa [RoundEngine.staleBase, h.mode, RoundEngine.isLate, hbase] using hs
  rw [← ha.current (Nat.le_antisymm ha.notAhead hge)]
  exact ht

/-- With it the slots hold nothing else either. -/
theorem Sourced.merged {w : World σ} (h : Sourced w) {id : String} {u : ModelUpdate}
    (hu : Traced w id u) (hs : w.engine.staleBase u = none) :
    ∀ slot ∈ mergeSlot id u w.engine.state.pending,
      TrainedOn w.trainings slot.collaborator slot.update.model w.engine.state.model := by
  intro slot hslot
  rcases (mem_mergeSlot h.consistent.distinct).1 hslot with rfl | ⟨hslot, -⟩
  · exact h.trainedOn hu hs
  · exact h.slots slot hslot

section
variable {w : World σ}

theorem Sourced.addTraining (h : Sourced w) (t : Training) : Sourced (w.addTraining t) where
  mode := h.mode
  consistent := h.consistent
  bounded := h.bounded
  current := h.current
  shown := h.shown
  slots slot hs := (h.slots slot hs).mono (List.subset_append_left ..)
  sent s hs := by
    obtain ⟨v, hv, hbase, ht⟩ := h.sent s hs
    exact ⟨v, hv, hbase, ht.mono (List.subset_append_left ..)⟩

theorem Sourced.addSent (h : Sourced w) {id : String} {u : ModelUpdate} (hu : Traced w id u) :
    Sourced (w.addSent id u) where
  mode := h.mode
  consistent := h.consistent
  bounded := h.bounded
  current := h.current
  shown := h.shown
  slots := h.slots
  sent s hs := by
    rcases List.mem_append.1 hs with hs | hs
    · exact h.sent s hs
    · obtain rfl := List.mem_singleton.1 hs
      exact hu

end

section
variable {w : World σ} {e' : RoundEngine σ}

theorem Traced.setEngine {id : String} {u : ModelUpdate} (h : Traced w id u) :
    Traced (w.setEngine e') id u := by
  obtain ⟨v, hv, h⟩ := h
  exact ⟨v, List.mem_append_left _ hv, h⟩

/-- The open round goes on. -/
theorem Sourced.keep (h : Sourced w) (hc : e'.Consistent) (hrules : e'.rules = w.engine.rules)
    (hround : e'.state.round = w.engine.state.round)
    (hmodel : e'.state.model = w.engine.state.model)
    (hslots : ∀ slot ∈ e'.state.pending,
      TrainedOn w.trainings slot.collaborator slot.update.model w.engine.state.model) :
    Sourced (w.setEngine e') where
  mode := hrules ▸ h.mode
  consistent := hc
  bounded := hround ▸ h.bounded
  current := List.mem_append_right _ (List.mem_singleton_self _)
  shown v hv := by
    show Aligned e' v
    rcases List.mem_append.1 hv with hv | hv
    · obtain ⟨hp, hle, hcur⟩ := h.shown v hv
      exact ⟨hp, hround ▸ hle, by rw [hround, hmodel]; exact hcur⟩
    · obtain rfl := List.mem_singleton.1 hv
      refine ⟨?_, le_rfl, fun _ => rfl⟩
      have := (h.shown _ h.current).positive
      show 0 < e'.state.round
      rw [hround]
      exact this
  slots slot hs := by
    show TrainedOn w.trainings _ _ e'.state.model
    rw [hmodel]
    exact hslots slot hs
  sent s hs := (h.sent s hs).setEngine

/-- The next round opens. -/
theorem Sourced.next (h : Sourced w) (hc : e'.Consistent) (hrules : e'.rules = w.engine.rules)
    (hround : e'.state.round = bump w.engine.state.round) (hne : e'.state.round ≠ 0)
    (hpending : e'.state.pending = []) : Sourced (w.setEngine e') := by
  have hlt : w.engine.state.round + 1 < counterLimit := by
    rcases Nat.lt_or_ge (w.engine.state.round + 1) counterLimit with hlt | hge
    · exact hlt
    · have heq : w.engine.state.round + 1 = counterLimit := Nat.le_antisymm h.bounded hge
      rw [hround, bump, heq, Nat.mod_self] at hne
      exact absurd rfl hne
  have hsucc : e'.state.round = w.engine.state.round + 1 := by
    rw [hround, bump, Nat.mod_eq_of_lt hlt]
  refine ⟨hrules ▸ h.mode, hc, ?_, ?_, ?_, ?_, fun s hs => (h.sent s hs).setEngine⟩
  · show e'.state.round < counterLimit
    omega
  · exact List.mem_append_right _ (List.mem_singleton_self _)
  · intro v hv
    show Aligned e' v
    rcases List.mem_append.1 hv with hv | hv
    · -- what was shown before is older now
      obtain ⟨hp, hle, -⟩ := h.shown v hv
      exact ⟨hp, by omega, fun heq => by omega⟩
    · obtain rfl := List.mem_singleton.1 hv
      exact ⟨Nat.pos_of_ne_zero hne, le_rfl, fun _ => rfl⟩
  · intro slot hs
    have : slot ∈ e'.state.pending := hs
    rw [hpending] at this
    cases this

variable [AggregationStrategy σ]

/-- Calls of the engine keep this, as long as the submissions among them are traced and the round
counter does not wrap around. -/
theorem Sourced.transition (h : Sourced w) {now : Nat} {call : RoundCall}
    {r : Except FederationError RoundAnswer} (ht : w.engine.Transition now call r e')
    (hcall : ∀ id u, call = .submit id u → Traced w id u) (hne : e'.state.round ≠ 0) :
    Sourced (w.setEngine e') := by
  have hc := h.consistent.transition ht
  have hr := ht.rules
  cases ht with
  | refused => exact h.keep hc hr rfl rfl h.slots
  | joined => exact h.keep hc hr rfl rfl h.slots
  | shown => exact h.keep hc hr rfl rfl h.slots
  | stale =>
    exact h.keep hc hr (RoundEngine.enrolled_round ..) (RoundEngine.enrolled_model ..)
      (by rw [RoundEngine.enrolled_pending]; exact h.slots)
  | @held id u hadm hs _ _ =>
    refine h.keep hc hr ?_ ?_ ?_
    · simp [RoundEngine.credit, RoundEngine.setMembers, RoundEngine.holding]
    · simp [RoundEngine.credit, RoundEngine.setMembers, RoundEngine.holding]
    · have := h.merged (hcall id u rfl) hs
      simpa [RoundEngine.holding] using this
  | spoiled =>
    exact h.keep hc hr (RoundEngine.enrolled_round ..) (RoundEngine.enrolled_model ..)
      (by
        show ∀ slot ∈ (RoundEngine.enrolled _ _ _).state.pending, _
        rw [RoundEngine.enrolled_pending]; exact h.slots)
  | completed =>
    refine h.next hc hr ?_ hne ?_
    · simp [RoundEngine.credit, RoundEngine.setMembers, RoundEngine.advanced, RoundState.advance,
        RoundState.announce]
    · simp [RoundEngine.advanced, RoundState.advance]
  | passed => exact h.keep hc hr rfl rfl h.slots
  | jammed => exact h.keep hc hr rfl rfl h.slots
  | closed => exact h.next hc hr rfl hne rfl

end

end Federation
