/-
  What moves of a collaborator leave alone, and which phase a demand belongs to.

  * `resume_config` and the lemmas before it: the configuration stays;
  * `phase_of_demand_submit` and the others: a demand tells the phase;
  * `Phase.isSending`: the phases in which an update is on its way, or about to be sent again.
-/
import Mathlib
import Federation.Collaborator.Machine

namespace Federation.Machine

variable (m : Machine)

/-! ## The configuration stays -/

@[simp] theorem goTo_config (phase : Phase) : (m.goTo phase).config = m.config := rfl

@[simp] theorem enter_config (state : CollaboratorState) (phase : Phase) :
    (m.enter state phase).config = m.config := rfl

@[simp] theorem observe_config (v : ModelView) : (m.observe v).config = m.config := rfl

@[simp] theorem handOver_config (again : Bool) : (m.handOver again).config = m.config := rfl

@[simp] theorem refresh_config : m.refresh.config = m.config := rfl

@[simp] theorem stop_config : m.stop.config = m.config := rfl

@[simp] theorem fail_config (e : FederationError) : (m.fail e).config = m.config := by
  cases e <;> rfl

@[simp] theorem interrupt_config : m.interrupt.config = m.config := rfl

theorem unlessCancelled_config (cancelled : Bool) {next : Machine} (h : next.config = m.config) :
    (m.unlessCancelled cancelled next).config = m.config := by
  unfold unlessCancelled
  split
  · rfl
  · exact h

@[simp] theorem join_config (cancelled again : Bool) : (m.join cancelled again).config = m.config :=
  unlessCancelled_config m cancelled rfl

@[simp] theorem countRound_config : m.countRound.config = m.config := by
  unfold countRound
  split
  · rfl
  · split <;> rfl

@[simp] theorem beginRound_config (cancelled : Bool) :
    (m.beginRound cancelled).config = m.config := by
  unfold beginRound
  split
  · rfl
  · exact unlessCancelled_config m cancelled rfl

@[simp] theorem afterSubmit_config (cancelled : Bool) (r : SubmitReceipt) :
    (m.afterSubmit cancelled r).config = m.config := by
  unfold afterSubmit
  have hc : ({ m with lastRound := max m.lastRound r.round } : Machine).countRound.config =
      m.config := countRound_config _
  generalize ({ m with lastRound := max m.lastRound r.round } : Machine).countRound = m' at hc
  simp only
  split
  · exact hc
  · rw [unlessCancelled_config m' cancelled (by split <;> rfl), hc]

@[simp] theorem afterRefusal_config (cancelled : Bool) (e : FederationError) :
    (m.afterRefusal cancelled e).config = m.config := by
  unfold afterRefusal
  split <;> simp

@[simp] theorem afterLostFetch_config (cancelled : Bool) (purpose : FetchPurpose)
    (e : FederationError) : (m.afterLostFetch cancelled purpose e).config = m.config := by
  unfold afterLostFetch
  split
  · simp
  · simp
  · split <;> simp
  · simp

@[simp] theorem resume_config (cancelled : Bool) (reply : Reply) :
    (m.resume cancelled reply).config = m.config := by
  unfold resume
  split
  case h_8 | h_10 => exact unlessCancelled_config m cancelled rfl
  case h_13 | h_17 => split <;> simp
  all_goals simp

/-! ## Demands -/

variable {m}

theorem phase_of_demand_join (h : m.demand = some .join) : ∃ again, m.phase = .joining again := by
  unfold demand at h
  split at h
  case h_1 again hp => exact ⟨again, hp⟩
  all_goals cases h

theorem phase_of_demand_train (h : m.demand = some .train) : m.phase = .training := by
  unfold demand at h
  split at h
  case h_4 hp => exact hp
  all_goals cases h

theorem phase_of_demand_submit {u : ModelUpdate} (h : m.demand = some (.submit u)) :
    ∃ attempt, m.phase = .submitting u attempt := by
  unfold demand at h
  split at h
  case h_6 attempt hp => cases h; exact ⟨attempt, hp⟩
  all_goals cases h

theorem phase_of_demand_latest {minRound wait : Nat} (h : m.demand = some (.latest minRound wait)) :
    ∃ purpose attempt, m.phase = .fetching purpose attempt := by
  unfold demand at h
  split at h
  case h_9 attempt hp => exact ⟨_, attempt, hp⟩
  case h_10 attempt hp => exact ⟨_, attempt, hp⟩
  all_goals cases h

theorem phase_of_demand_sleep {n : Nat} (h : m.demand = some (.sleep n)) :
    (∃ u attempt, m.phase = .submitBackoff u attempt) ∨ m.phase = .pausing ∨
      ∃ purpose attempt, m.phase = .fetchBackoff purpose attempt := by
  unfold demand at h
  split at h
  case h_7 u attempt hp => exact .inl ⟨u, attempt, hp⟩
  case h_8 hp => exact .inr (.inl hp)
  case h_11 purpose attempt hp => exact .inr (.inr ⟨purpose, attempt, hp⟩)
  all_goals cases h

end Federation.Machine

/-! ## Sending -/

namespace Federation

/-- Is an update on its way, or about to be sent again? -/
def Phase.isSending : Phase → Bool
  | .submitting _ _ | .submitBackoff _ _ => true
  | _ => false

namespace Machine

variable {m : Machine} {u : ModelUpdate} {attempt : Nat} {cancelled : Bool}

theorem isSending_fail (m : Machine) (e : FederationError) :
    (m.fail e).phase.isSending = false := by
  cases e <;> rfl

theorem isSending_interrupt (m : Machine) : m.interrupt.phase.isSending = false := rfl

theorem isSending_unlessCancelled {next : Machine} (h : next.phase.isSending = false) :
    (m.unlessCancelled cancelled next).phase.isSending = false := by
  unfold unlessCancelled
  split
  · exact m.isSending_interrupt
  · exact h

theorem isSending_join (m : Machine) (cancelled again : Bool) :
    (m.join cancelled again).phase.isSending = false := isSending_unlessCancelled rfl

theorem isSending_beginRound (m : Machine) (cancelled : Bool) :
    (m.beginRound cancelled).phase.isSending = false := by
  unfold beginRound
  split
  · rfl
  · exact isSending_unlessCancelled rfl

theorem isSending_afterSubmit (m : Machine) (cancelled : Bool) (r : SubmitReceipt) :
    (m.afterSubmit cancelled r).phase.isSending = false := by
  unfold afterSubmit
  simp only
  split
  · rfl
  · refine isSending_unlessCancelled ?_
    split <;> rfl

theorem isSending_afterRefusal (m : Machine) (cancelled : Bool) (e : FederationError) :
    (m.afterRefusal cancelled e).phase.isSending = false := by
  unfold afterRefusal
  split
  · rfl
  · exact m.isSending_join cancelled false
  · exact m.isSending_fail e

theorem isSending_afterLostFetch (m : Machine) (cancelled : Bool) (purpose : FetchPurpose)
    (e : FederationError) : (m.afterLostFetch cancelled purpose e).phase.isSending = false := by
  unfold afterLostFetch
  split
  · exact m.isSending_join cancelled true
  · exact m.isSending_interrupt
  · split
    · rfl
    · exact m.isSending_fail _
  · exact m.isSending_fail _

/-- An accepted update is not sent again. -/
theorem resume_accepted (hp : m.phase = .submitting u attempt) (r : SubmitReceipt) :
    (m.resume cancelled (.receipt (.ok r))).phase.isSending = false := by
  simp only [resume, hp]
  exact m.isSending_afterSubmit cancelled r

/-- After a failure the update is sent again as long as retries are left, or never. -/
theorem resume_refused (hp : m.phase = .submitting u attempt) (e : FederationError) :
    (attempt < m.submitPolicy.maxRetries ∧
      (m.resume cancelled (.receipt (.error e))).phase = .submitBackoff u attempt) ∨
    (m.resume cancelled (.receipt (.error e))).phase.isSending = false := by
  simp only [resume, hp]
  split
  · next hretry =>
    rw [mayRetry, Bool.and_eq_true, decide_eq_true_eq] at hretry
    exact Or.inl ⟨hretry.2, rfl⟩
  · exact Or.inr (m.isSending_afterRefusal cancelled e)

/-- Between two attempts there is a pause. -/
theorem resume_backoff (hp : m.phase = .submitBackoff u attempt) (reply : Reply) :
    m.resume cancelled reply = m ∨
      (m.resume cancelled reply).phase = .submitting u (attempt + 1) := by
  cases reply with
  | slept => exact Or.inr (by simp only [resume, hp]; rfl)
  | view | receipt | done | update => exact Or.inl (by simp only [resume, hp])

/-- Something is sent only after the trainer has left a new result. -/
theorem resume_resting (h : m.phase.isSending = false) (cancelled : Bool) (reply : Reply) :
    (m.resume cancelled reply).phase.isSending = false ∨
      m.phase = .collecting ∧ (∃ update, reply = .update (.ok update)) ∧
        ∃ u, (m.resume cancelled reply).phase = .submitting u 0 := by
  have hstop : m.interrupt.phase.isSending = false := rfl
  unfold resume
  split
  case h_4 => exact Or.inl (m.isSending_beginRound cancelled)
  case h_8 => exact Or.inl (isSending_unlessCancelled rfl)
  case h_10 update hp =>
    unfold unlessCancelled
    split
    · exact Or.inl hstop
    · exact Or.inr ⟨hp, ⟨update, rfl⟩, m.sampled update, rfl⟩
  case h_12 hp | h_13 hp | h_14 hp => rw [hp] at h; cases h
  case h_17 =>
    split
    · exact Or.inl rfl
    · exact Or.inl (m.isSending_afterLostFetch cancelled _ _)
  case h_19 => exact Or.inl h
  all_goals first | exact Or.inl rfl | exact Or.inl (m.isSending_fail _)

end Machine

end Federation
