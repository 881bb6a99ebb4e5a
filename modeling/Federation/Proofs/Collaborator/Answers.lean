/-
  Everything an answer can make of a collaborator.

  * `Reply.round?`, `Reply.error?`: the round an answer shows, and the error it tells;
  * `Phase.sends?`, `Phase.awaitsModel`, `Phase.hasModel`: what is known from the phase alone;
  * `Resumes`: what an answer can come to, one constructor for each way;
  * `resumes_resume`: every answer comes to one of these;
  * `counting_cases`, `afterSubmit_cases`: what an accepted update adds to the books, and how the run
    goes on.
-/
import Federation.Proofs.Collaborator.Machine

namespace Federation

/-! ## Answers and phases -/

namespace Reply

/-- The round an answer shows. -/
def round? : Reply → Option Nat
  | .view (.ok v) => some v.round
  | .receipt (.ok r) => some r.round
  | _ => none

/-- The error an answer tells. -/
def error? : Reply → Option FederationError
  | .view (.error e) | .receipt (.error e) | .done (.error e) | .update (.error e) => some e
  | _ => none

end Reply

namespace Phase

/-- The update that is on its way, or about to be sent again. -/
def sends? : Phase → Option ModelUpdate
  | .submitting u _ | .submitBackoff u _ => some u
  | _ => none

/-- Is a model the answer that is waited for? -/
def awaitsModel : Phase → Bool
  | .joining _ | .fetching _ _ => true
  | _ => false

/-- The phases of a run that has begun and not ended, after its join. -/
def hasModel : Phase → Bool
  | .joining _ | .finished _ => false
  | _ => true

def isFinished : Phase → Bool
  | .finished _ => true
  | _ => false

theorem isFinished_of_hasModel {phase : Phase} (h : phase.hasModel = true) :
    phase.isFinished = false := by
  cases phase <;> first | rfl | cases h

theorem isFinished_of_awaitsModel {phase : Phase} (h : phase.awaitsModel = true) :
    phase.isFinished = false := by
  cases phase <;> first | rfl | cases h

end Phase

namespace Machine

variable (m : Machine)

/-! ## How a run ends -/

/-- A run that fails with an error ends with it, unless it was cancelled. -/
theorem fail_cases (e : FederationError) : e = .cancelled ∧ m.fail e = m.stop ∨
    e ≠ .cancelled ∧ m.fail e = m.enter .failed (.finished (.error e)) := by
  cases e with
  | cancelled => exact Or.inl ⟨rfl, rfl⟩
  | _ => exact Or.inr ⟨nofun, rfl⟩

variable {m} in
theorem phase_of_result {r : Except FederationError RunSummary} (h : m.result? = some r) :
    m.phase = .finished r := by
  unfold result? at h
  split at h
  · next r' hp => rw [hp, Option.some.inj h]
  · cases h

/-! ## What an answer comes to -/

/-- Everything an answer can make of a collaborator. -/
inductive Resumes (cancelled : Bool) : Reply → Machine → Prop
  /-- It goes on, and nothing is entered in its books. -/
  | went {reply state phase} : m.phase.hasModel = true → reply.round? = none →
      phase.isFinished = false →
      (∀ u, phase.sends? = some u → m.phase.sends? = some u ∨ ∃ b, u = m.sampled b) →
      Resumes cancelled reply (m.enter state phase)
  | observed {v again} : m.phase.awaitsModel = true →
      Resumes cancelled (.view (.ok v)) ((m.observe v).handOver again)
  | accepted {u attempt r} : m.phase = .submitting u attempt →
      Resumes cancelled (.receipt (.ok r)) (m.afterSubmit cancelled r)
  | failed {reply e} : reply.error? = some e → Resumes cancelled reply (m.fail e)
  | interrupted {reply} : cancelled = true → reply.round? = none →
      Resumes cancelled reply m.interrupt
  /-- There have been enough rounds. -/
  | full {reply} : m.ceilingReached = true → reply.round? = none → Resumes cancelled reply m.stop
  /-- The answer is to something else. -/
  | ignored {reply} : (∀ v, reply = .view (.ok v) → m.phase.awaitsModel = false) →
      (∀ r, reply = .receipt (.ok r) → ∀ u attempt, m.phase ≠ .submitting u attempt) →
      Resumes cancelled reply m

variable {m} {cancelled : Bool} {reply : Reply}

/-- A step that enters nothing in the books, unless the run is cancelled. -/
theorem Resumes.unlessCancelled {state : CollaboratorState} {phase : Phase}
    (hr : reply.round? = none) (h : m.Resumes cancelled reply (m.enter state phase)) :
    m.Resumes cancelled reply (m.unlessCancelled cancelled (m.enter state phase)) := by
  unfold Machine.unlessCancelled
  split
  · next hc => exact .interrupted hc hr
  · exact h

theorem resumes_join (again : Bool) (hm : m.phase.hasModel = true) (hr : reply.round? = none) :
    m.Resumes cancelled reply (m.join cancelled again) :=
  .unlessCancelled hr (.went hm hr rfl nofun)

theorem resumes_beginRound (hm : m.phase.hasModel = true) (hr : reply.round? = none) :
    m.Resumes cancelled reply (m.beginRound cancelled) := by
  unfold beginRound
  split
  · next hc => exact .full hc hr
  · exact .unlessCancelled hr (.went hm hr rfl nofun)

theorem resumes_afterRefusal {e : FederationError} (hm : m.phase.hasModel = true) :
    m.Resumes cancelled (.receipt (.error e)) (m.afterRefusal cancelled e) := by
  unfold afterRefusal
  split
  · exact .went hm rfl rfl nofun
  · exact resumes_join false hm rfl
  · exact .failed rfl

theorem resumes_afterLostFetch {e : FederationError} (purpose : FetchPurpose)
    (hm : m.phase.hasModel = true) :
    m.Resumes cancelled (.view (.error e)) (m.afterLostFetch cancelled purpose e) := by
  unfold afterLostFetch
  split
  · exact resumes_join true hm rfl
  · exact .failed rfl
  · split
    · exact .went hm rfl rfl nofun
    · exact .failed rfl
  · exact .failed rfl

/-- **An answer comes to nothing else.** -/
theorem resumes_resume (m : Machine) (cancelled : Bool) (reply : Reply) :
    m.Resumes cancelled reply (m.resume cancelled reply) := by
  -- a phase is what tells whether there is a model
  have hasModel : ∀ {phase : Phase}, m.phase = phase → phase.hasModel = true →
      m.phase.hasModel = true := fun hp h => hp ▸ h
  unfold resume
  split
  case h_1 hp => exact .observed (by rw [hp]; rfl)
  case h_2 => exact .failed rfl
  case h_3 hp => exact .went (hasModel hp rfl) rfl rfl nofun
  case h_4 hp => exact resumes_beginRound (hasModel hp rfl) rfl
  case h_5 => exact .failed rfl
  case h_6 hp => exact .went (hasModel hp rfl) rfl rfl nofun
  case h_7 => exact .failed rfl
  case h_8 hp => exact .unlessCancelled rfl (.went (hasModel hp rfl) rfl rfl nofun)
  case h_9 => exact .failed rfl
  case h_10 update hp =>
    refine .unlessCancelled rfl (.went (hasModel hp rfl) rfl rfl fun u hu => ?_)
    exact Or.inr ⟨update, (Option.some.inj hu).symm⟩
  case h_11 => exact .failed rfl
  case h_12 hp => exact .accepted hp
  case h_13 hp =>
    split
    · exact .went (hasModel hp rfl) rfl rfl fun u hu => Or.inl (by rw [hp]; exact hu)
    · exact resumes_afterRefusal (hasModel hp rfl)
  case h_14 hp => exact .went (hasModel hp rfl) rfl rfl fun u hu => Or.inl (by rw [hp]; exact hu)
  case h_15 hp => exact .went (hasModel hp rfl) rfl rfl nofun
  case h_16 hp => exact .observed (by rw [hp]; rfl)
  case h_17 purpose attempt e hp =>
    split
    · exact .went (hasModel hp rfl) rfl rfl nofun
    · exact resumes_afterLostFetch purpose (hasModel hp rfl)
  case h_18 hp => exact .went (hasModel hp rfl) rfl rfl nofun
  case h_19 hjoin _ _ _ _ _ _ _ _ _ _ haccept _ _ _ hfetch _ _ =>
    refine .ignored (fun v hv => ?_) fun r hr u attempt hp => haccept u attempt r hp hr
    cases hp : m.phase with
    | joining again => exact (hjoin again v hp hv).elim
    | fetching purpose attempt => exact (hfetch purpose attempt v hp hv).elim
    | _ => rfl

/-! ## Accepted updates -/

/-- The machine that has heard of an accepted update. -/
def counting (m : Machine) (r : SubmitReceipt) : Machine :=
  { m with lastRound := max m.lastRound r.round }.countRound

/-- In step with the others, an update for another round than the last one is counted. -/
theorem countRound_cases (hmode : m.config.mode = .sync) :
    (m.countedRound = some m.modelRound ∧ m.countRound = m) ∨
    (m.countedRound ≠ some m.modelRound ∧
      m.countRound =
        { m with countedRound := some m.modelRound, roundsCompleted := bump m.roundsCompleted }) := by
  unfold countRound
  rw [hmode, if_neg (by decide)]
  split
  · next hc => exact Or.inl ⟨hc, rfl⟩
  · next hc => exact Or.inr ⟨hc, rfl⟩

theorem counting_cases (r : SubmitReceipt) (hmode : m.config.mode = .sync) :
    (m.countedRound = some m.modelRound ∧
      m.counting r = { m with lastRound := max m.lastRound r.round }) ∨
    (m.countedRound ≠ some m.modelRound ∧
      m.counting r = { m with
        lastRound := max m.lastRound r.round, countedRound := some m.modelRound,
        roundsCompleted := bump m.roundsCompleted }) :=
  countRound_cases (m := { m with lastRound := max m.lastRound r.round }) hmode

theorem counting_config (r : SubmitReceipt) : (m.counting r).config = m.config :=
  countRound_config _

theorem counting_model (r : SubmitReceipt) : (m.counting r).model = m.model := by
  unfold counting countRound
  split
  · rfl
  · split <;> rfl

theorem counting_phase (r : SubmitReceipt) : (m.counting r).phase = m.phase := by
  unfold counting countRound
  split
  · rfl
  · split <;> rfl

theorem afterSubmit_eq (m : Machine) (cancelled : Bool) (r : SubmitReceipt) :
    m.afterSubmit cancelled r =
      if (m.counting r).ceilingReached then (m.counting r).stop
      else (m.counting r).unlessCancelled cancelled
        (if (m.counting r).config.mode.isAsync then (m.counting r).refresh
          else (m.counting r).enter .waiting .pausing) := rfl

/-- After an accepted update a run is over, or goes on with the books as they are then. -/
theorem afterSubmit_cases (m : Machine) (cancelled : Bool) (r : SubmitReceipt) :
    ((m.counting r).ceilingReached = true ∨ cancelled = true) ∧
      m.afterSubmit cancelled r = (m.counting r).stop ∨
    (m.counting r).ceilingReached = false ∧ ∃ state phase,
      phase.hasModel = true ∧ phase.sends? = none ∧
      m.afterSubmit cancelled r = (m.counting r).enter state phase := by
  rw [afterSubmit_eq]
  cases hceiling : (m.counting r).ceilingReached with
  | true => exact Or.inl ⟨Or.inl rfl, rfl⟩
  | false =>
    cases cancelled with
    | true => exact Or.inl ⟨Or.inr rfl, rfl⟩
    | false =>
      refine Or.inr ⟨rfl, ?_⟩
      cases (m.counting r).config.mode.isAsync with
      | true => exact ⟨_, _, rfl, rfl, rfl⟩
      | false => exact ⟨_, _, rfl, rfl, rfl⟩

end Machine

end Federation
