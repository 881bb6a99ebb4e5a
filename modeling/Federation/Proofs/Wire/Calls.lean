/-
  The calls of a client, over the wire and in the same process.

  * `Transition.travels`: every error of the engine comes through the wire as what it is;
  * `ModelUpdate.Built`, `toUpdate_ofUpdate_iff`: the updates that can be built come through too;
  * `Client.join_agrees`, `Client.submit_agrees`, `Client.latest_agrees`: the engine is left the
    same, and the client gets the same answer.
-/
import Federation.Proofs.Disk.Program
import Federation.Proofs.Round.Models
import Federation.Proofs.Wire.Errors
import Federation.Collaborator.Direct
import Federation.Wire.Client

namespace Federation

/-! ## Errors of the engine -/

theorem travels_of_validateIdentity {id : String} {err : FederationError}
    (h : validateIdentity id = .error err) : err.Travels := by
  unfold validateIdentity at h
  split_ifs at h <;> cases h <;> trivial

theorem travels_of_mayJoin {rules : RoundRules} {id : String} {err : FederationError}
    (h : rules.mayJoin id = .error err) : err.Travels := by
  unfold RoundRules.mayJoin at h
  split at h
  · next e hv =>
    cases h
    exact travels_of_validateIdentity hv
  · split at h <;> cases h
    trivial

namespace RoundEngine

variable {σ : Type} {e e' : RoundEngine σ} {now : Nat} {call : RoundCall}

theorem Refusal.travels {err : FederationError} (h : e.Refusal call err) : err.Travels := by
  cases h with
  | joiner hj | deniedSender _ _ _ hj => exact travels_of_mayJoin hj
  | sender hv | reader hv => exact travels_of_validateIdentity hv
  | unknownSender | unknownReader => trivial

theorem lt_of_staleBase {u : ModelUpdate} {base : Nat} (h : e.staleBase u = some base) :
    base < e.state.round := by
  unfold staleBase at h
  split at h
  · unfold isLate at h
    split at h
    · next b _ =>
      split at h <;> cases h
      assumption
    · cases h
  · unfold tooStale at h
    split at h
    · split at h <;> cases h
      omega
    · cases h

variable [AggregationStrategy σ]

/-- Every error of the engine comes through the wire as what it is. -/
theorem Transition.travels {err : FederationError} (ht : e.Transition now call (.error err) e')
    (hround : e.state.round < counterLimit) : err.Travels := by
  cases ht with
  | refused hr => exact hr.travels
  | stale _ hs => exact ⟨(lt_of_staleBase hs).trans hround, hround⟩
  | spoiled | jammed => trivial

theorem travels_of_perform (e : RoundEngine σ) (now : Nat) (call : RoundCall)
    {err : FederationError} (h : (e.perform now call).1 = .error err)
    (hround : e.state.round < counterLimit) : err.Travels := by
  have ht := e.transition_perform now call
  rw [h] at ht
  exact ht.travels hround

/-- Rounds stay in the range of the counter. -/
theorem Transition.round_lt {r : Except FederationError RoundAnswer}
    (ht : e.Transition now call r e') (hround : e.state.round < counterLimit) :
    e'.state.round < counterLimit := by
  cases ht.renews with
  | left hview | failed _ hview =>
    have h : e'.state.round = e.state.round := congrArg ModelView.round hview
    rw [h]
    exact hround
  | renewed _ hview =>
    have h : e'.state.round = bump e.state.round := congrArg ModelView.round hview
    rw [h]
    exact Nat.mod_lt _ (by decide)

theorem round_lt_step (poll : LongPoll) (clock now : Nat) (phase : LongPollPhase)
    (hround : e.state.round < counterLimit) :
    (poll.step clock now e phase).2.state.round < counterLimit := by
  have hp := poll.polls_step clock now e phase
  generalize poll.step clock now e phase = next at hp
  obtain ⟨phase', e'⟩ := next
  cases hp with
  | waited => exact hround
  | read hl =>
    have ht := e.transition_perform now (.latest poll.id)
    simp only [perform, perform.wrap, hl] at ht
    exact ht.round_lt hround

end RoundEngine

/-! ## Updates -/

namespace ModelUpdate

/-- The updates that can be built. -/
inductive Built : ModelUpdate → Prop
  | ofModel (model : Blob) : Built (.ofModel model)
  | trainedOn {u} (round : Nat) : Built u → Built (u.trainedOn round)
  | withSamples {u} (samples : Nat) : Built u → Built (u.withSamples samples)

theorem Built.baseRound_ne {u : ModelUpdate} (h : u.Built) : u.baseRound ≠ some 0 := by
  induction h with
  | ofModel => simp [ModelUpdate.ofModel]
  | trainedOn round =>
    simp only [ModelUpdate.trainedOn]
    split
    · simp
    · next hr => simpa using hr
  | withSamples _ _ ih => exact ih

end ModelUpdate

namespace Wire

/-- A message tells everything about an update, unless its base round is a zero that is known. -/
theorem UpdateMessage.toUpdate_ofUpdate_iff (id : String) (u : ModelUpdate) :
    (UpdateMessage.ofUpdate id u).toUpdate = u ↔ u.baseRound ≠ some 0 := by
  obtain ⟨model, base, samples⟩ := u
  cases base with
  | none => simp [ofUpdate, toUpdate, ModelUpdate.ofModel, ModelUpdate.trainedOn,
      ModelUpdate.withSamples]
  | some base =>
    simp only [ofUpdate, toUpdate, ModelUpdate.ofModel, ModelUpdate.trainedOn,
      ModelUpdate.withSamples, Option.getD_some]
    by_cases hb : base = 0 <;> simp [hb]

end Wire

/-! ## Calls -/

namespace FederationService

variable {σ : Type} (s : FederationService σ)

theorem publishClosed_run (v : ModelView) (t : Disk.Tree) (faults : Disk.Faults) :
    (s.publishClosed (some v)).run t faults =
      ({ s with publisher := ((s.publisher.publish v).run t faults).1 },
        ((s.publisher.publish v).run t faults).2) := by
  have hpublish : s.publishClosed (some v) =
      (s.publisher.publish v).bind fun p => .done { s with publisher := p } := rfl
  rw [hpublish, Disk.Program.run_bind]
  rfl

theorem publishClosed_engine (closed : Option ModelView) (t : Disk.Tree) (faults : Disk.Faults) :
    ((s.publishClosed closed).run t faults).1.engine = s.engine := by
  cases closed with
  | none => rfl
  | some v => rw [publishClosed_run]

variable [AggregationStrategy σ]

/-- Whatever the disk does, the answer to an update is what the engine says. -/
theorem submit_run (now : Nat) (m : Wire.UpdateMessage) (t : Disk.Tree) (faults : Disk.Faults) :
    ((s.submit now m).run t faults).1.1 =
        ((s.engine.submit now m.collaboratorId m.toUpdate).1.map submitAck).mapError
          Wire.Status.ofError ∧
      ((s.submit now m).run t faults).1.2.engine =
        (s.engine.submit now m.collaboratorId m.toUpdate).2 := by
  unfold submit
  rcases s.engine.submit now m.collaboratorId m.toUpdate with ⟨err | o, e⟩
  · exact ⟨rfl, rfl⟩
  · have hbind : (do return (Except.ok (submitAck o),
        ← ({ s with engine := e } : FederationService σ).publishClosed o.closed)) =
        (({ s with engine := e } : FederationService σ).publishClosed o.closed).bind fun s =>
          Disk.Program.done ((Except.ok (submitAck o) : Except Wire.Status Wire.SubmitAck), s) := rfl
    simp only [hbind, Disk.Program.run_bind]
    exact ⟨rfl, publishClosed_engine { s with engine := e } o.closed t faults⟩

end FederationService

namespace Wire.Client

variable {σ : Type}

/-- No long poll waits so long that the cut would tell. -/
theorem longPoll_step (clock now : Nat) (e : RoundEngine σ) (id : String) (minRound wait : Nat)
    (phase : LongPollPhase) :
    (longPoll id minRound wait).step clock now e phase =
      (⟨id, minRound, wait⟩ : LongPoll).step clock now e phase := by
  have hzero : min wait (counterLimit - 1) = 0 ↔ wait = 0 := by
    unfold counterLimit
    omega
  have hcut : min (min wait (counterLimit - 1)) maxWait = min wait maxWait := by
    unfold counterLimit maxWait
    omega
  have hsatisfied : ∀ v, (longPoll id minRound wait).satisfiedBy v =
      (⟨id, minRound, wait⟩ : LongPoll).satisfiedBy v := fun v => by
    simp only [longPoll, FederationService.longPoll, GetModelRequest.ofWait, LongPoll.satisfiedBy]
    exact congrArg _ (decide_eq_decide.2 hzero)
  cases phase with
  | reading =>
    simp only [LongPoll.step, hsatisfied]
    rfl
  | subscribing => simp only [longPoll, FederationService.longPoll, GetModelRequest.ofWait,
      LongPoll.step, hcut]
  | waiting | rereading | finished => rfl

variable [AggregationStrategy σ] (s : FederationService σ) (now : Nat) (id : String)

theorem join_agrees (hround : s.engine.state.round < counterLimit) :
    (join s now id).2.engine = (s.engine.joinDirectly now id).2 ∧
      SameAnswer (s.engine.joinDirectly now id).1 (join s now id).1 := by
  have htravels : ∀ err, (s.engine.join now id).1 = .error err → err.Travels := fun err he =>
    s.engine.travels_of_perform now (.join id) (congrArg (Except.map RoundAnswer.joined) he) hround
  exact ⟨rfl, sameAnswer_of_status (fun _ => rfl) htravels⟩

theorem submit_agrees (hround : s.engine.state.round < counterLimit) {u : ModelUpdate}
    (hu : u.Built) (t : Disk.Tree) (faults : Disk.Faults) :
    ((submit s now id u).run t faults).1.2.engine = (s.engine.submitDirectly now id u).2 ∧
      SameAnswer (s.engine.submitDirectly now id u).1 ((submit s now id u).run t faults).1.1 := by
  have htravels : ∀ err, (s.engine.submit now id u).1 = .error err → err.Travels := fun err he =>
    s.engine.travels_of_perform now (.submit id u) (congrArg (Except.map RoundAnswer.submitted) he)
      hround
  have hbind : submit s now id u = (s.submit now (.ofUpdate id u)).bind fun r =>
      .done (submitted r.1, r.2) := rfl
  obtain ⟨hanswer, hengine⟩ := s.submit_run now (.ofUpdate id u) t faults
  rw [(UpdateMessage.toUpdate_ofUpdate_iff id u).2 hu.baseRound_ne] at hanswer hengine
  rw [hbind, Disk.Program.run_bind]
  refine ⟨hengine, ?_⟩
  simp only [Disk.Program.run]
  rw [hanswer]
  exact sameAnswer_of_status (fun _ => rfl) htravels

/-- What ends a long poll is told over the wire as it is. -/
theorem latest_agrees {e : RoundEngine σ} (hround : e.state.round < counterLimit)
    {minRound wait clock : Nat} {phase : LongPollPhase} (hphase : phase.result? = none)
    {result : Except FederationError ModelView}
    (h : ((⟨id, minRound, wait⟩ : LongPoll).step clock now e phase).1.result? = some result) :
    SameAnswer result (latest result) := by
  have hfinished : ∀ {phase : LongPollPhase}, phase.result? = some result →
      phase = .finished result := by
    intro phase hr
    cases phase <;> cases hr
    rfl
  have hp := (⟨id, minRound, wait⟩ : LongPoll).polls_step clock now e phase
  generalize (⟨id, minRound, wait⟩ : LongPoll).step clock now e phase = next at h hp
  obtain ⟨phase', e'⟩ := next
  obtain rfl := hfinished h
  cases hp with
  | waited hw =>
    rw [hw _ rfl] at hphase
    cases hphase
  | read hl hr =>
    have htravels : ∀ err, result = .error err → err.Travels := fun err he => by
      refine e.travels_of_perform now (.latest id) ?_ hround
      simp only [RoundEngine.perform, RoundEngine.perform.wrap, hl, ← hr _ rfl, he]
      rfl
    have hsame := sameAnswer_of_status (f := fun v => v) (g := ModelSnapshot.ofView)
      (h := ModelSnapshot.view) (fun _ => rfl) htravels
    have hid : result.map (fun v => v) = result := by cases result <;> rfl
    rw [hid] at hsame
    exact hsame

end Wire.Client

end Federation
