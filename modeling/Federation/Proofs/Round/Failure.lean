/-
  What a failed call leaves behind.

  A call that fails changes nothing, with one exception: an update whose sender is registered on the
  spot, and which is then refused as stale or spoils the aggregation, leaves its sender registered.

  * `RegistersSender`: the calls of this kind;
  * `failed_call_state`: the state after a failed call is the state before it iff the call is not of
    this kind, and what the state is when it is;
  * `malformed_update_registers_sender`: an update of three bytes from a stranger.
-/
import Federation.Proofs.Aggregation.Outcome
import Federation.Proofs.Round.Invariant

namespace Federation

namespace RoundEngine

variable {σ : Type}

/-- An update that registers its sender before it is looked at. -/
def RegistersSender (e : RoundEngine σ) (call : RoundCall) : Prop :=
  ∃ id u, call = .submit id u ∧ e.isMember id = false ∧ e.Admitted id

/-- A refused call registers nobody. -/
theorem Refusal.not_registersSender {e : RoundEngine σ} {call : RoundCall} {err : FederationError}
    (h : e.Refusal call err) : ¬ e.RegistersSender call := by
  rintro ⟨id, u, rfl, hm, hadm⟩
  have hk : e.rules.membership.autoRegister = true ∧ e.rules.mayJoin id = .ok () :=
    hadm.known.resolve_left (by simp [hm])
  cases h with
  | sender hv => rw [hadm.valid] at hv; cases hv
  | unknownSender _ _ ha => rw [hk.1] at ha; cases ha
  | deniedSender _ _ _ hj => rw [hk.2] at hj; cases hj

theorem enrolled_of_not_isMember {e : RoundEngine σ} {id : String} (h : e.isMember id = false)
    (now : Nat) :
    e.enrolled now id = e.setMembers (e.state.members.insert id (.joining now)) :=
  if_neg (by simp [h])

/-- Registering a stranger takes one more update to close the round. -/
theorem size_enrolled_of_not_isMember {e : RoundEngine σ} {id : String}
    (h : e.isMember id = false) (now : Nat) :
    (e.enrolled now id).state.members.size = e.state.members.size + 1 := by
  rw [enrolled_of_not_isMember h]
  exact NameMap.size_insert_of_not_contains h _

theorem withStrategy_self (e : RoundEngine σ) : e.withStrategy e.state.strategy = e := rfl

/-- A failed call leaves the engine as it was, but for a sender it has registered. -/
theorem Transition.of_error {e e' : RoundEngine Strategy} {now : Nat} {call : RoundCall}
    {err : FederationError} (ht : e.Transition now call (.error err) e') :
    (¬ e.RegistersSender call ∧ e' = e) ∨
      ∃ id u, call = .submit id u ∧ e.isMember id = false ∧ e.Admitted id ∧
        e' = e.enrolled now id := by
  have sent : ∀ {id u}, e.Admitted id → e' = e.enrolled now id →
      (¬ e.RegistersSender (.submit id u) ∧ e' = e) ∨
        ∃ id' u', RoundCall.submit id u = .submit id' u' ∧ e.isMember id' = false ∧
          e.Admitted id' ∧ e' = e.enrolled now id' := by
    intro id u hadm he
    cases hm : e.isMember id with
    | false => exact Or.inr ⟨id, u, rfl, hm, hadm, he⟩
    | true =>
      refine Or.inl ⟨?_, by rw [he, enrolled_of_isMember hm]⟩
      rintro ⟨_, _, hc, hm', -⟩
      cases hc
      rw [hm] at hm'; cases hm'
  cases ht with
  | refused hr => exact Or.inl ⟨hr.not_registersSender, rfl⟩
  | stale hadm => exact sent hadm rfl
  | spoiled hadm _ _ hag =>
    have hs := Strategy.strategy_of_aggregate_error hag
    refine sent hadm ?_
    rw [hs, ← enrolled_strategy e now, withStrategy_self]
  | jammed hc _ _ hag =>
    have hs := Strategy.strategy_of_aggregate_error hag
    refine Or.inl ⟨?_, by rw [hs, withStrategy_self]⟩
    rintro ⟨_, _, rfl, -⟩
    cases hc

/-- **A failed call changes nothing, unless it has registered its sender.**  In that case the state
differs in the new member alone, and the round needs one more update to close. -/
theorem failed_call_state {e : RoundEngine Strategy} {now : Nat} {call : RoundCall}
    {err : FederationError} (h : (e.perform now call).1 = .error err) :
    ((e.perform now call).2.state = e.state ↔ ¬ e.RegistersSender call) ∧
    (e.RegistersSender call → ∃ id u, call = .submit id u ∧ e.isMember id = false ∧
      (e.perform now call).2 = e.setMembers (e.state.members.insert id (.joining now)) ∧
      (e.perform now call).2.state.members.size = e.state.members.size + 1) := by
  have ht := e.transition_perform now call
  rw [h] at ht
  rcases ht.of_error with ⟨hn, he⟩ | ⟨id, u, rfl, hm, hadm, he⟩
  · exact ⟨⟨fun _ => hn, fun _ => by rw [he]⟩, fun hr => absurd hr hn⟩
  · have hsize := size_enrolled_of_not_isMember hm now
    refine ⟨⟨fun hs => ?_, fun hn => absurd ⟨id, u, rfl, hm, hadm⟩ hn⟩, fun _ => ?_⟩
    · rw [he] at hs
      rw [hs] at hsize
      omega
    · rw [he]
      exact ⟨id, u, rfl, hm, enrolled_of_not_isMember hm now, hsize⟩

/-- The first update of a stranger, three bytes that are no weights, leaves the stranger behind. -/
theorem malformed_update_registers_sender :
    let e := RoundEngine.create 0 ⟨.sync, ⟨false, true⟩, []⟩ [0, 0, 0, 0, 0, 0, 0, 0] Strategy.mean
    let r := e.perform 0 (.submit "b" (.ofModel [1, 2, 3]))
    r.1 = .error (.aggregation (.malformedBlob 3)) ∧ r.2.state ≠ e.state ∧
      e.isMember "b" = false ∧ r.2.isMember "b" = true ∧
      e.state.members.size = 0 ∧ r.2.state.members.size = 1 := by
  intro e r
  have hsize : e.state.members.size = 0 ∧ r.2.state.members.size = 1 := by decide +kernel
  refine ⟨by decide +kernel, fun hs => ?_, by decide +kernel, by decide +kernel, hsize⟩
  rw [hs] at hsize
  omega

/-- A member's malformed update changes nothing at all. -/
theorem failed_call_state_of_member :
    let e := (RoundEngine.create 0 ⟨.sync, ⟨false, true⟩, []⟩ [0, 0, 0, 0] Strategy.mean).after
      [(0, .join "a")]
    let call := RoundCall.submit "a" (.ofModel [1, 2, 3])
    (e.perform 1 call).1 = .error (.aggregation (.malformedBlob 3)) ∧
      ¬ e.RegistersSender call ∧ (e.perform 1 call).2.state = e.state := by
  intro e call
  have h : (e.perform 1 call).1 = .error (.aggregation (.malformedBlob 3)) := by decide +kernel
  have hn : ¬ e.RegistersSender call := by
    rintro ⟨id, u, hc, hm, -⟩
    obtain ⟨rfl, -⟩ := RoundCall.submit.inj hc
    exact absurd hm (by decide +kernel)
  exact ⟨h, hn, (failed_call_state h).1.2 hn⟩

end RoundEngine

end Federation
