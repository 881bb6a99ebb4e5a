/-
  Who is told that an aggregation failed.

  An update is looked into only when its round is aggregated, and the one who is told is the one
  whose update completed the round.

  * `firstFault`: the first fault among the last updates of everyone who sent any;
  * `aggregation_error_iff`: a member is told of a failed aggregation iff its update completes the
    round and one of the updates of the round, its own or another's, has a fault;
  * `sound_update_refused`: a member whose own update has none is told so.
-/
import Federation.Proofs.Round.Failure
import Federation.Proofs.Round.SyncRound

namespace Federation

/-- The first fault among the last updates of everyone who sent any, in the order of first
arrival. -/
def firstFault (n : Nat) (accepted : List (String × ModelUpdate)) : Option AggregationError :=
  (arrivals accepted).findSome? fun k => (latestOf k accepted).bind fun u => faultOf n k u.model

/-- What a round aggregates has the faults of what was accepted. -/
theorem Collects.faultIn_eq {accepted : List (String × ModelUpdate)} {slots : List PendingSlot}
    (h : Collects accepted slots) (n : Nat) :
    faultIn n (roundContributions slots) = firstFault n accepted := by
  have hslot : ∀ slot ∈ slots, faultOf n slot.collaborator slot.update.model =
      (latestOf slot.collaborator accepted).bind (faultOf n slot.collaborator ·.model) :=
    fun slot hs => by rw [h.latest slot hs, Option.bind_some]
  rw [firstFault, ← h.order, List.findSome?_map, faultIn, roundContributions, List.findSome?_map,
    ← List.head?_filterMap, ← List.head?_filterMap]
  exact congrArg List.head? (List.filterMap_congr hslot)

/-- The fault is in the update of somebody who sent one. -/
theorem exists_of_firstFault {n : Nat} {accepted : List (String × ModelUpdate)}
    {err : AggregationError} (h : firstFault n accepted = some err) :
    ∃ k u, latestOf k accepted = some u ∧ faultOf n k u.model = some err := by
  obtain ⟨k, -, hk⟩ := List.exists_of_findSome?_eq_some h
  obtain ⟨u, hu, hfault⟩ := Option.bind_eq_some_iff.1 hk
  exact ⟨k, u, hu, hfault⟩

namespace RoundEngine

/-- A member is told of a failed aggregation iff its update completes the round and one of the
updates of the round has a fault; and nothing has changed then. -/
theorem Gathers.submit_eq_error_iff {events : List Event} {e : RoundEngine Strategy}
    (h : Gathers events e) {n : Nat} (hne : e.state.model ≠ [])
    (hn : e.state.model.length = 4 * n) {id : String} (hm : e.isMember id = true) (now : Nat)
    (u : ModelUpdate) (err : AggregationError) :
    (e.submit now id u).1 = .error (.aggregation err) ↔
      e.isLate u = none ∧
        (∀ m, e.isMember m = true →
          m ∈ (acceptedIn (openEvents events) ++ [(id, u)]).map (·.1)) ∧
        firstFault n (acceptedIn (openEvents events) ++ [(id, u)]) = some err := by
  have hcollects := h.collects.mergeSlot id u
  have hfull := pending_full_iff h.consistent now id u
  simp only [enrolled_of_isMember hm, hcollects.mem_ids] at hfull
  have hfault : ∀ s, AggregationStrategy.aggregate e.state.strategy e.state.model
      (roundContributions (mergeSlot id u e.state.pending)) = (.error err, s) ↔
        firstFault n (acceptedIn (openEvents events) ++ [(id, u)]) = some err ∧
          s = e.state.strategy := by
    intro s
    rw [← hcollects.faultIn_eq]
    exact Strategy.aggregate_error_iff hn hne (by simp [roundContributions, mergeSlot_ne_nil])
  rw [← hfull]
  have hs := h.consistent.settles h.mode hm now u
  generalize e.submit now id u = r at hs ⊢
  obtain ⟨result, e'⟩ := r
  simp only at hs ⊢
  cases hs with
  | late hl => simp [hl]
  | waits hl hlt => simp [Nat.not_le.2 hlt]
  | spoils hl hle hag =>
    simp only [Except.error.injEq, FederationError.aggregation.injEq, hl, hle, true_and]
    constructor
    · rintro rfl
      exact ((hfault _).1 hag).1
    · intro hf
      have := hag.symm.trans ((hfault _).2 ⟨hf, rfl⟩)
      exact Except.error.inj (Prod.mk.inj this).1
  | completes hl hle hag =>
    simp only [reduceCtorEq, hl, hle, true_and, false_iff]
    intro hf
    have := hag.symm.trans ((hfault _).2 ⟨hf, rfl⟩)
    cases (Prod.mk.inj this).1

/-- **Who is told of a failed aggregation.**  Take any calls on a new synchronous engine with a
built-in strategy, and an update of a member when the current model holds `n` weights.  The member
is told that the aggregation failed iff its update is not late, everyone has an update in the round
with it, and one of these has a fault; the first fault is told, and nothing has changed.  When its
own update has `n` weights, the fault is in an accepted update of somebody else. -/
theorem aggregation_error_iff (start : Nat) (membership : MembershipPolicy)
    (expected : List String) (model : Blob) (strategy : Strategy)
    (calls : List (Nat × RoundCall)) (now : Nat) (id : String) (u : ModelUpdate) (n : Nat) :
    let first := RoundEngine.create start ⟨.sync, membership, expected⟩ model strategy
    let e := first.after calls
    let accepted := acceptedIn (openEvents (first.history calls).1)
    let r := e.submit now id u
    e.state.model ≠ [] → e.state.model.length = 4 * n → e.isMember id = true → ∀ err,
      (r.1 = .error (.aggregation err) ↔ e.isLate u = none ∧
        (∀ m, e.isMember m = true → m ∈ (accepted ++ [(id, u)]).map (·.1)) ∧
        firstFault n (accepted ++ [(id, u)]) = some err) ∧
      (r.1 = .error (.aggregation err) → r.2 = e ∧
        (u.model.length = 4 * n → ∃ other w, other ≠ id ∧ latestOf other accepted = some w ∧
          faultOf n other w.model = some err)) := by
  intro first e accepted r hne hn hm err
  have hg : Gathers (first.history calls).1 e := by
    simpa using (Gathers.create start membership expected model strategy).history calls
  have hiff := hg.submit_eq_error_iff hne hn hm now u err
  refine ⟨hiff, fun hr => ⟨?_, fun hown => ?_⟩⟩
  · have ht := e.transition_submit now id u
    rw [hr] at ht
    rcases ht.of_error with ⟨-, he⟩ | ⟨_, _, hcall, hunknown, -⟩
    · exact he
    · cases hcall
      rw [hm] at hunknown
      cases hunknown
  · obtain ⟨other, w, hw, hfault⟩ := exists_of_firstFault (hiff.1 hr).2.2
    rw [latestOf_append] at hw
    split at hw
    · next h =>
      cases hw
      rw [faultOf_eq_none.2 hown] at hfault
      cases hfault
    · next h => exact ⟨other, w, fun he => h he.symm, hw, hfault⟩

/-- The same, told by who is to blame. -/
theorem blame_of_one :
    let first := RoundEngine.create 0 ⟨.sync, .default, []⟩ [0, 0, 0, 0] Strategy.fedAvg
    let calls := [(0, RoundCall.join "a"), (1, .join "b"), (2, .submit "a" (.ofModel [1, 2, 3]))]
    let e := first.after calls
    let u : ModelUpdate := .ofModel [0, 0, 128, 63]
    e.state.model ≠ [] ∧ e.state.model.length = 4 * 1 ∧ e.isMember "b" = true ∧
      (e.submit 3 "b" u).1 = .error (.aggregation (.malformedBlob 3)) ∧
      (e.submit 3 "b" u).2 = e ∧ ∃ other w, other ≠ "b" ∧
        latestOf other (acceptedIn (openEvents (first.history calls).1)) = some w ∧
        faultOf 1 other w.model = some (.malformedBlob 3) := by
  intro first calls e u
  have hr : (e.submit 3 "b" u).1 = .error (.aggregation (.malformedBlob 3)) := by decide +kernel
  obtain ⟨hsame, hother⟩ := (aggregation_error_iff 0 .default [] [0, 0, 0, 0] Strategy.fedAvg calls
    3 "b" u 1 (by decide +kernel) (by decide +kernel) (by decide +kernel) (.malformedBlob 3)).2 hr
  exact ⟨by decide +kernel, by decide +kernel, by decide +kernel, hr, hsame, hother rfl⟩

/-- A member whose update is as long as the model is told that somebody else's has three bytes. -/
theorem sound_update_refused :
    let e := (RoundEngine.create 0 ⟨.sync, .default, []⟩ [0, 0, 0, 0, 0, 0, 0, 0]
      Strategy.mean).after
        [(0, .join "a"), (1, .join "b"), (2, .submit "a" (.ofModel [1, 2, 3]))]
    let u : ModelUpdate := .ofModel [0, 0, 128, 63, 0, 0, 128, 63]
    e.isMember "b" = true ∧ e.state.model.length = 4 * 2 ∧ u.model.length = 4 * 2 ∧
      (e.submit 3 "b" u).1 = .error (.aggregation (.malformedBlob 3)) := by
  decide +kernel

end RoundEngine

end Federation
