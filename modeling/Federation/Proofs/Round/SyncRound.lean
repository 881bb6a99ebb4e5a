/-
  What a synchronous round is made of.

  The open round is read off the calls alone: the events since the last one that closed a round, and
  the updates accepted among them.

  * `openEvents`, `acceptedIn`: these events, and these updates;
  * `Gathers`: the pending slots hold exactly the updates accepted in the open round;
  * `Gathers.transition`: a call keeps this;
  * `pending_full_iff`: there are as many slots as members iff every member has one;
  * `Settles`, `Consistent.settles`: what becomes of the update of a member;
  * `sync_round_refinement`: a round closes with exactly the accepted updates, and a submission
    closes it iff it is the last one that was missing.
-/
import Federation.Proofs.Round.Invariant

namespace Federation

namespace RoundEngine

/-! ## The open round, by events -/

/-- Did the call close a round? -/
def Event.closes (ev : Event) : Bool :=
  match ev.result with
  | .ok answer => answer.closed?.isSome
  | .error _ => false

/-- The update the call got accepted. -/
def Event.accepted? (ev : Event) : Option (String × ModelUpdate) :=
  match ev.call, ev.result with
  | .submit id u, .ok _ => some (id, u)
  | _, _ => none

/-- The events since the last one that closed a round. -/
def openEvents (events : List Event) : List Event := events.rtakeWhile fun ev => !ev.closes

/-- The updates accepted in the course of events, with their identities. -/
def acceptedIn (events : List Event) : List (String × ModelUpdate) :=
  events.filterMap Event.accepted?

/-- A call that is answered with no new model closes no round. -/
theorem Event.closes_eq_false {now : Nat} {call : RoundCall}
    {r : Except FederationError RoundAnswer}
    (h : ∀ answer, r = .ok answer → answer.closed? = none) :
    Event.closes ⟨now, call, r⟩ = false := by
  cases r with
  | error err => rfl
  | ok answer => simp [closes, h answer rfl]

theorem openEvents_append (events : List Event) (ev : Event) :
    openEvents (events ++ [ev]) = if ev.closes then [] else openEvents events ++ [ev] := by
  unfold openEvents
  cases h : ev.closes with
  | true =>
    simpa using List.rtakeWhile_concat_neg (p := fun ev => !ev.closes) events ev (by simp [h])
  | false =>
    simpa using List.rtakeWhile_concat_pos (p := fun ev => !ev.closes) events ev (by simp [h])

theorem acceptedIn_append (events : List Event) (ev : Event) :
    acceptedIn (events ++ [ev]) = acceptedIn events ++ ev.accepted?.toList := by
  unfold acceptedIn
  rw [List.filterMap_append]
  cases h : ev.accepted? <;> simp [h]

variable {σ : Type}

/-! ## Slots hold what was accepted -/

/-- The pending slots hold exactly the updates accepted in the open round. -/
structure Gathers (events : List Event) (e : RoundEngine σ) : Prop where
  mode : e.rules.mode = .sync
  collects : Collects (acceptedIn (openEvents events)) e.state.pending
  consistent : e.Consistent

theorem Gathers.create (now : Nat) (membership : MembershipPolicy) (expected : List String)
    (model : Blob) (strategy : σ) :
    Gathers [] (RoundEngine.create now ⟨.sync, membership, expected⟩ model strategy) :=
  ⟨rfl, Collects.nil, .create ..⟩

/-- The updates of the open round after one more event. -/
theorem acceptedIn_openEvents_append (events : List Event) (ev : Event) :
    acceptedIn (openEvents (events ++ [ev])) =
      if ev.closes then [] else acceptedIn (openEvents events) ++ ev.accepted?.toList := by
  rw [openEvents_append]
  split
  · rfl
  · exact acceptedIn_append ..

/-- With one more update there are as many slots as members iff every member has one. -/
theorem pending_full_iff {e : RoundEngine σ} (h : e.Consistent) (now : Nat) (id : String)
    (u : ModelUpdate) :
    (e.enrolled now id).state.members.size ≤ (mergeSlot id u e.state.pending).length ↔
      ∀ m, (e.enrolled now id).isMember m = true →
        m ∈ (mergeSlot id u e.state.pending).map (·.collaborator) := by
  have hreg : ∀ m ∈ (mergeSlot id u e.state.pending).map (·.collaborator),
      (e.enrolled now id).state.members.contains m = true := by
    intro m hm
    obtain ⟨slot, hs, rfl⟩ := List.mem_map.1 hm
    rcases (mem_mergeSlot h.distinct).1 hs with rfl | ⟨hs, -⟩
    · exact isMember_enrolled_self e now id
    · have := h.registered slot hs
      exact (isMember_enrolled e now id slot.collaborator).trans (by simp [this])
  have hlt := NameMap.length_lt_size_iff (nodup_mergeSlot h.distinct) hreg
  rw [List.length_map] at hlt
  rw [← Nat.not_lt, hlt]
  push Not
  rfl

variable [AggregationStrategy σ]

namespace Gathers

variable {events : List Event} {e e' : RoundEngine σ} {now : Nat} {call : RoundCall}
  {r : Except FederationError RoundAnswer}

theorem transition (h : Gathers events e) (ht : e.Transition now call r e') :
    Gathers (events ++ [⟨now, call, r⟩]) e' where
  mode := by rw [ht.rules, h.mode]
  consistent := h.consistent.transition ht
  collects := by
    rw [acceptedIn_openEvents_append]
    have keep : Collects (acceptedIn (openEvents events) ++ []) e.state.pending := by
      rw [List.append_nil]; exact h.collects
    cases ht with
    | refused => simpa [Event.closes, Event.accepted?] using keep
    | joined => exact keep
    | shown => exact keep
    | stale => simpa [Event.closes, Event.accepted?] using keep
    | held => simpa [Event.closes, Event.accepted?, RoundAnswer.closed?, holding] using
        h.collects.mergeSlot _ _
    | spoiled => simpa [Event.closes, Event.accepted?, withStrategy] using keep
    | completed => simpa [Event.closes, RoundAnswer.closed?, RoundEngine.advanced,
        RoundState.advance] using Collects.nil
    | passed hcall =>
      rcases hcall with rfl | ⟨timeout, rfl⟩ <;> exact keep
    | jammed => simpa [Event.closes, Event.accepted?, withStrategy] using keep
    | closed => exact Collects.nil

/-- From a new engine on, the slots hold what was accepted. -/
theorem history (h : Gathers events e) (calls : List (Nat × RoundCall)) :
    Gathers (events ++ (e.history calls).1) (e.after calls) := by
  induction calls generalizing events e with
  | nil => simpa [RoundEngine.history] using h
  | cons c calls ih =>
    have := ih (h.transition (e.transition_perform c.1 c.2))
    simpa [RoundEngine.history] using this

end Gathers

/-! ## Updates of members -/

/-- What becomes of the update of a member: it is late, it waits in its slot, or every member has an
update with it and the strategy is asked. -/
inductive Settles (e : RoundEngine σ) (now : Nat) (id : String) (u : ModelUpdate) :
    Except FederationError SubmitOutcome → RoundEngine σ → Prop
  | late {base} : e.isLate u = some base →
      Settles e now id u (.error (.staleUpdate base e.state.round)) e
  | waits : e.isLate u = none →
      (mergeSlot id u e.state.pending).length < e.state.members.size →
      Settles e now id u (.ok ⟨e.state.round, none, (mergeSlot id u e.state.pending).length⟩)
        ((e.holding now id u).credit now id false)
  | spoils {err s} : e.isLate u = none →
      e.state.members.size ≤ (mergeSlot id u e.state.pending).length →
      AggregationStrategy.aggregate e.state.strategy e.state.model
        (roundContributions (mergeSlot id u e.state.pending)) = (.error err, s) →
      Settles e now id u (.error (.aggregation err)) (e.withStrategy s)
  | completes {model s} : e.isLate u = none →
      e.state.members.size ≤ (mergeSlot id u e.state.pending).length →
      AggregationStrategy.aggregate e.state.strategy e.state.model
        (roundContributions (mergeSlot id u e.state.pending)) = (.ok model, s) →
      Settles e now id u
        (.ok ⟨bump e.state.round, some ⟨model, bump e.state.round, bump e.state.version⟩, 0⟩)
        ((e.advanced now model s).credit now id true)

theorem Consistent.settles {e : RoundEngine σ} (hc : e.Consistent) (hmode : e.rules.mode = .sync)
    {id : String} (hm : e.isMember id = true) (now : Nat) (u : ModelUpdate) :
    e.Settles now id u (e.submit now id u).1 (e.submit now id u).2 := by
  have hstale : e.staleBase u = e.isLate u := by simp [staleBase, hmode]
  have henroll : e.enroll now id = (.ok (), e) := if_pos hm
  unfold submit
  rw [validateIdentity_of_mayJoin (hc.admitted id hm), henroll]
  simp only
  rcases e.submitByMode_cases now id u with ⟨base, hs, h⟩ | ⟨hs, -, hlt, h⟩ | ⟨hs, cs, hcs, h⟩
  · rw [h]
    exact .late (hstale ▸ hs)
  · rw [h]
    exact .waits (hstale ▸ hs) hlt
  · cases hcs with
    | single hasync => rw [hmode] at hasync; cases hasync
    | complete _ hle =>
      rw [h]
      rcases e.aggregate_cases now (roundContributions (mergeSlot id u e.state.pending)) with
        ⟨model, s, hag, ha⟩ | ⟨err, s, hag, ha⟩
      · rw [ha]
        exact .completes (hstale ▸ hs) hle hag
      · rw [ha]
        exact .spoils (hstale ▸ hs) hle hag

/-! ## Refinement -/

/-- **Refinement of synchronous rounds.**  Whatever is called on a new synchronous engine: when a
call closes the round, the strategy gets exactly the updates accepted since the last close, that
call's own included; and an accepted submission closes the round iff with it every member has an
accepted update in the round.  The strategy is any, also one that keeps a record of what it gets. -/
theorem sync_round_refinement (start : Nat) (membership : MembershipPolicy)
    (expected : List String) (model : Blob) (strategy : σ) (calls : List (Nat × RoundCall))
    (now : Nat) (call : RoundCall) :
    let first := RoundEngine.create start ⟨.sync, membership, expected⟩ model strategy
    let e := first.after calls
    let r := e.perform now call
    let accepted := acceptedIn (openEvents (first.history calls).1 ++ [⟨now, call, r.1⟩])
    (∀ answer v, r.1 = .ok answer → answer.closed? = some v →
      ∃ cs, IsRound accepted cs ∧
        AggregationStrategy.aggregate e.state.strategy e.state.model cs =
          (.ok v.model, r.2.state.strategy)) ∧
    (∀ id u outcome, call = .submit id u → r.1 = .ok (.submitted outcome) →
      (outcome.closed.isSome = true ↔
        ∀ m, r.2.isMember m = true → m ∈ accepted.map (·.1))) := by
  intro first e r accepted
  have hg : Gathers (first.history calls).1 e := by
    simpa using (Gathers.create start membership expected model strategy).history calls
  have ht : e.Transition now call r.1 r.2 := e.transition_perform now call
  have haccepted : accepted = acceptedIn (openEvents (first.history calls).1) ++
      (Event.accepted? ⟨now, call, r.1⟩).toList := acceptedIn_append ..
  clear_value accepted r
  obtain ⟨result, e'⟩ := r
  simp only at ht haccepted ⊢
  refine ⟨fun answer v hr hv => ?_, fun id u outcome hcall hr => ?_⟩
  · subst hr
    cases ht with
    | joined | shown | held | passed => simp [RoundAnswer.closed?] at hv
    | completed _ _ hcs hag =>
      cases hcs with
      | single hmode => rw [enrolled_rules, hg.mode] at hmode; cases hmode
      | complete =>
        simp only [RoundAnswer.closed?, Option.some.injEq] at hv
        subst hv
        rw [enrolled_pending] at hag
        refine ⟨_, ?_, by rw [hag, credit_strategy]; rfl⟩
        rw [haccepted]
        exact (hg.collects.mergeSlot _ _).isRound
    | closed hc _ _ hag =>
      simp only [RoundAnswer.closed?, Option.some.injEq] at hv
      subst hv
      refine ⟨_, ?_, hag⟩
      rw [haccepted]
      cases hc <;> simpa [Event.accepted?] using hg.collects.isRound
  · subst hcall hr
    have hids : ∀ m, m ∈ (mergeSlot id u e.state.pending).map (·.collaborator) ↔
        m ∈ accepted.map (·.1) := by
      intro m; rw [haccepted]; exact (hg.collects.mergeSlot id u).mem_ids
    have hfull := pending_full_iff hg.consistent now id u
    simp only [hids] at hfull
    cases ht with
    | held _ _ _ hlt =>
      simp only [Option.isSome_none, Bool.false_eq_true, false_iff, isMember_credit]
      exact fun hall => absurd (hfull.2 hall) (Nat.not_le.2 hlt)
    | completed _ _ hcs =>
      cases hcs with
      | single hmode => rw [enrolled_rules, hg.mode] at hmode; cases hmode
      | complete _ hle =>
        rw [enrolled_pending] at hle
        simp only [Option.isSome_some, true_iff, isMember_credit]
        exact hfull.1 hle

/-- Two members, one of whom sends twice: the second update stands in the place of the first. -/
theorem sync_round_of_two :
    let first := RoundEngine.create 0 ⟨.sync, .default, []⟩ [] Strategy.mean
    let one := ModelUpdate.ofModel [0, 0, 128, 63]
    let two := ModelUpdate.ofModel [0, 0, 0, 64]
    let calls := [(0, .join "a"), (1, .join "b"), (2, .submit "b" one), (3, .submit "b" two)]
    let e := first.after calls
    let r := e.perform 4 (.submit "a" one)
    r.1 = .ok (.submitted ⟨2, some ⟨[0, 0, 192, 63], 2, 2⟩, 0⟩) ∧
      ∃ cs, IsRound [("b", one), ("b", two), ("a", one)] cs ∧
        AggregationStrategy.aggregate e.state.strategy e.state.model cs =
          (.ok [0, 0, 192, 63], r.2.state.strategy) := by
  intro first one two calls e r
  have hr : r.1 = .ok (.submitted ⟨2, some ⟨[0, 0, 192, 63], 2, 2⟩, 0⟩) := by decide +kernel
  have haccepted : acceptedIn (openEvents (first.history calls).1 ++
      [⟨4, .submit "a" one, r.1⟩]) = [("b", one), ("b", two), ("a", one)] := by decide +kernel
  have h := (sync_round_refinement 0 .default [] [] Strategy.mean calls 4 (.submit "a" one)).1
    _ ⟨[0, 0, 192, 63], 2, 2⟩ hr rfl
  rw [haccepted] at h
  refine ⟨hr, ?_⟩
  with_reducible exact h

end RoundEngine

end Federation
