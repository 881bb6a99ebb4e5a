/-
  How long the open round has waited for the rest of its members.

  A synchronous round is closed without them once its first update has waited long enough.  When
  that update came is read off the calls alone: it is the first one that was accepted since the last
  call that closed a round.

  * `waitingSince`: when it came;
  * `Transition.clock`: a call that closes a round stops the clock, and an accepted update starts it
    unless it runs already; nothing else touches it;
  * `firstPendingAt_after`: the clock shows when the first update of the open round came;
  * `Forced`, `Consistent.closeIfOverdue_cases`: what comes of closing a round by force, and when
    that is done;
  * `straggler_clock`: which rounds are closed for their age, whatever was called before.
-/
import Federation.Proofs.Aggregation.Outcome
import Federation.Proofs.Round.SyncRound

namespace Federation

namespace RoundEngine

/-! ## The clock, by events -/

/-- When the first update that was accepted in the open round came. -/
def waitingSince (events : List Event) : Option Nat :=
  ((openEvents events).find? (·.accepted?.isSome)).map (·.now)

theorem waitingSince_append (events : List Event) (ev : Event) :
    waitingSince (events ++ [ev]) =
      if ev.closes then none
      else (waitingSince events).or (if ev.accepted?.isSome then some ev.now else none) := by
  unfold waitingSince
  rw [openEvents_append]
  split
  · rfl
  · rw [List.find?_append, List.find?_singleton]
    cases (openEvents events).find? (·.accepted?.isSome) with
    | some first => rfl
    | none => split <;> rfl

/-- It came with one of the events. -/
theorem mem_of_waitingSince {events : List Event} {t₀ : Nat} (h : waitingSince events = some t₀) :
    t₀ ∈ events.map (·.now) := by
  obtain ⟨ev, hev, rfl⟩ := Option.map_eq_some_iff.1 h
  exact List.mem_map_of_mem ((List.rtakeWhile_suffix _ _).mem (List.mem_of_find?_eq_some hev))

variable {σ : Type} [AggregationStrategy σ]

/-- Events have the times of the calls. -/
theorem map_now_history (e : RoundEngine σ) (calls : List (Nat × RoundCall)) :
    (e.history calls).1.map (·.now) = calls.map (·.1) := by
  induction calls generalizing e with
  | nil => rfl
  | cons c calls ih => simp [history, ih]

/-! ## The clock of the engine -/

theorem Transition.clock {e e' : RoundEngine σ} {now : Nat} {call : RoundCall}
    {r : Except FederationError RoundAnswer} (ht : e.Transition now call r e') :
    e'.state.firstPendingAt =
      if Event.closes ⟨now, call, r⟩ then none
      else e.state.firstPendingAt.or
        (if (Event.accepted? ⟨now, call, r⟩).isSome then some now else none) := by
  cases ht with
  | refused | stale | spoiled | jammed => simp [Event.closes, Event.accepted?, withStrategy]
  | joined | shown =>
    simp [Event.closes, Event.accepted?, RoundAnswer.closed?, welcomed, noticed, setMembers]
  | passed hcall =>
    rcases hcall with rfl | ⟨timeout, rfl⟩ <;>
      simp [Event.closes, Event.accepted?, RoundAnswer.closed?]
  | held =>
    simp only [Event.closes, Event.accepted?, RoundAnswer.closed?, holding, credit_firstPendingAt,
      enrolled_firstPendingAt, Option.isSome_none, Option.isSome_some, Bool.false_eq_true, if_true,
      if_false]
    cases e.state.firstPendingAt <;> rfl
  | completed => simp [Event.closes, RoundAnswer.closed?, RoundEngine.advanced, RoundState.advance]
  | closed => rfl

/-- A call that leaves the round open leaves a clock that runs alone. -/
theorem Transition.clock_of_open {e e' : RoundEngine σ} {now : Nat} {call : RoundCall}
    {r : Except FederationError RoundAnswer} (ht : e.Transition now call r e')
    (hopen : Event.closes ⟨now, call, r⟩ = false) (hruns : e.state.firstPendingAt.isSome = true) :
    e'.state.firstPendingAt = e.state.firstPendingAt := by
  obtain ⟨t₀, ht₀⟩ := Option.isSome_iff_exists.1 hruns
  rw [ht.clock, hopen, ht₀]
  rfl

/-- A call that closes the round leaves nothing pending. -/
theorem Transition.pending_of_closes {e e' : RoundEngine σ} {now : Nat} {call : RoundCall}
    {r : Except FederationError RoundAnswer} (ht : e.Transition now call r e')
    (hcloses : Event.closes ⟨now, call, r⟩ = true) : e'.state.pending = [] := by
  cases ht with
  | refused | stale | spoiled | jammed => cases hcloses
  | joined | shown | held | passed => cases hcloses
  | completed => simp [RoundEngine.advanced, RoundState.advance]
  | closed => rfl

/-- The clock shows when the first update of the open round came. -/
theorem firstPendingAt_after (start : Nat) (rules : RoundRules) (model : Blob) (strategy : σ)
    (calls : List (Nat × RoundCall)) :
    let first := RoundEngine.create start rules model strategy
    (first.after calls).state.firstPendingAt = waitingSince (first.history calls).1 :=
  history_induction (P := fun events e => e.state.firstPendingAt = waitingSince events) rfl
    (fun h ht => by rw [ht.clock, h, waitingSince_append]) calls

/-! ## Closing by force -/

/-- What comes of closing the open round with what is pending: the strategy makes the model of the
next round of it, or fails, which leaves a mark on the strategy alone. -/
inductive Forced (e : RoundEngine σ) (now : Nat) : Result σ (Option ModelView) → Prop
  | closed {model s} :
      AggregationStrategy.aggregate e.state.strategy e.state.model
        (roundContributions e.state.pending) = (.ok model, s) →
      Forced e now (.ok (some ⟨model, bump e.state.round, bump e.state.version⟩),
        (e.advanced now model s).announced)
  | failed {err s} :
      AggregationStrategy.aggregate e.state.strategy e.state.model
        (roundContributions e.state.pending) = (.error err, s) →
      Forced e now (.error (.aggregation err), e.withStrategy s)

section
variable {e : RoundEngine σ} {now : Nat}

theorem not_forced_none (e' : RoundEngine σ) : ¬ e.Forced now (.ok none, e') := nofun

/-- A failure leaves the engine as it was, if it leaves the strategy so. -/
theorem Forced.of_error {r : Result σ (Option ModelView)} (h : e.Forced now r)
    (hsafe : AggregationStrategy.FailsSafely σ) {err : FederationError} (herr : r.1 = .error err) :
    r.2 = e := by
  cases h with
  | closed => cases herr
  | failed hag =>
    obtain rfl := hsafe _ _ _ _ _ hag
    rfl

theorem forced_forceClose (hmode : e.rules.mode = .sync) (hp : e.state.pending ≠ []) :
    e.Forced now (e.forceClose now) := by
  have hopen : (e.rules.mode.isAsync || e.state.pending.isEmpty) = false := by
    simp [hmode, CoordinationMode.isAsync, hp]
  unfold forceClose
  rw [hopen]
  rcases e.aggregate_cases now (roundContributions e.state.pending) with
    ⟨model, s, hag, ha⟩ | ⟨err, s, hag, ha⟩
  · rw [ha]
    exact .closed hag
  · rw [ha]
    exact .failed hag

omit [AggregationStrategy σ] in
theorem isOverdue_iff {timeout : Nat} :
    e.isOverdue now timeout = true ↔
      ∃ t₀, e.state.firstPendingAt = some t₀ ∧ timeout ≤ now - t₀ := by
  unfold isOverdue
  cases e.state.firstPendingAt <;> simp

/-- A round that is overdue is closed by force, and any other one is left alone. -/
theorem Consistent.closeIfOverdue_cases (hc : e.Consistent) (hmode : e.rules.mode = .sync)
    (timeout : Nat) :
    e.isOverdue now timeout = true ∧ e.Forced now (e.closeIfOverdue now timeout) ∨
      e.isOverdue now timeout = false ∧ e.closeIfOverdue now timeout = (.ok none, e) := by
  unfold closeIfOverdue
  cases h : e.isOverdue now timeout with
  | false => exact Or.inr ⟨rfl, rfl⟩
  | true =>
    obtain ⟨t₀, ht₀, -⟩ := isOverdue_iff.1 h
    have hp : e.state.pending ≠ [] := hc.clocked.1 (by rw [ht₀]; rfl)
    exact Or.inl ⟨rfl, forced_forceClose hmode hp⟩

/-- Without rounds to wait for, nothing is ever overdue. -/
theorem Consistent.closeIfOverdue_async (hc : e.Consistent)
    (hmode : e.rules.mode.isAsync = true) (timeout : Nat) :
    e.closeIfOverdue now timeout = (.ok none, e) := by
  have hnone : e.state.firstPendingAt = none := by
    by_contra hsome
    exact hc.clocked.1 (Option.isSome_iff_ne_none.2 hsome) (hc.async hmode)
  simp [closeIfOverdue, isOverdue, hnone]

end

/-- **The clock of stragglers runs with the open round.**  Take any calls on a new engine, at times
that do not decrease.  In step, the round is closed for its age, or the strategy's error is handed
on, just when something is pending and the first update accepted since the last close came at least
the timeout ago; otherwise nothing happens.  What is shown on the clock moves with no call that
leaves the round open, once something is pending, and is gone with every call that closes it.  Out
of step nothing ever happens. -/
theorem straggler_clock (start : Nat) (rules : RoundRules) (model : Blob) (strategy : σ)
    (calls : List (Nat × RoundCall)) (now timeout : Nat)
    (hclock : (calls.map (·.1) ++ [now]).Pairwise (· ≤ ·)) :
    let first := RoundEngine.create start rules model strategy
    let e := first.after calls
    let since := waitingSince (first.history calls).1
    let due := e.state.pending ≠ [] ∧ ∃ t₀, since = some t₀ ∧ t₀ + timeout ≤ now
    let r := e.closeIfOverdue now timeout
    (rules.mode = .sync →
      (e.Forced now r ↔ due) ∧ (¬ due → r = (.ok none, e)) ∧
      (AggregationStrategy.FailsSafely σ → ∀ err, r.1 = .error err → r.2 = e) ∧
      (since.isSome = true ↔ e.state.pending ≠ []) ∧ e.state.firstPendingAt = since ∧
      ∀ time call, let next := e.perform time call
        let closes := Event.closes ⟨time, call, next.1⟩
        (closes = false → e.state.pending ≠ [] →
          next.2.state.firstPendingAt = e.state.firstPendingAt) ∧
        (closes = true → next.2.state.firstPendingAt = none ∧ next.2.state.pending = [])) ∧
    (rules.mode.isAsync = true → r = (.ok none, e)) := by
  intro first e since due r
  have hc : e.Consistent := Reachable.consistent ⟨start, rules, model, strategy, calls, rfl⟩
  have hrules : e.rules = rules := after_rules first calls
  have hsince : e.state.firstPendingAt = since :=
    firstPendingAt_after start rules model strategy calls
  have hpending : since.isSome = true ↔ e.state.pending ≠ [] := hsince ▸ hc.clocked
  -- the clock that was read last shows no time before the one shown here
  have hpast : ∀ t₀, since = some t₀ → t₀ ≤ now := by
    intro t₀ ht₀
    have hmem : t₀ ∈ calls.map (·.1) := map_now_history first calls ▸ mem_of_waitingSince ht₀
    exact (List.pairwise_append.1 hclock).2.2 t₀ hmem now (List.mem_singleton_self now)
  have hdue : e.isOverdue now timeout = true ↔ due := by
    rw [isOverdue_iff, hsince]
    constructor
    · rintro ⟨t₀, ht₀, hle⟩
      have hle' := hpast t₀ ht₀
      exact ⟨hpending.1 (by rw [ht₀]; rfl), t₀, ht₀, by omega⟩
    · rintro ⟨-, t₀, ht₀, hle⟩
      exact ⟨t₀, ht₀, by omega⟩
  refine ⟨fun hmode => ?_, fun hmode => hc.closeIfOverdue_async (hrules ▸ hmode) timeout⟩
  have hcases : e.isOverdue now timeout = true ∧ e.Forced now r ∨
      e.isOverdue now timeout = false ∧ r = (.ok none, e) :=
    hc.closeIfOverdue_cases (hrules ▸ hmode) timeout
  refine ⟨⟨fun hforced => ?_, fun h => ?_⟩, fun h => ?_, fun hsafe err herr => ?_, hpending, hsince,
    fun time call => ⟨fun hopen hp => ?_, fun hcloses => ⟨?_, ?_⟩⟩⟩
  · rcases hcases with ⟨ho, -⟩ | ⟨-, hr⟩
    · exact hdue.1 ho
    · rw [hr] at hforced
      exact absurd hforced (not_forced_none e)
  · rcases hcases with ⟨-, hforced⟩ | ⟨ho, -⟩
    · exact hforced
    · rw [hdue.2 h] at ho
      cases ho
  · rcases hcases with ⟨ho, -⟩ | ⟨-, hr⟩
    · exact absurd (hdue.1 ho) h
    · exact hr
  · rcases hcases with ⟨-, hforced⟩ | ⟨-, hr⟩
    · exact hforced.of_error hsafe herr
    · rw [hr] at herr
      cases herr
  · exact (e.transition_perform time call).clock_of_open hopen (hc.clocked.2 hp)
  · rw [(e.transition_perform time call).clock, if_pos hcloses]
  · exact (e.transition_perform time call).pending_of_closes hcloses

/-- The first of two members brings an update at 10 and another one at 20, and the second one brings
something that is no model.  At 40 the round is closed after 30, and not after 31. -/
theorem straggler_clock_of_two :
    let rules : RoundRules := ⟨.sync, .default, []⟩
    let u := ModelUpdate.ofModel [0, 0, 128, 63]
    let first := RoundEngine.create 0 rules [0, 0, 0, 0] Strategy.mean
    let calls := [(0, .join "a"), (1, .join "b"), (10, .submit "a" u), (20, .submit "a" u),
      (30, .submit "b" (.ofModel [1, 2, 3]))]
    let e := first.after calls
    List.Pairwise (· ≤ ·) (calls.map (·.1) ++ [40]) ∧ rules.mode = .sync ∧
      waitingSince (first.history calls).1 = some 10 ∧
      e.Forced 40 (e.closeIfOverdue 40 30) ∧ e.closeIfOverdue 40 31 = (.ok none, e) := by
  intro rules u first calls e
  have hclock : List.Pairwise (· ≤ ·) (calls.map (·.1) ++ [40]) := by decide
  have hsince : waitingSince (first.history calls).1 = some 10 := by decide +kernel
  have hpending : e.state.pending ≠ [] := by decide +kernel
  have hkey := fun timeout =>
    (straggler_clock 0 rules [0, 0, 0, 0] Strategy.mean calls 40 timeout hclock).1 rfl
  have hfirst : RoundEngine.create 0 rules [0, 0, 0, 0] Strategy.mean = first := rfl
  have he : first.after calls = e := rfl
  simp only [hfirst, he, hsince] at hkey
  refine ⟨hclock, rfl, hsince, (hkey 30).1.2 ⟨hpending, 10, rfl, by decide⟩,
    (hkey 31).2.1 ?_⟩
  rintro ⟨-, t₀, ⟨⟩, hle⟩
  omega

end RoundEngine

end Federation
