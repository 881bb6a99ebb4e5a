/-
  What one call can do to a round engine.

  * `enrolled`, `holding`, `advanced`, `withStrategy`: the engines a call can leave behind;
  * `Refusal`: the calls that are turned away before anything happens, and the errors they get;
  * `Hands`: the contributions an update makes the engine aggregate;
  * `Transition`: everything a call can come to, one constructor for each way;
  * `transition_perform`: every call is one of these transitions;
  * `Polls`: what one step of a long poll can do to the engine.
-/
import Federation.Proofs.NameMap
import Federation.Round.History
import Federation.Round.LongPoll

namespace Federation

/-- A call that brings an update. -/
def RoundCall.isSubmit : RoundCall → Bool
  | .submit _ _ => true
  | _ => false

namespace RoundEngine

variable {σ : Type}

/-! ## Engines left behind -/

/-- The engine with the sender of an update registered. -/
def enrolled (e : RoundEngine σ) (now : Nat) (id : String) : RoundEngine σ :=
  if e.isMember id then e else e.setMembers (e.state.members.insert id (.joining now))

/-- The engine with an update in its slot of the open round. -/
def holding (e : RoundEngine σ) (now : Nat) (id : String) (u : ModelUpdate) : RoundEngine σ :=
  { e with
    state := { e.state with
      pending := mergeSlot id u e.state.pending
      firstPendingAt := some (e.state.firstPendingAt.getD now) } }

/-- The engine with the strategy as an aggregation leaves it. -/
def withStrategy (e : RoundEngine σ) (s : σ) : RoundEngine σ :=
  { e with state := { e.state with strategy := s } }

/-- The engine with the next round opened by a model. -/
def advanced (e : RoundEngine σ) (now : Nat) (model : Blob) (s : σ) : RoundEngine σ :=
  { e with state := { e.state with strategy := s }.advance now model }

/-- The engine with its round announced. -/
def announced (e : RoundEngine σ) : RoundEngine σ := { e with state := e.state.announce }

/-- The engine with the caller's record touched by a join. -/
def welcomed (e : RoundEngine σ) (now : Nat) (id : String) : RoundEngine σ :=
  e.setMembers
    (e.state.members.insert id (((e.state.members.find? id).getD (.joining now)).seen now))

/-- The engine with the caller's record touched by a reading. -/
def noticed (e : RoundEngine σ) (now : Nat) (id : String) : RoundEngine σ :=
  e.setMembers (e.state.members.modify id (Member.seen now))

section
variable (e : RoundEngine σ) (now : Nat) (id : String)

@[simp] theorem enrolled_rules : (e.enrolled now id).rules = e.rules := by
  unfold enrolled; split <;> rfl

@[simp] theorem enrolled_round : (e.enrolled now id).state.round = e.state.round := by
  unfold enrolled; split <;> rfl

@[simp] theorem enrolled_version : (e.enrolled now id).state.version = e.state.version := by
  unfold enrolled; split <;> rfl

@[simp] theorem enrolled_model : (e.enrolled now id).state.model = e.state.model := by
  unfold enrolled; split <;> rfl

@[simp] theorem enrolled_pending : (e.enrolled now id).state.pending = e.state.pending := by
  unfold enrolled; split <;> rfl

@[simp] theorem enrolled_strategy : (e.enrolled now id).state.strategy = e.state.strategy := by
  unfold enrolled; split <;> rfl

@[simp] theorem enrolled_firstPendingAt :
    (e.enrolled now id).state.firstPendingAt = e.state.firstPendingAt := by
  unfold enrolled; split <;> rfl

end

theorem enrolled_of_isMember {e : RoundEngine σ} {id : String} (h : e.isMember id = true)
    (now : Nat) : e.enrolled now id = e := if_pos h

/-! ## Transitions -/

/-- Calls that are turned away before anything happens. -/
inductive Refusal (e : RoundEngine σ) : RoundCall → FederationError → Prop where
  | joiner {id err} : e.rules.mayJoin id = .error err → Refusal e (.join id) err
  | sender {id u err} : validateIdentity id = .error err → Refusal e (.submit id u) err
  | unknownSender {id u} : validateIdentity id = .ok () → e.isMember id = false →
      e.rules.membership.autoRegister = false →
      Refusal e (.submit id u) (.unknownCollaborator id)
  | deniedSender {id u err} : validateIdentity id = .ok () → e.isMember id = false →
      e.rules.membership.autoRegister = true → e.rules.mayJoin id = .error err →
      Refusal e (.submit id u) err
  | reader {id err} : validateIdentity id = .error err → Refusal e (.latest id) err
  | unknownReader {id} : validateIdentity id = .ok () → e.isMember id = false →
      Refusal e (.latest id) (.unknownCollaborator id)

/-- An identity whose update is looked at: it is registered, or may be on the spot. -/
structure Admitted (e : RoundEngine σ) (id : String) : Prop where
  valid : validateIdentity id = .ok ()
  known : e.isMember id = true ∨
    e.rules.membership.autoRegister = true ∧ e.rules.mayJoin id = .ok ()

/-- The base round for which an update is refused as stale. -/
def staleBase (e : RoundEngine σ) (u : ModelUpdate) : Option Nat :=
  match e.rules.mode with
  | .sync => e.isLate u
  | .async limit => e.tooStale limit u

/-- The contributions an update makes the engine aggregate. -/
inductive Hands (e : RoundEngine σ) (id : String) (u : ModelUpdate) : List Contribution → Prop where
  | complete : e.rules.mode = .sync →
      e.state.members.size ≤ (mergeSlot id u e.state.pending).length →
      Hands e id u (roundContributions (mergeSlot id u e.state.pending))
  | single {limit} : e.rules.mode = .async limit →
      Hands e id u [⟨id, u.model, u.sampleCount, e.staleness u⟩]

/-- A call that closes the open round when it can: always, or once the round is overdue. -/
inductive Closing (e : RoundEngine σ) (now : Nat) : RoundCall → Prop where
  | forced : Closing e now .forceClose
  | overdue {timeout} : e.isOverdue now timeout = true → Closing e now (.closeIfOverdue timeout)

/-- The engine an update meets, or why it meets none. -/
theorem enroll_cases (e : RoundEngine σ) (now : Nat) {id : String}
    (hv : validateIdentity id = .ok ()) :
    (e.Admitted id ∧ e.enroll now id = (.ok (), e.enrolled now id)) ∨
      ∃ err, (∀ u, e.Refusal (.submit id u) err) ∧ e.enroll now id = (.error err, e) := by
  unfold enroll
  cases hm : e.isMember id with
  | true => exact Or.inl ⟨⟨hv, Or.inl hm⟩, by simp [enrolled, hm]⟩
  | false =>
    cases ha : e.rules.membership.autoRegister with
    | false =>
      exact Or.inr ⟨_, fun u => .unknownSender hv hm ha, by simp [refuse]⟩
    | true =>
      cases hj : e.rules.mayJoin id with
      | error err => exact Or.inr ⟨err, fun u => .deniedSender hv hm ha hj, by simp [refuse]⟩
      | ok => exact Or.inl ⟨⟨hv, Or.inr ⟨ha, hj⟩⟩, by simp [enrolled, hm]⟩

theorem staleBase_enrolled (e : RoundEngine σ) (now : Nat) (id : String) (u : ModelUpdate) :
    (e.enrolled now id).staleBase u = e.staleBase u := by
  simp [staleBase, isLate, tooStale]

variable [AggregationStrategy σ]

/-- Everything a call can come to. -/
inductive Transition (e : RoundEngine σ) (now : Nat) :
    RoundCall → Except FederationError RoundAnswer → RoundEngine σ → Prop where
  | refused {call err} : Refusal e call err → Transition e now call (.error err) e
  | joined {id} : e.rules.mayJoin id = .ok () →
      Transition e now (.join id) (.ok (.joined ⟨e.state.view, !e.isMember id⟩))
        (e.welcomed now id)
  | shown {id} : validateIdentity id = .ok () → e.isMember id = true →
      Transition e now (.latest id) (.ok (.shown e.state.view)) (e.noticed now id)
  | stale {id u base} : e.Admitted id → e.staleBase u = some base →
      Transition e now (.submit id u) (.error (.staleUpdate base e.state.round))
        (e.enrolled now id)
  | held {id u} : e.Admitted id → e.staleBase u = none → e.rules.mode = .sync →
      (mergeSlot id u e.state.pending).length < (e.enrolled now id).state.members.size →
      Transition e now (.submit id u)
        (.ok (.submitted ⟨e.state.round, none, (mergeSlot id u e.state.pending).length⟩))
        (((e.enrolled now id).holding now id u).credit now id false)
  | spoiled {id u cs err s} : e.Admitted id → e.staleBase u = none →
      (e.enrolled now id).Hands id u cs →
      AggregationStrategy.aggregate e.state.strategy e.state.model cs = (.error err, s) →
      Transition e now (.submit id u) (.error (.aggregation err))
        ((e.enrolled now id).withStrategy s)
  | completed {id u cs model s} : e.Admitted id → e.staleBase u = none →
      (e.enrolled now id).Hands id u cs →
      AggregationStrategy.aggregate e.state.strategy e.state.model cs = (.ok model, s) →
      Transition e now (.submit id u)
        (.ok (.submitted ⟨bump e.state.round,
          some ⟨model, bump e.state.round, bump e.state.version⟩, 0⟩))
        (((e.enrolled now id).advanced now model s).credit now id true)
  | passed {call} : call = .forceClose ∨ (∃ timeout, call = .closeIfOverdue timeout) →
      (¬ e.Closing now call ∨ e.rules.mode.isAsync = true ∨ e.state.pending = []) →
      Transition e now call (.ok (.closing none)) e
  | jammed {call err s} : e.Closing now call → e.rules.mode = .sync → e.state.pending ≠ [] →
      AggregationStrategy.aggregate e.state.strategy e.state.model
        (roundContributions e.state.pending) = (.error err, s) →
      Transition e now call (.error (.aggregation err)) (e.withStrategy s)
  | closed {call model s} : e.Closing now call → e.rules.mode = .sync → e.state.pending ≠ [] →
      AggregationStrategy.aggregate e.state.strategy e.state.model
        (roundContributions e.state.pending) = (.ok model, s) →
      Transition e now call
        (.ok (.closing (some ⟨model, bump e.state.round, bump e.state.version⟩)))
        (e.advanced now model s).announced

/-! ## Every call is a transition -/

/-- An aggregation moves on to the next round, or leaves its mark on the strategy alone. -/
theorem aggregate_cases (e : RoundEngine σ) (now : Nat) (cs : List Contribution) :
    (∃ model s, AggregationStrategy.aggregate e.state.strategy e.state.model cs = (.ok model, s) ∧
      e.aggregate now cs = (.ok ⟨model, bump e.state.round, bump e.state.version⟩,
        e.advanced now model s)) ∨
    ∃ err s, AggregationStrategy.aggregate e.state.strategy e.state.model cs = (.error err, s) ∧
      e.aggregate now cs = (.error (.aggregation err), e.withStrategy s) := by
  unfold aggregate
  rcases h : AggregationStrategy.aggregate e.state.strategy e.state.model cs with ⟨r, s⟩
  cases r with
  | error err => exact Or.inr ⟨err, s, rfl, rfl⟩
  | ok model => exact Or.inl ⟨model, s, rfl, rfl⟩

/-- What becomes of an update once its sender is known. -/
theorem submitByMode_cases (e : RoundEngine σ) (now : Nat) (id : String) (u : ModelUpdate) :
    (∃ base, e.staleBase u = some base ∧
      e.submitByMode now id u = (.error (.staleUpdate base e.state.round), e)) ∨
    (e.staleBase u = none ∧ e.rules.mode = .sync ∧
      (mergeSlot id u e.state.pending).length < e.state.members.size ∧
      e.submitByMode now id u = (.ok none, e.holding now id u)) ∨
    (e.staleBase u = none ∧ ∃ cs, e.Hands id u cs ∧
      e.submitByMode now id u = ((e.aggregate now cs).1.map some, (e.aggregate now cs).2)) := by
  unfold submitByMode
  cases hmode : e.rules.mode with
  | sync =>
    unfold submitSync
    cases hl : e.isLate u with
    | some base => exact Or.inl ⟨base, by simp [staleBase, hmode, hl], rfl⟩
    | none =>
      have hs : e.staleBase u = none := by simp [staleBase, hmode, hl]
      by_cases hlt : (mergeSlot id u e.state.pending).length < e.state.members.size
      · exact Or.inr (Or.inl ⟨hs, rfl, hlt, by simp only [if_pos hlt]; rfl⟩)
      · exact Or.inr (Or.inr ⟨hs, _, .complete hmode (Nat.le_of_not_lt hlt),
          by simp only [if_neg hlt]⟩)
  | async limit =>
    cases hl : e.tooStale limit u with
    | some base =>
      exact Or.inl ⟨base, by simp [staleBase, hmode, hl], by simp only [submitAsync, hl]; rfl⟩
    | none =>
      have hs : e.staleBase u = none := by simp [staleBase, hmode, hl]
      exact Or.inr (Or.inr ⟨hs, _, .single hmode, by simp only [submitAsync, hl]⟩)

theorem transition_submit (e : RoundEngine σ) (now : Nat) (id : String) (u : ModelUpdate) :
    e.Transition now (.submit id u) ((e.submit now id u).1.map .submitted)
      (e.submit now id u).2 := by
  unfold submit
  cases hv : validateIdentity id with
  | error err => exact .refused (.sender hv)
  | ok =>
    rcases e.enroll_cases now hv with ⟨hadm, he⟩ | ⟨err, hr, he⟩
    swap
    · rw [he]; exact .refused (hr u)
    rw [he]
    have hstale := e.staleBase_enrolled now id u
    rcases (e.enrolled now id).submitByMode_cases now id u with
      ⟨base, hs, h⟩ | ⟨hs, hmode, hlt, h⟩ | ⟨hs, cs, hcs, h⟩
    · simp only [h]
      rw [enrolled_round]
      exact .stale hadm (hstale ▸ hs)
    · simp only [h, Except.map]
      rw [enrolled_rules] at hmode
      rw [enrolled_pending] at hlt
      have := Transition.held hadm (hstale ▸ hs) hmode hlt
      simpa [credit, holding, setMembers] using this
    · rcases (e.enrolled now id).aggregate_cases now cs with ⟨model, s, hag, ha⟩ | ⟨err, s, hag, ha⟩
      · rw [ha] at h
        simp only [h, Except.map]
        rw [enrolled_strategy, enrolled_model] at hag
        have := Transition.completed hadm (hstale ▸ hs) hcs hag
        simpa [credit, advanced, setMembers, RoundState.advance, RoundState.announce] using this
      · rw [ha] at h
        simp only [h, Except.map]
        rw [enrolled_strategy, enrolled_model] at hag
        exact .spoiled hadm (hstale ▸ hs) hcs hag

theorem transition_forceClose {e : RoundEngine σ} {now : Nat} {call : RoundCall}
    (hc : e.Closing now call) :
    e.Transition now call ((e.forceClose now).1.map .closing) (e.forceClose now).2 := by
  have hcall : call = .forceClose ∨ ∃ timeout, call = .closeIfOverdue timeout := by
    cases hc with
    | forced => exact Or.inl rfl
    | overdue => exact Or.inr ⟨_, rfl⟩
  unfold forceClose
  split
  · next h =>
    rw [Bool.or_eq_true, List.isEmpty_iff] at h
    exact .passed hcall (Or.inr h)
  · next h =>
    simp only [Bool.or_eq_true, List.isEmpty_iff, not_or] at h
    have hmode : e.rules.mode = .sync := by
      cases hm : e.rules.mode with
      | sync => rfl
      | async => simp [hm, CoordinationMode.isAsync] at h
    rcases e.aggregate_cases now (roundContributions e.state.pending) with
      ⟨model, s, hag, ha⟩ | ⟨err, s, hag, ha⟩
    · rw [ha]; exact .closed hc hmode h.2 hag
    · rw [ha]; exact .jammed hc hmode h.2 hag

/-- **Every call is one of the transitions.** -/
theorem transition_perform (e : RoundEngine σ) (now : Nat) (call : RoundCall) :
    e.Transition now call (e.perform now call).1 (e.perform now call).2 := by
  cases call with
  | join id =>
    simp only [perform, perform.wrap, join]
    cases h : e.rules.mayJoin id with
    | error err => exact .refused (.joiner h)
    | ok => exact .joined h
  | submit id u => exact e.transition_submit now id u
  | latest id =>
    simp only [perform, perform.wrap, latest]
    cases hv : validateIdentity id with
    | error err => exact .refused (.reader hv)
    | ok =>
      cases hm : e.isMember id with
      | false => exact .refused (.unknownReader hv hm)
      | true => exact .shown hv hm
  | forceClose => exact transition_forceClose .forced
  | closeIfOverdue timeout =>
    simp only [perform, perform.wrap, closeIfOverdue]
    split
    · next h => exact transition_forceClose (.overdue h)
    · next h =>
      refine .passed (Or.inr ⟨timeout, rfl⟩) (Or.inl fun hc => ?_)
      cases hc with
      | overdue ho => exact h ho

end RoundEngine

/-! ## Long polls -/

section
variable {σ : Type}

/-- What a step of a long poll does: it reads the model, or nothing at all. -/
inductive Polls (e : RoundEngine σ) (now : Nat) (id : String) :
    LongPollPhase → LongPollPhase → RoundEngine σ → Prop
  | waited {phase phase'} : (∀ r, phase' = .finished r → phase = .finished r) →
      Polls e now id phase phase' e
  | read {phase phase' r e'} : e.latest now id = (r, e') →
      (∀ r', phase' = .finished r' → r' = r) → Polls e now id phase phase' e'

theorem LongPoll.polls_step (poll : LongPoll) (clock now : Nat) (e : RoundEngine σ)
    (phase : LongPollPhase) :
    Polls e now poll.id phase (poll.step clock now e phase).1 (poll.step clock now e phase).2 := by
  cases phase with
  | reading =>
    rcases hl : e.latest now poll.id with ⟨error | v, e'⟩
    · simp only [LongPoll.step, hl]
      exact .read hl fun r' hr => by cases hr; rfl
    · simp only [LongPoll.step, hl]
      refine .read hl fun r' hr => ?_
      split at hr <;> cases hr
      rfl
  | subscribing => exact .waited fun r hr => by cases hr
  | waiting deadline =>
    simp only [LongPoll.step]
    split <;> exact .waited fun r hr => by cases hr
  | rereading => exact .read rfl fun r' hr => by cases hr; rfl
  | finished result => exact .waited fun r hr => hr

end

end Federation
