/-
  What holds of a round engine whatever is called.

  * `HasSlot`: an identity with an update in the open round;
  * `Consistent`: the slots belong to different members, an open synchronous round misses somebody,
    and everyone who is registered may be;
  * `Consistent.transition`: a call keeps this;
  * `Opening`: nothing was submitted yet;
  * `Reachable`: the engines that calls lead to from a new one;
  * `Reachable.consistent`: all of them are consistent.
-/
import Federation.Proofs.Round.Slots
import Federation.Proofs.Round.Transition

namespace Federation

namespace RoundEngine

variable {σ : Type}

/-! ## Members -/

theorem validateIdentity_of_mayJoin {r : RoundRules} {id : String} (h : r.mayJoin id = .ok ()) :
    validateIdentity id = .ok () := by
  unfold RoundRules.mayJoin at h
  split at h
  · cases h
  · next hv => exact hv

section
variable (e : RoundEngine σ) (now : Nat) (id k : String)

@[simp] theorem isMember_enrolled :
    (e.enrolled now id).isMember k = (decide (k = id) || e.isMember k) := by
  unfold enrolled
  split
  · next h => by_cases hk : k = id <;> simp [hk, h]
  · simp [isMember, setMembers]

theorem isMember_enrolled_self : (e.enrolled now id).isMember id = true := by simp

@[simp] theorem isMember_welcomed :
    (e.welcomed now id).isMember k = (decide (k = id) || e.isMember k) := by
  simp [welcomed, isMember, setMembers]

@[simp] theorem isMember_noticed : (e.noticed now id).isMember k = e.isMember k := by
  simp [noticed, isMember, setMembers]

@[simp] theorem isMember_credit (closed : Bool) :
    (e.credit now id closed).isMember k = e.isMember k := by
  cases closed <;> simp [credit, isMember, setMembers, RoundState.announce]

@[simp] theorem credit_rules (closed : Bool) : (e.credit now id closed).rules = e.rules := by
  cases closed <;> rfl

@[simp] theorem credit_round (closed : Bool) :
    (e.credit now id closed).state.round = e.state.round := by
  cases closed <;> rfl

@[simp] theorem credit_pending (closed : Bool) :
    (e.credit now id closed).state.pending = e.state.pending := by
  cases closed <;> rfl

@[simp] theorem credit_firstPendingAt (closed : Bool) :
    (e.credit now id closed).state.firstPendingAt = e.state.firstPendingAt := by
  cases closed <;> rfl

@[simp] theorem credit_strategy (closed : Bool) :
    (e.credit now id closed).state.strategy = e.state.strategy := by
  cases closed <;> rfl

@[simp] theorem size_credit (closed : Bool) :
    (e.credit now id closed).state.members.size = e.state.members.size := by
  cases closed <;> simp [credit, setMembers, RoundState.announce]

theorem size_welcomed_ge : e.state.members.size ≤ (e.welcomed now id).state.members.size := by
  simp only [welcomed, setMembers]
  cases h : e.state.members.contains id with
  | true => rw [NameMap.size_insert_of_contains h]
  | false => rw [NameMap.size_insert_of_not_contains h]; omega

theorem size_enrolled_ge : e.state.members.size ≤ (e.enrolled now id).state.members.size := by
  unfold enrolled
  split
  · exact le_rfl
  · next h => simp only [setMembers]
              rw [NameMap.size_insert_of_not_contains (by simpa [isMember] using h)]; omega

end

/-! ## Slots -/

/-- Has the identity an update in the open round? -/
def HasSlot (e : RoundEngine σ) (id : String) : Prop :=
  id ∈ e.state.pending.map (·.collaborator)

theorem not_hasSlot {e : RoundEngine σ} (h : e.state.pending = []) (id : String) :
    ¬ e.HasSlot id := by
  unfold HasSlot
  rw [h]
  exact List.not_mem_nil

theorem hasSlot_mergeSlot {e : RoundEngine σ} {id k : String} {u : ModelUpdate} :
    k ∈ (mergeSlot id u e.state.pending).map (·.collaborator) ↔ k = id ∨ e.HasSlot k := by
  rw [map_collaborator_mergeSlot]
  unfold HasSlot
  split
  · next h =>
    constructor
    · exact Or.inr
    · rintro (rfl | hk)
      · exact h
      · exact hk
  · simp [or_comm]

/-! ## Consistency -/

structure Consistent (e : RoundEngine σ) : Prop where
  /-- Whoever is registered may take part. -/
  admitted : ∀ id, e.isMember id = true → e.rules.mayJoin id = .ok ()
  distinct : (e.state.pending.map (·.collaborator)).Nodup
  registered : ∀ slot ∈ e.state.pending, e.isMember slot.collaborator = true
  /-- An open synchronous round waits for somebody, unless nothing is pending. -/
  awaits : e.rules.mode = .sync →
    e.state.pending = [] ∨ e.state.pending.length < e.state.members.size
  /-- Without rounds to wait for, nothing is ever pending. -/
  async : e.rules.mode.isAsync = true → e.state.pending = []
  clocked : e.state.firstPendingAt.isSome = true ↔ e.state.pending ≠ []

namespace Consistent

variable {e : RoundEngine σ}

theorem create (now : Nat) (rules : RoundRules) (model : Blob) (strategy : σ) :
    (RoundEngine.create now rules model strategy).Consistent where
  admitted id h := by simp [RoundEngine.create, isMember, RoundState.initial] at h
  distinct := List.nodup_nil
  registered slot h := by simp [RoundEngine.create, RoundState.initial] at h
  awaits _ := Or.inl rfl
  async _ := rfl
  clocked := by simp [RoundEngine.create, RoundState.initial]

/-- Registering somebody who may take part. -/
theorem grow {e' : RoundEngine σ} (h : e.Consistent) (id : String)
    (hid : e.isMember id = true ∨ e.rules.mayJoin id = .ok ())
    (hrules : e'.rules = e.rules) (hpending : e'.state.pending = e.state.pending)
    (hfirst : e'.state.firstPendingAt = e.state.firstPendingAt)
    (hmember : ∀ k, e'.isMember k = (decide (k = id) || e.isMember k))
    (hsize : e.state.members.size ≤ e'.state.members.size) : e'.Consistent where
  admitted k hk := by
    rw [hrules]
    rw [hmember, Bool.or_eq_true, decide_eq_true_eq] at hk
    rcases hk with rfl | hk
    · exact hid.elim (h.admitted k) (fun hj => hj)
    · exact h.admitted k hk
  distinct := hpending ▸ h.distinct
  registered slot hs := by
    rw [hmember, h.registered slot (hpending ▸ hs), Bool.or_true]
  awaits hm := by
    rw [hpending]
    exact (h.awaits (hrules ▸ hm)).imp_right fun hlt => hlt.trans_le hsize
  async hm := hpending ▸ h.async (hrules ▸ hm)
  clocked := by rw [hfirst, hpending]; exact h.clocked

theorem enrolled (h : e.Consistent) (now : Nat) {id : String} (hadm : e.Admitted id) :
    (e.enrolled now id).Consistent :=
  h.grow id (hadm.known.imp_right And.right) (enrolled_rules ..) (enrolled_pending ..)
    (enrolled_firstPendingAt ..) (isMember_enrolled e now id) (size_enrolled_ge e now id)

theorem welcomed (h : e.Consistent) (now : Nat) {id : String} (hj : e.rules.mayJoin id = .ok ()) :
    (e.welcomed now id).Consistent :=
  h.grow id (Or.inr hj) rfl rfl rfl (isMember_welcomed e now id) (size_welcomed_ge e now id)

theorem noticed (h : e.Consistent) (now : Nat) {id : String} (hm : e.isMember id = true) :
    (e.noticed now id).Consistent :=
  h.grow id (Or.inl hm) rfl rfl rfl
    (fun k => by by_cases hk : k = id <;> simp [hk, hm]) (by simp [RoundEngine.noticed, setMembers])

theorem credit (h : e.Consistent) (now : Nat) {id : String} (hm : e.isMember id = true)
    (closed : Bool) : (e.credit now id closed).Consistent :=
  h.grow id (Or.inl hm) (credit_rules ..) (credit_pending ..) (credit_firstPendingAt ..)
    (fun k => by by_cases hk : k = id <;> simp [hk, hm]) (by simp)

theorem withStrategy (h : e.Consistent) (s : σ) : (e.withStrategy s).Consistent :=
  ⟨h.admitted, h.distinct, h.registered, h.awaits, h.async, h.clocked⟩

theorem announced (h : e.Consistent) : e.announced.Consistent :=
  ⟨h.admitted, h.distinct, h.registered, h.awaits, h.async, h.clocked⟩

theorem advanced (h : e.Consistent) (now : Nat) (model : Blob) (s : σ) :
    (e.advanced now model s).Consistent where
  admitted := h.admitted
  distinct := List.nodup_nil
  registered slot hs := by simp [RoundEngine.advanced, RoundState.advance] at hs
  awaits _ := Or.inl rfl
  async _ := rfl
  clocked := by simp [RoundEngine.advanced, RoundState.advance]

theorem holding (h : e.Consistent) (now : Nat) {id : String} (u : ModelUpdate)
    (hm : e.isMember id = true) (hmode : e.rules.mode = .sync)
    (hlt : (mergeSlot id u e.state.pending).length < e.state.members.size) :
    (e.holding now id u).Consistent where
  admitted := h.admitted
  distinct := nodup_mergeSlot h.distinct
  registered slot hs := by
    rcases (mem_mergeSlot h.distinct).1 hs with rfl | ⟨hs, -⟩
    · exact hm
    · exact h.registered slot hs
  awaits _ := Or.inr hlt
  async ha := by
    have : e.rules.mode.isAsync = true := ha
    simp [hmode, CoordinationMode.isAsync] at this
  clocked := by simp [RoundEngine.holding, mergeSlot_ne_nil]

variable [AggregationStrategy σ]

theorem transition (h : e.Consistent) {now : Nat} {call : RoundCall}
    {r : Except FederationError RoundAnswer} {e' : RoundEngine σ}
    (ht : e.Transition now call r e') : e'.Consistent := by
  cases ht with
  | refused => exact h
  | joined hj => exact h.welcomed now hj
  | shown _ hm => exact h.noticed now hm
  | stale hadm => exact h.enrolled now hadm
  | held hadm _ hmode hlt =>
    exact ((h.enrolled now hadm).holding now _ (isMember_enrolled_self ..) (by simpa using hmode)
      (by simpa using hlt)).credit now (isMember_enrolled_self e ..) false
  | spoiled hadm => exact (h.enrolled now hadm).withStrategy _
  | completed hadm =>
    exact ((h.enrolled now hadm).advanced now _ _).credit now (isMember_enrolled_self e ..) true
  | passed => exact h
  | jammed => exact h.withStrategy _
  | closed => exact (h.advanced now _ _).announced

end Consistent

/-- An update of a member is looked at. -/
theorem Consistent.not_refusal {e : RoundEngine σ} (h : e.Consistent) {id : String}
    (hm : e.isMember id = true) {u : ModelUpdate} {err : FederationError} :
    ¬ e.Refusal (.submit id u) err := by
  intro href
  cases href with
  | sender he =>
    rw [validateIdentity_of_mayJoin (h.admitted id hm)] at he
    cases he
  | unknownSender _ hn | deniedSender _ hn =>
    rw [hm] at hn
    cases hn

/-- Who is registered reads the model, and nobody else does. -/
theorem Consistent.latest_cases {e : RoundEngine σ} (hc : e.Consistent) (now : Nat)
    (id : String) :
    (e.isMember id = true ∧ e.latest now id = (.ok e.state.view, e.noticed now id)) ∨
      (e.isMember id = false ∧ ∃ err, e.latest now id = (.error err, e)) := by
  unfold latest
  cases hm : e.isMember id with
  | true =>
    rw [validateIdentity_of_mayJoin (hc.admitted id hm)]
    exact Or.inl ⟨rfl, rfl⟩
  | false =>
    refine Or.inr ⟨rfl, ?_⟩
    cases validateIdentity id with
    | error err => exact ⟨err, rfl⟩
    | ok => exact ⟨.unknownCollaborator id, rfl⟩

/-! ## Before the first submission -/

/-- A synchronous engine whose first round is open, with nothing in it. -/
structure Opening (model : Blob) (strategy : σ) (e : RoundEngine σ) : Prop where
  mode : e.rules.mode = .sync
  consistent : e.Consistent
  round : e.state.round = 1
  model : e.state.model = model
  pending : e.state.pending = []
  strategy : e.state.strategy = strategy

namespace Opening

variable {e e' : RoundEngine σ} {model : Blob} {strategy : σ}

theorem create (now : Nat) (membership : MembershipPolicy) (expected : List String)
    (model : Blob) (strategy : σ) :
    (RoundEngine.create now ⟨.sync, membership, expected⟩ model strategy).Opening model strategy :=
  ⟨rfl, .create .., rfl, rfl, rfl, rfl⟩

variable [AggregationStrategy σ]

/-- Joining, reading and closing leave it so. -/
theorem transition (h : e.Opening model strategy) {now : Nat} {call : RoundCall}
    {r : Except FederationError RoundAnswer} (ht : e.Transition now call r e')
    (hcall : call.isSubmit = false) : e'.Opening model strategy := by
  have hc := h.consistent.transition ht
  cases ht with
  | refused | passed => exact h
  | joined | shown => exact ⟨h.mode, hc, h.round, h.model, h.pending, h.strategy⟩
  | stale | held | spoiled | completed => cases hcall
  | jammed _ _ hp | closed _ _ hp => exact absurd h.pending hp

end Opening

/-! ## Histories -/

section
variable [AggregationStrategy σ]

theorem Transition.rules {e e' : RoundEngine σ} {now : Nat} {call : RoundCall}
    {r : Except FederationError RoundAnswer} (ht : e.Transition now call r e') :
    e'.rules = e.rules := by
  cases ht <;> first | rfl | simp [withStrategy, holding, RoundEngine.advanced]

@[simp] theorem after_nil (e : RoundEngine σ) : e.after [] = e := rfl

@[simp] theorem after_cons (e : RoundEngine σ) (c : Nat × RoundCall)
    (calls : List (Nat × RoundCall)) :
    e.after (c :: calls) = (e.perform c.1 c.2).2.after calls := rfl

theorem Opening.after {e : RoundEngine σ} {model : Blob} {strategy : σ}
    (h : e.Opening model strategy) {calls : List (Nat × RoundCall)}
    (hcalls : ∀ c ∈ calls, c.2.isSubmit = false) : (e.after calls).Opening model strategy := by
  induction calls generalizing e with
  | nil => exact h
  | cons c calls ih =>
    have hc := h.transition (e.transition_perform c.1 c.2) (hcalls c List.mem_cons_self)
    exact ih hc fun c' hc' => hcalls c' (List.mem_cons_of_mem c hc')

/-- The engines that calls lead to from a new one. -/
def Reachable (e : RoundEngine σ) : Prop :=
  ∃ now rules model strategy calls, e = (RoundEngine.create now rules model strategy).after calls

/-- What every call keeps holds after all of them. -/
theorem after_induction {P : RoundEngine σ → Prop} {e : RoundEngine σ} (h : P e)
    (hstep : ∀ {e now call r e'}, P e → Transition e now call r e' → P e')
    (calls : List (Nat × RoundCall)) : P (e.after calls) := by
  induction calls generalizing e with
  | nil => exact h
  | cons c calls ih => exact ih (hstep h (e.transition_perform c.1 c.2))

@[simp] theorem after_rules (e : RoundEngine σ) (calls : List (Nat × RoundCall)) :
    (e.after calls).rules = e.rules :=
  after_induction (P := fun e' => e'.rules = e.rules) rfl (fun he ht => ht.rules.trans he) calls

/-- The same along with a record of the events. -/
theorem history_induction {P : List Event → RoundEngine σ → Prop} {e : RoundEngine σ} (h : P [] e)
    (hstep : ∀ {events e now call r e'}, P events e → Transition e now call r e' →
      P (events ++ [⟨now, call, r⟩]) e')
    (calls : List (Nat × RoundCall)) : P (e.history calls).1 (e.after calls) := by
  have from_events : ∀ {events e}, P events e →
      P (events ++ (e.history calls).1) (e.after calls) := by
    induction calls with
    | nil => intro events e h; simpa [history] using h
    | cons c calls ih =>
      intro events e h
      simpa [history] using ih (hstep h (e.transition_perform c.1 c.2))
  exact from_events h

theorem Consistent.after {e : RoundEngine σ} (h : e.Consistent) (calls : List (Nat × RoundCall)) :
    (e.after calls).Consistent :=
  after_induction h (fun he ht => he.transition ht) calls

theorem Reachable.consistent {e : RoundEngine σ} (h : e.Reachable) : e.Consistent := by
  obtain ⟨now, rules, model, strategy, calls, rfl⟩ := h
  exact (Consistent.create now rules model strategy).after calls

end

end RoundEngine

end Federation
