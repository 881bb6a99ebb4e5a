/-
  Who takes part.

  There are two ways in: joining, and sending an update where the policy registers strangers.  Both
  ask the same question, and nobody is ever struck off.  So at any time everyone who is registered
  has been admitted by the policy, and so has everyone whose update reaches the strategy.

  * `RoundRules.Admits`, `mayJoin_iff`: whom a policy admits;
  * `Consistent.size_le`: a strict policy admits no more than the plan lists;
  * `join_setMembers`, `latest_setMembers`: joining and reading touch the books alone;
  * `join_ok`, `join_again`: what a join is answered, the first time and again;
  * `Transition.asked`: whatever a call asks the strategy comes from members;
  * `FromMembers`, `FromMembers.transition`: so does all that was ever asked;
  * `membership_safe`: all of it, over every run.
-/
import Federation.Proofs.Round.Replay

namespace Federation

/-! ## Policies -/

/-- An identity that may take part: it has the form of one, and a strict plan lists it. -/
structure RoundRules.Admits (r : RoundRules) (id : String) : Prop where
  valid : validateIdentity id = .ok ()
  listed : r.membership.strict = true → id ∈ r.expected

theorem RoundRules.mayJoin_iff {r : RoundRules} {id : String} :
    r.mayJoin id = .ok () ↔ r.Admits id := by
  unfold mayJoin
  cases hv : validateIdentity id with
  | error err => exact ⟨nofun, fun h => by rw [h.valid] at hv; cases hv⟩
  | ok =>
    simp only
    split
    · next hs =>
      rw [Bool.and_eq_true, Bool.not_eq_true', List.contains_eq_mem, decide_eq_false_iff_not] at hs
      exact ⟨nofun, fun h => absurd (h.listed hs.1) hs.2⟩
    · next hs =>
      refine ⟨fun _ => ⟨hv, fun hstrict => ?_⟩, fun _ => rfl⟩
      simpa [hstrict] using hs

namespace RoundEngine

variable {σ : Type}

/-! ## Members -/

theorem Consistent.admits {e : RoundEngine σ} (h : e.Consistent) {id : String}
    (hm : e.isMember id = true) : e.rules.Admits id :=
  RoundRules.mayJoin_iff.1 (h.admitted id hm)

/-- A strict policy admits no more than the plan lists. -/
theorem Consistent.size_le {e : RoundEngine σ} (h : e.Consistent)
    (hstrict : e.rules.membership.strict = true) :
    e.state.members.size ≤ e.rules.expected.dedup.length := by
  rw [← NameMap.length_names]
  refine ((NameMap.nodup_names _).subperm fun id hid => ?_).length_le
  exact List.mem_dedup.2 ((h.admits (NameMap.contains_iff.2 hid)).listed hstrict)

/-- The contributions an update makes the engine aggregate are those of members. -/
theorem Hands.isMember {e : RoundEngine σ} {id : String} {u : ModelUpdate}
    {cs : List Contribution} (h : e.Hands id u cs) (hc : e.Consistent)
    (hm : e.isMember id = true) : ∀ c ∈ cs, e.isMember c.collaborator = true := by
  cases h with
  | single => simpa using hm
  | complete =>
    intro c hcs
    obtain ⟨slot, hslot, rfl⟩ := List.mem_map.1 hcs
    rcases (mem_mergeSlot hc.distinct).1 hslot with rfl | ⟨hslot, -⟩
    · exact hm
    · exact hc.registered slot hslot

/-! ## Joining and reading -/

section
variable (e : RoundEngine σ) (now : Nat) (id : String)

/-- Joining changes the members alone. -/
theorem join_setMembers :
    (e.join now id).2 = e.setMembers (e.join now id).2.state.members := by
  unfold join
  split <;> rfl

/-- Reading changes the members alone. -/
theorem latest_setMembers :
    (e.latest now id).2 = e.setMembers (e.latest now id).2.state.members := by
  unfold latest
  split
  · rfl
  · split <;> rfl

end

/-- Who has joined is registered, and is told whether that is new. -/
theorem join_ok {e : RoundEngine σ} {now : Nat} {id : String} {o : JoinOutcome}
    (h : (e.join now id).1 = .ok o) :
    o = ⟨e.state.view, !e.isMember id⟩ ∧ (e.join now id).2.isMember id = true := by
  unfold join at h ⊢
  split at h
  · cases h
  · cases h
    exact ⟨rfl, by simp [isMember, setMembers]⟩

/-- Joining again adds nobody. -/
theorem join_again {e : RoundEngine σ} (hc : e.Consistent) {id : String}
    (hm : e.isMember id = true) (now : Nat) :
    (e.join now id).1 = .ok ⟨e.state.view, false⟩ ∧
      (e.join now id).2.state.members.names = e.state.members.names := by
  unfold join
  rw [hc.admitted id hm, hm]
  exact ⟨rfl, NameMap.names_insert_of_contains hm _⟩

/-! ## What the strategy is asked -/

/-- All that the strategy was ever asked came from members. -/
def FromMembers (e : RoundEngine (Recorded σ)) : Prop :=
  ∀ asked ∈ e.state.strategy.calls, ∀ c ∈ asked.contributions, e.isMember c.collaborator = true

theorem FromMembers.create (now : Nat) (rules : RoundRules) (model : Blob) (strategy : σ) :
    (RoundEngine.create now rules model (Recorded.fresh strategy)).FromMembers :=
  fun _ hasked => absurd hasked List.not_mem_nil

variable [AggregationStrategy σ]

theorem isMember_after {e : RoundEngine σ} {k : String} (h : e.isMember k = true)
    (calls : List (Nat × RoundCall)) : (e.after calls).isMember k = true :=
  after_induction (P := fun e' => e'.isMember k = true) h (fun hk ht => ht.isMember hk) calls

section
variable {e e' : RoundEngine σ} {now : Nat} {call : RoundCall}
  {r : Except FederationError RoundAnswer}

/-- Whatever a call asks the strategy comes from members. -/
theorem Transition.asked (ht : e.Transition now call r e') (hc : e.Consistent) :
    e'.state.strategy = e.state.strategy ∨
      ∃ cs result, AggregationStrategy.aggregate e.state.strategy e.state.model cs =
        (result, e'.state.strategy) ∧ ∀ c ∈ cs, e'.isMember c.collaborator = true := by
  have handed : ∀ {id u cs}, e.Admitted id → (e.enrolled now id).Hands id u cs →
      ∀ c ∈ cs, (e.enrolled now id).isMember c.collaborator = true := fun hadm hcs =>
    hcs.isMember (hc.enrolled now hadm) (isMember_enrolled_self ..)
  have pending : ∀ c ∈ roundContributions e.state.pending,
      e.isMember c.collaborator = true := by
    intro c hcs
    obtain ⟨slot, hslot, rfl⟩ := List.mem_map.1 hcs
    exact hc.registered slot hslot
  cases ht with
  | refused | joined | shown | passed => exact Or.inl rfl
  | stale => exact Or.inl (enrolled_strategy ..)
  | held =>
    rw [credit_strategy]
    exact Or.inl (enrolled_strategy ..)
  | spoiled hadm _ hcs hag => exact Or.inr ⟨_, _, hag, handed hadm hcs⟩
  | completed hadm _ hcs hag =>
    refine Or.inr ⟨_, _, by rw [credit_strategy]; exact hag, fun c hc' => ?_⟩
    rw [isMember_credit]
    exact handed hadm hcs c hc'
  | jammed _ _ _ hag | closed _ _ _ hag =>
    exact Or.inr ⟨_, _, hag, pending⟩

/-- An accepted update that closes no round leaves somebody to wait for. -/
theorem Transition.pending_lt {id : String} {u : ModelUpdate} {o : SubmitOutcome}
    (ht : e.Transition now (.submit id u) (.ok (.submitted o)) e') (hopen : o.closed = none) :
    o.pending < e'.state.members.size := by
  cases ht with
  | held _ _ _ hlt => simpa [holding] using hlt
  | completed => cases hopen

end

theorem FromMembers.transition {e e' : RoundEngine (Recorded σ)} (h : e.FromMembers)
    (hc : e.Consistent) {now : Nat} {call : RoundCall} {r : Except FederationError RoundAnswer}
    (ht : e.Transition now call r e') : e'.FromMembers := by
  intro asked hasked c hcs
  -- nobody is struck off, so a member of either engine is a member of the later one
  rcases ht.asked hc with hsame | ⟨cs, result, hag, hmembers⟩
  · exact ht.isMember (h asked (hsame ▸ hasked) c hcs)
  · rw [Recorded.calls_of_aggregate hag, List.mem_append, List.mem_singleton] at hasked
    rcases hasked with hasked | rfl
    · exact ht.isMember (h asked hasked c hcs)
    · exact hmembers c hcs

theorem FromMembers.after {e : RoundEngine (Recorded σ)} (h : e.FromMembers) (hc : e.Consistent)
    (calls : List (Nat × RoundCall)) : (e.after calls).FromMembers :=
  (after_induction (P := fun e' : RoundEngine (Recorded σ) => e'.FromMembers ∧ e'.Consistent)
    ⟨h, hc⟩ (fun he ht => ⟨he.1.transition he.2 ht, he.2.transition ht⟩) calls).1

/-! ## All runs -/

/-- **Membership is safe.**  Take any calls on a new engine, whatever its policy.  Everyone who is
registered has the form of an identity and, under a strict policy, is on the list; and everyone
whose contribution the strategy was ever handed is registered.  Under a strict policy a round waits
for no more updates than there are identities on the list.  Whoever is registered stays so, and
joins again without adding anybody; whoever joins is registered.  Neither joining nor reading
changes anything but the books on the members. -/
theorem membership_safe (start : Nat) (rules : RoundRules) (model : Blob) (strategy : σ)
    (calls later : List (Nat × RoundCall)) :
    let e := (RoundEngine.create start rules model (Recorded.fresh strategy)).after calls
    (∀ id, e.isMember id = true → rules.Admits id) ∧
    (∀ asked ∈ e.state.strategy.calls, ∀ c ∈ asked.contributions,
      e.isMember c.collaborator = true ∧ rules.Admits c.collaborator) ∧
    (rules.membership.strict = true →
      e.state.members.size ≤ rules.expected.dedup.length ∧
      ∀ now id u o, (e.submit now id u).1 = .ok o → o.closed = none →
        o.pending < rules.expected.dedup.length) ∧
    (∀ id, e.isMember id = true → (e.after later).isMember id = true) ∧
    (∀ now id,
      (∀ o, (e.join now id).1 = .ok o →
        o = ⟨e.state.view, !e.isMember id⟩ ∧ (e.join now id).2.isMember id = true) ∧
      (e.isMember id = true → (e.join now id).1 = .ok ⟨e.state.view, false⟩ ∧
        (e.join now id).2.state.members.names = e.state.members.names) ∧
      (e.join now id).2 = e.setMembers (e.join now id).2.state.members ∧
      (e.latest now id).2 = e.setMembers (e.latest now id).2.state.members) := by
  intro e
  have hnew := Consistent.create start rules model (Recorded.fresh strategy)
  have hc : e.Consistent := hnew.after calls
  have hrules : e.rules = rules := after_rules _ calls
  have hfrom : e.FromMembers :=
    (FromMembers.create start rules model strategy).after hnew calls
  have admits : ∀ id, e.isMember id = true → rules.Admits id := fun id hm => hrules ▸ hc.admits hm
  refine ⟨admits, fun asked hasked c hcs =>
      ⟨hfrom asked hasked c hcs, admits _ (hfrom asked hasked c hcs)⟩,
    fun hstrict => ⟨hrules ▸ hc.size_le (hrules ▸ hstrict), fun now id u o ho hopen => ?_⟩,
    fun id hm => isMember_after hm later,
    fun now id => ⟨fun o => join_ok, fun hm => join_again hc hm now, e.join_setMembers now id,
      e.latest_setMembers now id⟩⟩
  have ht := e.transition_submit now id u
  rw [ho] at ht
  have hrules' : (e.submit now id u).2.rules = rules := ht.rules.trans hrules
  -- a round that is still open waits for somebody, and everybody is on the list
  calc o.pending < (e.submit now id u).2.state.members.size := ht.pending_lt hopen
    _ ≤ (e.submit now id u).2.rules.expected.dedup.length :=
      (hc.transition ht).size_le (by rw [hrules']; exact hstrict)
    _ = rules.expected.dedup.length := by rw [hrules']

/-- A plan that lists two identities and registers whoever sends: the second one gets in, a third
one gets in neither way. -/
theorem membership_of_two :
    let rules : RoundRules := ⟨.sync, ⟨true, true⟩, ["a", "b"]⟩
    let u := ModelUpdate.ofModel [0, 0, 128, 63]
    let e := (RoundEngine.create 0 rules [0, 0, 0, 0] (Recorded.fresh Strategy.mean)).after
      [(0, .join "a"), (1, .submit "c" u), (2, .submit "b" u), (3, .join "c")]
    e.isMember "b" = true ∧ rules.Admits "b" ∧ e.isMember "c" = false ∧
      e.state.members.size = 2 ∧ (e.join 4 "a").1 = .ok ⟨e.state.view, false⟩ := by
  intro rules u e
  have ha : e.isMember "a" = true := by decide +kernel
  have hb : e.isMember "b" = true := by decide +kernel
  obtain ⟨hadmits, -, -, -, hjoin⟩ := membership_safe 0 rules [0, 0, 0, 0] Strategy.mean
    [(0, .join "a"), (1, .submit "c" u), (2, .submit "b" u), (3, .join "c")] []
  exact ⟨hb, hadmits "b" hb, by decide +kernel, by decide +kernel, ((hjoin 4 "a").2.1 ha).1⟩

end RoundEngine

end Federation
