/-
  Updates that are sent again.

  A collaborator that does not hear whether its update arrived may send it again, at any time.  In
  step with the others, an update that was accepted before is late when it comes again, or takes the
  slot that its sender has already.

  * `Transition.isMember`: nobody is struck off;
  * `Transition.opens`: a call keeps the open round with everyone in it, or opens the next one;
  * `Answered`: the round in which an update was accepted is over, or its sender has a slot in it;
  * `Answered.transition`, `Answered.after`: calls keep this;
  * `Answered.replay`: what an update of such a sender comes to;
  * `replay_harmless`: what an accepted update comes to that is sent once more.
-/
import Federation.Proofs.Round.Models
import Federation.Proofs.Round.SyncRound

namespace Federation

namespace RoundEngine

variable {σ : Type} [AggregationStrategy σ]

/-! ## From one round to the next -/

section
variable {e e' : RoundEngine σ} {now : Nat} {call : RoundCall}
  {r : Except FederationError RoundAnswer}

/-- Nobody is struck off. -/
theorem Transition.isMember (ht : e.Transition now call r e') {k : String}
    (hk : e.isMember k = true) : e'.isMember k = true := by
  have henrolled : ∀ id, (e.enrolled now id).isMember k = true := fun id => by simp [hk]
  cases ht with
  | refused | passed | jammed | closed => exact hk
  | joined => simp [hk]
  | shown => simp [hk]
  | stale | spoiled => exact henrolled _
  | held | completed =>
    rw [isMember_credit]
    exact henrolled _

/-- A call keeps the open round with everyone in it, or opens the next one. -/
theorem Transition.opens (ht : e.Transition now call r e') :
    (e'.state.round = e.state.round ∧ ∀ k, e.HasSlot k → e'.HasSlot k) ∨
      e'.state.round = bump e.state.round := by
  cases ht with
  | refused | passed | joined | shown | jammed => exact Or.inl ⟨rfl, fun _ hk => hk⟩
  | stale | spoiled =>
    refine Or.inl ⟨enrolled_round .., fun k hk => ?_⟩
    simpa [HasSlot, withStrategy] using hk
  | held =>
    refine Or.inl ⟨by simp [holding], fun k hk => ?_⟩
    simp only [HasSlot, credit_pending, holding, enrolled_pending]
    exact hasSlot_mergeSlot.2 (Or.inr hk)
  | completed => exact Or.inr (by simp [RoundEngine.advanced, RoundState.advance])
  | closed => exact Or.inr rfl

/-- An accepted update takes a slot, or completes the round. -/
theorem Transition.accepted {id : String} {u : ModelUpdate} {o : SubmitOutcome}
    (ht : e.Transition now (.submit id u) (.ok (.submitted o)) e') :
    e'.isMember id = true ∧
      ((e'.state.round = e.state.round ∧ e'.HasSlot id) ∨
        e'.state.round = bump e.state.round) := by
  cases ht with
  | held =>
    refine ⟨?_, Or.inl ⟨by simp [holding], ?_⟩⟩
    · rw [isMember_credit]
      exact isMember_enrolled_self e now id
    · simp only [HasSlot, credit_pending, holding, enrolled_pending]
      exact hasSlot_mergeSlot.2 (Or.inl rfl)
  | completed =>
    refine ⟨?_, Or.inr (by simp [RoundEngine.advanced, RoundState.advance])⟩
    rw [isMember_credit]
    exact isMember_enrolled_self e now id

end

/-! ## After an accepted update -/

/-- The round in which an update of a member was accepted is over, or the member has a slot in
it. -/
structure Answered (initial : Blob) (id : String) (base : Nat) (e : RoundEngine (Recorded σ)) :
    Prop where
  counted : e.Counted initial
  consistent : e.Consistent
  member : e.isMember id = true
  standing : base < e.state.round ∨ e.state.round = base ∧ e.HasSlot id

variable {initial : Blob} {id : String} {base : Nat} {e e' : RoundEngine (Recorded σ)}

theorem Answered.transition (h : Answered initial id base e) {now : Nat} {call : RoundCall}
    {r : Except FederationError RoundAnswer} (ht : e.Transition now call r e')
    (hcloses : e'.state.strategy.closes < counterLimit - 1) : Answered initial id base e' where
  counted := h.counted.transition ht
  consistent := h.consistent.transition ht
  member := ht.isMember h.member
  standing := by
    rcases ht.opens with ⟨hround, hslots⟩ | hround
    · rw [hround]
      exact h.standing.imp_right (And.imp_right (hslots id))
    · have hlt := h.counted.round_lt (h.counted.transition ht) ht.calls_prefix hcloses hround
      rcases h.standing with hb | ⟨hb, -⟩
      · exact Or.inl (hb.trans hlt)
      · exact Or.inl (hb ▸ hlt)

theorem calls_prefix_after (e : RoundEngine (Recorded σ)) (calls : List (Nat × RoundCall)) :
    e.state.strategy.calls <+: (e.after calls).state.strategy.calls :=
  after_induction
    (P := fun e' : RoundEngine (Recorded σ) => e.state.strategy.calls <+: e'.state.strategy.calls)
    List.prefix_rfl (fun h ht => h.trans ht.calls_prefix) calls

theorem Answered.after (h : Answered initial id base e) (calls : List (Nat × RoundCall))
    (hcloses : (e.after calls).state.strategy.closes < counterLimit - 1) :
    Answered initial id base (e.after calls) := by
  induction calls generalizing e with
  | nil => exact h
  | cons c calls ih =>
    rw [after_cons] at hcloses ⊢
    -- the record only grows, so it was short enough before
    have hle := Recorded.closes_le (calls_prefix_after (e.perform c.1 c.2).2 calls)
    exact ih (h.transition (e.transition_perform c.1 c.2) (hle.trans_lt hcloses)) hcloses

/-- An accepted update of the open round is such an update. -/
theorem Answered.of_accepted {met : RoundEngine (Recorded σ)} (hcounted : met.Counted initial)
    (hconsistent : met.Consistent) {sent : Nat} {u : ModelUpdate} {o : SubmitOutcome}
    (ho : (met.submit sent id u).1 = .ok o)
    (hcloses : (met.submit sent id u).2.state.strategy.closes < counterLimit - 1) :
    Answered initial id met.state.round (met.submit sent id u).2 := by
  have ht := met.transition_submit sent id u
  have haccepted := (ho ▸ ht).accepted
  have hcounted' := hcounted.transition ht
  refine ⟨hcounted', hconsistent.transition ht, haccepted.1, ?_⟩
  rcases haccepted.2 with hopen | hround
  · exact Or.inr hopen
  · exact Or.inl (hcounted.round_lt hcounted' ht.calls_prefix hcloses hround)

/-- An update that is in its slot is accepted once more without a change but to the books. -/
theorem credit_holding_of_mem {τ : Type} {e : RoundEngine τ} (hc : e.Consistent) {id : String}
    {u : ModelUpdate} (hu : ⟨id, u⟩ ∈ e.state.pending) (now : Nat) :
    (e.holding now id u).credit now id false =
      e.setMembers (e.state.members.modify id (Member.credited now)) := by
  have hfirst : e.state.firstPendingAt.isSome = true := hc.clocked.2 (List.ne_nil_of_mem hu)
  obtain ⟨first, hfirst⟩ := Option.isSome_iff_exists.1 hfirst
  have hsame : e.holding now id u = e := by
    unfold holding
    rw [mergeSlot_of_mem hc.distinct hu, hfirst, Option.getD_some, ← hfirst]
  rw [hsame]
  rfl

/-- What an update for the round comes to that is sent once more. -/
theorem Answered.replay (h : Answered initial id base e) (hmode : e.rules.mode = .sync)
    {u : ModelUpdate} (hbase : u.baseRound = some base) (now : Nat) :
    (base < e.state.round ∧ e.submit now id u = (.error (.staleUpdate base e.state.round), e)) ∨
    (e.state.round = base ∧
      e.submit now id u =
        (.ok ⟨base, none, e.state.pending.length⟩, (e.holding now id u).credit now id false) ∧
      (mergeSlot id u e.state.pending).map (·.collaborator) =
        e.state.pending.map (·.collaborator)) := by
  have hs := h.consistent.settles hmode h.member now u
  generalize e.submit now id u = r at hs ⊢
  obtain ⟨result, e'⟩ := r
  simp only at hs ⊢
  rcases h.standing with hlt | ⟨hround, hslot⟩
  · -- the round is over
    have hlate : e.isLate u = some base := by simp [isLate, hbase, hlt]
    cases hs with
    | late hl =>
      rw [hlate, Option.some.injEq] at hl
      exact Or.inl ⟨hlt, by rw [hl]⟩
    | waits hl | spoils hl | completes hl => rw [hlate] at hl; cases hl
  · -- the sender has a slot already, and somebody else has none
    have hids : (mergeSlot id u e.state.pending).map (·.collaborator) =
        e.state.pending.map (·.collaborator) := by
      rw [map_collaborator_mergeSlot]
      exact if_pos hslot
    have hlength : (mergeSlot id u e.state.pending).length = e.state.pending.length := by
      simpa using congrArg List.length hids
    have hopen : e.state.pending.length < e.state.members.size :=
      (h.consistent.awaits hmode).resolve_left fun hp => not_hasSlot hp id hslot
    cases hs with
    | late hl => simp [isLate, hbase, hround] at hl
    | spoils _ hle | completes _ hle => omega
    | waits => exact Or.inr ⟨hround, by rw [hround, hlength], hids⟩

/-- **An update that is sent again does no harm.**  Let an update for the open round be accepted on
the way from a new synchronous engine.  Whatever is called afterwards, as long as the counters can
count the rounds, the same update once more is refused as stale when that round is over, and
nothing changes.  When it is still open, the update is accepted, the round stays open and everyone
keeps their place; and if the slot of the sender holds the same update, then nothing changes but
the books on the sender. -/
theorem replay_harmless (start : Nat) (membership : MembershipPolicy) (expected : List String)
    (model : Blob) (strategy : σ) (before later : List (Nat × RoundCall)) (sent now : Nat)
    (id : String) (u : ModelUpdate) (base : Nat) :
    let first := RoundEngine.create start ⟨.sync, membership, expected⟩ model
      (Recorded.fresh strategy)
    let met := first.after before
    let e := (met.submit sent id u).2.after later
    let r := e.submit now id u
    met.state.round = base → u.baseRound = some base →
    (∃ o, (met.submit sent id u).1 = .ok o) → e.state.strategy.closes < counterLimit - 1 →
    (base < e.state.round ∧ r = (.error (.staleUpdate base e.state.round), e)) ∨
    (e.state.round = base ∧ r.1 = .ok ⟨base, none, e.state.pending.length⟩ ∧
      r.2.state.round = base ∧
      r.2.state.pending.map (·.collaborator) = e.state.pending.map (·.collaborator) ∧
      (⟨id, u⟩ ∈ e.state.pending →
        r.2 = e.setMembers (e.state.members.modify id (Member.credited now)))) := by
  intro first met e r hmet hbase ⟨o, ho⟩ hcloses
  have hmode : e.rules.mode = .sync := by
    rw [after_rules, (met.transition_submit sent id u).rules, after_rules]
    rfl
  have hcloses' : (met.submit sent id u).2.state.strategy.closes < counterLimit - 1 :=
    (Recorded.closes_le (calls_prefix_after _ later)).trans_lt hcloses
  have haccepted : Answered model id base (met.submit sent id u).2 :=
    hmet ▸ .of_accepted ((Counted.create ..).after before) ((Consistent.create ..).after before) ho
      hcloses'
  have h : Answered model id base e := haccepted.after later hcloses
  rcases h.replay hmode hbase now with ⟨hlt, hr⟩ | ⟨hround, hr, hids⟩
  · exact Or.inl ⟨hlt, hr⟩
  · change r = _ at hr
    rw [hr]
    refine Or.inr ⟨hround, rfl, by simp [holding, hround], ?_, fun hu => ?_⟩
    · rw [credit_pending]
      exact hids
    · exact credit_holding_of_mem h.consistent hu now

/-- The update of one of two members, sent again before and after the other one has sent its own. -/
theorem replay_of_one :
    let u : ModelUpdate := ⟨[0, 0, 128, 63], some 1, 0⟩
    let met := (RoundEngine.create 0 ⟨.sync, .default, []⟩ [0, 0, 0, 0]
      (Recorded.fresh Strategy.mean)).after [(0, .join "a"), (1, .join "b")]
    let e := (met.submit 2 "a" u).2.after [(3, .latest "b")]
    let e' := (met.submit 2 "a" u).2.after [(3, .submit "b" u)]
    met.state.round = 1 ∧ u.baseRound = some 1 ∧
      (met.submit 2 "a" u).1 = .ok ⟨1, none, 1⟩ ∧
      e.state.strategy.closes < counterLimit - 1 ∧ e'.state.strategy.closes < counterLimit - 1 ∧
      (e.submit 4 "a" u).1 = .ok ⟨1, none, 1⟩ ∧
      (e.submit 4 "a" u).2 =
        e.setMembers (e.state.members.modify "a" (Member.credited 4)) ∧
      e'.submit 4 "a" u = (.error (.staleUpdate 1 2), e') := by
  intro u met e e'
  have hmet : met.state.round = 1 := by decide +kernel
  have ho : (met.submit 2 "a" u).1 = .ok ⟨1, none, 1⟩ := by decide +kernel
  have hcloses : e.state.strategy.closes < counterLimit - 1 := by decide +kernel
  have hcloses' : e'.state.strategy.closes < counterLimit - 1 := by decide +kernel
  have hround : e.state.round = 1 ∧ e.state.pending = [⟨"a", u⟩] ∧ e'.state.round = 2 := by
    decide +kernel
  have h := replay_harmless 0 .default [] [0, 0, 0, 0] Strategy.mean
    [(0, .join "a"), (1, .join "b")] [(3, .latest "b")] 2 4 "a" u 1 hmet rfl ⟨_, ho⟩ hcloses
  have h' := replay_harmless 0 .default [] [0, 0, 0, 0] Strategy.mean
    [(0, .join "a"), (1, .join "b")] [(3, .submit "b" u)] 2 4 "a" u 1 hmet rfl ⟨_, ho⟩ hcloses'
  refine ⟨hmet, rfl, ho, hcloses, hcloses', ?_⟩
  rcases h with ⟨hlt, -⟩ | ⟨-, hr, -, -, hsame⟩
  · exact absurd hround.1 (Nat.ne_of_gt hlt)
  rcases h' with ⟨-, hr'⟩ | ⟨hopen, -⟩
  · have hpending : e.state.pending.length = 1 := by rw [hround.2.1]; rfl
    refine ⟨hr.trans ?_, hsame ?_, hr'.trans ?_⟩
    · exact congrArg (fun n => Except.ok (SubmitOutcome.mk 1 none n)) hpending
    · show (⟨"a", u⟩ : PendingSlot) ∈ e.state.pending
      rw [hround.2.1]
      exact List.mem_cons_self
    · exact congrArg (fun n => (Except.error (FederationError.staleUpdate 1 n), e')) hround.2.2
  · exact absurd (hround.2.2.symm.trans hopen) (by decide)

end RoundEngine

end Federation
