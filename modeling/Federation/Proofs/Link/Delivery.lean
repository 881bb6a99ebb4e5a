/-
  How often a training result gets into the model.

  The collaborator sends an update again when it hears nothing of it, and the engine does not know
  that it has seen the update before.  So the same result is folded in once more for each answer
  that gets lost, and never more often than there are attempts.

  * `Link.tries`, `Link.folds`: how often a result was sent, and how often it was folded in;
  * `Link.confirmed`, `Link.lost`: of how many of these folds the collaborator has heard;
  * `Attempts`: where the attempts at the latest result stand;
  * `Link.Orderly`, `Orderly.acts`: attempts are counted, and end with the first one confirmed;
  * `Link.Applied`, `Applied.acts`: whatever was folded in is on the strategy's record;
  * `folds_of_result`: the bounds on how often a result is folded in.
-/
import Federation.Proofs.Link.System
import Federation.Proofs.Round.AsyncRound

namespace Federation

/-- An element in the place of another one like it. -/
theorem countP_set_of_eq {α : Type} {p : α → Bool} {xs : List α} {k : Nat} {a b : α}
    (hk : xs[k]? = some a) (h : p b = p a) : (xs.set k b).countP p = xs.countP p := by
  obtain ⟨hlt, rfl⟩ := List.getElem?_eq_some_iff.1 hk
  rw [List.countP_set hlt, h]
  split
  · next htrue =>
    have := List.countP_pos_iff.2 ⟨_, List.getElem_mem hlt, htrue⟩
    omega
  · rfl

namespace Link

variable {σ : Type}

/-! ## Counting -/

/-- How often a result was sent. -/
def tries (l : Link σ) (k : Nat) : Nat := l.sendings.countP fun s => s.result = k

/-- How often a result was folded in. -/
def folds (l : Link σ) (k : Nat) : Nat := l.sendings.countP fun s => s.result = k && s.folded

/-- How often a result was folded in and the collaborator heard of it. -/
def confirmed (l : Link σ) (k : Nat) : Nat :=
  l.past.countP fun s => s.result = k && s.folded && s.heard

/-- How often a result was folded in and the answer got lost. -/
def lost (l : Link σ) (k : Nat) : Nat :=
  l.past.countP fun s => s.result = k && s.folded && !s.heard

theorem folds_le_tries (l : Link σ) (k : Nat) : l.folds k ≤ l.tries k :=
  List.countP_mono_left fun s _ h => by
    rw [Bool.and_eq_true] at h
    exact h.1

/-- What was folded in is confirmed, lost, or waited for. -/
theorem folds_eq (l : Link σ) (k : Nat) :
    l.folds k = l.confirmed k + l.lost k +
      l.awaited.toList.countP fun s => s.result = k && s.folded := by
  unfold folds confirmed lost sendings
  rw [List.countP_append]
  congr 1
  induction l.past with
  | nil => rfl
  | cons s ss ih =>
    rw [List.countP_cons, List.countP_cons, List.countP_cons, ih]
    cases decide (s.result = k) <;> cases s.folded <;> cases s.heard <;> simp <;> omega

section
variable {l : Link σ} {s : Sending} {m : Machine} {heard : Bool}

theorem tries_endCall (ha : l.awaited = some s) (k : Nat) :
    (l.endCall { s with heard := heard } m).tries k = l.tries k := by
  simp only [tries, sendings, endCall, ha, Option.toList_none, List.append_nil,
    Option.toList_some, List.countP_append, List.countP_singleton]

theorem folds_endCall (ha : l.awaited = some s) (k : Nat) :
    (l.endCall s m).folds k = l.folds k := by
  simp only [folds, sendings, endCall, ha, Option.toList_none, List.append_nil, Option.toList_some]

theorem confirmed_endCall (k : Nat) :
    (l.endCall s m).confirmed k =
      l.confirmed k + if s.result = k && s.folded && s.heard then 1 else 0 := by
  simp only [confirmed, endCall, List.countP_append, List.countP_singleton]

end

/-! ## Attempts -/

/-- Where the attempts at the latest result stand, by the number of times it was sent and the
number of times it was confirmed. -/
inductive Attempts (retries latest tries confirmed : Nat) : Phase → Option Sending → Prop
  | resting {phase} : phase.isSending = false →
      Attempts retries latest tries confirmed phase none
  | due {u attempt} : attempt ≤ retries → tries = attempt → confirmed = 0 →
      Attempts retries latest tries confirmed (.submitting u attempt) none
  | calling {u attempt s} : attempt ≤ retries → tries = attempt + 1 → confirmed = 0 →
      s.result = latest → s.heard = false →
      Attempts retries latest tries confirmed (.submitting u attempt) (some s)
  | backoff {u attempt} : attempt < retries → tries = attempt + 1 → confirmed = 0 →
      Attempts retries latest tries confirmed (.submitBackoff u attempt) none

/-- Every result is sent a limited number of times, and not again once one of them is confirmed. -/
structure Orderly (retries : Nat) (l : Link σ) : Prop where
  budget : l.machine.submitPolicy.maxRetries = retries
  tries : ∀ k, l.tries k ≤ retries + 1
  confirmed : ∀ k, l.confirmed k ≤ 1
  /-- Nothing of a later result was sent. -/
  latest : ∀ s ∈ l.sendings, s.result ≤ l.results
  /-- What was heard has arrived. -/
  informed : ∀ s ∈ l.past, s.heard = true → s.answer ≠ none
  attempts : Attempts retries l.results (l.tries l.results) (l.confirmed l.results)
    l.machine.phase l.awaited

namespace Orderly

variable {retries : Nat} {l l' : Link σ}

theorem fresh (e : RoundEngine σ) (config : CollaboratorConfig) :
    Orderly (Machine.fresh config).submitPolicy.maxRetries (Link.fresh e config) where
  budget := rfl
  tries k := Nat.zero_le _
  confirmed k := Nat.zero_le _
  latest s hs := by cases hs
  informed s hs := by cases hs
  attempts := .resting rfl

/-- What is waited for is an attempt at the latest result. -/
theorem awaited (h : Orderly retries l) {s : Sending} (ha : l.awaited = some s) :
    ∃ u attempt, l.machine.phase = .submitting u attempt ∧ attempt ≤ retries ∧
      l.tries l.results = attempt + 1 ∧ l.confirmed l.results = 0 ∧ s.result = l.results ∧
      s.heard = false := by
  have hattempts := h.attempts
  rw [ha] at hattempts
  generalize hp : l.machine.phase = phase at hattempts
  cases hattempts with
  | calling hle htries hconfirmed hresult hheard =>
    exact ⟨_, _, rfl, hle, htries, hconfirmed, hresult, hheard⟩

/-- A call ends, and the collaborator has heard an answer or not. -/
theorem endCall (h : Orderly retries l) {s : Sending} {m : Machine} (heard : Bool)
    (ha : l.awaited = some s) (hconfig : m.config = l.machine.config)
    (hanswer : heard = true → s.answer ≠ none)
    (hphase : m.phase.isSending = false ∨
      (heard = true → s.folded = false) ∧ ∃ u attempt, l.machine.phase = .submitting u attempt ∧
        attempt < retries ∧ m.phase = .submitBackoff u attempt) :
    Orderly retries (l.endCall { s with heard := heard } m) := by
  obtain ⟨u, attempt, hp, hle, htries, hconfirmed, hresult, hheard⟩ := h.awaited ha
  have hsendings : (l.endCall { s with heard := heard } m).sendings =
      l.past ++ [{ s with heard := heard }] := List.append_nil _
  refine ⟨?_, fun k => ?_, fun k => ?_, fun s' hs => ?_, fun s' hs hheard' => ?_, ?_⟩
  · rw [← h.budget, Machine.submitPolicy, Machine.submitPolicy, Link.endCall, hconfig]
  · rw [tries_endCall ha]
    exact h.tries k
  · rw [confirmed_endCall]
    split
    · next hk =>
      simp only [Bool.and_eq_true, decide_eq_true_eq] at hk
      rw [← hk.1.1, hresult, hconfirmed]
    · exact h.confirmed k
  · rw [hsendings] at hs
    rcases List.mem_append.1 hs with hs | hs
    · exact h.latest s' (List.mem_append_left _ hs)
    · obtain rfl := List.mem_singleton.1 hs
      exact hresult.le
  · rcases List.mem_append.1 hs with hs | hs
    · exact h.informed s' hs hheard'
    · obtain rfl := List.mem_singleton.1 hs
      exact hanswer hheard'
  · rcases hphase with hphase | ⟨hfolded, u', attempt', hp', hlt, hphase⟩
    · exact .resting hphase
    · obtain ⟨rfl, rfl⟩ : u' = u ∧ attempt' = attempt := by
        rw [hp] at hp'
        cases hp'
        exact ⟨rfl, rfl⟩
      show Attempts _ _ _ _ m.phase none
      rw [hphase]
      refine .backoff hlt ?_ ?_
      · rw [tries_endCall ha]
        exact htries
      · rw [confirmed_endCall, if_neg]
        · exact hconfirmed
        · intro hc
          simp only [Bool.and_eq_true] at hc
          rw [show Sending.folded { s with heard := heard } = false from hfolded hc.2] at hc
          exact Bool.false_ne_true hc.1.2

/-- The collaborator goes on while it waits for no submission. -/
theorem goOn (h : Orderly retries l) {m : Machine} {results : Nat} (ha : l.awaited = none)
    (hconfig : m.config = l.machine.config) (hresults : l.results ≤ results)
    (hattempts : Attempts retries results (l.tries results) (l.confirmed results) m.phase none) :
    Orderly retries (l.goOn m results) where
  budget := by rw [← h.budget, Machine.submitPolicy, Machine.submitPolicy, Link.goOn, hconfig]
  tries := h.tries
  confirmed := h.confirmed
  latest s hs := (h.latest s hs).trans hresults
  informed := h.informed
  attempts := by
    have hattempts := hattempts
    rw [← ha] at hattempts
    exact hattempts

/-- The collaborator goes on with an answer to anything but a submission. -/
theorem replied (h : Orderly retries l) (cancelled : Bool) {reply : Reply}
    (hr : reply.isReceipt = false) :
    Orderly retries (l.goOn (l.machine.resume cancelled reply)
      (if l.machine.collects reply then l.results + 1 else l.results)) := by
  have hattempts := h.attempts
  have hconfig := l.machine.resume_config cancelled reply
  generalize hp : l.machine.phase = phase at hattempts
  generalize ha : l.awaited = awaited at hattempts
  have hcollects : phase ≠ .collecting → l.machine.collects reply = false := by
    intro hne
    unfold Machine.collects
    rw [hp]
    split
    · exact absurd rfl hne
    · rfl
  cases hattempts with
  | resting hphase =>
    rcases Machine.resume_resting (hp ▸ hphase) cancelled reply with
      hrest | ⟨hcollecting, ⟨update, rfl⟩, u, hsend⟩
    · refine h.goOn ha hconfig ?_ (.resting hrest)
      split <;> omega
    · have hnew : l.tries (l.results + 1) = 0 := by
        refine List.countP_eq_zero.2 fun s hs hk => ?_
        have := h.latest s hs
        have := of_decide_eq_true hk
        omega
      have hunconfirmed : l.confirmed (l.results + 1) = 0 := by
        have := l.folds_le_tries (l.results + 1)
        have := l.folds_eq (l.results + 1)
        omega
      rw [if_pos (by simp only [Machine.collects, hcollecting])]
      refine h.goOn ha hconfig (Nat.le_succ _) ?_
      rw [hsend]
      exact .due (Nat.zero_le _) hnew hunconfirmed
  | due | calling =>
    have hm : l.machine.resume cancelled reply = l.machine := by
      cases reply with
      | receipt r => cases hr
      | _ => simp only [Machine.resume, hp]
    rw [hcollects (by rintro ⟨⟩), hm]
    exact h
  | backoff hlt htries hconfirmed =>
    rw [hcollects (by rintro ⟨⟩)]
    refine h.goOn ha hconfig le_rfl ?_
    rcases Machine.resume_backoff hp reply with hm | hm
    · rw [hm, hp]
      exact .backoff hlt htries hconfirmed
    · rw [hm]
      exact .due hlt htries hconfirmed

/-- An update is put on the network. -/
theorem sent (h : Orderly retries l) {u : ModelUpdate} {attempt : Nat}
    (hp : l.machine.phase = .submitting u attempt) (ha : l.awaited = none)
    (message : Wire.UpdateMessage) :
    Orderly retries { l with awaited := some ⟨l.results, message, none, false⟩ } := by
  have hattempts := h.attempts
  rw [hp, ha] at hattempts
  cases hattempts with
  | resting hphase => cases hphase
  | due hle htries hconfirmed =>
    have hcount : ∀ k, Link.tries { l with awaited := some ⟨l.results, message, none, false⟩ } k =
        l.tries k + if l.results = k then 1 else 0 := by
      intro k
      simp only [Link.tries, Link.sendings, ha, List.countP_append, Option.toList_some,
        Option.toList_none, List.countP_singleton, List.countP_nil, decide_eq_true_eq,
        Nat.add_zero]
    refine ⟨h.budget, fun k => ?_, h.confirmed, fun s hs => ?_, h.informed, ?_⟩
    · rw [hcount]
      split
      · next hk =>
        rw [← hk, htries]
        omega
      · exact h.tries k
    · rcases List.mem_append.1 hs with hs | hs
      · exact h.latest s (List.mem_append_left _ hs)
      · obtain rfl := List.mem_singleton.1 hs
        exact le_rfl
    · show Attempts _ _ _ _ l.machine.phase _
      rw [hp]
      refine .calling hle ?_ hconfirmed rfl rfl
      rw [hcount, if_pos rfl, htries]

variable [AggregationStrategy σ] {s s' : Sending} {e : RoundEngine σ}

/-- What is waited for arrives. -/
theorem arrived (h : Orderly retries l) (ha : l.awaited = some s)
    (harrives : Arrives s l.engine s' e) :
    Orderly retries { l with engine := e, awaited := some s' } := by
  obtain ⟨u, attempt, hp, hle, htries, hconfirmed, hresult, hheard⟩ := h.awaited ha
  have hcount : ∀ k, Link.tries { l with engine := e, awaited := some s' } k = l.tries k := by
    intro k
    simp only [Link.tries, Link.sendings, ha, List.countP_append, Option.toList_some,
      List.countP_singleton, harrives.result]
  refine ⟨h.budget, fun k => ?_, h.confirmed, fun s'' hs => ?_, h.informed, ?_⟩
  · rw [hcount]
    exact h.tries k
  · rcases List.mem_append.1 hs with hs | hs
    · exact h.latest s'' (List.mem_append_left _ hs)
    · obtain rfl := List.mem_singleton.1 hs
      exact (harrives.result.trans hresult).le
  · show Attempts _ _ _ _ l.machine.phase _
    rw [hp]
    exact .calling hle ((hcount _).trans htries) hconfirmed (harrives.result.trans hresult)
      (harrives.heard.trans hheard)

/-- What nobody waits for any more arrives. -/
theorem arrivedLate (h : Orderly retries l) {k : Nat} (hk : l.past[k]? = some s)
    (harrives : Arrives s l.engine s' e) :
    Orderly retries { l with engine := e, past := l.past.set k s' } := by
  have hs : s ∈ l.past := List.mem_of_getElem? hk
  have htries : ∀ j, Link.tries { l with engine := e, past := l.past.set k s' } j = l.tries j := by
    intro j
    simp only [Link.tries, Link.sendings, List.countP_append]
    rw [countP_set_of_eq hk (by rw [harrives.result])]
  have hconfirmed : ∀ j, Link.confirmed { l with engine := e, past := l.past.set k s' } j =
      l.confirmed j := by
    intro j
    refine countP_set_of_eq hk ?_
    rcases harrives.eq_or_new with rfl | hnone
    · rfl
    · have hheard : s.heard = false :=
        Bool.eq_false_of_not_eq_true fun hheard => h.informed s hs hheard hnone
      rw [harrives.heard, hheard, Bool.and_false, Bool.and_false]
  refine ⟨h.budget, fun j => ?_, fun j => ?_, fun s'' hs'' => ?_, fun s'' hs'' hheard => ?_, ?_⟩
  · rw [htries]
    exact h.tries j
  · rw [hconfirmed]
    exact h.confirmed j
  · rcases List.mem_append.1 hs'' with hs'' | hs''
    · rcases List.mem_or_eq_of_mem_set hs'' with hs'' | rfl
      · exact h.latest s'' (List.mem_append_left _ hs'')
      · rw [harrives.result]
        exact h.latest s (List.mem_append_left _ hs)
    · exact h.latest s'' (List.mem_append_right _ hs'')
  · rcases List.mem_or_eq_of_mem_set hs'' with hs'' | rfl
    · exact h.informed s'' hs'' hheard
    · cases harrives with
      | again => exact h.informed _ hs hheard
      | first => nofun
  · have hattempts := h.attempts
    rw [← htries, ← hconfirmed] at hattempts
    exact hattempts

/-- Whatever happens, the attempts stay in order. -/
theorem acts (h : Orderly retries l) (hacts : l.Acts l') : Orderly retries l' := by
  cases hacts with
  | passed => exact h
  | called => exact ⟨h.budget, h.tries, h.confirmed, h.latest, h.informed, h.attempts⟩
  | sent hp ha => exact h.sent hp ha _
  | arrived ha harrives => exact h.arrived ha harrives
  | arrivedLate hk harrives => exact h.arrivedLate hk harrives
  | @heard s answer cancelled ha hanswer =>
    obtain ⟨u, attempt, hp, -⟩ := h.awaited ha
    refine h.endCall true ha (l.machine.resume_config ..) (fun _ => by rw [hanswer]; nofun) ?_
    cases answer with
    | ok o => exact Or.inl (Machine.resume_accepted hp _)
    | error err =>
      refine (Machine.resume_refused hp _).symm.imp_right fun ⟨hlt, hphase⟩ => ?_
      refine ⟨fun _ => ?_, u, attempt, hp, h.budget ▸ hlt, hphase⟩
      rw [Sending.folded, Sending.model?, hanswer]
      rfl
  | @gaveUp s cancelled message ha =>
    obtain ⟨u, attempt, hp, -, -, -, -, hheard⟩ := h.awaited ha
    rw [show s = { s with heard := false } by rw [← hheard]]
    refine h.endCall false ha (l.machine.resume_config ..) nofun ?_
    refine (Machine.resume_refused hp _).symm.imp_right fun ⟨hlt, hphase⟩ => ?_
    exact ⟨nofun, u, attempt, hp, h.budget ▸ hlt, hphase⟩
  | @calledOff s ha =>
    obtain ⟨u, attempt, hp, -, -, -, -, hheard⟩ := h.awaited ha
    rw [show s = { s with heard := false } by rw [← hheard]]
    exact h.endCall false ha (l.machine.interrupt_config) nofun (Or.inl rfl)
  | interrupted ha => exact h.goOn ha (l.machine.interrupt_config) le_rfl (.resting rfl)
  | replied hr => exact h.replied _ hr

end Orderly

/-! ## On record -/

/-- The aggregation that made a model with the update, by itself. -/
def OnRecord (r : Recorded σ) (s : Sending) (v : ModelView) : Prop :=
  ∃ current round, v.round = bump round ∧
    ⟨current, [s.message.toUpdate.contribution s.message.collaboratorId round], .ok v.model⟩ ∈
      r.calls

theorem OnRecord.mono {r r' : Recorded σ} {s : Sending} {v : ModelView} (h : OnRecord r s v)
    (hr : r.calls <+: r'.calls) : OnRecord r' s v := by
  obtain ⟨current, round, hround, hmem⟩ := h
  exact ⟨current, round, hround, hr.subset hmem⟩

section
variable [AggregationStrategy σ] {l l' : Link (Recorded σ)}

/-- Whatever was folded in is on the strategy's record. -/
structure Applied (l : Link (Recorded σ)) : Prop where
  async : ∃ limit, l.engine.rules.mode = .async limit
  record : ∀ s ∈ l.sendings, ∀ v, s.model? = some v → OnRecord l.engine.state.strategy s v

section
variable {s s' : Sending} {e e' : RoundEngine (Recorded σ)}

theorem Arrives.engine (h : Arrives s e s' e') :
    e'.rules = e.rules ∧ e.state.strategy.calls <+: e'.state.strategy.calls := by
  cases h with
  | again => exact ⟨rfl, List.prefix_rfl⟩
  | first _ ht => exact ⟨ht.rules, ht.calls_prefix⟩

/-- A model made with what arrives is on record, if it was before. -/
theorem Arrives.onRecord (h : Arrives s e s' e') {limit : Option Nat}
    (hmode : e.rules.mode = .async limit) {v : ModelView} (hv : s'.model? = some v)
    (hs : s' = s → OnRecord e'.state.strategy s v) : OnRecord e'.state.strategy s' v := by
  cases h with
  | again => exact hs rfl
  | @first now answer _ _ ht =>
    obtain ⟨o, rfl, ho⟩ : ∃ o, answer = .ok o ∧ o.closed = some v := by
      cases answer with
      | error err => cases hv
      | ok o => exact ⟨o, rfl, hv⟩
    rcases ht.async_cases hmode with ⟨hnone, -⟩ | ⟨_, _, model, hsome, hag, hview, _, ⟨⟩, hclosed⟩
    · cases hnone
    · cases hsome
      obtain rfl : v = ⟨model, bump e.state.round, bump e.state.version⟩ := by
        rw [← hview]
        exact Option.some.inj (ho.symm.trans hclosed)
      refine ⟨e.state.model, e.state.round, rfl, ?_⟩
      rw [Recorded.calls_of_aggregate hag]
      exact List.mem_append_right _ (List.mem_singleton.2 rfl)

end

theorem Acts.engine (h : l.Acts l') :
    l'.engine.rules = l.engine.rules ∧
      l.engine.state.strategy.calls <+: l'.engine.state.strategy.calls := by
  cases h with
  | called ht => exact ⟨ht.rules, ht.calls_prefix⟩
  | arrived _ harrives | arrivedLate _ harrives => exact harrives.engine
  | _ => exact ⟨rfl, List.prefix_rfl⟩

theorem Applied.acts (h : Applied l) (hacts : l.Acts l') : Applied l' := by
  obtain ⟨limit, hmode⟩ := h.async
  obtain ⟨hrules, hcalls⟩ := hacts.engine
  have keep : ∀ s ∈ l.sendings, ∀ v, s.model? = some v → OnRecord l'.engine.state.strategy s v :=
    fun s hs v hv => (h.record s hs v hv).mono hcalls
  refine ⟨⟨limit, by rw [hrules, hmode]⟩, fun s hs v hv => ?_⟩
  have ended : ∀ {s₀ s₁ : Sending} {m : Machine}, l.awaited = some s₀ →
      s ∈ (l.endCall s₁ m).sendings → s₁.message = s₀.message → s₁.answer = s₀.answer →
      OnRecord l'.engine.state.strategy s v := by
    intro s₀ s₁ m ha hs hmessage hanswer
    rw [sendings, endCall, Option.toList_none, List.append_nil] at hs
    rcases List.mem_append.1 hs with hs | hs
    · exact keep s (List.mem_append_left _ hs) v hv
    · obtain rfl := List.mem_singleton.1 hs
      have hs₀ : s₀ ∈ l.sendings := by simp [sendings, ha]
      rw [Sending.model?, hanswer] at hv
      rw [OnRecord, hmessage]
      exact keep s₀ hs₀ v hv
  cases hacts with
  | passed | called | interrupted | replied => exact keep s hs v hv
  | sent =>
    rcases List.mem_append.1 hs with hs | hs
    · exact keep s (List.mem_append_left _ hs) v hv
    · obtain rfl := List.mem_singleton.1 hs
      cases hv
  | @arrived s₀ _ _ ha harrives =>
    rcases List.mem_append.1 hs with hs | hs
    · exact keep s (List.mem_append_left _ hs) v hv
    · obtain rfl := List.mem_singleton.1 hs
      have hs₀ : s₀ ∈ l.sendings := by simp [sendings, ha]
      exact harrives.onRecord hmode hv fun heq => keep s₀ hs₀ v (heq ▸ hv)
  | @arrivedLate _ s₀ _ _ hk harrives =>
    have hs₀ : s₀ ∈ l.sendings := List.mem_append_left _ (List.mem_of_getElem? hk)
    rcases List.mem_append.1 hs with hs | hs
    · rcases List.mem_or_eq_of_mem_set hs with hs | rfl
      · exact keep s (List.mem_append_left _ hs) v hv
      · exact harrives.onRecord hmode hv fun heq => keep s₀ hs₀ v (heq ▸ hv)
    · exact keep s (List.mem_append_right _ hs) v hv
  | heard ha | gaveUp ha | calledOff ha => exact ended ha hs rfl rfl

/-- What every step keeps holds after all of them. -/
theorem run_induction {τ : Type} [AggregationStrategy τ] {P : Link τ → Prop} {l : Link τ} (h : P l)
    (hstep : ∀ {l l'}, P l → l.Acts l' → P l') (steps : List LinkStep) : P (l.run steps) := by
  induction steps generalizing l with
  | nil => exact h
  | cons step steps ih => exact ih (hstep h (l.acts_act step))

/-- **How often a training result gets into the model.**  An asynchronous collaborator and an
asynchronous engine, others who call the engine as they like, and a network that delays and loses
messages: each result of the trainer is folded in at most once, and once more for each time the
answer to a submission that was folded in gets lost; but never more often than the retries allow
attempts.  Whatever was folded in was aggregated by itself, and made the model of the next round. -/
theorem folds_of_result (start : Nat) (limit : Option Nat) (membership : MembershipPolicy)
    (expected : List String) (model : Blob) (strategy : σ) (id : String) (bound : Option Nat)
    (rounds : Nat) (settings : CollaboratorSettings) (steps : List LinkStep) (k : Nat) :
    let engine := RoundEngine.create start ⟨.async limit, membership, expected⟩ model
      (Recorded.fresh strategy)
    let l := (Link.fresh engine ⟨id, .async bound, rounds, settings⟩).run steps
    l.lost k ≤ l.folds k ∧ l.folds k ≤ 1 + l.lost k ∧ l.folds k ≤ settings.submitRetries + 1 ∧
      ∀ s ∈ l.sendings, ∀ v, s.model? = some v → OnRecord l.engine.state.strategy s v := by
  intro engine l
  have h : Orderly settings.submitRetries l :=
    run_induction (Orderly.fresh engine ⟨id, .async bound, rounds, settings⟩)
      (fun h hacts => h.acts hacts) steps
  have happlied : Applied l :=
    run_induction (P := Applied) ⟨⟨limit, rfl⟩, fun s hs => by cases hs⟩
      (fun h hacts => h.acts hacts) steps
  have hfolds := l.folds_eq k
  refine ⟨by omega, ?_, (l.folds_le_tries k).trans (h.tries k), happlied.record⟩
  rw [hfolds]
  have hconfirmed := h.confirmed k
  cases ha : l.awaited with
  | none =>
    rw [Option.toList_none, List.countP_nil]
    omega
  | some s =>
    obtain ⟨u, attempt, -, -, -, hnone, hresult, -⟩ := h.awaited ha
    rw [Option.toList_some, List.countP_singleton]
    split
    · next hk =>
      simp only [Bool.and_eq_true, decide_eq_true_eq] at hk
      rw [← hk.1, hresult, hnone]
      omega
    · omega

/-- With one retry, an answer that is lost, and half of the way to each update: the update counts
twice. -/
theorem lost_answer_folds_twice :
    let half : Double := ⟨0x3fe0000000000000⟩
    let engine := RoundEngine.create 0 ⟨.async none, .default, []⟩ [0, 0, 0, 0]
      (Recorded.fresh (Strategy.mean.blended ⟨none, Double.one, half⟩))
    let settings := { CollaboratorSettings.default with submitRetries := 1 }
    let steps : List LinkStep := [.call 0 (.join "a"),
      .reply false (.view (.ok ⟨[0, 0, 0, 0], 1, 1⟩)), .reply false (.done (.ok ())),
      .reply false (.done (.ok ())), .reply false (.done (.ok ())),
      .reply false (.update (.ok [0, 0, 0, 64])), .send, .arrive 1,
      .giveUp false "call timed out after 10s", .reply false .slept, .send, .arrive 2, .hear false]
    let l := (Link.fresh engine ⟨"a", .async none, 1, settings⟩).run steps
    l.results = 1 ∧ l.machine.roundsCompleted = 1 ∧ ¬ l.folds 1 ≤ 1 ∧
      l.engine.state.round = 3 ∧ l.engine.state.model = [0, 0, 192, 63] := by
  decide +kernel

end

end Link

end Federation
