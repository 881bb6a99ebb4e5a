/-
  Every attempt may count.

  The bound on how often a training result is folded in is reached, whatever the strategy is: when
  all attempts but the last are folded in and their answers are lost, all of them count.

  * `Accepting`: an engine that accepts whatever a member submits;
  * `Accepting.submit`: it stays one;
  * `Trying`: a collaborator about to submit, all of whose attempts so far were folded in;
  * `Trying.again`: a lost answer makes it try again;
  * `every_attempt_folded`: a run in which a result is folded in as often as it can be sent.
-/
import Federation.Proofs.Link.Delivery

namespace Federation

/-! ## Engines that accept -/

/-- An asynchronous engine that takes updates of any age that are as long as its model. -/
structure Accepting (size : Nat) (id : String) (e : RoundEngine Strategy) : Prop where
  mode : e.rules.mode = .async none
  consistent : e.Consistent
  member : e.isMember id = true
  positive : 0 < size
  whole : size % 4 = 0
  model : e.state.model.length = size
  sound : e.state.strategy.Sound

section
variable {size : Nat} {id : String} {e : RoundEngine Strategy}

theorem Accepting.ne_nil (h : Accepting size id e) : e.state.model ≠ [] := by
  have := h.positive
  rw [← h.model] at this
  exact List.ne_nil_of_length_pos this

theorem Accepting.submit (h : Accepting size id e) {u : ModelUpdate}
    (hu : u.model.length = size) (now : Nat) :
    ∃ o v e', e.submit now id u = (.ok o, e') ∧ o.closed = some v ∧ Accepting size id e' := by
  have ht := e.transition_submit now id u
  rcases hsub : e.submit now id u with ⟨r, e'⟩
  rw [hsub] at ht
  simp only at ht
  have hconsistent := h.consistent.transition ht
  have hmode : e'.rules.mode = .async none := by rw [ht.rules, h.mode]
  generalize hx : r.map RoundAnswer.submitted = x at ht
  cases ht with
  | refused href => exact absurd href (h.consistent.not_refusal h.member)
  | @stale _ _ base _ hs =>
    obtain ⟨-, m, hm, -⟩ := (RoundEngine.staleBase_async h.mode u base).1 hs
    cases hm
  | held _ _ hsync => rw [h.mode] at hsync; cases hsync
  | spoiled _ _ hcs hag =>
    cases hcs with
    | complete hsync => rw [RoundEngine.enrolled_rules, h.mode] at hsync; cases hsync
    | single =>
      obtain ⟨model, s, hok⟩ := Strategy.aggregate_of_lengths e.state.strategy h.whole h.model
        h.ne_nil (List.cons_ne_nil ⟨id, u.model, u.sampleCount, _⟩ []) fun c hc => by
          rw [List.mem_singleton.1 hc]
          exact hu
      have := hok.symm.trans hag
      cases this
  | completed _ _ _ hag =>
    obtain ⟨hlength, hsound⟩ := Strategy.length_aggregate h.sound h.ne_nil hag
    cases r with
    | error err => cases hx
    | ok o =>
      cases hx
      refine ⟨_, _, _, rfl, rfl, hmode, hconsistent, ?_, h.positive, h.whole, ?_, ?_⟩
      · exact (RoundEngine.isMember_credit ..).trans (RoundEngine.isMember_enrolled_self e now id)
      · exact hlength.trans h.model
      · rw [RoundEngine.credit_strategy]
        exact hsound
  | passed hcall => rcases hcall with hcall | ⟨timeout, hcall⟩ <;> cases hcall
  | jammed hcl | closed hcl => cases hcl

end

/-! ## Attempts that are all folded in -/

namespace Link

/-- About to send the latest result, each time so far having been folded in. -/
structure Trying (size n : Nat) (u : ModelUpdate) (l : Link Strategy) : Prop where
  phase : l.machine.phase = .submitting u n
  awaited : l.awaited = none
  folds : l.folds l.results = n
  accepting : Accepting size l.machine.config.id l.engine
  update : u.model.length = size

/-- An update is sent, arrives, and the answer is lost. -/
def lostAttempt : List LinkStep :=
  [.send, .arrive 0, .giveUp false "no answer", .reply false .slept]

namespace Trying

variable {size n : Nat} {u : ModelUpdate} {l : Link Strategy}

/-- What is sent is folded in. -/
theorem delivered (h : Trying size n u l) : ∃ s e,
    (l.act .send).act (.arrive 0) = { l with engine := e, awaited := some s } ∧
      Link.folds { l with engine := e, awaited := some s } l.results = n + 1 ∧
      Accepting size l.machine.config.id e := by
  have hd : l.machine.demand = some (.submit u) := by simp only [Machine.demand, h.phase]
  have hu : (Wire.UpdateMessage.ofUpdate l.machine.config.id u).toUpdate.model.length = size :=
    h.update
  obtain ⟨o, v, e, hsub, hclosed, haccepting⟩ := h.accepting.submit hu 0
  refine ⟨⟨l.results, .ofUpdate l.machine.config.id u, some (.ok o), false⟩, e, ?_, ?_, haccepting⟩
  · simp only [act, hd, h.awaited, Sending.arrive]
    rw [show (Wire.UpdateMessage.ofUpdate l.machine.config.id u).collaboratorId =
      l.machine.config.id from rfl, hsub]
  · have hbefore := h.folds
    have hfolded :
        Sending.folded ⟨l.results, .ofUpdate l.machine.config.id u, some (.ok o), false⟩ = true := by
      show o.closed.isSome = true
      rw [hclosed]
      rfl
    simp only [Link.folds, sendings, h.awaited, Option.toList_none, List.append_nil] at hbefore
    simp only [Link.folds, sendings, Option.toList_some, List.countP_append,
      List.countP_singleton, hbefore, hfolded, decide_true, Bool.and_self, if_true]

/-- The answer being lost, the collaborator tries again while it may. -/
theorem again (h : Trying size n u l) (hn : n < l.machine.submitPolicy.maxRetries) :
    Trying size (n + 1) u (l.run lostAttempt) ∧ (l.run lostAttempt).results = l.results ∧
      (l.run lostAttempt).machine.config = l.machine.config := by
  obtain ⟨s, e, hact, hfolds, haccepting⟩ := h.delivered
  have hretry : l.machine.resume false (.receipt (.error (.transport "no answer"))) =
      l.machine.goTo (.submitBackoff u n) := by
    have hmay : Machine.mayRetry l.machine.submitPolicy n (.transport "no answer") = true := by
      rw [Machine.mayRetry, decide_eq_true hn]
      rfl
    simp only [Machine.resume, h.phase, hmay, if_true]
  have hrun : l.run lostAttempt =
      (Link.endCall { l with engine := e, awaited := some s } s
        (l.machine.goTo (.submitBackoff u n))).goOn
        (l.machine.goTo (.submitting u (n + 1))) l.results := by
    show (((l.act .send).act (.arrive 0)).act (.giveUp false "no answer")).act
      (.reply false .slept) = _
    rw [hact]
    simp only [act, hretry]
    rfl
  rw [hrun]
  exact ⟨⟨rfl, rfl, (folds_endCall rfl l.results).trans hfolds, haccepting, h.update⟩, rfl, rfl⟩

end Trying

/-- A collaborator that joins and trains for the first time. -/
def firstResult (id : String) (model update : Blob) : List LinkStep :=
  [.call 0 (.join id), .reply false (.view (.ok ⟨model, 1, 1⟩)), .reply false (.done (.ok ())),
    .reply false (.done (.ok ())), .reply false (.done (.ok ())),
    .reply false (.update (.ok update))]

/-- An engine that has just been joined. -/
theorem accepting_join {strategy : Strategy} (hsound : strategy.Sound) {size : Nat}
    (hpositive : 0 < size) (hwhole : size % 4 = 0) {model : Blob} (hmodel : model.length = size)
    {id : String} (hid : validateIdentity id = .ok ()) :
    Accepting size id ((RoundEngine.create 0 ⟨.async none, .default, []⟩ model strategy).perform 0
      (.join id)).2 := by
  have hjoin : RoundRules.mayJoin ⟨.async none, .default, []⟩ id = .ok () := by
    simp [RoundRules.mayJoin, hid, MembershipPolicy.default]
  have hengine : ((RoundEngine.create 0 ⟨.async none, .default, []⟩ model strategy).perform 0
      (.join id)).2 =
      (RoundEngine.create 0 ⟨.async none, .default, []⟩ model strategy).welcomed 0 id := by
    simp only [RoundEngine.perform, RoundEngine.perform.wrap, RoundEngine.join,
      RoundEngine.create, hjoin]
    rfl
  rw [hengine]
  exact ⟨rfl, (RoundEngine.Consistent.create ..).welcomed 0 hjoin, by simp, hpositive, hwhole,
    hmodel, hsound⟩

/-- After its first result the collaborator tries to submit. -/
theorem trying_firstResult {e : RoundEngine Strategy} (config : CollaboratorConfig) {size : Nat}
    (model : Blob) {update : Blob}
    (haccepting : Accepting size config.id (e.perform 0 (.join config.id)).2)
    (hupdate : update.length = size) :
    ∃ u, Trying size 0 u ((Link.fresh e config).run (firstResult config.id model update)) ∧
      ((Link.fresh e config).run (firstResult config.id model update)).results = 1 ∧
      ((Link.fresh e config).run (firstResult config.id model update)).machine.config = config := by
  let joined := ((Machine.fresh config).observe ⟨model, 1, 1⟩).handOver false
  have hceiling : joined.ceilingReached = false := by
    simp [joined, Machine.ceilingReached, Machine.handOver, Machine.enter, Machine.observe,
      Machine.fresh]
    omega
  have hbegin : joined.resume false (.done (.ok ())) = joined.enter .training .clearing := by
    show joined.beginRound false = _
    rw [Machine.beginRound, hceiling]
    rfl
  have hrun : (Link.fresh e config).run (firstResult config.id model update) =
      ⟨(e.perform 0 (.join config.id)).2,
        joined.enter .submitting (.submitting (joined.sampled update) 0), 1, none, []⟩ := by
    have hact : Link.act ⟨(e.perform 0 (.join config.id)).2, joined, 0, none, []⟩
        (.reply false (.done (.ok ()))) =
        ⟨(e.perform 0 (.join config.id)).2, joined.enter .training .clearing, 0, none, []⟩ := by
      simp only [act, goOn, hbegin]
      rfl
    have hjoin : ((Link.fresh e config).act (.call 0 (.join config.id))).act
        (.reply false (.view (.ok ⟨model, 1, 1⟩))) =
        ⟨(e.perform 0 (.join config.id)).2, joined, 0, none, []⟩ := rfl
    simp only [run, firstResult, List.foldl_cons, List.foldl_nil]
    rw [hjoin, hact]
    rfl
  rw [hrun]
  exact ⟨joined.sampled update, ⟨rfl, rfl, rfl, haccepting, hupdate⟩, rfl, rfl⟩

/-- Every attempt that the retries allow can be made, and folded in. -/
theorem Trying.often {size : Nat} {u : ModelUpdate} {l : Link Strategy} (h : Trying size 0 u l)
    {n : Nat} (hn : n ≤ l.machine.submitPolicy.maxRetries) :
    ∃ steps, Trying size n u (l.run steps) ∧ (l.run steps).results = l.results ∧
      (l.run steps).machine.config = l.machine.config := by
  induction n with
  | zero => exact ⟨[], h, rfl, rfl⟩
  | succ n ih =>
    obtain ⟨steps, htrying, hresults, hconfig⟩ := ih (by omega)
    have hbudget : n < (l.run steps).machine.submitPolicy.maxRetries := by
      rw [Machine.submitPolicy, hconfig]
      exact hn
    obtain ⟨hagain, hresults', hconfig'⟩ := htrying.again hbudget
    refine ⟨steps ++ lostAttempt, ?_⟩
    rw [run, List.foldl_append]
    exact ⟨hagain, hresults'.trans hresults, hconfig'.trans hconfig⟩

/-- **The bound is reached.**  For every built-in strategy, every model of whole weights and every
number of retries there is a run in which the first training result is folded in as often as it
can be sent. -/
theorem every_attempt_folded {strategy : Strategy} (hstrategy : strategy.BuiltIn)
    {model update : Blob} (hne : model ≠ []) (hwhole : model.length % 4 = 0)
    (hupdate : update.length = model.length) {id : String} (hid : validateIdentity id = .ok ())
    (bound : Option Nat) (rounds : Nat) (settings : CollaboratorSettings) :
    ∃ steps, ((Link.fresh (RoundEngine.create 0 ⟨.async none, .default, []⟩ model strategy)
      ⟨id, .async bound, rounds, settings⟩).run steps).folds 1 = settings.submitRetries + 1 := by
  have haccepting := accepting_join hstrategy.sound (List.length_pos_of_ne_nil hne) hwhole rfl hid
  obtain ⟨u, hfirst, hresults, hconfig⟩ :=
    trying_firstResult ⟨id, .async bound, rounds, settings⟩ model haccepting hupdate
  obtain ⟨steps, htrying, hresults', hconfig'⟩ := hfirst.often (n := settings.submitRetries) (by
    rw [Machine.submitPolicy, hconfig]
    exact le_rfl)
  obtain ⟨s, e, hact, hfolds, -⟩ := htrying.delivered
  rw [hresults', hresults] at hfolds
  refine ⟨firstResult id model update ++ (steps ++ [.send, .arrive 0]), ?_⟩
  rw [run, List.foldl_append, List.foldl_append]
  exact (congrArg (folds · 1) hact).trans hfolds

end Link

end Federation
