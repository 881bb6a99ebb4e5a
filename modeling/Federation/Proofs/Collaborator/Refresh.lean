/-
  Catching up with the aggregator.

  A collaborator that does not work in step fetches the latest model after each of its submissions,
  and joins again if the aggregator has forgotten it.

  * `Phase.refreshes`: the phases of catching up;
  * `Machine.Paced`: what is known of a collaborator that does not work in step;
  * `Shift.paced_run`: it is known all along a run;
  * `refresh_survives`: a fetch that fails leaves the model as it is, and the next round begins;
    what ends a run is a failure to join again.
-/
import Federation.Proofs.Collaborator.Shutdown

namespace Federation

namespace Phase

/-- The phases of catching up. -/
def refreshes : Phase → Bool
  | .fetching .refresh _ | .fetchBackoff .refresh _ | .joining true => true
  | _ => false

/-- The phases of a collaborator that works in step and waits for the next round. -/
def waitsForRound : Phase → Bool
  | .pausing | .fetching .nextRound _ | .fetchBackoff .nextRound _ => true
  | _ => false

end Phase

namespace Machine

/-! ## Out of step -/

/-- What is known of a collaborator that does not work in step. -/
structure Paced (m : Machine) : Prop where
  mode : m.config.mode.isAsync = true
  unhurried : m.phase.waitsForRound = false
  refreshes : m.phase.refreshes = true ↔ m.state = .refreshing
  unfull : m.phase.isFinished = false → m.ceilingReached = false
  known : m.phase.isFinished = false → m.phase ≠ .joining false → m.model.isSome = true

namespace Paced

variable {m : Machine} {cancelled : Bool}

theorem fresh {config : CollaboratorConfig} (hmode : config.mode.isAsync = true) :
    (Machine.fresh config).Paced where
  mode := hmode
  unhurried := rfl
  refreshes := ⟨nofun, nofun⟩
  unfull _ := by
    rw [ceilingReached, Bool.and_eq_false_iff, decide_eq_false_iff_not, decide_eq_false_iff_not]
    exact or_iff_not_imp_left.2 fun h => Nat.not_le.2 (not_not.1 h)
  known _ h := absurd rfl h

theorem stop (hmode : m.config.mode.isAsync = true) : m.stop.Paced where
  mode := hmode
  unhurried := rfl
  refreshes := ⟨nofun, nofun⟩
  unfull := nofun
  known := nofun

theorem fail (hmode : m.config.mode.isAsync = true) (e : FederationError) : (m.fail e).Paced := by
  rcases m.fail_cases e with ⟨-, he⟩ | ⟨-, he⟩
  · exact he ▸ stop hmode
  · rw [he]
    exact ⟨hmode, rfl, ⟨nofun, nofun⟩, nofun, nofun⟩

theorem unlessCancelled (hmode : m.config.mode.isAsync = true) {next : Machine}
    (hnext : next.Paced) : (m.unlessCancelled cancelled next).Paced := by
  unfold Machine.unlessCancelled
  split
  · exact stop hmode
  · exact hnext

/-- Going on with the model there is. -/
theorem enter (h : m.Paced) (hopen : m.phase.isFinished = false) {state : CollaboratorState}
    {phase : Phase} (hphase : phase.waitsForRound = false)
    (hs : phase.refreshes = true ↔ state = .refreshing)
    (hknown : phase ≠ .joining false → m.phase ≠ .joining false) :
    (m.enter state phase).Paced where
  mode := h.mode
  unhurried := hphase
  refreshes := hs
  unfull _ := h.unfull hopen
  known _ hne := h.known hopen (hknown hne)

theorem observed (h : m.Paced) (hopen : m.phase.isFinished = false) (v : ModelView)
    (again : Bool) : ((m.observe v).handOver again).Paced where
  mode := h.mode
  unhurried := rfl
  refreshes := ⟨nofun, nofun⟩
  unfull _ := h.unfull hopen
  known _ _ := rfl

theorem afterSubmit (h : m.Paced) {u : ModelUpdate} {attempt : Nat}
    (hp : m.phase = .submitting u attempt) (r : SubmitReceipt) :
    (m.afterSubmit cancelled r).Paced := by
  have hmode : (m.counting r).config.mode.isAsync = true := by
    rw [counting_config]
    exact h.mode
  have hmodel : (m.counting r).model.isSome = true := by
    rw [counting_model]
    exact h.known (by rw [hp]; rfl) (by rw [hp]; exact nofun)
  rw [afterSubmit_eq, hmode, if_pos rfl]
  split
  · exact stop hmode
  · next hceiling =>
    exact unlessCancelled hmode ⟨hmode, rfl, ⟨fun _ => rfl, fun _ => rfl⟩,
      fun _ => Bool.eq_false_iff.2 hceiling, fun _ _ => hmodel⟩

theorem goTo (h : m.Paced) (hopen : m.phase.isFinished = false) {phase : Phase}
    (hphase : phase.waitsForRound = false) (hs : phase.refreshes = m.phase.refreshes)
    (hknown : phase ≠ .joining false → m.phase ≠ .joining false) : (m.goTo phase).Paced :=
  h.enter hopen hphase (hs ▸ h.refreshes) hknown

theorem beginRound (h : m.Paced) {again : Bool} (hp : m.phase = .handing again) :
    (m.beginRound cancelled).Paced := by
  unfold Machine.beginRound
  split
  · exact stop h.mode
  · refine unlessCancelled h.mode (h.enter (by rw [hp]; rfl) rfl ⟨nofun, nofun⟩ fun _ => ?_)
    rw [hp]
    exact nofun

theorem afterRefusal (h : m.Paced) {u : ModelUpdate} {attempt : Nat}
    (hp : m.phase = .submitting u attempt) (e : FederationError) :
    (m.afterRefusal cancelled e).Paced := by
  have hopen : m.phase.isFinished = false := by rw [hp]; rfl
  unfold Machine.afterRefusal
  split
  · refine h.enter hopen rfl ⟨fun _ => rfl, fun _ => rfl⟩ fun _ => ?_
    rw [hp]
    exact nofun
  · exact unlessCancelled h.mode (h.goTo hopen rfl (by rw [hp]; rfl) fun hne => absurd rfl hne)
  · exact fail h.mode _

theorem afterLostFetch (h : m.Paced) {attempt : Nat} (hp : m.phase = .fetching .refresh attempt)
    (e : FederationError) : (m.afterLostFetch cancelled .refresh e).Paced := by
  have hopen : m.phase.isFinished = false := by rw [hp]; rfl
  have hne : m.phase ≠ .joining false := by rw [hp]; exact nofun
  unfold Machine.afterLostFetch
  split
  · exact unlessCancelled h.mode (h.goTo hopen rfl (by rw [hp]; rfl) fun _ => hne)
  · exact stop h.mode
  · split
    · exact h.enter hopen rfl ⟨nofun, nofun⟩ fun _ => hne
    · exact fail h.mode _
  · exact fail h.mode _

theorem resume (h : m.Paced) (cancelled : Bool) (reply : Reply) :
    (m.resume cancelled reply).Paced := by
  have hopen : ∀ {phase : Phase}, m.phase = phase → phase.isFinished = false →
      m.phase.isFinished = false := fun hp hphase => hp ▸ hphase
  have hne : ∀ {phase next : Phase}, m.phase = phase → phase ≠ .joining false →
      next ≠ .joining false → m.phase ≠ .joining false := fun hp hphase _ => hp ▸ hphase
  have goes : ∀ {phase next : Phase}, m.phase = phase → phase.isFinished = false →
      phase ≠ .joining false → next.waitsForRound = false → next.refreshes = phase.refreshes →
      (m.goTo next).Paced := fun hp hphase hjoin hnext hs =>
    h.goTo (hopen hp hphase) hnext (hp ▸ hs) (hne hp hjoin)
  unfold Machine.resume
  split
  case h_1 hp | h_16 hp => exact h.observed (hopen hp rfl) ..
  case h_2 | h_5 | h_7 | h_9 | h_11 => exact fail h.mode _
  case h_3 hp => exact h.enter (hopen hp rfl) rfl ⟨nofun, nofun⟩ (hne hp nofun)
  case h_4 hp => exact h.beginRound hp
  case h_6 hp => exact goes hp rfl nofun rfl rfl
  case h_8 hp => exact unlessCancelled h.mode (goes hp rfl nofun rfl rfl)
  case h_10 hp =>
    exact unlessCancelled h.mode (h.enter (hopen hp rfl) rfl ⟨nofun, nofun⟩ (hne hp nofun))
  case h_12 hp => exact h.afterSubmit hp _
  case h_13 hp =>
    split
    · exact goes hp rfl nofun rfl rfl
    · exact h.afterRefusal hp _
  case h_14 hp => exact goes hp rfl nofun rfl rfl
  case h_15 hp =>
    have := h.unhurried
    rw [hp] at this
    cases this
  case h_17 purpose attempt e hp =>
    cases purpose with
    | nextRound =>
      have := h.unhurried
      rw [hp] at this
      cases this
    | refresh =>
      split
      · exact goes hp rfl nofun rfl rfl
      · exact h.afterLostFetch hp e
  case h_18 purpose attempt hp =>
    cases purpose with
    | nextRound =>
      have := h.unhurried
      rw [hp] at this
      cases this
    | refresh => exact goes hp rfl nofun rfl rfl
  case h_19 => exact h

end Paced

theorem phase_of_refreshing {m : Machine} (h : m.phase.refreshes = true) :
    m.phase = .joining true ∨ (∃ attempt, m.phase = .fetching .refresh attempt) ∨
      ∃ attempt, m.phase = .fetchBackoff .refresh attempt := by
  unfold Phase.refreshes at h
  split at h
  · next attempt hp => exact .inr (.inl ⟨attempt, hp⟩)
  · next attempt hp => exact .inr (.inr ⟨attempt, hp⟩)
  · next hp => exact .inl hp
  · cases h

/-- Catching up can be called off at any moment. -/
theorem demand_of_refreshing {m : Machine} (h : m.phase.refreshes = true) :
    ∃ d, m.demand = some d ∧ d.isCancellable = true := by
  unfold demand
  rcases phase_of_refreshing h with hp | ⟨attempt, hp⟩ | ⟨attempt, hp⟩ <;>
    exact ⟨_, by rw [hp], rfl⟩

end Machine

namespace Shift

variable {x : Shift}

theorem paced_run (h : x.machine.Paced) (steps : List ShiftStep) :
    (x.run steps).machine.Paced :=
  kept_run (fun _ hm => .stop hm.mode) (fun _ cancelled reply hm => hm.resume cancelled reply)
    h steps

end Shift

/-! ## Failures -/

namespace Machine

variable {m : Machine} {cancelled : Bool}

theorem result?_fail {e err : FederationError} :
    (m.fail e).result? = some (.error err) ↔ e = err ∧ err ≠ .cancelled := by
  rcases m.fail_cases e with ⟨rfl, he⟩ | ⟨hne, he⟩
  · rw [he]
    exact ⟨nofun, fun h => absurd h.1.symm h.2⟩
  · rw [he]
    constructor
    · rintro ⟨⟩
      exact ⟨rfl, hne⟩
    · rintro ⟨rfl, -⟩
      rfl

theorem result?_join_ne {again : Bool} {err : FederationError} :
    (m.join cancelled again).result? ≠ some (.error err) := by
  unfold join unlessCancelled
  split <;> exact nofun

/-- A fetch of a collaborator that does not work in step ends no run with an error. -/
theorem Paced.result?_afterLostFetch_ne (h : m.Paced) (e err : FederationError) :
    (m.afterLostFetch cancelled .refresh e).result? ≠ some (.error err) := by
  unfold Machine.afterLostFetch
  split
  · exact result?_join_ne
  · exact nofun
  · rw [h.mode, if_pos rfl]
    exact nofun
  · next hpurpose => cases hpurpose

/-- What ends a run that catches up with an error: a failure to join again, and nothing else. -/
theorem Paced.result?_resume (h : m.Paced) (hrefresh : m.phase.refreshes = true) {d : Demand}
    (hd : m.demand = some d) (a : Answers) (err : FederationError) :
    (m.resume cancelled (a.reply d)).result? = some (.error err) ↔
      m.phase = .joining true ∧ a.view = .error err ∧ err ≠ .cancelled := by
  rcases phase_of_refreshing hrefresh with hp | ⟨attempt, hp⟩ | ⟨attempt, hp⟩
  · obtain rfl : Demand.join = d := by simpa [demand, hp] using hd
    cases hv : a.view with
    | ok v =>
      simp only [Machine.resume, hp, Answers.reply, hv]
      refine iff_of_false (fun hr => ?_) fun hj => by cases hj.2.1
      cases hr
    | error e =>
      simp only [Machine.resume, hp, Answers.reply, hv, true_and, Except.error.injEq]
      exact result?_fail
  · obtain rfl : Demand.latest 0 0 = d := by simpa [demand, hp] using hd
    refine iff_of_false (fun hr => ?_) fun hj => by rw [hp] at hj; cases hj.1
    cases hv : a.view with
    | ok v =>
      simp only [Machine.resume, hp, Answers.reply, hv] at hr
      cases hr
    | error e =>
      simp only [Machine.resume, hp, Answers.reply, hv] at hr
      split at hr
      · cases hr
      · exact h.result?_afterLostFetch_ne e err hr
  · refine iff_of_false (fun hr => ?_) fun hj => by rw [hp] at hj; cases hj.1
    simp only [demand, hp, Option.some.injEq] at hd
    subst hd
    simp only [Machine.resume, hp, Answers.reply] at hr
    cases hr

end Machine

/-! ## Back to the trainer -/

/-- A failure to fetch a model, while the aggregator knows who asks and all else is well. -/
structure Answers.Loses (a : Answers) : Prop where
  view : ∃ err, a.view = .error err ∧ err ≠ .cancelled ∧ ∀ id, err ≠ .unknownCollaborator id
  filed : a.filed = .ok ()
  unmoved : a.cancels = false

/-- How many answers it takes at most to get from a fetch to the trainer. -/
def Phase.stepsToTraining (retries : Nat) : Phase → Option Nat
  | .fetchBackoff .refresh attempt => some (2 * (retries - (attempt + 1)) + 4)
  | .fetching .refresh attempt => some (2 * (retries - attempt) + 3)
  | .handing false => some 2
  | .clearing => some 1
  | .training => some 0
  | _ => none

namespace Machine

variable {m : Machine}

/-- One answer gets nearer to the trainer, with the same model. -/
theorem Paced.nearer (h : m.Paced) {n : Nat}
    (hn : m.phase.stepsToTraining m.config.settings.refreshRetries = some (n + 1)) {d : Demand}
    (hd : m.demand = some d) {a : Answers} (ha : a.Loses) :
    ∃ k ≤ n, (m.resume false (a.reply d)).phase.stepsToTraining
        m.config.settings.refreshRetries = some k ∧
      (m.resume false (a.reply d)).model = m.model := by
  obtain ⟨err, hview, hcancelled, hknown⟩ := ha.view
  unfold Phase.stepsToTraining at hn
  split at hn
  · next attempt hp =>
    simp only [demand, hp, Option.some.injEq] at hd hn
    subst hd
    simp only [Machine.resume, hp, Answers.reply]
    exact ⟨2 * (m.config.settings.refreshRetries - (attempt + 1)) + 3, by omega, rfl, rfl⟩
  · next attempt hp =>
    simp only [demand, hp, Option.some.injEq] at hd hn
    subst hd
    have hlost : m.afterLostFetch false .refresh err = m.handOver false := by
      unfold Machine.afterLostFetch
      split
      · exact absurd rfl (hknown _)
      · exact absurd rfl hcancelled
      · rw [h.mode, if_pos rfl]
      · next hpurpose => cases hpurpose
    simp only [Machine.resume, hp, Answers.reply, hview, hlost]
    split
    · next hretry =>
      rw [mayRetry, Bool.and_eq_true, decide_eq_true_eq] at hretry
      have hlt : attempt < m.config.settings.refreshRetries := hretry.2
      exact ⟨2 * (m.config.settings.refreshRetries - (attempt + 1)) + 4, by omega, rfl, rfl⟩
    · exact ⟨2, by omega, rfl, rfl⟩
  · next hp =>
    simp only [demand, hp, Option.some.injEq] at hd hn
    subst hd
    have hround : m.beginRound false = m.enter .training .clearing := by
      rw [Machine.beginRound, h.unfull (by rw [hp]; rfl)]
      rfl
    simp only [Machine.resume, hp, Answers.reply, ha.filed, hround]
    exact ⟨1, by omega, rfl, rfl⟩
  · next hp =>
    simp only [demand, hp, Option.some.injEq] at hd hn
    subst hd
    simp only [Machine.resume, hp, Answers.reply, ha.filed]
    exact ⟨0, by omega, rfl, rfl⟩
  · cases hn
  · cases hn

theorem phase_of_steps {retries : Nat} (h : m.phase.stepsToTraining retries = some 0) :
    m.phase = .training := by
  unfold Phase.stepsToTraining at h
  split at h
  case h_5 hp => exact hp
  all_goals simp at h

theorem demand_of_steps {retries n : Nat} (h : m.phase.stepsToTraining retries = some n) :
    ∃ d, m.demand = some d := by
  cases hd : m.demand with
  | some d => exact ⟨d, rfl⟩
  | none =>
    have hfinished := demand_eq_none.1 hd
    cases hp : m.phase with
    | finished r => rw [hp] at h; cases h
    | _ => rw [hp] at hfinished; cases hfinished

end Machine

namespace Shift

variable {x : Shift}

/-- However many fetches fail, the trainer's turn comes, with the model there is. -/
theorem reaches_training (h : x.machine.Paced) (hc : x.cancelled = false) {n : Nat}
    (hn : x.machine.phase.stepsToTraining x.machine.config.settings.refreshRetries = some n)
    {answers : List Answers} (ha : ∀ a ∈ answers, a.Loses) (hlength : n ≤ answers.length) :
    ∃ k ≤ answers.length,
      let t := x.run ((answers.take k).map fun a => .wake (some a))
      t.machine.demand = some .train ∧ t.machine.model = x.machine.model := by
  induction answers generalizing x n with
  | nil =>
    obtain rfl : n = 0 := Nat.le_zero.1 hlength
    refine ⟨0, le_rfl, ?_, rfl⟩
    simp [run, Machine.demand, Machine.phase_of_steps hn]
  | cons a answers ih =>
    cases n with
    | zero =>
      refine ⟨0, Nat.zero_le _, ?_, rfl⟩
      simp [run, Machine.demand, Machine.phase_of_steps hn]
    | succ n =>
      obtain ⟨d, hd⟩ := Machine.demand_of_steps hn
      have hfirst := ha a List.mem_cons_self
      obtain ⟨j, hj, hsteps, hmodel⟩ := h.nearer hn hd hfirst
      obtain ⟨hmachine, hcancelled⟩ := act_answer hd (fun _ => hc) a
      rw [hc, hfirst.unmoved, Bool.or_false] at hmachine hcancelled
      rw [← hmachine] at hsteps hmodel
      have hpaced : (x.act (.wake (some a))).machine.Paced := hmachine ▸ h.resume false _
      have hconfig : (x.act (.wake (some a))).machine.config = x.machine.config := by
        rw [hmachine, Machine.resume_config]
      rw [List.length_cons] at hlength
      obtain ⟨k, hk, hdemand, hkept⟩ := ih hpaced hcancelled (hconfig ▸ hsteps)
        (fun b hb => ha b (List.mem_cons_of_mem a hb)) (by omega)
      refine ⟨k + 1, Nat.succ_le_succ hk, ?_, hkept.trans hmodel⟩
      exact hdemand

end Shift

/-- **Catching up survives a lost fetch, not a lost join.**  Take any run of a collaborator that
does not work in step, with any settings and whatever it is answered, at a moment at which it
catches up.  The answer it is given next ends the run with an error just when the run was not called
off, what is answered is a join, and the answer is an error other than a cancellation.  Otherwise it
goes on, or stops.  And as long as the aggregator knows it and the working directory is in order, it
may lose as many fetches as it likes: it has a model, keeps it, and is back at the trainer after the
retries it was allowed. -/
theorem refresh_survives (config : CollaboratorConfig) (hmode : config.mode.isAsync = true)
    (before : List ShiftStep)
    (hs : ((Shift.start config).run before).machine.state = .refreshing) :
    let s := (Shift.start config).run before
    (∀ a err, (s.act (.wake (some a))).machine.result? = some (.error err) ↔
      s.cancelled = false ∧ s.machine.phase = .joining true ∧
        a.view = .error err ∧ err ≠ .cancelled) ∧
    (s.cancelled = false → s.machine.phase ≠ .joining true → ∀ lost : List Answers,
      (∀ a ∈ lost, a.Loses) → 2 * config.settings.refreshRetries + 4 ≤ lost.length →
      ∃ v, s.machine.model = some v ∧ ∃ k ≤ lost.length,
        let t := s.run ((lost.take k).map fun a => .wake (some a))
        t.machine.demand = some .train ∧ t.machine.model = some v) := by
  intro s
  have hp : s.machine.Paced := Shift.paced_run (.fresh hmode) before
  have hconfig : s.machine.config = config :=
    Shift.kept_run (P := fun m => m.config = config) (fun _ hm => hm)
      (fun m cancelled reply hm => (m.resume_config cancelled reply).trans hm) rfl before
  have hrefresh : s.machine.phase.refreshes = true := hp.refreshes.2 hs
  refine ⟨fun a err => ?_, fun hc hfetch lost hlost hlength => ?_⟩
  · obtain ⟨d, hd, hcancellable⟩ := Machine.demand_of_refreshing hrefresh
    cases hc : s.cancelled with
    | true =>
      have hleave : s.act (.wake (some a)) = s.leave := by simp [Shift.act, hd, hc, hcancellable]
      rw [hleave]
      refine iff_of_false (fun hr => ?_) fun hj => by cases hj.1
      cases hr
    | false =>
      rw [(Shift.act_answer hd (fun _ => hc) a).1, hp.result?_resume hrefresh hd]
      exact (and_iff_right rfl).symm
  · have hopen : s.machine.phase.isFinished = false ∧ s.machine.phase ≠ .joining false := by
      rcases Machine.phase_of_refreshing hrefresh with h | ⟨_, h⟩ | ⟨_, h⟩ <;> rw [h] <;>
        exact ⟨rfl, by simp⟩
    obtain ⟨v, hv⟩ := Option.isSome_iff_exists.1 (hp.known hopen.1 hopen.2)
    obtain ⟨n, hn, hle⟩ : ∃ n, s.machine.phase.stepsToTraining
        s.machine.config.settings.refreshRetries = some n ∧ n ≤ lost.length := by
      rw [hconfig]
      rcases Machine.phase_of_refreshing hrefresh with h | ⟨attempt, h⟩ | ⟨attempt, h⟩
      · exact absurd h hfetch
      · exact ⟨_, by rw [h]; rfl, by omega⟩
      · exact ⟨_, by rw [h]; rfl, by omega⟩
    exact ⟨v, hv, hv ▸ Shift.reaches_training hp hc hn hlost hle⟩

/-- A run without retries whose fetches fail: the local model goes to the trainer. -/
theorem refresh_survives_lost_fetch :
    let config : CollaboratorConfig :=
      ⟨"a", .async none, 2, { CollaboratorSettings.default with refreshRetries := 0 }⟩
    let model : ModelView := ⟨[0, 0, 128, 63], 1, 1⟩
    let well : Answers := ⟨.ok model, .ok ⟨2, true⟩, .ok (), .ok (), .ok [0, 0, 0, 64], false⟩
    let lost : Answers :=
      ⟨.error (.transport "gone"), .ok ⟨2, true⟩, .ok (), .ok (), .ok [], false⟩
    let s := (Shift.start config).run (List.replicate 6 (.wake (some well)))
    config.mode.isAsync = true ∧ s.machine.state = .refreshing ∧ s.cancelled = false ∧
      s.machine.phase ≠ .joining true ∧ lost.Loses ∧
      ∃ k ≤ 4,
        let t := s.run (((List.replicate 4 lost).take k).map fun a => .wake (some a))
        t.machine.demand = some .train ∧ t.machine.model = some model := by
  intro config model well lost s
  obtain ⟨hs, hc, hmodel, hsteps⟩ : s.machine.state = .refreshing ∧ s.cancelled = false ∧
      s.machine.model = some model ∧ s.machine.phase.stepsToTraining 0 = some 3 := by
    decide +kernel
  have hfetch : s.machine.phase ≠ .joining true := by
    intro hjoin
    rw [hjoin] at hsteps
    cases hsteps
  have hlost : lost.Loses := ⟨⟨_, rfl, nofun, nofun⟩, rfl, rfl⟩
  obtain ⟨-, htrain⟩ := refresh_survives config rfl _ hs
  obtain ⟨v, hv, hreach⟩ := htrain hc hfetch (List.replicate 4 lost)
    (fun a ha => List.eq_of_mem_replicate ha ▸ hlost) (by decide)
  obtain rfl : model = v := Option.some.inj (hmodel.symm.trans hv)
  exact ⟨rfl, hs, hc, hfetch, hlost, hreach⟩

/-- The aggregator has forgotten the collaborator, and the join that is to mend it is lost: the run
fails while it catches up, and does not train again. -/
theorem refresh_ended_by_lost_join :
    let config : CollaboratorConfig := ⟨"a", .async none, 2, .default⟩
    let model : ModelView := ⟨[0, 0, 128, 63], 1, 1⟩
    let well : Answers := ⟨.ok model, .ok ⟨2, true⟩, .ok (), .ok (), .ok [0, 0, 0, 64], false⟩
    let forgotten := { well with view := .error (.unknownCollaborator "a") }
    let gone := { well with view := .error (.transport "gone") }
    let s := (Shift.start config).run (List.replicate 6 (.wake (some well)))
    config.mode.isAsync = true ∧ s.machine.state = .refreshing ∧ s.cancelled = false ∧
      (s.run [.wake (some forgotten), .wake (some gone)]).machine.result? =
        some (.error (.transport "gone")) := by
  decide +kernel

end Federation
