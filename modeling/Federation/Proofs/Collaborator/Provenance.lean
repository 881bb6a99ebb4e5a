/-
  Where a collaborator's updates come from.

  * `Phase.isFree`: the phases in which nothing has to be known of the files and the log;
  * `Machine.Frees`: going on to such a phase with the model there is;
  * `Workshop.Stage`: what is known of the files and the log in the others;
  * `Workshop.Known.run`: it is known all along a run;
  * `update_provenance`: every training is started on the model that came in last, and every update
    that goes out is what that training left.
-/
import Federation.Proofs.Collaborator.Workshop

namespace Federation

open Disk (Tree Faults)

/-! ## Free phases -/

/-- The phases in which nothing has to be known of the files and the log. -/
def Phase.isFree : Phase → Bool
  | .clearing | .training | .collecting | .submitting _ _ | .submitBackoff _ _ => false
  | _ => true

namespace Machine

/-- Going on to a free phase with the model there is. -/
structure Frees (m m' : Machine) : Prop where
  config : m'.config = m.config
  model : m'.model = m.model
  free : m'.phase.isFree = true
  known : m'.phase.hasModel = true → m.phase.hasModel = true

variable {m : Machine} {cancelled : Bool}

theorem frees_finished (state : CollaboratorState) (r : Except FederationError RunSummary) :
    m.Frees (m.enter state (.finished r)) := ⟨rfl, rfl, rfl, nofun⟩

theorem frees_stop : m.Frees m.stop := frees_finished ..

theorem frees_fail (e : FederationError) : m.Frees (m.fail e) := by
  rcases m.fail_cases e with ⟨-, he⟩ | ⟨-, he⟩
  · exact he ▸ frees_stop
  · exact he ▸ frees_finished ..

theorem frees_unlessCancelled {next : Machine} (h : m.Frees next) :
    m.Frees (m.unlessCancelled cancelled next) := by
  unfold unlessCancelled
  split
  · exact frees_stop
  · exact h

theorem frees_enter (h : m.phase.hasModel = true) (state : CollaboratorState) {phase : Phase}
    (hphase : phase.isFree = true) : m.Frees (m.enter state phase) := ⟨rfl, rfl, hphase, fun _ => h⟩

theorem frees_join (again : Bool) : m.Frees (m.join cancelled again) :=
  frees_unlessCancelled ⟨rfl, rfl, rfl, nofun⟩

theorem frees_afterSubmit (h : m.phase.hasModel = true) (r : SubmitReceipt) :
    m.Frees (m.afterSubmit cancelled r) := by
  have counted : ∀ {next : Machine}, (m.counting r).Frees next → m.Frees next := fun hn =>
    ⟨hn.config.trans (m.counting_config r), hn.model.trans (m.counting_model r), hn.free,
      fun _ => h⟩
  rw [afterSubmit_eq]
  split
  · exact counted frees_stop
  · refine counted (frees_unlessCancelled ?_)
    have hopen : (m.counting r).phase.hasModel = true := by
      rw [counting_phase]
      exact h
    split
    · exact frees_enter hopen _ rfl
    · exact frees_enter hopen _ rfl

theorem frees_afterRefusal (h : m.phase.hasModel = true) (e : FederationError) :
    m.Frees (m.afterRefusal cancelled e) := by
  unfold afterRefusal
  split
  · exact frees_enter h _ rfl
  · exact frees_join false
  · exact frees_fail _

theorem frees_afterLostFetch (h : m.phase.hasModel = true) (purpose : FetchPurpose)
    (e : FederationError) : m.Frees (m.afterLostFetch cancelled purpose e) := by
  unfold afterLostFetch
  split
  · exact frees_join true
  · exact frees_stop
  · split
    · exact frees_enter h _ rfl
    · exact frees_fail _
  · exact frees_fail _

/-- Staying where it is. -/
theorem enter_self {phase : Phase} (h : m.phase = phase) : m = m.enter m.state phase := by
  subst h
  rfl

/-- A model that is waited for is handed to the trainer. -/
theorem resume_view (h : m.phase.awaitsModel = true) (v : ModelView) :
    ∃ again, m.resume cancelled (.view (.ok v)) = (m.observe v).handOver again := by
  unfold Phase.awaitsModel at h
  split at h
  · next again hp => exact ⟨again, by simp only [resume, hp]⟩
  · next hp => exact ⟨false, by simp only [resume, hp]⟩
  · cases h

/-- Without it the model stays as it is. -/
theorem frees_view_error (h : m.phase.awaitsModel = true) (e : FederationError) :
    m.Frees (m.resume cancelled (.view (.error e))) := by
  unfold Phase.awaitsModel at h
  split at h
  · next hp =>
    simp only [resume, hp]
    exact frees_fail e
  · next purpose attempt hp =>
    have hopen : m.phase.hasModel = true := by rw [hp]; rfl
    simp only [resume, hp]
    split
    · exact frees_enter hopen _ rfl
    · exact frees_afterLostFetch hopen purpose e
  · cases h

end Machine

namespace Workshop

/-! ## What is known -/

/-- A training of a model that came in last, the deeds since then, and nothing before the training
that matters. -/
def Trained (s : Workshop) (v : ModelView) (since : List Deed) : Prop :=
  ∃ before, lastReceived before = some v ∧
    s.deeds = before ++ .started (some v.model) false :: since

/-- What is known of the files and the log in a phase, with the model that came in last. -/
def Stage (s : Workshop) (v : ModelView) : Phase → Prop
  | .clearing => s.disk.read s.workDir.modelPath = .ok v.model
  | .training =>
    if s.underway then s.Trained v []
    else s.disk.read s.workDir.modelPath = .ok v.model ∧
      s.disk.find s.workDir.updatePath = .error .notFound
  | .collecting => s.Trained v [.returned (.ok ()) s.updateFile]
  | .submitting u _ | .submitBackoff u _ =>
    Tagged s.machine.config v u ∧ ∃ n,
      s.Trained v (.returned (.ok ()) (some u.model) :: List.replicate n (.submitted u))
  | _ => True

theorem stage_of_free {s : Workshop} {phase : Phase} (h : phase.isFree = true) (v : ModelView) :
    s.Stage v phase := by
  cases phase <;> trivial

theorem read_congr {t t' : Tree} {path path' : String} (h : t'.find path' = t.find path) :
    t'.read path' = t.read path := by
  unfold Tree.read
  rw [h]

/-- It is known as long as the log and the two files are the same. -/
theorem Stage.congr {s s' : Workshop} {v : ModelView} {phase : Phase} (h : s.Stage v phase)
    (hconfig : s'.machine.config = s.machine.config) (hdeeds : s'.deeds = s.deeds)
    (hmodel : s'.disk.find s'.workDir.modelPath = s.disk.find s.workDir.modelPath)
    (hupdate : s'.disk.find s'.workDir.updatePath = s.disk.find s.workDir.updatePath)
    (hunder : phase = .training → s'.underway = s.underway) : s'.Stage v phase := by
  cases phase with
  | clearing => exact (read_congr hmodel).trans h
  | training =>
    simp only [Stage, Trained, hunder rfl, hdeeds, hupdate, read_congr hmodel] at h ⊢
    exact h
  | collecting =>
    simp only [Stage, Trained, updateFile, hdeeds, read_congr hupdate] at h ⊢
    exact h
  | submitting u attempt | submitBackoff u attempt =>
    simp only [Stage, Trained, hconfig, hdeeds] at h ⊢
    exact h
  | _ => trivial

/-- What is sent tells where it comes from. -/
theorem tagged_sampled {m : Machine} {v : ModelView} (h : m.model = some v) (update : Blob) :
    Tagged m.config v (m.sampled update) := by
  have hround : m.modelRound = v.round := by rw [Machine.modelRound, h]; rfl
  exact ⟨by rw [← hround]; rfl, rfl⟩

structure Known (config : CollaboratorConfig) (s : Workshop) : Prop where
  same : s.machine.config = config
  received : lastReceived s.deeds = s.machine.model
  known : s.machine.phase.hasModel = true → s.machine.model.isSome = true
  stage : ∀ v, s.machine.model = some v → s.Stage v s.machine.phase
  orderly : Orderly config s.deeds

namespace Known

variable {config : CollaboratorConfig} {s s' : Workshop}

theorem start (config : CollaboratorConfig) (workDir : WorkDir) (disk : Tree) :
    Known config (start config workDir disk) where
  same := rfl
  received := rfl
  known := nofun
  stage := nofun
  orderly := .nil

/-- Nothing new in the log. -/
theorem unlogged (h : Known config s) (hdeeds : s'.deeds = s.deeds) :
    lastReceived s'.deeds = lastReceived s.deeds ∧ Orderly config s'.deeds :=
  ⟨congrArg _ hdeeds, hdeeds ▸ h.orderly⟩

/-- Going on to a free phase, with no new model in the log. -/
theorem freed (h : Known config s) (hm : s.machine.Frees s'.machine)
    (hlog : lastReceived s'.deeds = lastReceived s.deeds ∧ Orderly config s'.deeds) :
    Known config s' where
  same := hm.config.trans h.same
  received := by rw [hlog.1, h.received, hm.model]
  known hp := by rw [hm.model]; exact h.known (hm.known hp)
  stage v _ := stage_of_free hm.free v
  orderly := hlog.2

/-- Going on with a model that has come in. -/
theorem observed (h : Known config s) {v : ModelView} {again : Bool}
    (hm : s'.machine = (s.machine.observe v).handOver again)
    (hdeeds : s'.deeds = s.deeds ++ [.received v]) : Known config s' where
  same := by rw [hm]; exact h.same
  received := by rw [hm, hdeeds]; exact lastReceived_received s.deeds v
  known _ := by rw [hm]; rfl
  stage v _ := stage_of_free (by rw [hm]; rfl) v
  orderly := hdeeds ▸ h.orderly.concat trivial

/-- Going on to a phase of which something is known, with no new model in the log. -/
theorem staged (h : Known config s) {phase next : Phase} {state : CollaboratorState}
    (hm : s'.machine = s.machine.enter state next) (hp : s.machine.phase = phase)
    (hphase : phase.hasModel = true)
    (hlog : lastReceived s'.deeds = lastReceived s.deeds ∧ Orderly config s'.deeds)
    (hstage : ∀ v, s.machine.model = some v → s.Stage v phase → s'.Stage v next) :
    Known config s' where
  same := by rw [hm]; exact h.same
  received := by rw [hlog.1, h.received, hm]; rfl
  known _ := by rw [hm]; exact h.known (hp ▸ hphase)
  stage v hv := by
    rw [hm] at hv ⊢
    exact hstage v hv (hp ▸ h.stage v hv)
  orderly := hlog.2

/-! ## Steps -/

/-- Nothing changes but the token, what is under way outside of trainings, and the disk
elsewhere. -/
theorem still (h : Known config s) (hm : s'.machine = s.machine) (hdeeds : s'.deeds = s.deeds)
    (hmodel : s'.disk.find s'.workDir.modelPath = s.disk.find s.workDir.modelPath)
    (hupdate : s'.disk.find s'.workDir.updatePath = s.disk.find s.workDir.updatePath)
    (hunder : s.machine.phase = .training → s'.underway = s.underway) : Known config s' where
  same := hm ▸ h.same
  received := by rw [hm, hdeeds]; exact h.received
  known := hm ▸ h.known
  stage v hv := by
    rw [hm] at hv ⊢
    exact (h.stage v hv).congr (congrArg _ hm) hdeeds hmodel hupdate hunder
  orderly := hdeeds ▸ h.orderly

/-- In a phase after the join there is a model. -/
theorem exists_stage (h : Known config s) {phase : Phase} (hp : s.machine.phase = phase)
    (hphase : phase.hasModel = true) :
    ∃ v, s.machine.model = some v ∧ lastReceived s.deeds = some v ∧ s.Stage v phase := by
  obtain ⟨v, hv⟩ := Option.isSome_iff_exists.1 (h.known (hp ▸ hphase))
  exact ⟨v, hv, h.received.trans hv, hp ▸ h.stage v hv⟩

/-- A training that is begun is begun on the model that came in last, and finds no update. -/
theorem begin_train (h : Known config s) (hp : s.machine.phase = .training)
    (hunder : s.underway = false) : Known config (s.begin .train) := by
  obtain ⟨v, hv, hlast, hread, hfind⟩ : ∃ v, s.machine.model = some v ∧
      lastReceived s.deeds = some v ∧ s.disk.read s.workDir.modelPath = .ok v.model ∧
      s.disk.find s.workDir.updatePath = .error .notFound := by
    obtain ⟨v, hv, hlast, hstage⟩ := h.exists_stage hp rfl
    rw [Stage, hunder] at hstage
    exact ⟨v, hv, hlast, hstage⟩
  have hdeeds : (s.begin .train).deeds = s.deeds ++ [.started (some v.model) false] := by
    simp [Workshop.begin, undertaking, modelFile, hread, Tree.exists?, hfind, Except.toOption]
  have horderly : Orderly config (s.deeds ++ [.started (some v.model) false]) :=
    h.orderly.concat ⟨v, hlast, rfl, rfl⟩
  have hsame : lastReceived (s.deeds ++ [.started (some v.model) false]) = lastReceived s.deeds :=
    lastReceived_append (by simp [Deed.view?])
  refine h.staged (Machine.enter_self hp) hp rfl (hdeeds ▸ ⟨hsame, horderly⟩) fun v' hv' _ => ?_
  obtain rfl : v = v' := Option.some.inj (hv.symm.trans hv')
  exact ⟨s.deeds, hlast, hdeeds⟩

/-- An update that goes out goes out after its training. -/
theorem begin_submit (h : Known config s) {u : ModelUpdate} {attempt : Nat}
    (hp : s.machine.phase = .submitting u attempt) : Known config (s.begin (.submit u)) := by
  obtain ⟨v, hv, -, htagged, n, before, hbefore, hdeeds⟩ := h.exists_stage hp rfl
  have hfollows : Follows config s.deeds (.submitted u) :=
    ⟨before, v, n, hbefore, h.same ▸ htagged, by rw [hdeeds]; simp⟩
  have hsame : lastReceived (s.begin (.submit u)).deeds = lastReceived s.deeds :=
    lastReceived_append (by simp [undertaking, Deed.view?])
  refine h.staged (Machine.enter_self hp) hp rfl ⟨hsame, h.orderly.concat hfollows⟩
    fun v' hv' _ => ?_
  obtain rfl : v = v' := Option.some.inj (hv.symm.trans hv')
  refine ⟨htagged, n + 1, before, hbefore, ?_⟩
  rw [Workshop.begin, undertaking, hdeeds, List.replicate_succ']
  simp

theorem begin (h : Known config s) {d : Demand} (hd : s.machine.demand = some d)
    (hunder : s.underway = false) : Known config (s.begin d) := by
  cases d with
  | train => exact h.begin_train (Machine.phase_of_demand_train hd) hunder
  | submit u =>
    obtain ⟨attempt, hp⟩ := Machine.phase_of_demand_submit hd
    exact h.begin_submit hp
  | _ =>
    refine h.still rfl (List.append_nil _) rfl rfl fun hp => ?_
    rw [Machine.demand, hp] at hd
    cases hd

/-- The answer to a call for a model. -/
theorem hear_view (h : Known config s) {d : Demand} (hm : s.machine.phase.awaitsModel = true)
    {a : Answers} (hreply : a.reply d = .view a.view)
    (hdeeds : (s.hear d a).deeds = s.deeds ++
      match a.view with
      | .ok v => [.received v]
      | .error _ => []) : Known config (s.hear d a) := by
  have hmachine : (s.hear d a).machine = s.machine.resume a.cancels (.view a.view) := by
    rw [← hreply]
    rfl
  cases hv : a.view with
  | ok v =>
    rw [hv] at hmachine hdeeds
    obtain ⟨again, hagain⟩ : ∃ again, s.machine.resume a.cancels (.view (.ok v)) =
        (s.machine.observe v).handOver again := Machine.resume_view hm v
    exact h.observed (hmachine.trans hagain) hdeeds
  | error e =>
    rw [hv] at hmachine hdeeds
    have hsame : (s.hear d a).deeds = s.deeds := hdeeds.trans (List.append_nil _)
    exact h.freed (hmachine ▸ Machine.frees_view_error hm e) (h.unlogged hsame)

/-- The trainer has ended. -/
theorem hear_train (h : Known config s) (hp : s.machine.phase = .training)
    (hunder : s.underway = true) (a : Answers) : Known config (s.hear .train a) := by
  obtain ⟨v, hv, -, hstage⟩ := h.exists_stage hp rfl
  obtain ⟨before, hbefore, hdeeds⟩ : s.Trained v [] := by
    rw [Stage, hunder] at hstage
    exact hstage
  have hlog : lastReceived (s.hear .train a).deeds = lastReceived s.deeds ∧
      Orderly config (s.hear .train a).deeds :=
    ⟨lastReceived_append (by simp [outcome, Deed.view?]), h.orderly.concat trivial⟩
  have hmachine : (s.hear .train a).machine = s.machine.resume a.cancels (.done a.trained) := rfl
  rcases htrained : a.trained with e | ⟨⟩
  · refine h.freed ?_ hlog
    rw [hmachine, htrained]
    simp only [Machine.resume, hp]
    exact Machine.frees_fail e
  · rw [htrained] at hmachine
    simp only [Machine.resume, hp] at hmachine
    cases hc : a.cancels with
    | true =>
      rw [hc] at hmachine
      exact h.freed (hmachine ▸ Machine.frees_stop) hlog
    | false =>
      rw [hc] at hmachine
      refine h.staged hmachine hp rfl hlog fun v' hv' _ => ?_
      obtain rfl : v = v' := Option.some.inj (hv.symm.trans hv')
      refine ⟨before, hbefore, ?_⟩
      simp [Workshop.hear, outcome, hdeeds, htrained, updateFile]

/-- An answer to a submission. -/
theorem hear_submit (h : Known config s) {u : ModelUpdate} {attempt : Nat}
    (hp : s.machine.phase = .submitting u attempt) (a : Answers) :
    Known config (s.hear (.submit u) a) := by
  have hopen : s.machine.phase.hasModel = true := by rw [hp]; rfl
  have hdeeds : (s.hear (.submit u) a).deeds = s.deeds := List.append_nil _
  have hmachine : (s.hear (.submit u) a).machine =
      s.machine.resume a.cancels (.receipt a.receipt) := rfl
  have freed : s.machine.Frees (s.hear (.submit u) a).machine →
      Known config (s.hear (.submit u) a) := fun hm => h.freed hm (h.unlogged hdeeds)
  rcases hreceipt : a.receipt with e | r
  · rw [hreceipt] at hmachine
    simp only [Machine.resume, hp] at hmachine
    split at hmachine
    · refine h.staged hmachine hp rfl (h.unlogged hdeeds) fun v _ hstage => ?_
      have hsame : s.Stage v (.submitBackoff u attempt) := hstage
      exact hsame.congr (hmachine ▸ rfl) hdeeds rfl rfl fun htraining => by cases htraining
    · exact freed (hmachine ▸ Machine.frees_afterRefusal hopen e)
  · rw [hreceipt] at hmachine
    simp only [Machine.resume, hp] at hmachine
    exact freed (hmachine ▸ Machine.frees_afterSubmit hopen r)

/-- A pause is over. -/
theorem hear_sleep (h : Known config s) {n : Nat} (hd : s.machine.demand = some (.sleep n))
    (a : Answers) : Known config (s.hear (.sleep n) a) := by
  have hdeeds : (s.hear (.sleep n) a).deeds = s.deeds := List.append_nil _
  have hmachine : (s.hear (.sleep n) a).machine = s.machine.resume a.cancels .slept := rfl
  have freed : s.machine.Frees (s.hear (.sleep n) a).machine → Known config (s.hear (.sleep n) a) :=
    fun hm => h.freed hm (h.unlogged hdeeds)
  rcases Machine.phase_of_demand_sleep hd with ⟨u, attempt, hp⟩ | hp | ⟨purpose, attempt, hp⟩
  · simp only [Machine.resume, hp] at hmachine
    refine h.staged hmachine hp rfl (h.unlogged hdeeds) fun v _ hstage => ?_
    have hsame : s.Stage v (.submitting u (attempt + 1)) := hstage
    exact hsame.congr (hmachine ▸ rfl) hdeeds rfl rfl fun htraining => by cases htraining
  · simp only [Machine.resume, hp] at hmachine
    exact freed (hmachine ▸ Machine.frees_enter (by rw [hp]; rfl) _ rfl)
  · simp only [Machine.resume, hp] at hmachine
    exact freed (hmachine ▸ Machine.frees_enter (by rw [hp]; rfl) _ rfl)

theorem hear (h : Known config s) {d : Demand} (hd : s.machine.demand = some d)
    (hunder : s.underway = true) (hcancellable : d.isCancellable = true) (a : Answers) :
    Known config (s.hear d a) := by
  cases d with
  | join =>
    obtain ⟨again, hp⟩ := Machine.phase_of_demand_join hd
    exact h.hear_view (by rw [hp]; rfl) rfl rfl
  | latest minRound wait =>
    obtain ⟨purpose, attempt, hp⟩ := Machine.phase_of_demand_latest hd
    exact h.hear_view (by rw [hp]; rfl) rfl rfl
  | train => exact h.hear_train (Machine.phase_of_demand_train hd) hunder a
  | submit u =>
    obtain ⟨attempt, hp⟩ := Machine.phase_of_demand_submit hd
    exact h.hear_submit hp a
  | sleep n => exact h.hear_sleep hd a
  | writeModel | clearUpdate | readUpdate => cases hcancellable

/-! ## Steps in the working directory -/

/-- A step that fails ends the run, so that only those that succeed have to be gone on from. -/
theorem filed (h : Known config s) {α : Type} {step : WorkDir.Step α}
    {wrap : Except FederationError α → Reply} {faults : Faults}
    (hfail : ∀ e, s.machine.resume s.cancelled (wrap (.error e)) = s.machine.fail e)
    (hgo : ∀ a, (step.run.run s.disk (faithful faults)).1 = .ok a →
      (s.filed step wrap faults).machine = s.machine.resume s.cancelled (wrap (.ok a)) →
      Known config (s.filed step wrap faults)) :
    Known config (s.filed step wrap faults) := by
  have hmachine : (s.filed step wrap faults).machine = s.machine.resume s.cancelled
      (wrap (step.run.run s.disk (faithful faults)).1) := rfl
  cases hr : (step.run.run s.disk (faithful faults)).1 with
  | ok a => exact hgo a hr (hr ▸ hmachine)
  | error e =>
    rw [hr, hfail] at hmachine
    exact h.freed (hmachine ▸ Machine.frees_fail e) (h.unlogged rfl)

/-- The model is handed to the trainer. -/
theorem filed_writeModel (h : Known config s) {again : Bool} (hp : s.machine.phase = .handing again)
    (faults : Faults) :
    Known config (s.filed (s.workDir.writeModel ((s.machine.model.map (·.model)).getD [])) .done
      faults) := by
  obtain ⟨v, hv, -, -⟩ := h.exists_stage hp rfl
  rw [hv]
  refine h.filed (fun e => by simp only [Machine.resume, hp]) fun _ hr hmachine => ?_
  have freed : s.machine.Frees (s.filed (s.workDir.writeModel v.model) .done faults).machine →
      Known config (s.filed (s.workDir.writeModel v.model) .done faults) :=
    fun hm => h.freed hm (h.unlogged rfl)
  cases again with
  | true =>
    simp only [Machine.resume, hp] at hmachine
    exact freed (hmachine ▸ Machine.frees_enter (by rw [hp]; rfl) _ rfl)
  | false =>
    simp only [Machine.resume, hp, Machine.beginRound, Machine.unlessCancelled] at hmachine
    split at hmachine
    · exact freed (hmachine ▸ Machine.frees_stop)
    · split at hmachine
      · exact freed (hmachine ▸ Machine.frees_stop)
      · refine h.staged hmachine hp rfl (h.unlogged rfl) fun v' hv' _ => ?_
        obtain rfl : v = v' := Option.some.inj (hv.symm.trans hv')
        exact WorkDir.read_writeModel s.workDir v.model s.disk (faithful faults) () hr

/-- What an earlier training left is cleared away. -/
theorem filed_clearUpdate (h : Known config s) (hp : s.machine.phase = .clearing)
    (faults : Faults) : Known config (s.filed s.workDir.clearUpdate .done faults) := by
  refine h.filed (fun e => by simp only [Machine.resume, hp]) fun _ hr hmachine => ?_
  obtain ⟨hfind, hread⟩ := s.workDir.find_clearUpdate (faithful_faithful faults) hr
  simp only [Machine.resume, hp] at hmachine
  exact h.staged hmachine hp rfl (h.unlogged rfl) fun v _ hstage => ⟨hread v.model hstage, hfind⟩

/-- What the training left is read. -/
theorem filed_readUpdate (h : Known config s) (hp : s.machine.phase = .collecting)
    (faults : Faults) : Known config (s.filed s.workDir.readUpdate .update faults) := by
  refine h.filed (fun e => by simp only [Machine.resume, hp]) fun update hr hmachine => ?_
  simp only [Machine.resume, hp, Machine.unlessCancelled] at hmachine
  split at hmachine
  · exact h.freed (hmachine ▸ Machine.frees_stop) (h.unlogged rfl)
  · refine h.staged hmachine hp rfl (h.unlogged rfl) fun v hv hstage => ?_
    obtain ⟨before, hbefore, hdeeds⟩ := hstage
    have hfile : s.updateFile = some update := by
      rw [updateFile, s.workDir.read_readUpdate hr]
      rfl
    have htagged : Tagged (s.filed s.workDir.readUpdate .update faults).machine.config v
        (s.machine.sampled update) := hmachine ▸ tagged_sampled hv update
    exact ⟨htagged, 0, before, hbefore, hfile ▸ hdeeds⟩

theorem file (h : Known config s) (faults : Faults) : Known config (s.act (.file faults)) := by
  simp only [Workshop.act]
  split
  · next model hd =>
    rcases Machine.phase_of_file hd rfl with ⟨again, _, hp, -⟩ | ⟨-, he⟩ | ⟨-, he⟩
    · obtain rfl : (s.machine.model.map (·.model)).getD [] = model := by
        simpa [Machine.demand, hp] using hd
      exact h.filed_writeModel hp faults
    · cases he
    · cases he
  · next hd =>
    rcases Machine.phase_of_file hd rfl with ⟨_, _, -, he⟩ | ⟨hp, -⟩ | ⟨-, he⟩
    · cases he
    · exact h.filed_clearUpdate hp faults
    · cases he
  · next hd =>
    rcases Machine.phase_of_file hd rfl with ⟨_, _, -, he⟩ | ⟨-, he⟩ | ⟨hp, -⟩
    · cases he
    · cases he
    · exact h.filed_readUpdate hp faults
  · exact h

/-- The trainer changes the disk while it runs. -/
theorem train (h : Known config s) (hunder : s.underway = true)
    (hd : s.machine.demand = some .train) (disk : Tree) :
    Known config { s with disk := disk } := by
  have hp := Machine.phase_of_demand_train hd
  refine h.staged (Machine.enter_self hp) hp rfl (h.unlogged rfl) fun v _ hstage => ?_
  rw [Stage, hunder, if_pos rfl] at hstage
  rw [Stage, hunder, if_pos rfl]
  exact hstage

theorem act (h : Known config s) (step : WorkshopStep) : Known config (s.act step) := by
  cases step with
  | cancel => exact h.still rfl rfl rfl rfl fun _ => rfl
  | file faults => exact h.file faults
  | leave =>
    simp only [Workshop.act]
    split
    · exact h.freed Machine.frees_stop (h.unlogged rfl)
    · exact h
  | begin =>
    simp only [Workshop.act]
    split
    · next d hd =>
      split
      · next hguard =>
        simp only [Bool.and_eq_true, Bool.not_eq_true'] at hguard
        exact h.begin hd hguard.2
      · exact h
    · exact h
  | train disk =>
    simp only [Workshop.act]
    split
    · next hguard =>
      rw [Bool.and_eq_true, decide_eq_true_eq] at hguard
      exact h.train hguard.1 hguard.2 disk
    · exact h
  | others disk =>
    simp only [Workshop.act]
    split
    · next hguard =>
      have hsame := of_decide_eq_true hguard
      exact h.still rfl rfl hsame.1 hsame.2 fun _ => rfl
    · exact h
  | answer a =>
    simp only [Workshop.act]
    split
    · next d hd =>
      split
      · next hguard =>
        simp only [Bool.and_eq_true] at hguard
        exact h.hear hd hguard.2 hguard.1.1 a
      · exact h
    · exact h

theorem run (h : Known config s) (steps : List WorkshopStep) : Known config (s.run steps) := by
  induction steps generalizing s with
  | nil => exact h
  | cons step steps ih => exact ih (h.act step)

end Known

/-! ## Trainings that leave nothing -/

/-- The run has failed for want of an update. -/
def Fails (s : Workshop) : Prop :=
  ∃ text, s.machine.result? = some (.error (.trainingFailure text))

/-- A training has succeeded and left nothing, and the run has failed for it or is about to. -/
def Barren (s : Workshop) : Prop :=
  s.machine.phase = .collecting ∧ s.updateFile = none ∨ s.Fails

variable {s : Workshop}

theorem Fails.demand (h : s.Fails) : s.machine.demand = none := by
  obtain ⟨text, hr⟩ := h
  rw [Machine.demand, Machine.phase_of_result hr]

/-- A run that has failed stays as it is. -/
theorem Fails.act (h : s.Fails) (step : WorkshopStep) :
    (s.act step).Fails ∧ (s.act step).deeds = s.deeds := by
  have hd := h.demand
  cases step with
  | cancel => exact ⟨h, rfl⟩
  | others disk =>
    simp only [Workshop.act]
    split <;> exact ⟨h, rfl⟩
  | leave | begin | train | answer | file => simpa [Workshop.act, hd] using h

/-- There is nothing to be read. -/
theorem fails_filed (hp : s.machine.phase = .collecting) (hnone : s.updateFile = none)
    (faults : Faults) : (s.filed s.workDir.readUpdate .update faults).Fails := by
  have hmachine : (s.filed s.workDir.readUpdate .update faults).machine =
      s.machine.resume s.cancelled (.update
        (s.workDir.readUpdate.run.run s.disk (faithful faults)).1) := rfl
  rcases hr : (s.workDir.readUpdate.run.run s.disk (faithful faults)).1 with e | update
  · obtain ⟨text, rfl⟩ := (WorkDir.fails_readUpdate s.workDir).run s.disk (faithful faults) e hr
    rw [hr] at hmachine
    simp only [Machine.resume, hp] at hmachine
    exact ⟨text, by rw [hmachine]; rfl⟩
  · rw [updateFile, s.workDir.read_readUpdate hr] at hnone
    cases hnone

theorem Barren.file (h : s.Barren) (faults : Faults) : (s.act (.file faults)).Fails := by
  rcases h with ⟨hp, hnone⟩ | h
  · have hact : s.act (.file faults) = s.filed s.workDir.readUpdate .update faults := by
      simp only [Workshop.act, Machine.demand, hp]
    exact hact ▸ fails_filed hp hnone faults
  · exact (h.act _).1

/-- All that can come of it is that the run fails. -/
theorem Barren.act (h : s.Barren) (step : WorkshopStep) :
    (s.act step).Barren ∧ (s.act step).deeds = s.deeds := by
  rcases h with ⟨hp, hnone⟩ | h
  · have hd : s.machine.demand = some .readUpdate := by rw [Machine.demand, hp]
    have hsame : s.Barren := .inl ⟨hp, hnone⟩
    cases step with
    | cancel => exact ⟨.inl ⟨hp, hnone⟩, rfl⟩
    | others disk =>
      simp only [Workshop.act]
      split
      · next hguard =>
        have hread := read_congr (of_decide_eq_true hguard).2
        exact ⟨.inl ⟨hp, (congrArg _ hread).trans hnone⟩, rfl⟩
      · exact ⟨hsame, rfl⟩
    | leave | begin | train | answer =>
      simpa [Workshop.act, hd, Demand.isCancellable] using hsame
    | file faults =>
      refine ⟨.inr (hsame.file faults), ?_⟩
      simp only [Workshop.act, hd]
      rfl
  · exact ⟨.inr (h.act step).1, (h.act step).2⟩

theorem Fails.run (h : s.Fails) (steps : List WorkshopStep) : (s.run steps).Fails := by
  induction steps generalizing s with
  | nil => exact h
  | cons step steps ih => exact ih (h.act step).1

theorem Barren.run (h : s.Barren) (steps : List WorkshopStep) :
    (s.run steps).Barren ∧ (s.run steps).deeds = s.deeds ∧
      ((∃ faults, .file faults ∈ steps) → (s.run steps).Fails) := by
  induction steps generalizing s with
  | nil => exact ⟨h, rfl, fun ⟨_, hmem⟩ => absurd hmem List.not_mem_nil⟩
  | cons step steps ih =>
    obtain ⟨hact, hdeeds⟩ := h.act step
    obtain ⟨hrun, hrest, hfails⟩ := ih hact
    refine ⟨hrun, hrest.trans hdeeds, fun ⟨faults, hmem⟩ => ?_⟩
    rcases List.mem_cons.1 hmem with rfl | hmem
    · exact (h.file faults).run steps
    · exact hfails ⟨faults, hmem⟩

/-- A training that succeeds and leaves nothing. -/
theorem barren_answer (hd : s.machine.demand = some .train) (hunder : s.underway = true)
    (hc : s.cancelled = false) (hnone : s.updateFile = none) {a : Answers}
    (htrained : a.trained = .ok ()) (hcancels : a.cancels = false) :
    (s.act (.answer a)).Barren ∧
      (s.act (.answer a)).deeds = s.deeds ++ [.returned (.ok ()) none] := by
  have hact : s.act (.answer a) = s.hear .train a := by
    simp [Workshop.act, hd, hunder, hc, Demand.isCancellable]
  have hmachine : (s.hear .train a).machine = s.machine.goTo .collecting := by
    simp [hear, Machine.resume, Answers.reply, Machine.phase_of_demand_train hd, htrained, hcancels,
      Machine.unlessCancelled]
  rw [hact]
  refine ⟨.inl ⟨by rw [hmachine]; rfl, hnone⟩, ?_⟩
  simp [hear, outcome, htrained, hnone]

end Workshop

/-- **Every update comes from a training on the model that came in last.**  Take any run, in either
mode, with any settings, in any directory of any disk, whatever the transport answers, whatever the
trainer does to the disk while it runs, and whichever operations on the disk fail.  Whenever the
trainer is started, `model.bin` holds the model that came in last, and there is no `update.bin`.
Whenever an update goes out, for the first time or again, it is what `update.bin` held when the last
training ended, which had been started so and succeeded; it tells the round of that model, unless
that is zero, and the sample count of the settings; and since that training nothing has gone out but
this update.  And when a training of a run that was not called off succeeds and leaves no
`update.bin`, nothing goes out any more, and all the run can do is fail, which it does as soon as it
looks for the update. -/
theorem update_provenance (config : CollaboratorConfig) (workDir : WorkDir) (disk : Tree)
    (steps : List WorkshopStep) :
    let s := (Workshop.start config workDir disk).run steps
    (∀ prior input stale later, s.deeds = prior ++ .started input stale :: later →
      ∃ v, lastReceived prior = some v ∧ input = some v.model ∧ stale = false) ∧
    (∀ prior u later, s.deeds = prior ++ .submitted u :: later →
      ∃ before v n, lastReceived before = some v ∧
        prior = before ++ [.started (some v.model) false, .returned (.ok ()) (some u.model)] ++
          List.replicate n (.submitted u) ∧
        u.baseRound = (if v.round = 0 then none else some v.round) ∧
        u.sampleCount = config.settings.sampleCount) ∧
    ∀ a later, s.machine.demand = some .train → s.underway = true → s.cancelled = false →
      s.updateFile = none → a.trained = .ok () → a.cancels = false →
      let e := (s.act (.answer a)).run later
      e.deeds = s.deeds ++ [.returned (.ok ()) none] ∧
        (∀ r, e.machine.result? = some r → ∃ text, r = .error (.trainingFailure text)) ∧
        ((∃ faults, .file faults ∈ later) →
          ∃ text, e.machine.result? = some (.error (.trainingFailure text))) := by
  intro s
  have hknown : Workshop.Known config s := (Workshop.Known.start config workDir disk).run steps
  refine ⟨fun prior input stale later hs => hknown.orderly prior _ later hs,
    fun prior u later hs => ?_, fun a later hd hunder hc hnone htrained hcancels => ?_⟩
  · obtain ⟨before, v, n, hbefore, htagged, hprior⟩ := hknown.orderly prior _ later hs
    exact ⟨before, v, n, hbefore, hprior, htagged.base, htagged.samples⟩
  · obtain ⟨hbarren, hdeeds⟩ := Workshop.barren_answer hd hunder hc hnone htrained hcancels
    obtain ⟨hend, hlog, hfails⟩ := hbarren.run later
    refine ⟨hlog.trans hdeeds, fun r hr => ?_, hfails⟩
    rcases hend with ⟨hp, -⟩ | ⟨text, htext⟩
    · rw [Machine.result?, hp] at hr
      cases hr
    · exact ⟨text, Option.some.inj (hr.symm.trans htext)⟩

/-- An update that is sent again after a loss. -/
example :
    let config : CollaboratorConfig := ⟨"a", .async none, 1, .default⟩
    let view : ModelView := ⟨[0, 0, 128, 63], 4, 4⟩
    let well : Answers := ⟨.ok view, .ok ⟨5, true⟩, .ok (), .ok (), .ok [], false⟩
    let lost : Answers := { well with receipt := .error (.transport "gone") }
    let disk : Tree := ⟨[(["work"], .directory 0o700)], []⟩
    let left : Tree := ⟨[(["work"], .directory 0o700),
      (["work", "update.bin"], .file [0, 0, 0, 64] 0o644)], []⟩
    let u : ModelUpdate := ⟨[0, 0, 0, 64], some 4, 0⟩
    ((Workshop.start config ⟨"work"⟩ disk).run
        [.begin, .answer well, .file [], .file [], .begin, .train left, .answer well, .file [],
          .begin, .answer lost, .begin, .answer well, .begin]).deeds =
      [.received view, .started (some view.model) false, .returned (.ok ()) (some u.model),
        .submitted u, .submitted u] := by
  decide +kernel

end Federation
