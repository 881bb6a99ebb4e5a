/-
  Rehearsals are runs of a workshop.

  A rehearsal meets the demands of a collaborator one after the other, and a workshop allows for
  everything that can come between.  What is known of every run of a workshop is known of every
  rehearsal.

  * `Tableau`: what a stage and a workshop have in common, the trainings and submissions included;
  * `Stage.Mirrors`, `Stage.Reached`: a stage that is as a workshop is, or can come to be;
  * `Workshop.Awaits`: a workshop with a call, a training or a pause under way;
  * `Stage.Mirrors.step`, `Stage.Mirrors.play`: what meets one demand, and what meets them all;
  * `rehearsal_is_run`, `rehearsed_calls`: every rehearsal is a run of a workshop, and what that
    says of its record.
-/
import Federation.Proofs.Collaborator.Provenance

namespace Federation

open Disk (Tree Faults)

/-! ## Tableaux -/

/-- Trainings and submissions, of which a log tells. -/
def CallRecord.isLogged : CallRecord → Bool
  | .train _ _ | .submit _ => true
  | _ => false

/-- What a log tells of calls. -/
def Deed.call? : Deed → Option CallRecord
  | .started input stale => some (.train (input.getD []) stale)
  | .submitted u => some (.submit u)
  | _ => none

/-- What a stage and a workshop have in common. -/
structure Tableau where
  machine : Machine
  workDir : WorkDir
  disk : Tree
  /-- The trainings and the submissions, the latest last. -/
  calls : List CallRecord

namespace Workshop

def tableau (w : Workshop) : Tableau :=
  ⟨w.machine, w.workDir, w.disk, w.deeds.filterMap Deed.call?⟩

/-- What the machine demands is under way, and not called off. -/
structure Awaits (w : Workshop) (d : Demand) : Prop where
  demand : w.machine.demand = some d
  cancellable : d.isCancellable = true
  goesOn : w.cancelled = false
  underway : w.underway = true

/-- An answer is no call. -/
theorem call?_outcome (w : Workshop) (a : Answers) (d : Demand) :
    (w.outcome a d).filterMap Deed.call? = [] := by
  cases d with
  | join | latest =>
    simp only [outcome]
    split <;> rfl
  | _ => rfl

end Workshop

/-! ## Long polls -/

namespace LongPoll

variable {σ : Type} (p : LongPoll) (clock instant : Nat) (e : RoundEngine σ)

theorem step_waiting (deadline : Nat) :
    p.step clock instant e (.waiting deadline) = (.rereading, e) ∨
      p.step clock instant e (.waiting deadline) = (.waiting deadline, e) := by
  unfold step
  simp only
  split
  · exact .inl rfl
  · exact .inr rfl

/-- A poll that has done what it can is over, or waits. -/
theorem settle_reading :
    (∃ result, (p.settle clock instant e .reading).1 = .finished result) ∨
      ∃ deadline, (p.settle clock instant e .reading).1 = .waiting deadline := by
  rcases hread : p.step clock instant e .reading with ⟨phase, e'⟩
  have hphase : (∃ result, phase = .finished result) ∨ phase = .subscribing := by
    simp only [step] at hread
    split at hread
    · exact .inl ⟨_, (congrArg Prod.fst hread).symm⟩
    · split at hread
      · exact .inl ⟨_, (congrArg Prod.fst hread).symm⟩
      · exact .inr (congrArg Prod.fst hread).symm
  unfold settle
  rw [hread]
  rcases hphase with ⟨result, rfl⟩ | rfl
  · exact .inl ⟨result, rfl⟩
  · have hwait : p.step clock instant e' .subscribing =
        (.waiting (clock + min p.timeout maxWait), e') := rfl
    simp only [hwait]
    rcases p.step_waiting clock instant e' (clock + min p.timeout maxWait) with h | h
    · simp only [h]
      exact .inl ⟨_, rfl⟩
    · simp only [h]
      exact .inr ⟨_, rfl⟩

/-- At its deadline it is over. -/
theorem settle_waiting {deadline : Nat} (h : deadline ≤ clock) :
    ∃ result, (p.settle clock instant e (.waiting deadline)).1 = .finished result := by
  have hover : p.step clock instant e (.waiting deadline) = (.rereading, e) := by
    simp [step, h]
  exact ⟨_, by rw [settle, hover]; rfl⟩

end LongPoll

namespace Stage

variable {σ : Type}

/-- The trainings and the submissions on record, the latest last. -/
def calls (s : Stage σ) : List CallRecord :=
  (s.record.reverse.map (·.2)).filter CallRecord.isLogged

theorem calls_cons {s : Stage σ} (clock : Nat) (call : CallRecord) :
    ({ s with record := (clock, call) :: s.record } : Stage σ).calls =
      s.calls ++ [call].filter CallRecord.isLogged := by
  simp only [calls, List.reverse_cons, List.map_append, List.filter_append]
  rfl

def tableau (s : Stage σ) : Tableau := ⟨s.machine, s.workDir, s.disk, s.calls⟩

/-- The stage is as the workshop is. -/
structure Mirrors (s : Stage σ) (w : Workshop) : Prop where
  tableau : w.tableau = s.tableau
  cancelled : w.cancelled = s.cancelled
  rests : s.stalled = false → w.underway = false

/-- The workshop can come to be as the stage is. -/
def Reached (s : Stage σ) (w : Workshop) : Prop := ∃ steps, s.Mirrors (w.run steps)

/-- The stage is as the workshop is, but for the token and what is under way. -/
def Shows (s : Stage σ) (w : Workshop) : Prop := w.tableau = s.tableau ∧ s.stalled = false

variable {s s' : Stage σ} {w : Workshop} {d : Demand}

theorem Mirrors.reached (h : s.Mirrors w) : s.Reached w := ⟨[], h⟩

theorem Reached.of_run (steps : List WorkshopStep) (h : s.Reached (w.run steps)) : s.Reached w := by
  obtain ⟨more, h⟩ := h
  refine ⟨steps ++ more, ?_⟩
  rw [Workshop.run, List.foldl_append]
  exact h

/-! ## Ends of a wait -/

/-- The run notices that it was called off. -/
theorem Shows.interrupt (hs : s.Shows w) (h : w.Awaits d) (hc : s.cancelled = true) :
    s.interrupt.Reached w := by
  have hrun : w.run [.cancel, .leave] =
      { w with machine := w.machine.interrupt, cancelled := true, underway := false } := by
    simp [Workshop.run, Workshop.act, h.demand, h.cancellable]
  refine ⟨[.cancel, .leave], ?_⟩
  rw [hrun]
  exact ⟨congrArg (fun c : Tableau => { c with machine := c.machine.interrupt }) hs.1, hc.symm,
    fun _ => rfl⟩

theorem Shows.hear (hs : s.Shows w) (h : w.Awaits d) {a : Answers} (ha : a.cancels = s.cancelled) :
    (s.reply (a.reply d)).Reached w := by
  have hrun : w.run [.answer a] = w.hear d a := by
    simp [Workshop.run, Workshop.act, h.demand, h.cancellable, h.goesOn, h.underway]
  have htableau : (w.hear d a).tableau =
      { w.tableau with machine := w.tableau.machine.resume a.cancels (a.reply d) } := by
    simp only [Workshop.tableau, Workshop.hear, List.filterMap_append, Workshop.call?_outcome,
      List.append_nil]
  refine ⟨[.answer a], ?_⟩
  rw [hrun]
  refine ⟨htableau.trans ?_, ha, fun _ => rfl⟩
  rw [hs.1, ha]
  rfl

/-- The answer comes; the run may have been called off before it hears it. -/
theorem Shows.answer (hs : s.Shows w) (h : w.Awaits d) (a : Answers) :
    (s.reply (a.reply d)).Reached w := by
  have hreply : ({ a with cancels := s.cancelled } : Answers).reply d = a.reply d := by
    cases d <;> rfl
  rw [← hreply]
  exact hs.hear h rfl

/-- The trainer changes the disk. -/
theorem Shows.train (hs : s.Shows w) (h : w.Awaits .train) (disk : Tree)
    (hnext : ∀ w' : Workshop, w'.Awaits .train → ({ s with disk := disk } : Stage σ).Shows w' →
      s'.Reached w') : s'.Reached w := by
  have hact : w.run [.train disk] = { w with disk := disk } := by
    simp [Workshop.run, Workshop.act, h.demand, h.underway]
  refine .of_run [.train disk] (hact ▸ hnext _ ⟨h.demand, h.cancellable, h.goesOn, h.underway⟩ ?_)
  exact ⟨congrArg (fun c : Tableau => { c with disk := disk }) hs.1, hs.2⟩

/-! ## Waits -/

theorem Shows.waitUntil (hs : s.Shows w) (h : w.Awaits d) (wake : Nat)
    {next : Stage σ → Stage σ}
    (hnext : ∀ s' : Stage σ, s'.Shows w → wake ≤ s'.clock → (next s').Reached w) :
    (s.waitUntil wake next).Reached w := by
  unfold Stage.waitUntil
  split
  · next hle => exact hnext s hs hle
  · split
    · exact Shows.interrupt (s := { s with cancelled := true }) hs h rfl
    · split
      · next t _ =>
        split
        · exact Shows.interrupt (s := { s with clock := t, cancelled := true }) hs h rfl
        · exact hnext { s with clock := wake } hs le_rfl
      · exact hnext { s with clock := wake } hs le_rfl

theorem Shows.waitForever (hs : s.Shows w) (h : w.Awaits d) : s.waitForever.Reached w := by
  unfold Stage.waitForever
  split
  · exact Shows.interrupt (s := { s with cancelled := true }) hs h rfl
  · next hc =>
    split
    · next t _ => exact Shows.interrupt (s := { s with clock := t, cancelled := true }) hs h rfl
    · simp only [Bool.or_eq_true, not_or, Bool.not_eq_true] at hc
      exact ⟨[], hs.1, h.goesOn.trans hc.1.symm, fun hrun => by cases hrun⟩

/-! ## Trainings -/

theorem Shows.trained (hs : s.Shows w) (h : w.Awaits .train)
    (result : Except FederationError Unit) :
    (s.reply (.done result)).Reached w := hs.answer h { Answers.silent with trained := result }

theorem Shows.writeOutput (hs : s.Shows w) (h : w.Awaits .train) (output : Blob) :
    (s.writeOutput output).Reached w := by
  unfold Stage.writeOutput
  split
  · exact hs.train h _ fun w' h' hs' => hs'.trained h' (.ok ())
  · exact hs.trained h _

theorem Shows.standIn (hs : s.Shows w) (h : w.Awaits .train) (n : Nat) : (s.train n).Reached w := by
  unfold Stage.train
  split
  · exact hs.trained h _
  · exact hs.writeOutput h _
  · split
    · exact hs.writeOutput h _
    · exact hs.trained h _
  · split
    · next hc => exact hs.interrupt h hc
    · generalize runTrainer _ _ _ _ = r
      obtain ⟨result, disk⟩ := r
      refine hs.train h disk fun w' h' hs' => ?_
      exact Shows.trained (s := Stage.rest { s with disk := disk }) hs' h' result

/-! ## Calls -/

/-- The call that a demand is met by. -/
inductive Calls : Demand → CallRecord → Prop
  | join {id : String} : Calls .join (.join id)
  | submit {u : ModelUpdate} : Calls (.submit u) (.submit u)
  | latest {minRound wait : Nat} : Calls (.latest minRound wait) (.latest minRound wait)
  | train {model : Blob} {stale : Bool} : Calls .train (.train model stale)

theorem Shows.fetch (hs : s.Shows w) {minRound wait : Nat} (h : w.Awaits (.latest minRound wait))
    (poll : LongPoll) : (s.fetch poll).Reached w := by
  have viewed : ∀ s' : Stage σ, s'.Shows w → ∀ result, (s'.reply (.view result)).Reached w :=
    fun _ hs' result => hs'.answer h { Answers.silent with view := result }
  have hfirst := poll.settle_reading s.clock instant s.engine
  unfold Stage.fetch
  rcases hsettle : poll.settle s.clock instant s.engine .reading with ⟨phase, engine⟩
  rw [hsettle] at hfirst
  rcases hfirst with ⟨result, rfl⟩ | ⟨deadline, rfl⟩
  · exact viewed { s with engine := engine } hs result
  · refine Shows.waitUntil (s := { s with engine := engine }) hs h deadline fun s' hs' hle => ?_
    obtain ⟨result, hover⟩ := poll.settle_waiting s'.clock instant s'.engine hle
    rcases hagain : poll.settle s'.clock instant s'.engine (.waiting deadline) with ⟨phase, engine'⟩
    rw [hagain] at hover
    cases hover
    exact viewed { s' with engine := engine' } hs' result

section
variable [AggregationStrategy σ]

theorem Shows.callDirectly {call : CallRecord} (hs : s.Shows w) (h : w.Awaits d)
    (hcall : Calls d call) (n : Nat) : (s.callDirectly n call).Reached w := by
  cases hcall with
  | @join id =>
    simp only [Stage.callDirectly]
    generalize s.engine.joinDirectly instant id = r
    obtain ⟨result, engine⟩ := r
    exact Shows.answer (s := { s with engine := engine }) hs h
      { Answers.silent with view := result }
  | @submit u =>
    simp only [Stage.callDirectly]
    generalize s.engine.submitDirectly instant s.machine.config.id u = r
    obtain ⟨result, engine⟩ := r
    exact Shows.answer (s := { s with engine := engine }) hs h
      { Answers.silent with receipt := result }
  | latest => exact hs.fetch h _
  | train => exact hs.standIn h n

theorem Shows.answerCall {call : CallRecord} (hs : s.Shows w) (h : w.Awaits d)
    (hcall : Calls d call) (n : Nat) (answer : Option ScriptedAnswer) :
    (s.answerCall n call answer).Reached w := by
  have direct := hs.callDirectly h hcall n
  cases hcall with
  | join | latest =>
    rcases answer with _ | (e | v | r)
    · exact direct
    · exact hs.answer h { Answers.silent with view := .error e }
    · exact hs.answer h { Answers.silent with view := .ok v }
    · exact direct
  | submit =>
    rcases answer with _ | (e | v | r)
    · exact direct
    · exact hs.answer h { Answers.silent with receipt := .error e }
    · exact direct
    · exact hs.answer h { Answers.silent with receipt := .ok r }
  | train =>
    rcases answer with _ | (e | v | r)
    · exact direct
    · exact hs.trained h (.error e)
    · exact direct
    · exact direct

theorem Shows.playCue {call : CallRecord} (hs : s.Shows w) (h : w.Awaits d)
    (hcall : Calls d call) (n : Nat) (cue : Cue) : (s.playCue n call cue).Reached w := by
  unfold Stage.playCue
  simp only
  split
  · refine Shows.waitForever ?_ h
    exact hs
  · refine Shows.waitUntil ?_ h _ fun s' hs' _ => hs'.answerCall h hcall n cue.answer
    exact hs

end

/-! ## Demands -/

/-- A demand is met by something that is begun. -/
theorem Mirrors.begun (h : s.Mirrors w) (hrun : s.stalled = false) (hc : s.cancelled = false)
    (hd : s.machine.demand = some d) (hcancellable : d.isCancellable = true)
    (hnext : (w.begin d).Awaits d → s'.Reached (w.begin d)) : s'.Reached w := by
  have hmachine : w.machine = s.machine := congrArg Tableau.machine h.tableau
  have hdemand : w.machine.demand = some d := hmachine ▸ hd
  have hopen : w.cancelled = false := h.cancelled.trans hc
  have hact : w.run [.begin] = w.begin d := by
    simp [Workshop.run, Workshop.act, hdemand, hcancellable, hopen, h.rests hrun]
  exact .of_run [.begin] (hact ▸ hnext ⟨hdemand, hcancellable, hopen, rfl⟩)

/-- What goes on record goes into the log. -/
theorem Mirrors.shows (h : s.Mirrors w) {call : List CallRecord}
    (hlogged : (w.undertaking d).filterMap Deed.call? = call)
    (hs : s'.tableau = { s.tableau with calls := s.calls ++ call }) (hrun : s'.stalled = false) :
    s'.Shows (w.begin d) := by
  have hbegin : (w.begin d).tableau = { w.tableau with calls := w.tableau.calls ++ call } := by
    simp only [Workshop.tableau, Workshop.begin, List.filterMap_append, hlogged]
  refine ⟨hbegin.trans ?_, hrun⟩
  rw [hs, h.tableau]
  rfl

/-- What a stage does in the working directory, the workshop does, too. -/
theorem Mirrors.file (h : s.Mirrors w) {α : Type} {step : WorkDir.Step α}
    {wrap : Except FederationError α → Reply}
    (hact : ∀ c, ({ w with cancelled := c } : Workshop).act (.file []) =
      ({ w with cancelled := c } : Workshop).filed step wrap []) :
    (s.file step wrap).Reached w := by
  -- a cancellation that is due takes effect before the step is over
  have hsteps : w.run ((if s.isDue then [.cancel] else []) ++ [.file []]) =
      ({ w with cancelled := s.cancelled || s.isDue } : Workshop).filed step wrap [] := by
    rw [← hact]
    cases s.isDue with
    | true => rw [Bool.or_true]; rfl
    | false => rw [Bool.or_false, ← h.cancelled]; rfl
  refine ⟨(if s.isDue then [.cancel] else []) ++ [.file []], ?_⟩
  rw [hsteps]
  exact ⟨congrArg (fun c : Tableau => { c with
    machine := c.machine.resume (s.cancelled || s.isDue) (wrap (step.run.runSound c.disk).1)
    disk := (step.run.runSound c.disk).2 }) h.tableau, rfl, fun _ => rfl⟩

section
variable [AggregationStrategy σ]

theorem Mirrors.call {call : CallRecord} (h : s.Mirrors w) (hrun : s.stalled = false)
    (hc : s.cancelled = false) (hd : s.machine.demand = some d) (hcall : Calls d call)
    (hlogged : (w.undertaking d).filterMap Deed.call? = [call].filter CallRecord.isLogged) :
    (s.call call).Reached w := by
  refine h.begun hrun hc hd (by cases hcall <;> rfl) fun h' => ?_
  have hs : ({ s with record := (s.clock, call) :: s.record } : Stage σ).Shows (w.begin d) := by
    refine h.shows hlogged ?_ hrun
    exact congrArg (fun cs => { s.tableau with calls := cs }) (calls_cons s.clock call)
  unfold Stage.call
  simp only
  split
  · refine Shows.playCue ?_ h' hcall _ _
    exact hs
  · refine Shows.callDirectly ?_ h' hcall _
    exact hs

theorem Mirrors.meet (h : s.Mirrors w) (hrun : s.stalled = false)
    (hd : s.machine.demand = some d) (hc : d.isCancellable = true → s.cancelled = false) :
    (s.meet d).Reached w := by
  have hdemand : w.machine.demand = some d := by
    rw [← hd]
    exact congrArg (fun c : Tableau => c.machine.demand) h.tableau
  have hdir : w.workDir = s.workDir := congrArg Tableau.workDir h.tableau
  cases d with
  | join => exact h.call hrun (hc rfl) hd .join rfl
  | latest => exact h.call hrun (hc rfl) hd .latest rfl
  | submit => exact h.call hrun (hc rfl) hd .submit rfl
  | train =>
    have hdisk : w.disk = s.disk := congrArg Tableau.disk h.tableau
    have hinput : w.modelFile.getD [] = s.input := by rw [Workshop.modelFile, hdisk, hdir, input]
    have hlogged : (w.undertaking .train).filterMap Deed.call? =
        [.train (w.modelFile.getD []) (w.disk.exists? w.workDir.updatePath)] := rfl
    rw [hinput, hdisk, hdir] at hlogged
    exact h.call hrun (hc rfl) hd .train hlogged
  | sleep n =>
    refine h.begun hrun (hc rfl) hd rfl fun h' => ?_
    have hlogged : (w.undertaking (.sleep n)).filterMap Deed.call? = [] := rfl
    have hs : s.Shows (w.begin (.sleep n)) :=
      h.shows hlogged (by rw [List.append_nil]; rfl) hrun
    exact hs.waitUntil h' _ fun s' hs' _ => hs'.answer h' Answers.silent
  | writeModel model =>
    have hfile : (s.file (s.workDir.writeModel model) .done).Reached w :=
      h.file fun c => by simp only [Workshop.act, hdemand, hdir]
    exact hfile
  | clearUpdate =>
    have hfile : (s.file s.workDir.clearUpdate .done).Reached w :=
      h.file fun c => by simp only [Workshop.act, hdemand, hdir]
    exact hfile
  | readUpdate =>
    have hfile : (s.file s.workDir.readUpdate .update).Reached w :=
      h.file fun c => by simp only [Workshop.act, hdemand, hdir]
    exact hfile

theorem Mirrors.step (h : s.Mirrors w) (hrun : s.stalled = false)
    (hd : s.machine.demand = some d) : (s.step d).Reached w := by
  unfold Stage.step
  split
  · next hleave =>
    rw [Bool.and_eq_true] at hleave
    have hmachine : w.machine = s.machine := congrArg Tableau.machine h.tableau
    have hrun : w.run [.leave] = { w with machine := w.machine.interrupt, underway := false } := by
      simp [Workshop.run, Workshop.act, h.cancelled, hmachine, hd, hleave]
    refine ⟨[.leave], ?_⟩
    rw [hrun]
    exact ⟨congrArg (fun c : Tableau => { c with machine := c.machine.interrupt }) h.tableau,
      h.cancelled, fun _ => rfl⟩
  · next hgo =>
    refine h.meet hrun hd fun hcancellable => ?_
    simpa [hcancellable] using hgo

/-- **What a stage plays is a run of the workshop.** -/
theorem Mirrors.play (h : s.Mirrors w) (fuel : Nat) : (play fuel s).Reached w := by
  induction fuel generalizing s w with
  | zero => exact h.reached
  | succ fuel ih =>
    unfold Stage.play
    split
    · exact h.reached
    · next d hd =>
      split
      · exact h.reached
      · next hrun =>
        obtain ⟨steps, hstep⟩ := h.step (Bool.eq_false_iff.2 hrun) hd
        exact .of_run steps (ih hstep)

end

end Stage

/-! ## Rehearsals -/

section
variable {σ : Type} [AggregationStrategy σ] (r : Rehearsal σ) {s : Stage σ}

/-- The curtain rises on a workshop in which nothing has happened. -/
theorem Rehearsal.mirrors_stage (h : r.stage = .ok s) :
    ∃ workDir disk steps, s.Mirrors ((Workshop.start r.config workDir disk).run steps) := by
  unfold stage at h
  rcases hcreate : (WorkDir.create r.directory).run.runSound r.disk with ⟨e | workDir, disk⟩
  · rw [hcreate] at h
    cases h
  · rw [hcreate] at h
    cases h
    refine ⟨workDir, disk, if r.cancelled then [.cancel] else [], ?_⟩
    have hrun : (Workshop.start r.config workDir disk).run
        (if r.cancelled then [.cancel] else []) =
        { Workshop.start r.config workDir disk with cancelled := r.cancelled } := by
      cases r.cancelled <;> rfl
    rw [hrun]
    exact ⟨rfl, rfl, fun _ => rfl⟩

/-- **Every rehearsal is a run of a workshop.** -/
theorem rehearsal_is_run (h : r.perform = .ok s) :
    ∃ workDir disk steps, s.Mirrors ((Workshop.start r.config workDir disk).run steps) := by
  unfold Rehearsal.perform at h
  cases hstage : r.stage with
  | error e =>
    rw [hstage] at h
    cases h
  | ok s₀ =>
    rw [hstage] at h
    cases h
    obtain ⟨workDir, disk, before, hbefore⟩ := r.mirrors_stage hstage
    obtain ⟨steps, hplay⟩ := Stage.Reached.of_run before (hbefore.play Stage.playFuel)
    exact ⟨workDir, disk, steps, hplay⟩

/-- So what is known of every run with its token is known of rehearsals. -/
theorem rehearsal_is_shift (h : r.perform = .ok s) :
    ∃ steps, ((Shift.start r.config).run steps).machine = s.machine := by
  obtain ⟨workDir, disk, steps, hrun⟩ := rehearsal_is_run r h
  have hstart : (Shift.start r.config).Mirrors (Workshop.start r.config workDir disk) :=
    ⟨rfl, fun _ => rfl⟩
  obtain ⟨more, hmore⟩ := hstart.run steps
  exact ⟨more, hmore.machine.trans (congrArg Tableau.machine hrun.tableau)⟩

/-- **What a rehearsal puts on record.**  No training finds an earlier update, and every update that
is sent has the sample count of the settings. -/
theorem rehearsed_calls (h : r.perform = .ok s) :
    (∀ model stale, .train model stale ∈ s.calls → stale = false) ∧
      ∀ u, .submit u ∈ s.calls → u.sampleCount = r.config.settings.sampleCount := by
  obtain ⟨workDir, disk, steps, hrun⟩ := rehearsal_is_run r h
  have hknown := (Workshop.Known.start r.config workDir disk).run steps
  generalize (Workshop.start r.config workDir disk).run steps = w at hknown hrun
  have hcalls : w.deeds.filterMap Deed.call? = s.calls := congrArg Tableau.calls hrun.tableau
  have hlogged : ∀ call ∈ s.calls, ∃ prior deed later, w.deeds = prior ++ deed :: later ∧
      deed.call? = some call := by
    intro call hcall
    obtain ⟨deed, hdeed, he⟩ := List.mem_filterMap.1 (hcalls ▸ hcall)
    obtain ⟨prior, later, hdeeds⟩ := List.append_of_mem hdeed
    exact ⟨prior, deed, later, hdeeds, he⟩
  refine ⟨fun model stale hcall => ?_, fun u hcall => ?_⟩
  · obtain ⟨prior, deed, later, hdeeds, he⟩ := hlogged _ hcall
    cases deed with
    | started input stale' =>
      cases he
      obtain ⟨-, -, -, hstale⟩ := hknown.orderly prior _ later hdeeds
      exact hstale
    | _ => cases he
  · obtain ⟨prior, deed, later, hdeeds, he⟩ := hlogged _ hcall
    cases deed with
    | submitted u' =>
      cases he
      obtain ⟨_, _, _, _, htagged, -⟩ := hknown.orderly prior _ later hdeeds
      exact htagged.samples
    | _ => cases he

end

end Federation
