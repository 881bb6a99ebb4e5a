/-
  Calling a collaborator off.

  A run is called off with a token, at any moment at which it waits: for the answer to a call, for
  the trainer, for a pause to be over, or for the working directory.  It looks at the token whenever
  it is woken, before anything else; only a step in the working directory is finished first.

  * `Answers`: what the surroundings have to say when the run is woken;
  * `Shift`, `Shift.run`: a run with its token, and a log of everything it has begun;
  * `Machine.Winds`: what a step in the working directory comes to when the run is called off;
  * `Shift.WindsDown`: everything a step of a run comes to that is called off;
  * `Shift.Since`: nothing was begun but such steps, and nothing entered in the books;
  * `Phase.waitsLeft`: how often a run that is called off still has to be answered;
  * `Machine.Ends`: a run that is over has stopped or failed;
  * `cancellation_final`: all of it, for every run;
  * `Stage.play_of_cancelled`: a rehearsed run makes no call any more.
-/
import Federation.Collaborator.Rehearsal
import Federation.Proofs.Collaborator.Answers

namespace Federation

/-! ## A run and its token -/

/-- What the surroundings have to say at one moment, whichever of these the run waits for. -/
structure Answers where
  view : Except FederationError ModelView
  receipt : Except FederationError SubmitReceipt
  trained : Except FederationError Unit
  /-- From the working directory. -/
  filed : Except FederationError Unit
  update : Except FederationError Blob
  /-- The run is called off in the same moment, before it has heard the answer. -/
  cancels : Bool

namespace Answers

def reply (a : Answers) : Demand → Reply
  | .join | .latest _ _ => .view a.view
  | .submit _ => .receipt a.receipt
  | .train => .done a.trained
  | .sleep _ => .slept
  | .writeModel _ | .clearUpdate => .done a.filed
  | .readUpdate => .update a.update

/-- All is well with the working directory. -/
structure FilesWell (a : Answers) : Prop where
  filed : a.filed = .ok ()
  update : ∃ b, a.update = .ok b

end Answers

/-- A run with its token. -/
structure Shift where
  machine : Machine
  cancelled : Bool
  /-- What the machine demands has been begun. -/
  underway : Bool
  /-- Everything that was ever begun, the latest last. -/
  begun : List Demand

inductive ShiftStep where
  /-- The run is called off. -/
  | cancel
  /-- The run is woken.  What it waits for may be there, or not yet. -/
  | wake (answers : Option Answers)

namespace ShiftStep

def answers : ShiftStep → Bool
  | wake (some _) => true
  | _ => false

/-- All is well with the working directory, if the step says anything about it. -/
def FilesWell : ShiftStep → Prop
  | wake (some a) => a.FilesWell
  | _ => True

end ShiftStep

namespace Shift

def start (config : CollaboratorConfig) : Shift := ⟨.fresh config, false, false, []⟩

/-- Does the run wait?  It has begun something that is not over, or was not woken yet. -/
def isSuspended (x : Shift) : Bool := x.underway || x.begun.isEmpty

/-- Begin what the machine demands, unless that is done. -/
def begin (x : Shift) (d : Demand) : Shift :=
  if x.underway then x else { x with underway := true, begun := x.begun ++ [d] }

/-- Go on with an answer. -/
def hear (x : Shift) (d : Demand) (a : Answers) : Shift :=
  { x with
    machine := x.machine.resume (x.cancelled || a.cancels) (a.reply d)
    cancelled := x.cancelled || a.cancels
    underway := false }

/-- Be called off. -/
def leave (x : Shift) : Shift := { x with machine := x.machine.interrupt, underway := false }

def act (x : Shift) : ShiftStep → Shift
  | .cancel => { x with cancelled := x.cancelled || x.isSuspended }
  | .wake answers =>
    match x.machine.demand with
    | none => x
    | some d =>
      if x.cancelled && d.isCancellable then x.leave
      else
        match answers with
        | none => x.begin d
        | some a => (x.begin d).hear d a

def run (x : Shift) (steps : List ShiftStep) : Shift := steps.foldl act x

@[simp] theorem run_cons (x : Shift) (step : ShiftStep) (steps : List ShiftStep) :
    x.run (step :: steps) = (x.act step).run steps := rfl

section
variable (x : Shift) (d : Demand)

@[simp] theorem begin_machine : (x.begin d).machine = x.machine := by unfold begin; split <;> rfl

@[simp] theorem begin_cancelled : (x.begin d).cancelled = x.cancelled := by
  unfold begin; split <;> rfl

@[simp] theorem begin_underway : (x.begin d).underway = true := by
  unfold begin
  split
  · assumption
  · rfl

theorem begun_begin : (x.begin d).begun = x.begun ∨ (x.begin d).begun = x.begun ++ [d] := by
  unfold begin
  split
  · exact Or.inl rfl
  · exact Or.inr rfl

end

/-- What can be called off goes on with an answer if it is not, and anything else does. -/
theorem act_answer {x : Shift} {d : Demand} (hd : x.machine.demand = some d)
    (hgo : d.isCancellable = true → x.cancelled = false) (a : Answers) :
    (x.act (.wake (some a))).machine =
        x.machine.resume (x.cancelled || a.cancels) (a.reply d) ∧
      (x.act (.wake (some a))).cancelled = (x.cancelled || a.cancels) := by
  have hstay : (x.cancelled && d.isCancellable) = false := by
    cases hc : d.isCancellable with
    | true => rw [hgo hc, Bool.false_and]
    | false => rw [Bool.and_false]
  simp only [act, hd, hstay, Bool.false_eq_true, if_false, hear, begin_machine, begin_cancelled,
    and_self]

end Shift

/-! ## Steps that are finished first -/

/-- How often a run that is called off still has to be answered. -/
def Phase.waitsLeft : Phase → Nat
  | .finished _ => 0
  -- the model is handed over twice, and what follows the clearing is the trainer
  | .handing true | .clearing => 2
  | _ => 1

theorem Phase.waitsLeft_le (phase : Phase) : phase.waitsLeft ≤ 2 := by
  unfold waitsLeft
  split <;> decide

theorem Phase.waitsLeft_eq_zero {phase : Phase} :
    phase.waitsLeft = 0 ↔ phase.isFinished = true := by
  cases phase with
  | handing again => cases again <;> simp [waitsLeft, isFinished]
  | _ => simp [waitsLeft, isFinished]

namespace Machine

theorem waitsLeft_fail (m : Machine) (e : FederationError) : (m.fail e).phase.waitsLeft = 0 := by
  cases e <;> rfl

theorem summary_fail (m : Machine) (e : FederationError) (state : CollaboratorState) :
    (m.fail e).summary state = m.summary state := by
  cases e <;> rfl

theorem demand_eq_none {m : Machine} : m.demand = none ↔ m.phase.isFinished = true := by
  unfold demand
  cases hp : m.phase with
  | fetching purpose attempt => cases purpose <;> simp [Phase.isFinished]
  | _ => simp [Phase.isFinished]

theorem result?_isSome {m : Machine} : m.result?.isSome = m.phase.isFinished := by
  unfold result?
  cases m.phase <;> rfl

/-! ## Ends -/

/-- A run that is over has stopped with its summary, or failed with an error. -/
def Ends (m : Machine) : Prop :=
  ∀ r, m.result? = some r → r = .ok (m.summary .stopped) ∧ m.state = .stopped ∨
    ∃ err, r = .error err ∧ m.state = .failed

/-- A run that is over has stopped. -/
def Clean (m : Machine) : Prop := ∀ r, m.result? = some r → r = .ok (m.summary .stopped)

theorem result?_of_unfinished {m : Machine} (h : m.phase.isFinished = false) :
    m.result? = none := by
  rw [← result?_isSome] at h
  simpa using h

theorem clean_of_unfinished {m : Machine} (h : m.phase.isFinished = false) : m.Clean := by
  intro r hr
  rw [result?_of_unfinished h] at hr
  cases hr

theorem clean_stop (m : Machine) : m.stop.Clean := by
  rintro r ⟨⟩
  rfl

theorem ends_of_unfinished {m : Machine} (h : m.phase.isFinished = false) : m.Ends := by
  intro r hr
  rw [result?_of_unfinished h] at hr
  cases hr

theorem ends_stop (m : Machine) : m.stop.Ends := by
  rintro r ⟨⟩
  exact Or.inl ⟨rfl, rfl⟩

theorem ends_fail (m : Machine) (e : FederationError) : (m.fail e).Ends := by
  rcases m.fail_cases e with ⟨-, h⟩ | ⟨-, h⟩
  · rw [h]
    exact m.ends_stop
  · rw [h]
    rintro r ⟨⟩
    exact Or.inr ⟨e, rfl, rfl⟩

theorem Ends.resume {m : Machine} (h : m.Ends) (cancelled : Bool) (reply : Reply) :
    (m.resume cancelled reply).Ends := by
  generalize hm' : m.resume cancelled reply = m'
  cases hm' ▸ m.resumes_resume cancelled reply with
  | went _ _ hphase => exact ends_of_unfinished hphase
  | observed => exact ends_of_unfinished rfl
  | @accepted u attempt r =>
    rcases m.afterSubmit_cases cancelled r with ⟨-, he⟩ | ⟨-, state, phase, hphase, -, he⟩
    · rw [he]
      exact ends_stop _
    · rw [he]
      exact ends_of_unfinished (Phase.isFinished_of_hasModel hphase)
  | failed => exact m.ends_fail _
  | interrupted | full => exact m.ends_stop
  | ignored => exact h

/-! ## Steps in the working directory -/

/-- What a step in the working directory comes to when the run is called off. -/
inductive Winds (m : Machine) (a : Answers) : Machine → Prop
  | goes {state phase} : phase.isFinished = false → phase.waitsLeft < m.phase.waitsLeft →
      Winds m a (m.enter state phase)
  | stops : Winds m a m.stop
  | fails {e} : ¬ a.FilesWell → Winds m a (m.fail e)

/-- The phases in which something is done in the working directory. -/
theorem phase_of_file {m : Machine} {d : Demand} (hd : m.demand = some d)
    (hfile : d.isCancellable = false) :
    (∃ again model, m.phase = .handing again ∧ d = .writeModel model) ∨
      m.phase = .clearing ∧ d = .clearUpdate ∨ m.phase = .collecting ∧ d = .readUpdate := by
  unfold demand at hd
  split at hd
  case h_2 again hp => exact Or.inl ⟨again, _, hp, (Option.some.inj hd).symm⟩
  case h_3 hp => exact Or.inr (Or.inl ⟨hp, (Option.some.inj hd).symm⟩)
  case h_5 hp => exact Or.inr (Or.inr ⟨hp, (Option.some.inj hd).symm⟩)
  case h_12 => cases hd
  all_goals cases hd; cases hfile

theorem winds_resume {m : Machine} {d : Demand} (hd : m.demand = some d)
    (hfile : d.isCancellable = false) (a : Answers) : m.Winds a (m.resume true (a.reply d)) := by
  have hfiled : ∀ err, a.filed = .error err → ¬ a.FilesWell := fun err hf h => by
    rw [h.filed] at hf
    cases hf
  rcases phase_of_file hd hfile with ⟨again, model, hp, rfl⟩ | ⟨hp, rfl⟩ | ⟨hp, rfl⟩
  · rcases hf : a.filed with err | ⟨⟩
    · simp only [resume, hp, Answers.reply, hf]
      exact .fails (hfiled err hf)
    · cases again with
      | true =>
        simp only [resume, hp, Answers.reply, hf]
        exact .goes rfl (by rw [hp]; decide)
      | false =>
        -- there have been enough rounds, or the next one is not begun
        simp only [resume, hp, Answers.reply, hf, beginRound]
        split
        · exact .stops
        · exact .stops
  · rcases hf : a.filed with err | ⟨⟩
    · simp only [resume, hp, Answers.reply, hf]
      exact .fails (hfiled err hf)
    · simp only [resume, hp, Answers.reply, hf]
      exact .goes rfl (by rw [hp]; decide)
  · rcases hu : a.update with err | update
    · simp only [resume, hp, Answers.reply, hu]
      refine .fails fun h => ?_
      obtain ⟨b, hb⟩ := h.update
      rw [hb] at hu
      cases hu
    · simp only [resume, hp, Answers.reply, hu]
      exact .stops

/-- Nothing is entered in the books. -/
theorem Winds.summary {m m' : Machine} {a : Answers} (h : m.Winds a m') :
    m'.summary .stopped = m.summary .stopped := by
  cases h with
  | goes | stops => rfl
  | fails => exact m.summary_fail ..

end Machine

namespace Shift

/-- Everything a step of a run comes to that is called off. -/
inductive WindsDown (x : Shift) : ShiftStep → Shift → Prop
  | idle {step} : step.answers = false ∨ x.machine.phase.isFinished = true → WindsDown x step x
  | left {answers} : WindsDown x (.wake answers) x.leave
  | began {d} : d.isCancellable = false → WindsDown x (.wake none) (x.begin d)
  | filed {d a m} : d.isCancellable = false → x.machine.Winds a m →
      WindsDown x (.wake (some a)) { x.begin d with machine := m, underway := false }

/-- Once is enough. -/
theorem act_cancel {x : Shift} (hc : x.cancelled = true) : x.act .cancel = x := by
  simp only [act, hc, Bool.true_or]
  rw [← hc]

theorem windsDown_act {x : Shift} (hc : x.cancelled = true) (step : ShiftStep) :
    x.WindsDown step (x.act step) := by
  cases step with
  | cancel =>
    rw [act_cancel hc]
    exact .idle (Or.inl rfl)
  | wake answers =>
    simp only [act]
    split
    · next hd => exact .idle (Or.inr (Machine.demand_eq_none.1 hd))
    · next d hd =>
      cases hfile : d.isCancellable with
      | true =>
        simp only [hc, Bool.and_self, if_true]
        exact .left
      | false =>
        simp only [hc, Bool.and_false, Bool.false_eq_true, if_false]
        cases answers with
        | none => exact .began hfile
        | some a =>
          have hfiled := WindsDown.filed (x := x) hfile (Machine.winds_resume hd hfile a)
          simpa [hear, hc] using hfiled

/-! ## After the run was called off -/

/-- Nothing was begun since but steps in the working directory, and nothing entered in the books. -/
structure Since (s x : Shift) : Prop where
  cancelled : x.cancelled = true
  begun : ∃ files, x.begun = s.begun ++ files ∧ ∀ d ∈ files, d.isCancellable = false
  books : x.machine.summary .stopped = s.machine.summary .stopped

theorem Since.refl {x : Shift} (hc : x.cancelled = true) : Since x x :=
  ⟨hc, ⟨[], (List.append_nil _).symm, fun _ h => absurd h List.not_mem_nil⟩, rfl⟩

theorem Since.begin {s x : Shift} (h : Since s x) {d : Demand} (hfile : d.isCancellable = false) :
    Since s (x.begin d) := by
  refine ⟨(x.begin_cancelled d).trans h.cancelled, ?_, by rw [begin_machine]; exact h.books⟩
  obtain ⟨files, hbegun, hfiles⟩ := h.begun
  rcases x.begun_begin d with hsame | hadded
  · exact ⟨files, hsame.trans hbegun, hfiles⟩
  · refine ⟨files ++ [d], by rw [hadded, hbegun, List.append_assoc], fun d' hd' => ?_⟩
    rcases List.mem_append.1 hd' with hd' | hd'
    · exact hfiles d' hd'
    · rwa [List.mem_singleton.1 hd']

section
variable {s x x' : Shift} {step : ShiftStep}

theorem WindsDown.since (hw : x.WindsDown step x') (h : Since s x) : Since s x' := by
  cases hw with
  | idle => exact h
  | left => exact ⟨h.cancelled, h.begun, h.books⟩
  | began hfile => exact h.begin hfile
  | @filed d a m hfile hm =>
    have hb := h.begin hfile
    exact ⟨hb.cancelled, hb.begun, hm.summary.trans h.books⟩

/-- Every answer gets on. -/
theorem WindsDown.waitsLeft_le (hw : x.WindsDown step x') :
    x'.machine.phase.waitsLeft ≤
      x.machine.phase.waitsLeft - if step.answers then 1 else 0 := by
  cases hw with
  | idle h =>
    rcases h with h | h
    · rw [h]
      exact le_rfl
    · rw [Phase.waitsLeft_eq_zero.2 h]
      exact Nat.zero_le _
  | left => exact Nat.zero_le _
  | began => rw [begin_machine]; exact le_rfl
  | filed _ hm =>
    cases hm with
    | goes _ hlt => exact Nat.le_sub_one_of_lt hlt
    | stops => exact Nat.zero_le _
    | fails => rw [Machine.waitsLeft_fail]; exact Nat.zero_le _

/-- While all is well with the working directory, the run can only stop. -/
theorem WindsDown.clean (hw : x.WindsDown step x') (hs : step.FilesWell)
    (h : x.machine.Clean) : x'.machine.Clean := by
  cases hw with
  | idle => exact h
  | left => exact Machine.clean_stop _
  | began => rw [begin_machine]; exact h
  | filed _ hm =>
    cases hm with
    | goes hphase => exact Machine.clean_of_unfinished hphase
    | stops => exact Machine.clean_stop _
    | fails hill => exact absurd hs hill

end

/-! ## Runs -/

section
variable {s x : Shift}

theorem Since.run (h : Since s x) (steps : List ShiftStep) : Since s (x.run steps) := by
  induction steps generalizing x with
  | nil => exact h
  | cons step steps ih => exact ih ((windsDown_act h.cancelled step).since h)

theorem waitsLeft_run_le (hc : x.cancelled = true) (steps : List ShiftStep) :
    (x.run steps).machine.phase.waitsLeft ≤
      x.machine.phase.waitsLeft - steps.countP ShiftStep.answers := by
  induction steps generalizing x with
  | nil => exact le_rfl
  | cons step steps ih =>
    have hw := windsDown_act hc step
    have hle := hw.waitsLeft_le
    have hrest := ih (hw.since (.refl hc)).cancelled
    rw [run_cons, List.countP_cons]
    omega

/-- A run that is over stays as it is. -/
theorem act_machine_of_finished (h : x.machine.phase.isFinished = true) (step : ShiftStep) :
    (x.act step).machine = x.machine := by
  cases step with
  | cancel => rfl
  | wake answers => simp only [act, Machine.demand_eq_none.2 h]

theorem run_machine_of_finished (h : x.machine.phase.isFinished = true) (steps : List ShiftStep) :
    (x.run steps).machine = x.machine := by
  induction steps generalizing x with
  | nil => rfl
  | cons step steps ih =>
    have hstep := act_machine_of_finished h step
    rw [run_cons, ih (hstep ▸ h), hstep]

/-- A run that waits for anything but the working directory stops as soon as it is woken. -/
theorem run_of_wake (hc : x.cancelled = true)
    (hd : x.machine.demand.any Demand.isCancellable = true) {steps : List ShiftStep}
    (hwake : ∃ answers, ShiftStep.wake answers ∈ steps) :
    (x.run steps).machine = x.machine.stop := by
  induction steps with
  | nil => obtain ⟨_, h⟩ := hwake; cases h
  | cons step steps ih =>
    cases step with
    | cancel =>
      rw [run_cons, act_cancel hc]
      refine ih ?_
      obtain ⟨answers, h⟩ := hwake
      exact ⟨answers, (List.mem_cons.1 h).resolve_left nofun⟩
    | wake answers =>
      obtain ⟨d, hdemand, hcancellable⟩ := (Option.any_eq_true _ _).1 hd
      have hleave : x.act (.wake answers) = x.leave := by
        simp [act, hdemand, hc, hcancellable]
      rw [run_cons, hleave, run_machine_of_finished rfl]
      rfl

theorem clean_run (hc : x.cancelled = true) {steps : List ShiftStep}
    (hs : ∀ step ∈ steps, step.FilesWell) (h : x.machine.Clean) :
    (x.run steps).machine.Clean := by
  induction steps generalizing x with
  | nil => exact h
  | cons step steps ih =>
    have hw := windsDown_act hc step
    have hrest : ∀ step' ∈ steps, step'.FilesWell := fun step' hstep' =>
      hs step' (List.mem_cons_of_mem step hstep')
    exact ih (hw.since (.refl hc)).cancelled hrest (hw.clean (hs step List.mem_cons_self) h)

end

/-- What holds of a collaborator whatever it is answered holds all along its run. -/
theorem kept_act {P : Machine → Prop} (hstop : ∀ m, P m → P m.interrupt)
    (hresume : ∀ m cancelled reply, P m → P (m.resume cancelled reply)) {x : Shift}
    (h : P x.machine) (step : ShiftStep) : P (x.act step).machine := by
  cases step with
  | cancel => exact h
  | wake answers =>
    simp only [act]
    split
    · exact h
    · next d _ =>
      have hbegin : P (x.begin d).machine := (x.begin_machine d).symm ▸ h
      split
      · exact hstop _ h
      · cases answers with
        | none => exact hbegin
        | some a => exact hresume _ ((x.begin d).cancelled || a.cancels) (a.reply d) hbegin

theorem kept_run {P : Machine → Prop} (hstop : ∀ m, P m → P m.interrupt)
    (hresume : ∀ m cancelled reply, P m → P (m.resume cancelled reply)) {x : Shift}
    (h : P x.machine) (steps : List ShiftStep) : P (x.run steps).machine := by
  induction steps generalizing x with
  | nil => exact h
  | cons step steps ih => exact ih (kept_act hstop hresume h step)

/-- A run that is over has stopped or failed. -/
theorem ends_act {x : Shift} (h : x.machine.Ends) (step : ShiftStep) :
    (x.act step).machine.Ends :=
  kept_act (fun m _ => m.ends_stop) (fun _ cancelled reply hm => hm.resume cancelled reply) h step

theorem ends_run {x : Shift} (h : x.machine.Ends) (steps : List ShiftStep) :
    (x.run steps).machine.Ends :=
  kept_run (fun m _ => m.ends_stop) (fun _ cancelled reply hm => hm.resume cancelled reply) h steps

end Shift

/-- **Cancellation is final.**  Take any run, in either mode, with any settings and whatever it is
answered, and call it off while it waits for anything, or before it was woken at all.  Whatever
happens later, it begins no call, no training and no pause any more, only steps in the working
directory, and its rounds stay as they are.  If it waits for anything but the working directory, it
has stopped as soon as it is woken.  In any case, while all goes well with the working directory it
can only stop, and two answers are enough for it.  And however a run ends, it has stopped with its
summary or failed with an error. -/
theorem cancellation_final (config : CollaboratorConfig) (before later : List ShiftStep) :
    let s := (Shift.start config).run before
    let e := (s.act .cancel).run later
    (s.isSuspended = true →
      (∃ files, e.begun = s.begun ++ files ∧ ∀ d ∈ files, d.isCancellable = false) ∧
      e.machine.roundsCompleted = s.machine.roundsCompleted ∧
      (s.machine.demand.any Demand.isCancellable = true →
        (∃ answers, ShiftStep.wake answers ∈ later) →
        e.machine.result? = some (.ok (s.machine.summary .stopped))) ∧
      (s.machine.result? = none → (∀ step ∈ later, step.FilesWell) →
        (∀ r, e.machine.result? = some r → r = .ok (s.machine.summary .stopped)) ∧
        (2 ≤ later.countP ShiftStep.answers →
          e.machine.result? = some (.ok (s.machine.summary .stopped))))) ∧
    (∀ r, e.machine.result? = some r →
      r = .ok (e.machine.summary .stopped) ∧ e.machine.state = .stopped ∨
        ∃ err, r = .error err ∧ e.machine.state = .failed) := by
  intro s e
  have hends : e.machine.Ends := by
    have hstart : (Shift.start config).machine.Ends := Machine.ends_of_unfinished rfl
    exact Shift.ends_run (Shift.ends_act (Shift.ends_run hstart before) .cancel) later
  refine ⟨fun hsuspended => ?_, hends⟩
  have hc : (s.act .cancel).cancelled = true := by
    show (s.cancelled || s.isSuspended) = true
    rw [hsuspended, Bool.or_true]
  have hmachine : (s.act .cancel).machine = s.machine := rfl
  have hsince : Shift.Since (s.act .cancel) e := (Shift.Since.refl hc).run later
  refine ⟨hsince.begun, congrArg (·.roundsCompleted) hsince.books, fun hd hwake => ?_,
    fun hopen hwell => ?_⟩
  · rw [show e.machine = s.machine.stop from Shift.run_of_wake hc hd hwake]
    rfl
  -- after two answers the run is over, and then it can only have stopped
  have hclean : e.machine.Clean := Shift.clean_run hc hwell fun r hr => by
    rw [hmachine, hopen] at hr
    cases hr
  rw [Machine.Clean, hsince.books, hmachine] at hclean
  refine ⟨hclean, fun hanswers => ?_⟩
  have hleft : e.machine.phase.waitsLeft ≤
      s.machine.phase.waitsLeft - later.countP ShiftStep.answers := Shift.waitsLeft_run_le hc later
  have hmax := s.machine.phase.waitsLeft_le
  have hfinished : e.machine.phase.isFinished = true := Phase.waitsLeft_eq_zero.1 (by omega)
  rw [← Machine.result?_isSome] at hfinished
  obtain ⟨r, hr⟩ := Option.isSome_iff_exists.1 hfinished
  rw [hr, hclean r hr]

/-- A run that is called off while the last result is cleared away: the clearing is finished, and
the trainer is not begun any more. -/
theorem cancelled_while_clearing :
    let well : Answers := ⟨.ok ⟨[0, 0, 128, 63], 1, 1⟩, .ok ⟨1, false⟩, .ok (), .ok (),
      .ok [0, 0, 128, 63], false⟩
    let before := [ShiftStep.wake none, .wake (some well), .wake (some well), .wake none]
    let later := [ShiftStep.wake (some well), .wake (some well)]
    let s := (Shift.start ⟨"a", .sync, 0, .default⟩).run before
    let e := (s.act .cancel).run later
    s.isSuspended = true ∧ s.begun = [.join, .writeModel [0, 0, 128, 63], .clearUpdate] ∧
      s.machine.result? = none ∧ (∀ step ∈ later, step.FilesWell) ∧
      2 ≤ later.countP ShiftStep.answers ∧
      e.machine.result? = some (.ok (s.machine.summary .stopped)) := by
  intro well before later s e
  have hsuspended : s.isSuspended = true := by decide +kernel
  have hopen : s.machine.result? = none := rfl
  have hwell : well.FilesWell := ⟨rfl, _, rfl⟩
  have hlater : ∀ step ∈ later, step.FilesWell := by
    intro step hstep
    rcases List.mem_pair.1 hstep with rfl | rfl <;> exact hwell
  have hanswers : 2 ≤ later.countP ShiftStep.answers := by decide
  have h := cancellation_final ⟨"a", .sync, 0, .default⟩ before later
  obtain ⟨-, -, -, hfinal⟩ := h.1 hsuspended
  exact ⟨hsuspended, by decide +kernel, hopen, hlater, hanswers, (hfinal hopen hlater).2 hanswers⟩

/-! ## Rehearsed runs -/

namespace Stage

variable {σ : Type}

theorem file_of_cancelled {s : Stage σ} (hc : s.cancelled = true) {α : Type}
    (step : WorkDir.Step α) {wrap : Except FederationError α → Reply}
    (hbooks : ∀ result, (s.machine.resume true (wrap result)).summary .stopped =
      s.machine.summary .stopped) :
    (s.file step wrap).cancelled = true ∧ (s.file step wrap).record = s.record ∧
      (s.file step wrap).machine.summary .stopped = s.machine.summary .stopped := by
  simp only [file, reply, rest, setMachine, hc, Bool.true_or, true_and]
  exact hbooks _

variable [AggregationStrategy σ]

/-- A rehearsed run that is called off makes no call any more, and its books stay as they are. -/
theorem step_of_cancelled {s : Stage σ} (hc : s.cancelled = true) {d : Demand}
    (hd : s.machine.demand = some d) :
    (s.step d).cancelled = true ∧ (s.step d).record = s.record ∧
      (s.step d).machine.summary .stopped = s.machine.summary .stopped := by
  cases hfile : d.isCancellable with
  | true =>
    rw [show s.step d = s.interrupt by simp only [step, hfile, hc, Bool.and_self, if_true]]
    exact ⟨hc, rfl, rfl⟩
  | false =>
    rw [show s.step d = s.meet d by
      simp only [step, hfile, Bool.false_and, Bool.false_eq_true, if_false]]
    have answered : ∀ filed update, (s.machine.resume true (Answers.reply
        ⟨.error .cancelled, .error .cancelled, .error .cancelled, filed, update, false⟩ d)).summary
          .stopped = s.machine.summary .stopped :=
      fun filed update => (Machine.winds_resume hd hfile _).summary
    rcases Machine.phase_of_file hd hfile with ⟨again, model, -, rfl⟩ | ⟨-, rfl⟩ | ⟨-, rfl⟩
    · rw [meet]
      exact file_of_cancelled hc _ fun result => answered result (.error .cancelled)
    · rw [meet]
      exact file_of_cancelled hc _ fun result => answered result (.error .cancelled)
    · rw [meet]
      exact file_of_cancelled hc _ fun result => answered (.error .cancelled) result

/-- **A rehearsed run that is called off** makes no call any more, and counts no round. -/
theorem play_of_cancelled {s : Stage σ} (hc : s.cancelled = true) (fuel : Nat) :
    (play fuel s).record = s.record ∧
      (play fuel s).machine.summary .stopped = s.machine.summary .stopped := by
  induction fuel generalizing s with
  | zero => exact ⟨rfl, rfl⟩
  | succ fuel ih =>
    unfold play
    split
    · exact ⟨rfl, rfl⟩
    · next d hd =>
      split
      · exact ⟨rfl, rfl⟩
      · obtain ⟨hc', hrecord, hbooks⟩ := step_of_cancelled hc hd
        exact ⟨(ih hc').1.trans hrecord, (ih hc').2.trans hbooks⟩

end Stage

end Federation
