/-
  A collaborator at work in its directory.

  Everything that may happen is a choice made from outside: what the transport answers, what the
  trainer does to the disk while it runs, what others do to the rest of it, which operation fails,
  and when the run is called off.  A run is a list of such steps, and a step that cannot be made
  leaves everything as it is.

  * `Deed`: what is entered in the log: models that came in, trainings, and updates that went out;
  * `Workshop`: a run with its token, its disk and its log;
  * `Workshop.act`, `Workshop.run`: a step, and a list of them;
  * `Orderly`: a log in which every training and every submission follows what it has to follow;
  * `Shift.Mirrors.run`: what happens in a workshop is a run with its token.
-/
import Federation.Proofs.Collaborator.Shutdown
import Federation.Proofs.Collaborator.WorkDir

namespace Federation

open Disk (Tree Faults)

/-! ## The log -/

inductive Deed where
  /-- A model came in. -/
  | received (view : ModelView)
  /-- The trainer was started: what `model.bin` held, and whether there was an `update.bin`. -/
  | started (input : Option Blob) (stale : Bool)
  /-- The trainer ended: how, and what `update.bin` held by then. -/
  | returned (result : Except FederationError Unit) (output : Option Blob)
  /-- An update was handed to the transport. -/
  | submitted (update : ModelUpdate)
  deriving DecidableEq

namespace Deed

def view? : Deed → Option ModelView
  | received v => some v
  | _ => none

end Deed

/-- The model that came in last. -/
def lastReceived (deeds : List Deed) : Option ModelView := (deeds.filterMap Deed.view?).getLast?

@[simp] theorem lastReceived_received (deeds : List Deed) (v : ModelView) :
    lastReceived (deeds ++ [.received v]) = some v := by
  simp [lastReceived, Deed.view?]

theorem lastReceived_append {deeds more : List Deed} (h : ∀ d ∈ more, d.view? = none) :
    lastReceived (deeds ++ more) = lastReceived deeds := by
  have hnone : more.filterMap Deed.view? = [] := List.filterMap_eq_nil_iff.2 h
  rw [lastReceived, List.filterMap_append, hnone, List.append_nil]
  rfl

/-- An update that tells the round of a model, and the sample count of the settings. -/
structure Tagged (config : CollaboratorConfig) (v : ModelView) (u : ModelUpdate) : Prop where
  base : u.baseRound = if v.round = 0 then none else some v.round
  samples : u.sampleCount = config.settings.sampleCount

/-- What a deed has to follow.  A training is started on the model that came in last, and finds no
earlier update.  An update goes out after a training that succeeded and left it, and nothing
happened since but that the same update went out. -/
def Follows (config : CollaboratorConfig) (prior : List Deed) : Deed → Prop
  | .started input stale =>
    ∃ v, lastReceived prior = some v ∧ input = some v.model ∧ stale = false
  | .submitted u =>
    ∃ before v n, lastReceived before = some v ∧ Tagged config v u ∧
      prior = before ++ [.started (some v.model) false, .returned (.ok ()) (some u.model)] ++
        List.replicate n (.submitted u)
  | _ => True

/-- Every deed follows what it has to follow. -/
def Orderly (config : CollaboratorConfig) (deeds : List Deed) : Prop :=
  ∀ prior d later, deeds = prior ++ d :: later → Follows config prior d

theorem Orderly.nil {config : CollaboratorConfig} : Orderly config [] := by
  intro prior d later h
  cases prior <;> cases h

theorem Orderly.concat {config : CollaboratorConfig} {deeds : List Deed} {d : Deed}
    (h : Orderly config deeds) (hd : Follows config deeds d) : Orderly config (deeds ++ [d]) := by
  intro prior d' later he
  rcases List.eq_nil_or_concat' later with rfl | ⟨later, x, rfl⟩
  · obtain ⟨rfl, hx⟩ := List.append_inj' he rfl
    cases hx
    exact hd
  · have hcons : prior ++ d' :: (later ++ [x]) = (prior ++ d' :: later) ++ [x] := by simp
    rw [hcons] at he
    obtain ⟨rfl, -⟩ := List.append_inj' he rfl
    exact h prior d' later rfl

/-! ## Workshops -/

/-- A run with its token, its disk and its log. -/
structure Workshop where
  machine : Machine
  workDir : WorkDir
  disk : Tree
  cancelled : Bool
  /-- What the machine demands has been begun. -/
  underway : Bool
  /-- The latest last. -/
  deeds : List Deed

inductive WorkshopStep where
  | cancel
  /-- The run notices that it was called off. -/
  | leave
  /-- A call, a training or a pause is begun. -/
  | begin
  /-- The trainer changes the disk in any way. -/
  | train (disk : Tree)
  /-- Others change the disk, but not what is found at the paths of the two files. -/
  | others (disk : Tree)
  /-- What was begun is over. -/
  | answer (answers : Answers)
  /-- A step in the working directory.  Its operations may fail in any way but one: they do not say
  that a file is missing that is there. -/
  | file (faults : Faults)

/-- Without the faults that claim that a file is missing. -/
def faithful (faults : Faults) : Faults := faults.map (·.filter (·.error ≠ .notFound))

theorem faithful_faithful (faults : Faults) : ∀ f ∈ faithful faults, Faithful f := by
  intro f hf
  obtain ⟨g, -, rfl⟩ := List.mem_map.1 hf
  intro fault hfault
  simpa using (Option.filter_eq_some_iff.1 hfault).2

namespace Workshop

def start (config : CollaboratorConfig) (workDir : WorkDir) (disk : Tree) : Workshop :=
  ⟨.fresh config, workDir, disk, false, false, []⟩

variable (s : Workshop)

/-- What `model.bin` holds, if it can be read. -/
def modelFile : Option Blob := (s.disk.read s.workDir.modelPath).toOption

def updateFile : Option Blob := (s.disk.read s.workDir.updatePath).toOption

/-- Is there the same as before at the paths of the two files? -/
def keepsFiles (disk : Tree) : Bool :=
  decide (disk.find s.workDir.modelPath = s.disk.find s.workDir.modelPath ∧
    disk.find s.workDir.updatePath = s.disk.find s.workDir.updatePath)

/-- What is entered in the log when something is begun. -/
def undertaking : Demand → List Deed
  | .train => [.started s.modelFile (s.disk.exists? s.workDir.updatePath)]
  | .submit u => [.submitted u]
  | _ => []

/-- What is entered in the log when it is over. -/
def outcome (a : Answers) : Demand → List Deed
  | .train => [.returned a.trained s.updateFile]
  | .join | .latest _ _ =>
    match a.view with
    | .ok v => [.received v]
    | .error _ => []
  | _ => []

/-- Begin what can be called off. -/
def begin (d : Demand) : Workshop :=
  { s with underway := true, deeds := s.deeds ++ s.undertaking d }

/-- Go on with an answer. -/
def hear (d : Demand) (a : Answers) : Workshop :=
  { s with
    machine := s.machine.resume a.cancels (a.reply d)
    cancelled := a.cancels
    underway := false
    deeds := s.deeds ++ s.outcome a d }

/-- Go on with what comes of a step in the working directory. -/
def filed {α : Type} (step : WorkDir.Step α) (wrap : Except FederationError α → Reply)
    (faults : Faults) : Workshop :=
  let r := step.run.run s.disk (faithful faults)
  { s with
    machine := s.machine.resume s.cancelled (wrap r.1)
    disk := r.2.1
    underway := false }

def act : WorkshopStep → Workshop
  | .cancel => { s with cancelled := true }
  | .leave =>
    if s.cancelled && s.machine.demand.any Demand.isCancellable then
      { s with machine := s.machine.interrupt, underway := false }
    else s
  | .begin =>
    match s.machine.demand with
    | some d => if d.isCancellable && !s.cancelled && !s.underway then s.begin d else s
    | none => s
  | .train disk =>
    if s.underway && decide (s.machine.demand = some .train) then { s with disk := disk } else s
  | .others disk => if s.keepsFiles disk then { s with disk := disk } else s
  | .answer a =>
    match s.machine.demand with
    | some d => if d.isCancellable && !s.cancelled && s.underway then s.hear d a else s
    | none => s
  | .file faults =>
    match s.machine.demand with
    | some (.writeModel model) => s.filed (s.workDir.writeModel model) .done faults
    | some .clearUpdate => s.filed s.workDir.clearUpdate .done faults
    | some .readUpdate => s.filed s.workDir.readUpdate .update faults
    | _ => s

def run (steps : List WorkshopStep) : Workshop := steps.foldl act s

end Workshop

/-! ## Runs with a token -/

/-- Nothing but errors. -/
def Answers.silent : Answers :=
  ⟨.error .cancelled, .error .cancelled, .error .cancelled, .error .cancelled, .error .cancelled,
    false⟩

namespace Shift

/-- A run with its token that is where a workshop is.  The token of a run that is over does not
matter. -/
structure Mirrors (x : Shift) (w : Workshop) : Prop where
  machine : x.machine = w.machine
  cancelled : w.machine.phase.isFinished = false → x.cancelled = w.cancelled

variable {x : Shift} {w : Workshop} {d : Demand}

theorem Mirrors.demand (h : x.Mirrors w) (hd : w.machine.demand = some d) :
    x.machine.demand = some d ∧ x.cancelled = w.cancelled := by
  refine ⟨h.machine ▸ hd, h.cancelled ?_⟩
  rw [Bool.eq_false_iff]
  intro hover
  rw [Machine.demand_eq_none.2 hover] at hd
  cases hd

theorem Mirrors.cancel (h : x.Mirrors w) :
    ∃ steps, (x.run steps).Mirrors { w with cancelled := true } := by
  cases hd : w.machine.demand with
  | none =>
    have hover := Machine.demand_eq_none.1 hd
    exact ⟨[], h.machine, fun hopen => by rw [hover] at hopen; cases hopen⟩
  | some d =>
    obtain ⟨hdemand, -⟩ := h.demand hd
    cases hc : x.cancelled with
    | true => exact ⟨[], h.machine, fun _ => hc⟩
    | false =>
      -- a run can only be called off when it has begun something
      refine ⟨[.wake none, .cancel], ?_⟩
      have hwake : x.act (.wake none) = x.begin d := by simp [act, hdemand, hc]
      simp only [run_cons, hwake]
      exact ⟨(begin_machine x d).trans h.machine, fun _ => by
        simp [run, act, isSuspended, begin_underway]⟩

theorem Mirrors.answer (h : x.Mirrors w) (hd : w.machine.demand = some d)
    (hgo : d.isCancellable = true → w.cancelled = false) (a : Answers) {w' : Workshop}
    (hmachine : w'.machine = w.machine.resume (w.cancelled || a.cancels) (a.reply d))
    (hcancelled : w'.cancelled = (w.cancelled || a.cancels)) :
    ∃ steps, (x.run steps).Mirrors w' := by
  obtain ⟨hdemand, hc⟩ := h.demand hd
  obtain ⟨hm, hc'⟩ := act_answer hdemand (fun hcancellable => hc.trans (hgo hcancellable)) a
  refine ⟨[.wake (some a)], ?_, fun _ => ?_⟩
  · rw [hmachine, ← h.machine, ← hc]
    exact hm
  · rw [hcancelled, ← hc]
    exact hc'

theorem Mirrors.file (h : x.Mirrors w) (hd : w.machine.demand = some d)
    (hfile : d.isCancellable = false) {α : Type} {step : WorkDir.Step α}
    {wrap : Except FederationError α → Reply} {faults : Faults}
    (hanswer : ∀ result, ∃ a : Answers, a.reply d = wrap result ∧ a.cancels = false) :
    ∃ steps, (x.run steps).Mirrors (w.filed step wrap faults) := by
  obtain ⟨a, ha, hcancels⟩ := hanswer (step.run.run w.disk (faithful faults)).1
  refine h.answer hd (fun hcancellable => ?_) a ?_ ?_
  · rw [hfile] at hcancellable
    cases hcancellable
  · rw [ha, hcancels, Bool.or_false]
    rfl
  · rw [hcancels, Bool.or_false]
    rfl

theorem Mirrors.act (h : x.Mirrors w) (step : WorkshopStep) :
    ∃ steps, (x.run steps).Mirrors (w.act step) := by
  cases step with
  | cancel => exact h.cancel
  | leave =>
    simp only [Workshop.act]
    split
    · next hleave =>
      rw [Bool.and_eq_true] at hleave
      obtain ⟨d, hd, hcancellable⟩ := (Option.any_eq_true _ _).1 hleave.2
      obtain ⟨hdemand, hc⟩ := h.demand hd
      have hwake : x.run [.wake none] = x.leave := by
        simp [run, Shift.act, hdemand, hc, hleave.1, hcancellable]
      refine ⟨[.wake none], ?_⟩
      rw [hwake]
      exact ⟨congrArg Machine.interrupt h.machine, fun hopen => by cases hopen⟩
    · exact ⟨[], h⟩
  | begin =>
    simp only [Workshop.act]
    split
    · split
      · exact ⟨[], h.machine, h.cancelled⟩
      · exact ⟨[], h⟩
    · exact ⟨[], h⟩
  | train disk | others disk =>
    simp only [Workshop.act]
    split
    · exact ⟨[], h.machine, h.cancelled⟩
    · exact ⟨[], h⟩
  | answer a =>
    simp only [Workshop.act]
    split
    · next d hd =>
      split
      · next hgo =>
        simp only [Bool.and_eq_true, Bool.not_eq_true'] at hgo
        refine h.answer hd (fun _ => hgo.1.2) a ?_ ?_
        · rw [hgo.1.2]
          rfl
        · rw [hgo.1.2]
          rfl
      · exact ⟨[], h⟩
    · exact ⟨[], h⟩
  | file faults =>
    simp only [Workshop.act]
    split
    · next model hd =>
      exact h.file hd rfl fun result => ⟨{ Answers.silent with filed := result }, rfl, rfl⟩
    · next hd =>
      exact h.file hd rfl fun result => ⟨{ Answers.silent with filed := result }, rfl, rfl⟩
    · next hd =>
      exact h.file hd rfl fun result => ⟨{ Answers.silent with update := result }, rfl, rfl⟩
    · exact ⟨[], h⟩

/-- **What happens in a workshop is a run with its token.** -/
theorem Mirrors.run (h : x.Mirrors w) (steps : List WorkshopStep) :
    ∃ more, (x.run more).Mirrors (w.run steps) := by
  induction steps generalizing x w with
  | nil => exact ⟨[], h⟩
  | cons step steps ih =>
    obtain ⟨first, hfirst⟩ := h.act step
    obtain ⟨more, hmore⟩ := ih hfirst
    refine ⟨first ++ more, ?_⟩
    rw [Shift.run, List.foldl_append]
    exact hmore

end Shift

end Federation
