/-
  Collaborators around one round engine.

  Everything that may happen is a choice made from outside: who moves next, which message arrives
  and when, what a trainer writes, which operation on the disk fails.  A run is a list of choices,
  and a choice that cannot be made leaves everything as it is.

  * `Party`: a collaborator, its working directory, and what it is busy with;
  * `World`: the engine, the disk, and a record of what was sent, shown and trained;
  * `Move`: what one party may do next;
  * `Action`: a move of a party, a call of somebody else, or the arrival of a submission;
  * `Fleet.run`: the fleet after some actions.

  Submissions arrive at the engine at any time and any number of times.  What a party hears over the
  network is any model that was ever current, any receipt and any failure.
-/
import Federation.Proofs.Collaborator.Machine
import Federation.Proofs.Collaborator.WorkDir
import Federation.Proofs.Round.Transition
import Federation.Collaborator.Direct

namespace Federation

open Disk (Program Tree Request)

/-! ## Parties -/

/-- One invocation of a trainer. -/
structure Training where
  identity : String
  /-- What `model.bin` held when the trainer started. -/
  input : Option Blob
  /-- Was there an `update.bin` when it started? -/
  stale : Bool
  /-- What `update.bin` held when it ended. -/
  output : Option Blob
  deriving DecidableEq, Repr

/-- What a party is busy with. -/
inductive Activity where
  | idle
  /-- In the middle of a step in the working directory. -/
  | filing (rest : Program Reply)
  /-- A trainer runs, with what it found when it started. -/
  | training (input : Option Blob) (stale : Bool)
  | polling (phase : LongPollPhase)
  /-- A call has returned, and the collaborator goes on with the answer next. -/
  | answered (reply : Reply)

structure Party where
  machine : Machine
  workDir : WorkDir
  cancelled : Bool
  activity : Activity

namespace Party

def id (p : Party) : String := p.machine.config.id

/-- Busy with something else. -/
def doing (p : Party) (a : Activity) : Party := { p with activity := a }

/-- Go on with an answer. -/
def resume (p : Party) (reply : Reply) : Party :=
  { p with machine := p.machine.resume p.cancelled reply, activity := .idle }

/-- The step in the working directory that is due. -/
def job (p : Party) : Option (Program Reply) :=
  match p.machine.demand with
  | some (.writeModel model) =>
    some ((p.workDir.writeModel model).run.bind fun r => .done (.done r))
  | some .clearUpdate => some (p.workDir.clearUpdate.run.bind fun r => .done (.done r))
  | some .readUpdate => some (p.workDir.readUpdate.run.bind fun r => .done (.update r))
  | _ => none

end Party

/-! ## The world around them -/

structure World (σ : Type) where
  engine : RoundEngine σ
  disk : Tree
  /-- Every submission that was put on the network. -/
  sent : List (String × ModelUpdate)
  /-- Every model that was current at some time. -/
  shown : List ModelView
  /-- Every invocation of a trainer that has ended. -/
  trainings : List Training

namespace World

variable {σ : Type}

def setEngine (w : World σ) (e : RoundEngine σ) : World σ :=
  { w with engine := e, shown := w.shown ++ [e.state.view] }

def setDisk (w : World σ) (t : Tree) : World σ := { w with disk := t }

def addSent (w : World σ) (id : String) (u : ModelUpdate) : World σ :=
  { w with sent := w.sent ++ [(id, u)] }

def addTraining (w : World σ) (t : Training) : World σ :=
  { w with trainings := w.trainings ++ [t] }

end World

/-! ## Moves -/

/-- What a trainer does to its output. -/
inductive Edit where
  | changeMode (mode : Nat)
  | overwrite (mode : Nat) (content : Blob)
  | remove
  deriving DecidableEq, Repr

def Edit.request (path : String) : Edit → Request
  | changeMode mode => .changeMode path mode
  | overwrite mode content => .overwrite path mode content
  | remove => .remove path

/-- What comes over the network. -/
inductive Hearing where
  /-- The model that was current at the `k`-th time. -/
  | view (k : Nat)
  /-- A failure in place of a model. -/
  | failure (e : FederationError)
  | receipt (result : Except FederationError SubmitReceipt)

inductive Move where
  | cancel
  /-- Notice the cancellation. -/
  | interrupt
  /-- Go on with a step in the working directory, one request at a time.  A request may fail in any
  way but one: it does not say that a file is missing that is there. -/
  | file (fault : Option Disk.Fault)
  | startTraining
  /-- The trainer changes its output. -/
  | edit (edit : Edit)
  | endTraining (result : Except FederationError Unit)
  | wake
  /-- Put a submission on the network. -/
  | send
  | hear (hearing : Hearing)
  /-- In the same process: call the engine, or go on with a long poll. -/
  | join (now : Nat)
  | submit (now : Nat)
  | poll (clock now : Nat)
  /-- Go on with the answer to such a call. -/
  | resume

/-- What a collaborator does from its join to its first submission, with a trainer that leaves the
given output. -/
def Move.firstRound (output : Blob) : List Move :=
  [.join 0, .resume, .file none, .file none, .file none, .file none, .file none, .file none,
    .file none, .startTraining, .edit (.overwrite 0o644 output), .endTraining (.ok ()), .file none,
    .file none, .file none, .file none, .submit 1]

/-- What a collaborator does from a model it has got to its next submission, with a trainer that
leaves the given output. -/
def Move.nextRound (output : Blob) : List Move :=
  [.file none, .file none, .file none, .file none, .file none, .file none, .file none, .file none,
    .startTraining, .edit (.overwrite 0o644 output), .endTraining (.ok ()), .file none, .file none,
    .file none, .file none, .submit 2]

namespace Party

variable {σ : Type} [AggregationStrategy σ]

/-- Hear something over the network. -/
def hear (p : Party) (w : World σ) : Hearing → Option Party
  | .view k => (w.shown[k]?).map fun v => p.resume (.view (.ok v))
  | .failure e => some (p.resume (.view (.error e)))
  | .receipt r => some (p.resume (.receipt r))

/-- What a step of a long poll leaves a party busy with. -/
def pollActivity : LongPollPhase → Activity
  | .finished result => .answered (.view result)
  | phase => .polling phase

/-- A step of a long poll. -/
def poll (p : Party) (w : World σ) (poll : LongPoll) (clock now : Nat) (phase : LongPollPhase) :
    World σ × Party :=
  let (phase, e) := poll.step clock now w.engine phase
  (w.setEngine e, p.doing (pollActivity phase))

/-- The world and the party after a move, when the party can make it. -/
def move (p : Party) (w : World σ) (m : Move) : Option (World σ × Party) :=
  match m, p.activity, p.machine.demand with
  | .cancel, _, _ => some (w, { p with cancelled := true })
  | .interrupt, _, some d =>
    if p.cancelled && d.isCancellable then
      some (w, { p with machine := p.machine.interrupt, activity := .idle })
    else none
  | .file _, .idle, _ => p.job.map fun rest => (w, p.doing (.filing rest))
  | .file _, .filing (.done reply), _ => some (w, p.resume reply)
  | .file fault, .filing (.ask r next), _ =>
    if fault.all (·.error ≠ .notFound) then
      let (reply, t) := r.meet [fault] w.disk
      some (w.setDisk t, p.doing (.filing (next reply)))
    else none
  | .startTraining, .idle, some .train =>
    some (w, p.doing (.training (w.disk.read p.workDir.modelPath).toOption
      (w.disk.exists? p.workDir.updatePath)))
  | .edit edit, .training _ _, _ =>
    some (w.setDisk ((edit.request p.workDir.updatePath).perform w.disk).2, p)
  | .endTraining result, .training input stale, _ =>
    let output := (w.disk.read p.workDir.updatePath).toOption
    some (w.addTraining ⟨p.id, input, stale, output⟩, p.resume (.done result))
  | .wake, .idle, some (.sleep _) => some (w, p.resume .slept)
  | .send, .idle, some (.submit u) => some (w.addSent p.id u, p)
  | .hear hearing, .idle, _ => (p.hear w hearing).map fun p => (w, p)
  | .join now, .idle, some .join =>
    let (result, e) := w.engine.joinDirectly now p.id
    some (w.setEngine e, p.doing (.answered (.view result)))
  | .submit now, .idle, some (.submit u) =>
    let (result, e) := w.engine.submitDirectly now p.id u
    some (w.setEngine e, p.doing (.answered (.receipt result)))
  | .poll clock now, .idle, some (.latest minRound wait) =>
    some (p.poll w ⟨p.id, minRound, wait⟩ clock now .reading)
  | .poll clock now, .polling phase, some (.latest minRound wait) =>
    some (p.poll w ⟨p.id, minRound, wait⟩ clock now phase)
  | .resume, .answered reply, _ => some (w, p.resume reply)
  | _, _, _ => none

end Party

/-! ## Fleets -/

/-- Collaborators, by any names, around one world. -/
structure Fleet (ι σ : Type) where
  world : World σ
  parties : ι → Party

inductive Action (ι : Type) where
  /-- A call of anybody, other than a submission. -/
  | call (now : Nat) (call : RoundCall)
  /-- The `k`-th submission that was put on the network reaches the engine. -/
  | deliver (now k : Nat)
  | move (i : ι) (m : Move)

namespace Fleet

variable {ι σ : Type} [DecidableEq ι] [AggregationStrategy σ]

def setWorld (f : Fleet ι σ) (w : World σ) : Fleet ι σ := { f with world := w }

def act (f : Fleet ι σ) : Action ι → Fleet ι σ
  | .call now call =>
    if call.isSubmit then f
    else f.setWorld (f.world.setEngine (f.world.engine.perform now call).2)
  | .deliver now k =>
    match f.world.sent[k]? with
    | some (id, u) => f.setWorld (f.world.setEngine (f.world.engine.submit now id u).2)
    | none => f
  | .move i m =>
    match (f.parties i).move f.world m with
    | some (w, p) => ⟨w, Function.update f.parties i p⟩
    | none => f

def run (f : Fleet ι σ) (actions : List (Action ι)) : Fleet ι σ := actions.foldl act f

/-- A fleet that has not begun, around an engine and a disk. -/
def start (e : RoundEngine σ) (t : Tree) (config : ι → CollaboratorConfig)
    (workDir : ι → WorkDir) : Fleet ι σ where
  world := ⟨e, t, [], [e.state.view], []⟩
  parties i := ⟨.fresh (config i), workDir i, false, .idle⟩

end Fleet

/-- An update that may reach the engine next. -/
def Fleet.Submits {ι σ : Type} (f : Fleet ι σ) (id : String) (u : ModelUpdate) : Prop :=
  (id, u) ∈ f.world.sent ∨
    ∃ i attempt, (f.parties i).id = id ∧ (f.parties i).machine.phase = .submitting u attempt

/-! ## What a move comes to -/

/-- The steps in the working directory, with the phases they are due in. -/
inductive Party.IsJob (p : Party) : Program Reply → Prop
  | writeModel {again} : p.machine.phase = .handing again →
      p.IsJob ((p.workDir.writeModel ((p.machine.model.map (·.model)).getD [])).run.bind
        fun r => .done (.done r))
  | clearUpdate : p.machine.phase = .clearing →
      p.IsJob (p.workDir.clearUpdate.run.bind fun r => .done (.done r))
  | readUpdate : p.machine.phase = .collecting →
      p.IsJob (p.workDir.readUpdate.run.bind fun r => .done (.update r))

theorem Party.isJob_of_job {p : Party} {rest : Program Reply} (h : p.job = some rest) :
    p.IsJob rest := by
  unfold Party.job at h
  cases hp : p.machine.phase with
  | handing again =>
    simp only [Machine.demand, hp, Option.some.injEq] at h
    exact h ▸ .writeModel hp
  | clearing =>
    simp only [Machine.demand, hp, Option.some.injEq] at h
    exact h ▸ .clearUpdate hp
  | collecting =>
    simp only [Machine.demand, hp, Option.some.injEq] at h
    exact h ▸ .readUpdate hp
  | fetching purpose attempt => cases purpose <;> simp [Machine.demand, hp] at h
  | _ => simp [Machine.demand, hp] at h

section
variable {σ : Type}

variable [AggregationStrategy σ]

/-- Everything a move of a party can come to. -/
inductive Moves (p : Party) (w : World σ) : Move → World σ → Party → Prop
  | cancelled : Moves p w .cancel w { p with cancelled := true }
  | interrupted : p.cancelled = true →
      Moves p w .interrupt w { p with machine := p.machine.interrupt, activity := .idle }
  | opened {fault rest} : p.activity = .idle → p.IsJob rest →
      Moves p w (.file fault) w (p.doing (.filing rest))
  | asked {fault r next} : p.activity = .filing (.ask r next) → Faithful fault →
      Moves p w (.file fault) (w.setDisk (r.meet [fault] w.disk).2)
        (p.doing (.filing (next (r.meet [fault] w.disk).1)))
  | settled {fault reply} : p.activity = .filing (.done reply) →
      Moves p w (.file fault) w (p.resume reply)
  | started : p.activity = .idle → p.machine.phase = .training →
      Moves p w .startTraining w
        (p.doing (.training (w.disk.read p.workDir.modelPath).toOption
          (w.disk.exists? p.workDir.updatePath)))
  | edited {input stale edit} : p.activity = .training input stale →
      Moves p w (.edit edit)
        (w.setDisk ((edit.request p.workDir.updatePath).perform w.disk).2) p
  | ended {input stale result} : p.activity = .training input stale →
      Moves p w (.endTraining result)
        (w.addTraining ⟨p.id, input, stale, (w.disk.read p.workDir.updatePath).toOption⟩)
        (p.resume (.done result))
  | woke {n} : p.activity = .idle → p.machine.demand = some (.sleep n) →
      Moves p w .wake w (p.resume .slept)
  | sent {u attempt} : p.activity = .idle → p.machine.phase = .submitting u attempt →
      Moves p w .send (w.addSent p.id u) p
  | heardView {k v} : p.activity = .idle → v ∈ w.shown →
      Moves p w (.hear (.view k)) w (p.resume (.view (.ok v)))
  | heardFailure {e} : p.activity = .idle →
      Moves p w (.hear (.failure e)) w (p.resume (.view (.error e)))
  | heardReceipt {r} : p.activity = .idle →
      Moves p w (.hear (.receipt r)) w (p.resume (.receipt r))
  | joined {now again r e'} : p.activity = .idle → p.machine.phase = .joining again →
      w.engine.join now p.id = (r, e') →
      Moves p w (.join now) (w.setEngine e')
        (p.doing (.answered (.view (r.map JoinOutcome.view))))
  | submitted {now u attempt r e'} : p.activity = .idle →
      p.machine.phase = .submitting u attempt → w.engine.submit now p.id u = (r, e') →
      Moves p w (.submit now) (w.setEngine e')
        (p.doing (.answered (.receipt (r.map fun o => ⟨o.round, o.closed.isSome⟩))))
  | polled {clock now phase phase' purpose attempt e'} :
      p.activity = .idle ∧ phase = .reading ∨ p.activity = .polling phase →
      p.machine.phase = .fetching purpose attempt → Polls w.engine now p.id phase phase' e' →
      Moves p w (.poll clock now) (w.setEngine e') (p.doing (Party.pollActivity phase'))
  | resumed {reply} : p.activity = .answered reply → Moves p w .resume w (p.resume reply)

theorem Party.moves_poll {p p' : Party} {w w' : World σ} {poll : LongPoll} {clock now : Nat}
    {phase : LongPollPhase} {purpose : FetchPurpose} {attempt : Nat}
    (ha : p.activity = .idle ∧ phase = .reading ∨ p.activity = .polling phase)
    (hp : p.machine.phase = .fetching purpose attempt) (hid : poll.id = p.id)
    (h : p.poll w poll clock now phase = (w', p')) : Moves p w (.poll clock now) w' p' := by
  rw [Party.poll, Prod.mk.injEq] at h
  obtain ⟨rfl, rfl⟩ := h
  exact .polled ha hp (hid ▸ poll.polls_step clock now w.engine phase)

theorem Party.moves_hear {p q : Party} {w : World σ} {hearing : Hearing}
    (ha : p.activity = .idle) (h : p.hear w hearing = some q) : Moves p w (.hear hearing) w q := by
  cases hearing with
  | view k =>
    obtain ⟨v, hv, rfl⟩ := Option.map_eq_some_iff.1 h
    exact .heardView ha (List.mem_of_getElem? hv)
  | failure e => cases h; exact .heardFailure ha
  | receipt r => cases h; exact .heardReceipt ha

/-- **A move comes to nothing else.** -/
theorem Party.moves_of_move {p p' : Party} {w w' : World σ} {m : Move}
    (h : p.move w m = some (w', p')) : Moves p w m w' p' := by
  unfold Party.move at h
  split at h
  · cases h; exact .cancelled
  · split at h <;> cases h
    next hc => exact .interrupted (by simp_all)
  · next ha =>
    rw [Option.map_eq_some_iff] at h
    obtain ⟨rest, hj, h⟩ := h
    cases h
    exact .opened ha (Party.isJob_of_job hj)
  · next ha => cases h; exact .settled ha
  · next ha =>
    split at h <;> cases h
    next hf =>
    refine .asked ha ?_
    rintro f rfl
    simpa using hf
  · next ha hd => cases h; exact .started ha (Machine.phase_of_demand_train hd)
  · next ha => cases h; exact .edited ha
  · next ha => cases h; exact .ended ha
  · next ha hd => cases h; exact .woke ha hd
  · next ha hd =>
    cases h
    obtain ⟨attempt, hp⟩ := Machine.phase_of_demand_submit hd
    exact .sent ha hp
  · next hearing ha =>
    obtain ⟨q, hq, hw⟩ := Option.map_eq_some_iff.1 h
    cases hw
    exact moves_hear ha hq
  · next ha hd =>
    obtain ⟨again, hp⟩ := Machine.phase_of_demand_join hd
    cases h
    exact .joined ha hp rfl
  · next ha hd =>
    obtain ⟨attempt, hp⟩ := Machine.phase_of_demand_submit hd
    cases h
    exact .submitted ha hp rfl
  · next ha hd =>
    obtain ⟨purpose, attempt, hp⟩ := Machine.phase_of_demand_latest hd
    exact moves_poll (Or.inl ⟨ha, rfl⟩) hp rfl (Option.some.inj h)
  · next ha hd =>
    obtain ⟨purpose, attempt, hp⟩ := Machine.phase_of_demand_latest hd
    exact moves_poll (Or.inr ha) hp rfl (Option.some.inj h)
  · next ha => cases h; exact .resumed ha
  · cases h

variable {ι : Type} [DecidableEq ι]

/-- What an action can be. -/
theorem Fleet.act_cases (f : Fleet ι σ) (a : Action ι) :
    f.act a = f ∨
    (∃ now call, a = .call now call ∧ call.isSubmit = false ∧
      f.act a = f.setWorld (f.world.setEngine (f.world.engine.perform now call).2)) ∨
    (∃ now k id u, a = .deliver now k ∧ (id, u) ∈ f.world.sent ∧
      f.act a = f.setWorld (f.world.setEngine (f.world.engine.submit now id u).2)) ∨
    (∃ i m w' p', a = .move i m ∧ Moves (f.parties i) f.world m w' p' ∧
      f.act a = ⟨w', Function.update f.parties i p'⟩) := by
  cases a with
  | call now call =>
    cases hc : call.isSubmit with
    | true => exact Or.inl (if_pos hc)
    | false => exact Or.inr (Or.inl ⟨now, call, rfl, hc, if_neg (by simp [hc])⟩)
  | deliver now k =>
    cases hk : f.world.sent[k]? with
    | none => exact Or.inl (by simp only [Fleet.act, hk])
    | some s =>
      exact Or.inr (Or.inr (Or.inl ⟨now, k, s.1, s.2, rfl, List.mem_of_getElem? hk,
        by simp only [Fleet.act, hk]⟩))
  | move i m =>
    cases hm : (f.parties i).move f.world m with
    | none => exact Or.inl (by simp only [Fleet.act, hm])
    | some r =>
      exact Or.inr (Or.inr (Or.inr ⟨i, m, r.1, r.2, rfl, Party.moves_of_move hm,
        by simp only [Fleet.act, hm]⟩))

/-- A move calls the engine, with the update that is due if it is a submission, or leaves it
alone. -/
theorem Moves.engine {p p' : Party} {w w' : World σ} {m : Move} (hm : Moves p w m w' p') :
    w'.engine = w.engine ∨ ∃ now call r, w.engine.Transition now call r w'.engine ∧
      ∀ id u, call = .submit id u →
        p.id = id ∧ ∃ attempt, p.machine.phase = .submitting u attempt := by
  cases hm with
  | @joined now again r e' ha hph hj =>
    have he : (w.engine.perform now (.join p.id)).2 = e' := congrArg Prod.snd hj
    subst he
    exact Or.inr ⟨now, _, _, w.engine.transition_perform now (.join p.id), nofun⟩
  | @submitted now u attempt r e' ha hph hsub =>
    have he : (w.engine.perform now (.submit p.id u)).2 = e' := congrArg Prod.snd hsub
    subst he
    refine Or.inr ⟨now, _, _, w.engine.transition_perform now (.submit p.id u), ?_⟩
    rintro id u ⟨⟩
    exact ⟨rfl, attempt, hph⟩
  | @polled _ now _ _ _ _ _ ha hph hpoll =>
    cases hpoll with
    | waited => exact Or.inl rfl
    | read hl =>
      have he : (w.engine.latest now p.id).2 = _ := congrArg Prod.snd hl
      subst he
      exact Or.inr ⟨now, _, _, w.engine.transition_perform now (.latest p.id), nofun⟩
  | _ => exact Or.inl rfl

/-- What an action does to the engine. -/
theorem Fleet.act_engine (f : Fleet ι σ) (a : Action ι) :
    (f.act a).world.engine = f.world.engine ∨
      ∃ now call r, f.world.engine.Transition now call r (f.act a).world.engine ∧
        ∀ id u, call = .submit id u → f.Submits id u := by
  rcases f.act_cases a with ha | ⟨now, call, -, hc, ha⟩ | ⟨now, k, id, u, -, hs, ha⟩ |
    ⟨i, m, w', p', -, hm, ha⟩ <;> rw [ha]
  · exact Or.inl rfl
  · refine Or.inr ⟨now, call, _, f.world.engine.transition_perform now call, ?_⟩
    rintro id u rfl
    cases hc
  · refine Or.inr ⟨now, .submit id u, _, f.world.engine.transition_perform now _, ?_⟩
    rintro id u ⟨⟩
    exact Or.inl hs
  · rcases hm.engine with he | ⟨now, call, r, ht, hcall⟩
    · exact Or.inl he
    · refine Or.inr ⟨now, call, r, ht, fun id u hcu => ?_⟩
      obtain ⟨hid, attempt, hph⟩ := hcall id u hcu
      exact Or.inr ⟨i, attempt, hid, hph⟩

end

end Federation
