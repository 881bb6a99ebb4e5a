/-
  Rehearsals: one collaborator, one aggregator, a script, and a clock that moves when both wait.

  * `Cue`: what a script does at one call;
  * `StandIn`: what plays the trainer;
  * `Stage`: everything on the scene, with a record of the calls;
  * `Stage.play`: the run from the curtain to the end, or to a call that never returns.

  A run is cancelled by a cue, at a time, or once it has made too many calls.  The cancellation is
  noticed where the run waits: before a call begins, and while one takes time.
-/
import Federation.Aggregation.Contribution
import Federation.Collaborator.Direct
import Federation.Collaborator.Trainer
import Federation.Collaborator.WorkDir
import Federation.Round.History

namespace Federation

/-! ## Scripts -/

inductive CallKind where
  | join
  | submit
  | latest
  | train
  deriving DecidableEq, Repr

/-- An answer given in place of the real one. -/
inductive ScriptedAnswer where
  | failure (e : FederationError)
  | view (v : ModelView)
  | receipt (r : SubmitReceipt)
  deriving DecidableEq, Repr

/-- What a script does at one call; calls of a kind are counted from one. -/
structure Cue where
  kind : CallKind
  number : Nat
  /-- Calls that others make first. -/
  before : List RoundCall
  cancels : Bool
  /-- The call never returns. -/
  hangs : Bool
  delay : Nat
  answer : Option ScriptedAnswer

/-- What plays the trainer. -/
inductive StandIn where
  | command (task : TaskConfig)
  | constant (output : Blob)
  /-- Adds a number to every weight. -/
  | shift (delta : Single)
  | idle
  deriving DecidableEq

/-- A call as it goes on record. -/
inductive CallRecord where
  | join (id : String)
  | submit (update : ModelUpdate)
  | latest (minRound wait : Nat)
  /-- The trainer's input, and whether there is an output before it starts. -/
  | train (model : Blob) (hasOutput : Bool)
  deriving DecidableEq, Repr

namespace CallRecord

def kind : CallRecord → CallKind
  | join _ => .join
  | submit _ => .submit
  | latest _ _ => .latest
  | train _ _ => .train

end CallRecord

/-! ## The stage -/

structure Stage (σ : Type) where
  machine : Machine
  engine : RoundEngine σ
  disk : Disk.Tree
  workDir : WorkDir
  script : List Cue
  /-- One for each training, the last one for all that follow. -/
  trainers : List StandIn
  clock : Nat
  cancelAt : Option Nat
  cancelled : Bool
  /-- The run waits for something that never comes. -/
  stalled : Bool
  /-- Calls with their times, the latest first. -/
  record : List (Nat × CallRecord)

namespace Stage

variable {σ : Type} [AggregationStrategy σ]

/-- The engine's own clock stands still. -/
def instant : Nat := 0

/-- With this call the run is cancelled. -/
def callLimit : Nat := 40

def setMachine (s : Stage σ) (m : Machine) : Stage σ := { s with machine := m }

/-- Go on with an answer. -/
def reply (s : Stage σ) (r : Reply) : Stage σ := s.setMachine (s.machine.resume s.cancelled r)

def interrupt (s : Stage σ) : Stage σ := s.setMachine s.machine.interrupt

/-! ## Time -/

/-- Has the time come at which the run is cancelled? -/
def isDue (s : Stage σ) : Bool :=
  match s.cancelAt with
  | some t => decide (t ≤ s.clock)
  | none => false

/-- Wait for others; a cancellation that is due takes effect. -/
def rest (s : Stage σ) : Stage σ := { s with cancelled := s.cancelled || s.isDue }

/-- Let time pass up to `wake`, and go on unless the run is cancelled before.  No time at all is no
wait. -/
def waitUntil (s : Stage σ) (wake : Nat) (next : Stage σ → Stage σ) : Stage σ :=
  if wake ≤ s.clock then next s
  else if s.cancelled || s.isDue then { s with cancelled := true }.interrupt
  else
    match s.cancelAt with
    | some t =>
      if t < wake then { s with clock := t, cancelled := true }.interrupt
      else next { s with clock := wake }
    | none => next { s with clock := wake }

/-- Wait for something that never comes, until the run is cancelled. -/
def waitForever (s : Stage σ) : Stage σ :=
  if s.cancelled || s.isDue then { s with cancelled := true }.interrupt
  else
    match s.cancelAt with
    | some t => { s with clock := t, cancelled := true }.interrupt
    | none => { s with stalled := true }

/-! ## Files -/

/-- A step in the working directory, which takes a moment but no time. -/
def file {α : Type} (s : Stage σ) (step : WorkDir.Step α)
    (wrap : Except FederationError α → Reply) : Stage σ :=
  let (result, disk) := step.run.runSound s.disk
  ({ s with disk := disk }.rest).reply (wrap result)

/-! ## Training -/

def trainer (s : Stage σ) (n : Nat) : StandIn :=
  s.trainers.getD (min n s.trainers.length - 1) .idle

def outputMode : Nat := 0o644

def writeOutput (s : Stage σ) (output : Blob) : Stage σ :=
  match s.disk.overwrite s.workDir.updatePath outputMode output with
  | .ok disk => { s with disk := disk }.reply (.done (.ok ()))
  | .error e => s.reply (.done (.error (WorkDir.failure s.workDir.updatePath e)))

def input (s : Stage σ) : Blob := (s.disk.read s.workDir.modelPath).toOption.getD []

/-- Add a number to every weight of a model. -/
def shifted (model : Blob) (delta : Single) : Except FederationError Blob :=
  match decodeWeights model with
  | .ok ws => .ok (encodeWeights (ws.map (·.add delta)))
  | .error e => .error (.trainingFailure e.message)

def train (s : Stage σ) (n : Nat) : Stage σ :=
  match s.trainer n with
  | .idle => s.reply (.done (.ok ()))
  | .constant output => s.writeOutput output
  | .shift delta =>
    match shifted s.input delta with
    | .ok output => s.writeOutput output
    | .error e => s.reply (.done (.error e))
  | .command task =>
    if s.cancelled then s.interrupt
    else
      let (result, disk) := runTrainer task (some (utf8Encode s.workDir.modelPath))
        (some (utf8Encode s.workDir.updatePath)) s.disk
      ({ s with disk := disk }.rest).reply (.done result)

/-! ## Calls -/

/-- Poll for the latest model; nothing else happens at the aggregator meanwhile. -/
def fetch (s : Stage σ) (poll : LongPoll) : Stage σ :=
  let finish := fun (s : Stage σ) (result : Except FederationError ModelView) =>
    s.reply (.view result)
  let (phase, engine) := poll.settle s.clock instant s.engine .reading
  let s := { s with engine := engine }
  match phase with
  | .finished result => finish s result
  | .waiting deadline =>
    s.waitUntil deadline fun s =>
      let (phase, engine) := poll.settle s.clock instant s.engine phase
      match phase with
      | .finished result => finish { s with engine := engine } result
      | _ => s
  | _ => s

/-- The call itself, as nothing in the script says otherwise. -/
def callDirectly (s : Stage σ) (n : Nat) : CallRecord → Stage σ
  | .join id =>
    let (result, engine) := s.engine.joinDirectly instant id
    { s with engine := engine }.reply (.view result)
  | .submit update =>
    let (result, engine) := s.engine.submitDirectly instant s.machine.config.id update
    { s with engine := engine }.reply (.receipt result)
  | .latest minRound wait => s.fetch ⟨s.machine.config.id, minRound, wait⟩
  | .train _ _ => s.train n

/-- A failure as the answer to a call. -/
def failureOf (e : FederationError) : CallKind → Reply
  | .join | .latest => .view (.error e)
  | .submit => .receipt (.error e)
  | .train => .done (.error e)

/-- Answer a call as the script says, when it says something that fits. -/
def answerCall (s : Stage σ) (n : Nat) (call : CallRecord) (answer : Option ScriptedAnswer) :
    Stage σ :=
  match answer, call.kind with
  | some (.failure e), kind => s.reply (failureOf e kind)
  | some (.view v), .join | some (.view v), .latest => s.reply (.view (.ok v))
  | some (.receipt r), .submit => s.reply (.receipt (.ok r))
  | _, _ => s.callDirectly n call

/-- Play what the script has at a call. -/
def playCue (s : Stage σ) (n : Nat) (call : CallRecord) (cue : Cue) : Stage σ :=
  let s := { s with engine := s.engine.after (cue.before.map fun c => (instant, c)) }
  let s := { s with cancelled := s.cancelled || cue.cancels }
  if cue.hangs then s.waitForever
  else s.waitUntil (s.clock + cue.delay) fun s => s.answerCall n call cue.answer

/-- Calls of a kind so far. -/
def countOf (s : Stage σ) (kind : CallKind) : Nat :=
  s.record.countP fun e => decide (e.2.kind = kind)

def cueFor (s : Stage σ) (kind : CallKind) (n : Nat) : Option Cue :=
  s.script.find? fun c => decide (c.kind = kind ∧ c.number = n)

/-- Begin a call: it goes on record, and then on with the script or without. -/
def call (s : Stage σ) (call : CallRecord) : Stage σ :=
  let s := { s with record := (s.clock, call) :: s.record }
  let s := { s with cancelled := s.cancelled || decide (callLimit ≤ s.record.length) }
  let n := s.countOf call.kind
  match s.cueFor call.kind n with
  | some cue => s.playCue n call cue
  | none => s.callDirectly n call

/-! ## Playing -/

/-- Meet one demand of the collaborator. -/
def meet (s : Stage σ) : Demand → Stage σ
  | .join => s.call (.join s.machine.config.id)
  | .submit update => s.call (.submit update)
  | .latest minRound wait => s.call (.latest minRound wait)
  | .train => s.call (.train s.input (s.disk.exists? s.workDir.updatePath))
  | .sleep n => s.waitUntil (s.clock + n) fun s => s.reply .slept
  | .writeModel model => s.file (s.workDir.writeModel model) .done
  | .clearUpdate => s.file s.workDir.clearUpdate .done
  | .readUpdate => s.file s.workDir.readUpdate .update

/-- Meet a demand unless the run is cancelled before it. -/
def step (s : Stage σ) (d : Demand) : Stage σ :=
  if d.isCancellable && s.cancelled then s.interrupt else s.meet d

/-- Meet demands until there are none, or one that is never met. -/
def play : Nat → Stage σ → Stage σ
  | 0, s => s
  | fuel + 1, s =>
    match s.machine.demand with
    | none => s
    | some d => if s.stalled then s else play fuel (s.step d)

/-- More demands than a run can have that is cancelled with its `callLimit`-th call: between two
calls there are fewer than eight others. -/
def playFuel : Nat := 8 * (callLimit + 1)

end Stage

/-! ## Rehearsals -/

/-- What a rehearsal begins with. -/
structure Rehearsal (σ : Type) where
  config : CollaboratorConfig
  engine : RoundEngine σ
  /-- Calls made before the run. -/
  setup : List RoundCall
  disk : Disk.Tree
  /-- Where the working directory is made. -/
  directory : String
  script : List Cue
  trainers : List StandIn
  cancelled : Bool
  cancelAt : Option Nat

namespace Rehearsal

variable {σ : Type} [AggregationStrategy σ]

/-- The stage before the run. -/
def stage (r : Rehearsal σ) : Except FederationError (Stage σ) :=
  match (WorkDir.create r.directory).run.runSound r.disk with
  | (.error e, _) => .error e
  | (.ok workDir, disk) =>
    .ok {
      machine := .fresh r.config
      engine := r.engine.after (r.setup.map fun c => (Stage.instant, c))
      disk := disk
      workDir := workDir
      script := r.script
      trainers := r.trainers
      clock := 0
      cancelAt := r.cancelAt
      cancelled := r.cancelled
      stalled := false
      record := [] }

/-- The stage after the run. -/
def perform (r : Rehearsal σ) : Except FederationError (Stage σ) :=
  r.stage.map (Stage.play Stage.playFuel)

end Rehearsal

end Federation
