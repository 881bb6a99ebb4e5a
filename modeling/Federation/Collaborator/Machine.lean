/-
  The collaborator: join, train, submit, wait for the next model, again.

  The collaborator is a machine that asks its surroundings for one thing at a time and goes on with
  the answer.  Whoever runs it decides how long an answer takes and what else happens meanwhile.

  * `CollaboratorConfig`: who it is and what it was told to do;
  * `Demand`, `Reply`: what it asks for, and the answers;
  * `Phase`: where it stands;
  * `Machine.resume`: the next phase, given an answer;
  * `Machine.interrupt`: the end of a run that is cancelled while it waits for an answer.
-/
import Federation.Plan.Source
import Federation.Retry

namespace Federation

/-! ## Configuration -/

structure CollaboratorConfig where
  id : String
  mode : CoordinationMode
  /-- Zero runs until cancelled. -/
  rounds : Nat
  settings : CollaboratorSettings
  deriving DecidableEq, Repr

/-- The configuration of one identity under a plan. -/
def FederationPlan.collaboratorConfig (p : FederationPlan) (id : String) :
    Except FederationError CollaboratorConfig :=
  match validateIdentity id with
  | .error e => .error e
  | .ok () => .ok ⟨id, p.coordinationMode, p.rounds, p.collaborator⟩

/-! ## Talking to the surroundings -/

/-- What the aggregator says to a submission. -/
structure SubmitReceipt where
  round : Nat
  roundClosed : Bool
  deriving DecidableEq, Repr

inductive Demand where
  | join
  | submit (update : ModelUpdate)
  /-- The current model, waiting up to `wait` milliseconds for round `minRound`. -/
  | latest (minRound wait : Nat)
  | train
  | sleep (milliseconds : Nat)
  /-- Hand a model to the trainer. -/
  | writeModel (model : Blob)
  | clearUpdate
  | readUpdate
  deriving DecidableEq, Repr

/-- Steps in the working directory are finished even when the run is cancelled. -/
def Demand.isCancellable : Demand → Bool
  | join | submit _ | latest _ _ | train | sleep _ => true
  | writeModel _ | clearUpdate | readUpdate => false

inductive Reply where
  /-- A model, in answer to `join` and `latest`. -/
  | view (result : Except FederationError ModelView)
  | receipt (result : Except FederationError SubmitReceipt)
  /-- Done or failed, in answer to `train`, `writeModel` and `clearUpdate`. -/
  | done (result : Except FederationError Unit)
  | slept
  | update (result : Except FederationError Blob)

/-! ## Phases -/

inductive CollaboratorState where
  | disconnected
  | joined
  | training
  | submitting
  | waiting
  | refreshing
  | stopped
  | failed
  deriving DecidableEq, Repr

namespace CollaboratorState

def name : CollaboratorState → String
  | disconnected => "Disconnected"
  | joined => "Joined"
  | training => "Training"
  | submitting => "Submitting"
  | waiting => "Waiting"
  | refreshing => "Refreshing"
  | stopped => "Stopped"
  | failed => "Failed"

end CollaboratorState

/-- Why a model is fetched. -/
inductive FetchPurpose where
  /-- For the next synchronous round. -/
  | nextRound
  /-- To catch up. -/
  | refresh
  deriving DecidableEq, Repr

structure RunSummary where
  roundsCompleted : Nat
  /-- The round of the aggregator last observed. -/
  lastRound : Nat
  finalState : CollaboratorState
  deriving DecidableEq, Repr

inductive Phase where
  /-- `again` says that the model is handed over once more after the join. -/
  | joining (again : Bool)
  | handing (again : Bool)
  | clearing
  | training
  | collecting
  | submitting (update : ModelUpdate) (attempt : Nat)
  | submitBackoff (update : ModelUpdate) (attempt : Nat)
  | pausing
  | fetching (purpose : FetchPurpose) (attempt : Nat)
  | fetchBackoff (purpose : FetchPurpose) (attempt : Nat)
  | finished (result : Except FederationError RunSummary)

structure Machine where
  config : CollaboratorConfig
  phase : Phase
  model : Option ModelView
  /-- The state last entered. -/
  state : CollaboratorState
  roundsCompleted : Nat
  lastRound : Nat
  /-- The synchronous round whose submission was counted last. -/
  countedRound : Option Nat

namespace Machine

def fresh (config : CollaboratorConfig) : Machine where
  config := config
  phase := .joining false
  model := none
  state := .disconnected
  roundsCompleted := 0
  lastRound := 0
  countedRound := none

def modelRound (m : Machine) : Nat := (m.model.map (·.round)).getD 0

def ceilingReached (m : Machine) : Bool :=
  decide (0 < m.config.rounds) && decide (m.config.rounds ≤ m.roundsCompleted)

def observe (m : Machine) (v : ModelView) : Machine :=
  { m with lastRound := max m.lastRound v.round, model := some v }

/-- Count an accepted submission: always in asynchronous mode, else once for each round. -/
def countRound (m : Machine) : Machine :=
  if m.config.mode.isAsync then { m with roundsCompleted := bump m.roundsCompleted }
  else if m.countedRound = some m.modelRound then m
  else
    { m with countedRound := some m.modelRound, roundsCompleted := bump m.roundsCompleted }

/-! ## Ends -/

def summary (m : Machine) (state : CollaboratorState) : RunSummary :=
  ⟨m.roundsCompleted, m.lastRound, state⟩

def stop (m : Machine) : Machine :=
  { m with state := .stopped, phase := .finished (.ok (m.summary .stopped)) }

/-- A cancelled run stops; any other error ends it as failed. -/
def fail (m : Machine) (e : FederationError) : Machine :=
  match e with
  | .cancelled => m.stop
  | e => { m with state := .failed, phase := .finished (.error e) }

/-- End a run that is cancelled while it waits. -/
def interrupt (m : Machine) : Machine := m.fail .cancelled

/-! ## Moves -/

def goTo (m : Machine) (phase : Phase) : Machine := { m with phase := phase }

def enter (m : Machine) (state : CollaboratorState) (phase : Phase) : Machine :=
  { m with state := state, phase := phase }

/-- Go on unless the run has been cancelled. -/
def unlessCancelled (cancelled : Bool) (m : Machine) (next : Machine) : Machine :=
  if cancelled then m.interrupt else next

def join (m : Machine) (cancelled : Bool) (again : Bool) : Machine :=
  m.unlessCancelled cancelled (m.goTo (.joining again))

/-- Hand the current model to the trainer. -/
def handOver (m : Machine) (again : Bool) : Machine := m.enter .joined (.handing again)

/-- The next round, unless there have been enough. -/
def beginRound (m : Machine) (cancelled : Bool) : Machine :=
  if m.ceilingReached then m.stop
  else m.unlessCancelled cancelled (m.enter .training .clearing)

def sampled (m : Machine) (update : Blob) : ModelUpdate :=
  ((ModelUpdate.ofModel update).trainedOn m.modelRound).withSamples m.config.settings.sampleCount

def refresh (m : Machine) : Machine := m.enter .refreshing (.fetching .refresh 0)

/-! ## Retries -/

def submitPolicy (m : Machine) : RetryPolicy :=
  RetryPolicy.default.withMaxRetries
    (if m.config.mode.isAsync then m.config.settings.submitRetries else 0)

def fetchPolicy (m : Machine) : RetryPolicy :=
  RetryPolicy.default.withMaxRetries m.config.settings.refreshRetries

/-- May another attempt follow this failure? -/
def mayRetry (p : RetryPolicy) (attempt : Nat) (e : FederationError) : Bool :=
  e.isTransport && decide (attempt < p.maxRetries)

/-! ## Demands -/

/-- What the machine waits for; nothing once it has finished. -/
def demand (m : Machine) : Option Demand :=
  match m.phase with
  | .joining _ => some .join
  | .handing _ => some (.writeModel ((m.model.map (·.model)).getD []))
  | .clearing => some .clearUpdate
  | .training => some .train
  | .collecting => some .readUpdate
  | .submitting u _ => some (.submit u)
  | .submitBackoff _ attempt => some (.sleep (sleepMillis (m.submitPolicy.delayAfter attempt)))
  | .pausing => some (.sleep m.config.settings.roundIntervalMs)
  | .fetching .nextRound _ => some (.latest (bump m.modelRound) m.config.settings.syncWaitMs)
  | .fetching .refresh _ => some (.latest 0 0)
  | .fetchBackoff _ attempt => some (.sleep (sleepMillis (m.fetchPolicy.delayAfter attempt)))
  | .finished _ => none

/-! ## Answers -/

/-- After an accepted submission. -/
def afterSubmit (m : Machine) (cancelled : Bool) (r : SubmitReceipt) : Machine :=
  let m := { m with lastRound := max m.lastRound r.round }.countRound
  if m.ceilingReached then m.stop
  else
    m.unlessCancelled cancelled
      (if m.config.mode.isAsync then m.refresh else m.enter .waiting .pausing)

/-- After a submission that failed for good. -/
def afterRefusal (m : Machine) (cancelled : Bool) (e : FederationError) : Machine :=
  match e with
  | .staleUpdate _ _ => m.refresh
  | .unknownCollaborator _ => m.join cancelled false
  | e => m.fail e

/-- After a fetch that failed for good.  A collaborator that does not work in step keeps the model
it has. -/
def afterLostFetch (m : Machine) (cancelled : Bool) (purpose : FetchPurpose)
    (e : FederationError) : Machine :=
  match e, purpose with
  | .unknownCollaborator _, _ => m.join cancelled true
  | .cancelled, _ => m.interrupt
  | e, .refresh => if m.config.mode.isAsync then m.handOver false else m.fail e
  | e, .nextRound => m.fail e

/-- Go on with an answer.  `cancelled` is whether the run is cancelled by now.  An answer to
something else changes nothing. -/
def resume (cancelled : Bool) (m : Machine) (reply : Reply) : Machine :=
  match m.phase, reply with
  | .joining again, .view (.ok v) => (m.observe v).handOver again
  | .joining _, .view (.error e) => m.fail e
  | .handing true, .done (.ok ()) => m.handOver false
  | .handing false, .done (.ok ()) => m.beginRound cancelled
  | .handing _, .done (.error e) => m.fail e
  | .clearing, .done (.ok ()) => m.goTo .training
  | .clearing, .done (.error e) => m.fail e
  | .training, .done (.ok ()) => m.unlessCancelled cancelled (m.goTo .collecting)
  | .training, .done (.error e) => m.fail e
  | .collecting, .update (.ok update) =>
    m.unlessCancelled cancelled (m.enter .submitting (.submitting (m.sampled update) 0))
  | .collecting, .update (.error e) => m.fail e
  | .submitting _ _, .receipt (.ok r) => m.afterSubmit cancelled r
  | .submitting u attempt, .receipt (.error e) =>
    if mayRetry m.submitPolicy attempt e then m.goTo (.submitBackoff u attempt)
    else m.afterRefusal cancelled e
  | .submitBackoff u attempt, .slept => m.goTo (.submitting u (attempt + 1))
  | .pausing, .slept => m.goTo (.fetching .nextRound 0)
  | .fetching _ _, .view (.ok v) => (m.observe v).handOver false
  | .fetching purpose attempt, .view (.error e) =>
    if mayRetry m.fetchPolicy attempt e then m.goTo (.fetchBackoff purpose attempt)
    else m.afterLostFetch cancelled purpose e
  | .fetchBackoff purpose attempt, .slept => m.goTo (.fetching purpose (attempt + 1))
  | _, _ => m

def result? (m : Machine) : Option (Except FederationError RunSummary) :=
  match m.phase with
  | .finished r => some r
  | _ => none

end Machine

end Federation
