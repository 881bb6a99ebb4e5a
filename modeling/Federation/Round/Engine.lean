/-
  The round engine: the operations collaborators and the aggregator's own timer call.

  Every operation happens at once: it takes the engine and the time and hands back its answer with
  the engine it leaves.  An aggregation works on a tentative list of slots, so that a failed one
  leaves the round as it was.

  * `join`, `submit`, `latest`: what collaborators call;
  * `forceClose`, `closeIfOverdue`: closing a round with those that are in;
  * `snapshot`: what the aggregator reports about itself.
-/
import Federation.Round.State

namespace Federation

structure RoundEngine (σ : Type) where
  rules : RoundRules
  state : RoundState σ

structure JoinOutcome where
  view : ModelView
  newlyJoined : Bool
  deriving DecidableEq, Repr

structure SubmitOutcome where
  /-- The round that is open after the update was applied. -/
  round : Nat
  /-- The new model, when this submission completed an aggregation. -/
  closed : Option ModelView
  pending : Nat
  deriving DecidableEq, Repr

namespace RoundEngine

variable {σ : Type} [AggregationStrategy σ]

/-- A result of type `α` with the engine left behind. -/
abbrev Result (σ α : Type) := Except FederationError α × RoundEngine σ

def create (now : Nat) (rules : RoundRules) (model : Blob) (strategy : σ) : RoundEngine σ :=
  ⟨rules, .initial now model strategy⟩

def refuse {α : Type} (e : RoundEngine σ) (error : FederationError) : Result σ α :=
  (.error error, e)

def isMember (e : RoundEngine σ) (id : String) : Bool := e.state.members.contains id

def setMembers (e : RoundEngine σ) (members : NameMap Member) : RoundEngine σ :=
  { e with state := { e.state with members := members } }

/-! ## Aggregation -/

/-- Hand contributions to the strategy.  A new model opens the next round; a failure changes nothing
but what the strategy makes of it. -/
def aggregate (e : RoundEngine σ) (now : Nat) (contributions : List Contribution) :
    Result σ ModelView :=
  let (result, strategy) :=
    AggregationStrategy.aggregate e.state.strategy e.state.model contributions
  let state := { e.state with strategy := strategy }
  match result with
  | .error error => (.error (.aggregation error), { e with state := state })
  | .ok model =>
    let state := state.advance now model
    (.ok state.view, { e with state := state })

/-! ## Joining -/

/-- Register an identity and answer with the current model.  Joining again is harmless. -/
def join (e : RoundEngine σ) (now : Nat) (id : String) : Result σ JoinOutcome :=
  match e.rules.mayJoin id with
  | .error error => e.refuse error
  | .ok () =>
    let record := (e.state.members.find? id).getD (.joining now)
    let e' := e.setMembers (e.state.members.insert id (record.seen now))
    (.ok ⟨e.state.view, !e.isMember id⟩, e')

/-! ## Submitting -/

/-- The member an update comes from, registered on the spot when the policy says so. -/
def enroll (e : RoundEngine σ) (now : Nat) (id : String) : Result σ Unit :=
  if e.isMember id then (.ok (), e)
  else if !e.rules.membership.autoRegister then e.refuse (.unknownCollaborator id)
  else
    match e.rules.mayJoin id with
    | .error error => e.refuse error
    | .ok () => (.ok (), e.setMembers (e.state.members.insert id (.joining now)))

/-- Trained on a model of an earlier round than the open one? -/
def isLate (e : RoundEngine σ) (u : ModelUpdate) : Option Nat :=
  match u.baseRound with
  | some base => if base < e.state.round then some base else none
  | none => none

/-- An update for the open round, which closes as soon as every member has one in. -/
def submitSync (e : RoundEngine σ) (now : Nat) (id : String) (u : ModelUpdate) :
    Result σ (Option ModelView) :=
  match e.isLate u with
  | some base => e.refuse (.staleUpdate base e.state.round)
  | none =>
    let tentative := mergeSlot id u e.state.pending
    if tentative.length < e.state.members.size then
      (.ok none,
        { e with
          state := { e.state with
            pending := tentative, firstPendingAt := some (e.state.firstPendingAt.getD now) } })
    else
      let (result, e) := e.aggregate now (roundContributions tentative)
      (result.map some, e)

/-- Rounds between the model an update was trained on and now. -/
def staleness (e : RoundEngine σ) (u : ModelUpdate) : Nat :=
  match u.baseRound with
  | some base => e.state.round - base
  | none => 0

/-- Too many rounds behind, and by which base? -/
def tooStale (e : RoundEngine σ) (limit : Option Nat) (u : ModelUpdate) : Option Nat :=
  match limit, u.baseRound with
  | some limit, some base => if limit < e.state.round - base then some base else none
  | _, _ => none

/-- An update that goes into the model at once. -/
def submitAsync (e : RoundEngine σ) (now : Nat) (id : String) (u : ModelUpdate)
    (limit : Option Nat) : Result σ (Option ModelView) :=
  match e.tooStale limit u with
  | some base => e.refuse (.staleUpdate base e.state.round)
  | none =>
    let (result, e) := e.aggregate now [⟨id, u.model, u.sampleCount, e.staleness u⟩]
    (result.map some, e)

def submitByMode (e : RoundEngine σ) (now : Nat) (id : String) (u : ModelUpdate) :
    Result σ (Option ModelView) :=
  match e.rules.mode with
  | .sync => e.submitSync now id u
  | .async limit => e.submitAsync now id u limit

/-- The books after an accepted update. -/
def credit (e : RoundEngine σ) (now : Nat) (id : String) (closed : Bool) : RoundEngine σ :=
  let e := e.setMembers (e.state.members.modify id (Member.credited now))
  if closed then { e with state := e.state.announce } else e

def submit (e : RoundEngine σ) (now : Nat) (id : String) (u : ModelUpdate) :
    Result σ SubmitOutcome :=
  match validateIdentity id with
  | .error error => e.refuse error
  | .ok () =>
    match e.enroll now id with
    | (.error error, e) => e.refuse error
    | (.ok (), e) =>
      match e.submitByMode now id u with
      | (.error error, e) => e.refuse error
      | (.ok closed, e) =>
        let e := e.credit now id closed.isSome
        (.ok ⟨e.state.round, closed, e.state.pending.length⟩, e)

/-! ## Reading -/

/-- The current model, at once. -/
def latest (e : RoundEngine σ) (now : Nat) (id : String) : Result σ ModelView :=
  match validateIdentity id with
  | .error error => e.refuse error
  | .ok () =>
    if e.isMember id then
      (.ok e.state.view, e.setMembers (e.state.members.modify id (Member.seen now)))
    else e.refuse (.unknownCollaborator id)

/-! ## Closing -/

/-- Close the open round with what is pending.  Nothing happens when nothing is, or when rounds do
not wait for anyone. -/
def forceClose (e : RoundEngine σ) (now : Nat) : Result σ (Option ModelView) :=
  if e.rules.mode.isAsync || e.state.pending.isEmpty then (.ok none, e)
  else
    match e.aggregate now (roundContributions e.state.pending) with
    | (.error error, e) => e.refuse error
    | (.ok view, e) => (.ok (some view), { e with state := e.state.announce })

/-- Has the first pending update waited this long? -/
def isOverdue (e : RoundEngine σ) (now timeout : Nat) : Bool :=
  match e.state.firstPendingAt with
  | some first => decide (timeout ≤ now - first)
  | none => false

/-- Close the open round once its first update has waited for `timeout`. -/
def closeIfOverdue (e : RoundEngine σ) (now timeout : Nat) : Result σ (Option ModelView) :=
  if e.isOverdue now timeout then e.forceClose now else (.ok none, e)

end RoundEngine

/-! ## Snapshots -/

structure MemberSnapshot where
  id : String
  member : Member
  /-- Has an update in the open round. -/
  pending : Bool
  deriving DecidableEq, Repr

/-- What the aggregator reports about itself. -/
structure FederationSnapshot where
  mode : String
  algorithm : String
  round : Nat
  version : Nat
  modelBytes : Nat
  pending : Nat
  /-- How long the round has been open, in seconds. -/
  openSecs : Nat
  /-- In the order of the identities. -/
  members : List MemberSnapshot
  deriving DecidableEq, Repr

namespace RoundEngine

variable {σ : Type} [AggregationStrategy σ]

def hasPending (e : RoundEngine σ) (id : String) : Bool :=
  e.state.pending.any (·.collaborator = id)

def snapshot (e : RoundEngine σ) (now : Nat) : FederationSnapshot where
  mode := e.rules.mode.name
  algorithm := AggregationStrategy.name e.state.strategy
  round := e.state.round
  version := e.state.version
  modelBytes := e.state.model.length
  pending := e.state.pending.length
  openSecs := (now - e.state.openedAt) / 1000
  members := e.state.members.entries.map fun m => ⟨m.1, m.2, e.hasPending m.1⟩

end RoundEngine

/-! ## Engines of plans -/

/-- The strategy a plan runs: updates that are applied on their own are blended in. -/
def FederationPlan.strategy (p : FederationPlan) : Except AggregationError Strategy := do
  let base ← p.algorithm.build
  return match p.coordinationMode with
    | .sync => base
    | .async _ => base.blended p.asyncConfig

def FederationPlan.rules (p : FederationPlan) : RoundRules :=
  ⟨p.coordinationMode, p.membership, p.expectedIdentities⟩

/-- The engine a plan describes, with its initial model. -/
def FederationPlan.engine (p : FederationPlan) (now : Nat) (model : Blob) :
    Except FederationError (RoundEngine Strategy) :=
  match p.strategy with
  | .error e => .error (.aggregation e)
  | .ok strategy => .ok (.create now p.rules model strategy)

end Federation
