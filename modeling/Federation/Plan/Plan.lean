/-
  The federation plan: the static configuration the aggregator and every collaborator share.

  * `FederationPlan`: the plan;
  * `FederationPlan.validate`: what is checked beyond the types;
  * `CoordinationMode`: the policy the round engine follows.
-/
import Federation.Aggregation.Strategy
import Federation.Identity
import Federation.Security.Settings
import Federation.Task
import Federation.Text.CharClass

namespace Federation

/-! ## Parts of a plan -/

structure CollaboratorEntry where
  id : String
  address : Option String
  deriving DecidableEq, Repr

structure AggregatorEntry where
  address : String
  /-- A round with something pending is closed after this many seconds; never when unset. -/
  roundTimeoutSecs : Option Nat
  deriving DecidableEq, Repr

inductive ModeName where
  | sync
  | async
  deriving DecidableEq, Repr

structure MembershipPolicy where
  /-- Only the identities the plan lists may join. -/
  strict : Bool
  /-- A submission from an identity that never joined registers it. -/
  autoRegister : Bool
  deriving DecidableEq, Repr

def MembershipPolicy.default : MembershipPolicy := ⟨false, false⟩

structure CollaboratorSettings where
  workDir : String
  roundIntervalMs : Nat
  rpcTimeoutMs : Nat
  /-- How long the fetch of the next synchronous round's model may be held. -/
  syncWaitMs : Nat
  submitRetries : Nat
  refreshRetries : Nat
  /-- Size of the local training set reported with each update; zero means unweighted. -/
  sampleCount : Nat
  deriving DecidableEq, Repr

def CollaboratorSettings.default : CollaboratorSettings := ⟨"models", 2000, 30000, 0, 3, 3, 0⟩

/-- The policy the round engine follows. -/
inductive CoordinationMode where
  /-- A round closes once every registered collaborator has a pending update. -/
  | sync
  /-- Every accepted update goes into the model and advances the round. -/
  | async (maxStaleness : Option Nat)
  deriving DecidableEq, Repr

namespace CoordinationMode

def name : CoordinationMode → String
  | sync => "sync"
  | async _ => "async"

def isAsync : CoordinationMode → Bool
  | sync => false
  | async _ => true

end CoordinationMode

/-! ## Plans -/

structure FederationPlan where
  /-- Rounds a collaborator runs; zero means no limit. -/
  rounds : Nat
  collaborators : List CollaboratorEntry
  aggregator : AggregatorEntry
  initialModel : Option String
  outputModel : Option String
  train : TaskConfig
  mode : ModeName
  asyncConfig : AsyncConfig
  algorithm : AlgorithmConfig
  membership : MembershipPolicy
  collaborator : CollaboratorSettings
  security : SecuritySettings
  healthPort : Option Nat
  deriving DecidableEq

namespace FederationPlan

def coordinationMode (p : FederationPlan) : CoordinationMode :=
  match p.mode with
  | .sync => .sync
  | .async => .async p.asyncConfig.maxStaleness

def expectedIdentities (p : FederationPlan) : List String := p.collaborators.map (·.id)

def listsCollaborator (p : FederationPlan) (id : String) : Bool := p.expectedIdentities.contains id

/-- Entries in order: each identity well formed and not seen before. -/
def validateEntries : List String → List CollaboratorEntry → Except FederationError Unit
  | _, [] => .ok ()
  | seen, c :: cs =>
    match validateIdentity c.id with
    | .error e => .error (.configuration e.message)
    | .ok () =>
      if seen.contains c.id then
        .error (.configuration ("collaborator `" ++ c.id ++ "` listed twice"))
      else validateEntries (c.id :: seen) cs

/-- A weight of the blend: above zero and at most one. -/
def isFraction (x : Double) : Bool := Double.zero.lt x && x.le Double.one

def validate (p : FederationPlan) : Except FederationError Unit := do
  if isBlank p.aggregator.address then .error (.configuration "aggregator.address is required")
  else
    validateEntries [] p.collaborators
    if p.membership.strict && p.collaborators.isEmpty then
      .error (.configuration "membership.strict requires a collaborator list")
    else if !isFraction p.asyncConfig.stalenessWeight || !isFraction p.asyncConfig.mixingRate then
      .error (.configuration "async_config weights must be in (0, 1]")
    else .ok ()

end FederationPlan

/-! ## Plan files -/

def maxPlanPathLength : Nat := 256

def ascii (s : String) : List UInt8 := s.toList.map fun c => UInt8.ofNat c.toNat

/-- Where a plan may be read from: a bounded path without `..` to a `.yaml` or `.yml` file. -/
def validatePlanPath (path : List UInt8) : Except FederationError Unit :=
  if maxPlanPathLength < utf8Length (utf8Lossy path) then
    .error (.configuration s!"plan path too long (max {maxPlanPathLength})")
  else if (components path).contains .parent then
    .error (.configuration "plan path must not contain `..`")
  else
    match extension? path with
    | some ending =>
      if ending = ascii "yaml" || ending = ascii "yml" then .ok ()
      else .error (.configuration "plan file must be .yaml or .yml")
    | none => .error (.configuration "plan file must be .yaml or .yml")

end Federation
