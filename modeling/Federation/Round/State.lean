/-
  What the aggregator knows about the open round.

  * `Member`, `PendingSlot`: a registered collaborator, and an update that waits for its round;
  * `RoundRules`: the policy, fixed when the engine is made;
  * `RoundState`: everything that changes;
  * `RoundState.advance`: a new model becomes current and the next round opens.

  Times are in milliseconds of the aggregator's clock.
-/
import Federation.Aggregation.Strategy
import Federation.Plan.Plan

namespace Federation

structure Member where
  joinedAt : Nat
  lastSeen : Nat
  lastUpdate : Option Nat
  /-- Submissions accepted so far. -/
  accepted : Nat
  deriving DecidableEq, Repr

namespace Member

def joining (now : Nat) : Member := ⟨now, now, none, 0⟩

def seen (now : Nat) (m : Member) : Member := { m with lastSeen := now }

def credited (now : Nat) (m : Member) : Member :=
  { m with lastSeen := now, lastUpdate := some now, accepted := bump m.accepted }

end Member

structure PendingSlot where
  collaborator : String
  update : ModelUpdate
  deriving DecidableEq, Repr

/-- The policy, fixed when the engine is made. -/
structure RoundRules where
  mode : CoordinationMode
  membership : MembershipPolicy
  /-- The identities the plan lists. -/
  expected : List String
  deriving DecidableEq, Repr

/-- May this identity take part? -/
def RoundRules.mayJoin (r : RoundRules) (id : String) : Except FederationError Unit :=
  match validateIdentity id with
  | .error e => .error e
  | .ok () =>
    if r.membership.strict && !r.expected.contains id then .error (.membershipDenied id) else .ok ()

structure RoundState (σ : Type) where
  round : Nat
  version : Nat
  model : Blob
  /-- In order of arrival, at most one slot for each identity. -/
  pending : List PendingSlot
  members : NameMap Member
  strategy : σ
  openedAt : Nat
  /-- When the open round received its first update. -/
  firstPendingAt : Option Nat
  /-- The round last announced to those who wait. -/
  announced : Nat

namespace RoundState

variable {σ : Type}

def initial (now : Nat) (model : Blob) (strategy : σ) : RoundState σ where
  round := 1
  version := 1
  model := model
  pending := []
  members := .empty
  strategy := strategy
  openedAt := now
  firstPendingAt := none
  announced := 1

def view (s : RoundState σ) : ModelView := ⟨s.model, s.round, s.version⟩

/-- A new model becomes current and the next round opens with nothing pending. -/
def advance (s : RoundState σ) (now : Nat) (model : Blob) : RoundState σ :=
  { s with
    model := model, round := bump s.round, version := bump s.version, pending := []
    openedAt := now, firstPendingAt := none }

/-- Tell those who wait which round it is. -/
def announce (s : RoundState σ) : RoundState σ := { s with announced := s.round }

end RoundState

/-- The pending updates of a round as the strategy gets them. -/
def roundContributions (pending : List PendingSlot) : List Contribution :=
  pending.map fun slot => ⟨slot.collaborator, slot.update.model, slot.update.sampleCount, 0⟩

/-- Put an update into its identity's slot, or at the end when there is none. -/
def mergeSlot (id : String) (u : ModelUpdate) : List PendingSlot → List PendingSlot
  | [] => [⟨id, u⟩]
  | slot :: slots =>
    if slot.collaborator = id then ⟨id, u⟩ :: slots else slot :: mergeSlot id u slots

end Federation
