/-
  What starting a process of the federation has in common for both of them: the environment it
  reads, the libraries it is linked with, and the ways in which it can fail.
-/
import Federation.Host.Tls
import Federation.Plan.Source
import Federation.Security.Transport

namespace Federation

/-- The variables of an environment. -/
abbrev Environment := List (String × String)

inductive StartFailure where
  | refused (e : FederationError)
  /-- The variable that has to be set is not. -/
  | unset (name : String)
  /-- The system refuses a socket. -/
  | socket
  deriving DecidableEq, Repr

def StartFailure.message : StartFailure → String
  | refused e => e.message
  | unset name => name ++ " is not set"
  | socket => "cannot listen"

/-- A part of starting a process. -/
abbrev Startup (α : Type) := ExceptT StartFailure Disk.Program α

namespace Startup

def ofResult {α : Type} (r : Except FederationError α) : Startup α :=
  ExceptT.mk (return r.mapError .refused)

def ofTask {α : Type} (t : FileTask α) : Startup α :=
  ExceptT.mk do return (← t.run).mapError .refused

def planVariable : String := "FEDLINK_PLAN"
def identityVariable : String := "FEDLINK_COLLABORATOR_ID"

/-- The plan file of a process that is not told which. -/
def defaultPlan : String := "plan.yaml"

def planPath (env : Environment) : String := (env.lookup planVariable).getD defaultPlan

def loadPlan (env : Environment) : Startup FederationPlan :=
  ofTask (ExceptT.mk (FederationPlan.load (planPath env) env))

end Startup

end Federation
