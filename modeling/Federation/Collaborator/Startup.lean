/-
  Starting a collaborator: the plan, its identity, the security material, the working directory.
-/
import Federation.Collaborator.WorkDir
import Federation.Endpoint
import Federation.Startup
import Federation.Wire.Client

namespace Federation

open Wire

/-- A collaborator that is about to join. -/
structure CollaboratorProcess where
  machine : Machine
  transport : ClientTransport
  workDir : WorkDir
  trainer : TaskConfig

namespace CollaboratorProcess

def identity (env : Environment) : Startup String :=
  match env.lookup Startup.identityVariable with
  | some id => return id
  | none => throw (.unset Startup.identityVariable)

/-- The directory of one identity, below the one that the plan names. -/
def directory (p : FederationPlan) (id : String) : String := joinPath p.collaborator.workDir id

/-- Everything up to the first call. -/
def start [PemReader] [TlsLibrary] (m : DevMaterial) (env : Environment) :
    Startup CollaboratorProcess := do
  let plan ← Startup.loadPlan env
  let id ← identity env
  let config ← Startup.ofResult (plan.collaboratorConfig id)
  let transport ← Startup.ofTask (ClientTransport.fromSettings m plan.security)
  Startup.ofResult (transport.checkEndpoint plan.aggregator.address)
  let workDir ← Startup.ofTask (WorkDir.create (directory plan id))
  return ⟨.fresh config, transport, workDir, plan.train⟩

/-- The run of a collaborator that cannot be connected: it ends with its first call. -/
def runUnconnected (p : CollaboratorProcess) (e : ConnectError) : Machine :=
  p.machine.resume false
    (.view (.error (unconnected e
      (Client.limit p.machine.config.settings.rpcTimeoutMs .join))))

end CollaboratorProcess

end Federation
