/-
  Starting the aggregator: the plan, the security material, the initial model, the sockets.
-/
import Federation.Aggregator.Service
import Federation.Startup
import Federation.Wire.Network

namespace Federation

open Wire

/-- An aggregator that is about to serve. -/
structure AggregatorProcess where
  service : FederationService Strategy
  transport : ServerTransport
  address : ListenAddress
  healthPort : Option Nat
  /-- After how many milliseconds the watchdog closes a round; there may be no watchdog. -/
  watchTimeout : Option Nat

namespace AggregatorProcess

/-- The model a plan starts from; the empty one when it names none. -/
def loadInitialModel (p : FederationPlan) : Startup Blob :=
  match p.initialModel with
  | none => return []
  | some path =>
    Startup.ofTask (FileTask.request (.read path) fun e =>
      .configuration ("cannot read initial model " ++ path ++ ": " ++ e.message))

/-- Rounds that wait for nobody need no watchdog. -/
def watchTimeoutOf (p : FederationPlan) : Option Nat :=
  if p.coordinationMode.isAsync then none
  else p.aggregator.roundTimeoutSecs.map (· * 1000)

/-- The address to listen at.  Socket zero is any that is free, all others can be had once. -/
def listen (net : Network) (p : FederationPlan) : Startup ListenAddress :=
  match ListenAddress.parse p.aggregator.address with
  | none => throw .socket
  | some a =>
    if net.listens a.host && (a.socket = 0 || p.healthPort ≠ some a.socket) then return a
    else throw .socket

/-- Everything up to the first call that is served. -/
def start [PemReader] [TlsLibrary] (net : Network) (m : DevMaterial) (env : Environment) :
    Startup AggregatorProcess := do
  let plan ← Startup.loadPlan env
  let transport ← Startup.ofTask (ServerTransport.fromSettings m plan.security)
  let model ← loadInitialModel plan
  let engine ← Startup.ofResult (plan.engine 0 model)
  let address ← listen net plan
  Startup.ofResult transport.accept
  return {
    service := .create engine plan.outputModel
    transport := transport
    address := address
    healthPort := plan.healthPort
    watchTimeout := watchTimeoutOf plan }

end AggregatorProcess

end Federation
