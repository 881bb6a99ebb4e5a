/-
  The network as far as it shows: which addresses can be listened at, and whether anyone is reached.

  * `ListenAddress`: a host and a socket number, as the aggregator's address is read;
  * `ConnectError`: why no connection can be made;
  * `Network`: what a machine's network allows.
-/
import Federation.Wire.HostName
import Federation.Wire.Status

namespace Federation.Wire

/-! ## Listening -/

structure ListenAddress where
  host : String
  socket : Nat
  deriving DecidableEq, Repr

/-- A host and a socket number with the last colon between them. -/
def ListenAddress.parse (s : String) : Option ListenAddress :=
  match (splitAt ':' s.toList).reverse with
  | digits :: rest@(_ :: _) =>
    (parseUnsigned limit16 (String.ofList digits)).map fun n =>
      ⟨String.ofList (joinWith ':' rest.reverse), n⟩
  | _ => none

/-! ## Connecting -/

/-- Why no connection can be made. -/
inductive ConnectError where
  | refused
  | unreachable
  deriving DecidableEq, Repr

namespace ConnectError

def text : ConnectError → String
  | refused => "Connection refused (os error 111)"
  | unreachable => "Network is unreachable (os error 101)"

def status (e : ConnectError) : Status :=
  .plain .unavailable ("error trying to connect: tcp connect error: " ++ e.text)

end ConnectError

/-! ## Networks -/

structure Network where
  /-- Can this host be listened at? -/
  listens : String → Bool
  /-- Why nobody can be reached, if so. -/
  outage : Option ConnectError

/-- A network that is down.  An aggregator can still listen at any address that needs no set-up, and
waits in vain. -/
def Network.down : Network where
  listens host := isIPv4 host || host = "localhost" || host = "[::]"
  outage := some .unreachable

end Federation.Wire
