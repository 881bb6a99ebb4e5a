/-
  How the two ends of the link are secured.

  * `ServerTransport`, `ClientTransport`: plain, or TLS with the material it needs;
  * `fromSettings`: from the settings and the files they name; nothing is ever downgraded silently;
  * `ClientTransport.endpointUri`: the address that is dialled;
  * `TlsLibrary`: the library that secures connections; `accept`: whether it takes the material.
-/
import Federation.Security.Certificates

namespace Federation

inductive ServerTransport where
  | plain
  /-- The aggregator's identity, and the authority of client certificates when those are asked
  for. -/
  | tls (identity : TlsIdentity) (clientAuthority : Option (List UInt8))
  deriving DecidableEq, Repr

inductive ClientTransport where
  | plain
  | tls (authority : List UInt8) (serverName : String) (identity : Option TlsIdentity)
  deriving DecidableEq, Repr

/-- Plain transport must be asked for. -/
def TlsSettings.checkPlaintextAllowed (t : TlsSettings) : Except FederationError Unit :=
  if t.allowInsecure then .ok ()
  else .error (.configuration "security.tls.enabled is false but allow_insecure is not set")

namespace ServerTransport

def fromSettings [PemReader] (m : DevMaterial) (s : SecuritySettings) :
    FileTask ServerTransport := do
  if s.tls.enabled then
    s.tls.ensureMaterial m
    let identity ← loadIdentity s.tls.serverCertFile s.tls.serverKeyFile
    if s.tls.mutualAuth then
      let authority ← loadAuthority s.tls.caFile
      return .tls identity (some authority)
    else return .tls identity none
  else
    ExceptT.mk (return s.tls.checkPlaintextAllowed)
    return .plain

def isTls : ServerTransport → Bool
  | plain => false
  | tls _ _ => true

end ServerTransport

namespace ClientTransport

def fromSettings [PemReader] (m : DevMaterial) (s : SecuritySettings) :
    FileTask ClientTransport := do
  if s.tls.enabled then
    s.tls.ensureMaterial m
    let authority ← loadAuthority s.tls.caFile
    if s.tls.mutualAuth then
      let identity ← loadIdentity s.tls.clientCertFile s.tls.clientKeyFile
      return .tls authority s.tls.serverName (some identity)
    else return .tls authority s.tls.serverName none
  else
    ExceptT.mk (return s.tls.checkPlaintextAllowed)
    return .plain

def isTls : ClientTransport → Bool
  | plain => false
  | tls _ _ _ => true

def scheme : ClientTransport → String
  | plain => "http://"
  | tls _ _ _ => "https://"

def hasScheme (address : String) : Bool :=
  "http://".toList.isPrefixOf address.toList || "https://".toList.isPrefixOf address.toList

/-- The URI to dial; a scheme that is already there is kept. -/
def endpointUri (t : ClientTransport) (address : String) : String :=
  if hasScheme address then address else t.scheme ++ address

end ClientTransport

/-! ## Handing over to the TLS library -/

/-- The library that secures connections.  It is no part of the federation, and nothing is relied
on in what it takes. -/
class TlsLibrary where
  /-- The identity of a server, and the authority of its clients if they need one. -/
  acceptServer : TlsIdentity → Option (List UInt8) → Except String Unit
  /-- The authority and the name of the server, and the identity of a client if it needs one. -/
  acceptClient : List UInt8 → String → Option TlsIdentity → Except String Unit

section
variable [TlsLibrary]

/-- Hand the material to the server side of the TLS library. -/
def ServerTransport.accept : ServerTransport → Except FederationError Unit
  | plain => .ok ()
  | tls identity authority =>
    (TlsLibrary.acceptServer identity authority).mapError fun e =>
      .configuration ("server tls: " ++ e)

/-- Hand the material to the client side of the TLS library. -/
def ClientTransport.accept : ClientTransport → Except FederationError Unit
  | plain => .ok ()
  | tls authority serverName identity =>
    (TlsLibrary.acceptClient authority serverName identity).mapError fun e =>
      .configuration ("client tls: " ++ e)

end

end Federation
