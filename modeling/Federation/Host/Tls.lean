/-
  The material that a TLS library takes.

  * `acceptsIdentity`, `acceptsAuthority`: certificates and keys;
  * `isServerName`: the name or the number of a server;
  * `tlsLibrary`: a library that takes these.

  This takes the place of the library that the federation is linked with, so that a start can be
  run.  A real one looks into the structures of which only the first byte is looked at here; no
  theorem speaks of what is taken.
-/
import Federation.Host.Pem
import Federation.Security.Transport
import Federation.Wire.HostName

namespace Federation.Host

/-- Structures in DER begin with the tag of a sequence. -/
def isDer (body : List UInt8) : Bool := body.head? = some 0x30

def acceptsAuthority (pem : List UInt8) : Bool :=
  ((pemCertificates pem).toOption.getD []).all fun s => isDer s.body

def acceptsIdentity (i : TlsIdentity) : Bool :=
  acceptsAuthority i.certificate &&
    match pemPrivateKey i.key with
    | .ok (some s) => isDer s.body
    | _ => false

/-- The name or the number of a server. -/
def isServerName (s : String) : Bool := isHostName s || isIPv4 s || isIPv6 s

instance tlsLibrary : TlsLibrary where
  acceptServer identity authority :=
    if acceptsIdentity identity && (authority.map acceptsAuthority).getD true then .ok ()
    else .error "material that cannot be used"
  acceptClient authority serverName identity :=
    if acceptsAuthority authority && isServerName serverName &&
        (identity.map acceptsIdentity).getD true then .ok ()
    else .error "material that cannot be used"

end Federation.Host
