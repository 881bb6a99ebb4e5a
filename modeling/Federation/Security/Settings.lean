/-
  Settings of the link's transport security.
-/
import Federation.Path

namespace Federation

structure TlsSettings where
  enabled : Bool
  certDir : String
  caPath : Option String
  certPath : Option String
  keyPath : Option String
  clientCertPath : Option String
  clientKeyPath : Option String
  serverName : String
  /-- Both ends present certificates, not the aggregator alone. -/
  mutualAuth : Bool
  /-- Must be set to run with `enabled := false`. -/
  allowInsecure : Bool
  /-- For development: make a CA and both pairs when the CA file is absent. -/
  autoGenerateCert : Bool
  deriving DecidableEq, Repr

structure SecuritySettings where
  tls : TlsSettings
  deriving DecidableEq, Repr

namespace TlsSettings

def default : TlsSettings where
  enabled := true
  certDir := "certs"
  caPath := none
  certPath := none
  keyPath := none
  clientCertPath := none
  clientKeyPath := none
  serverName := "localhost"
  mutualAuth := true
  allowInsecure := false
  autoGenerateCert := false

/-! An explicit path stands for itself; otherwise the file has its usual name in `certDir`. -/

def caFile (t : TlsSettings) : String := t.caPath.getD (joinPath t.certDir "ca.crt")
def serverCertFile (t : TlsSettings) : String := t.certPath.getD (joinPath t.certDir "server.crt")
def serverKeyFile (t : TlsSettings) : String := t.keyPath.getD (joinPath t.certDir "server.key")
def clientCertFile (t : TlsSettings) : String :=
  t.clientCertPath.getD (joinPath t.certDir "client.crt")
def clientKeyFile (t : TlsSettings) : String :=
  t.clientKeyPath.getD (joinPath t.certDir "client.key")

end TlsSettings

def SecuritySettings.default : SecuritySettings := ⟨TlsSettings.default⟩

end Federation
