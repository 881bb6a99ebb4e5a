/-
  Certificate files for development: making them, and checking the ones that are there.
-/
import Federation.Disk.Program
import Federation.Error
import Federation.Security.Pem
import Federation.Security.Settings

namespace Federation

open Disk (Program OsError)

/-- A certificate with its key, as they stand in their files. -/
structure TlsIdentity where
  certificate : List UInt8
  key : List UInt8
  deriving DecidableEq, Repr

/-- What a generator of certificates has made for a development set-up, or why it could not. -/
structure DevMaterial where
  caCert : Except String (List UInt8)
  server : Except String TlsIdentity
  client : Except String TlsIdentity

namespace DevMaterial

/-- A section whose body is an empty sequence. -/
def emptySection (label : String) : List UInt8 :=
  utf8Encode ("-----BEGIN " ++ label ++ "-----\nMAA=\n-----END " ++ label ++ "-----\n")

def emptyIdentity : TlsIdentity := ⟨emptySection "CERTIFICATE", emptySection "PRIVATE KEY"⟩

/-- Files that are well formed and say nothing.  No keys are made here: whoever has a generator of
certificates passes on what it made. -/
def blank : DevMaterial := ⟨.ok (emptySection "CERTIFICATE"), .ok emptyIdentity, .ok emptyIdentity⟩

end DevMaterial

/-- A file program that may end in an error of the federation. -/
abbrev FileTask (α : Type) := ExceptT FederationError Program α

namespace FileTask

/-- One request, its refusal turned into an error. -/
def request (r : Disk.Request) (describe : OsError → FederationError) : FileTask r.Reply :=
  ExceptT.mk do
    match ← Program.request r with
    | .ok reply => return .ok reply
    | .error e => return .error (describe e)

end FileTask

/-- A refusal at a path, where certificate files are written. -/
def certificateWriteError (path : String) (e : OsError) : FederationError :=
  .configuration (path ++ ": " ++ e.message)

/-- Certificates are for everyone to read, keys for their owner alone. -/
def certificateMode : Nat := 0o644
def keyMode : Nat := 0o600
def privateDirectoryMode : Nat := 0o700

def makePrivateDirectory (path : String) : FileTask Unit :=
  ExceptT.mk do
    match ← Disk.makeAll path privateDirectoryMode with
    | .ok () => return .ok ()
    | .error e => return .error (certificateWriteError path e)

/-- What the generator made. -/
def generated {α : Type} (made : Except String α) : FileTask α :=
  ExceptT.mk (return made.mapError fun e => .configuration ("certificate generation failed: " ++ e))

def writeCertificateFile (path : String) (mode : Nat) (content : List UInt8) : FileTask Unit :=
  FileTask.request (.overwrite path mode content) (certificateWriteError path)

/-- Write a full set of files into a directory, which is made when it is not there.  What was written
before something could not be made is left there. -/
def writeDevMaterial (m : DevMaterial) (dir : String) : FileTask Unit := do
  makePrivateDirectory dir
  let caCert ← generated m.caCert
  writeCertificateFile (joinPath dir "ca.crt") certificateMode caCert
  let server ← generated m.server
  writeCertificateFile (joinPath dir "server.crt") certificateMode server.certificate
  writeCertificateFile (joinPath dir "server.key") keyMode server.key
  let client ← generated m.client
  writeCertificateFile (joinPath dir "client.crt") certificateMode client.certificate
  writeCertificateFile (joinPath dir "client.key") keyMode client.key

/-- Make the files if that is asked for and the CA file is not there. -/
def TlsSettings.ensureMaterial (t : TlsSettings) (m : DevMaterial) : FileTask Unit := do
  if t.autoGenerateCert then
    let here ← ExceptT.lift (Program.request (.present t.caFile))
    if here.toOption.getD false then return ()
    else writeDevMaterial m t.certDir

/-! ## Reading -/

/-- Read a file; `what` names it in the error. -/
def readPem (path what : String) : FileTask (List UInt8) :=
  FileTask.request (.read path) fun e =>
    .configuration ("cannot read " ++ what ++ " " ++ path ++ ": " ++ e.message)

section
variable [PemReader]

def checkCertificates (path : String) (pem : List UInt8) : Except FederationError Unit :=
  match pemCertificates pem with
  | .error e => .error (.configuration ("invalid certificate " ++ path ++ ": " ++ e))
  | .ok [] => .error (.configuration ("no certificate found in " ++ path))
  | .ok _ => .ok ()

def checkPrivateKey (path : String) (pem : List UInt8) : Except FederationError Unit :=
  match pemPrivateKey pem with
  | .error e => .error (.configuration ("invalid private key " ++ path ++ ": " ++ e))
  | .ok none => .error (.configuration ("no private key found in " ++ path))
  | .ok (some _) => .ok ()

def loadAuthority (path : String) : FileTask (List UInt8) := do
  let pem ← readPem path "CA certificate"
  ExceptT.mk (return checkCertificates path pem)
  return pem

def loadIdentity (certPath keyPath : String) : FileTask TlsIdentity := do
  let certificate ← readPem certPath "certificate"
  ExceptT.mk (return checkCertificates certPath certificate)
  let key ← readPem keyPath "private key"
  ExceptT.mk (return checkPrivateKey keyPath key)
  return ⟨certificate, key⟩

end

end Federation
