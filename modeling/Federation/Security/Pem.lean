/-
  PEM files, as far as they are looked into.

  * `PemSection`: one section with its label and its decoded body;
  * `PemReader`: a library that reads a file section by section;
  * `readSections`, `findKey`: the reader applied again and again;
  * `pemCertificates`, `pemPrivateKey`: what a file is searched for.

  The library is no part of the federation.  Everything here takes it as it comes, and relies on
  nothing but that a section takes up some of its file.
-/
namespace Federation

/-! ## Sections -/

structure PemSection where
  label : List UInt8
  body : List UInt8
  deriving DecidableEq, Repr

namespace PemSection

/-- The bytes of a text of ASCII characters. -/
def bytesOf (s : String) : List UInt8 := s.toList.map fun c => UInt8.ofNat c.toNat

def isCertificate (s : PemSection) : Bool := s.label = bytesOf "CERTIFICATE"

/-- A key in one of the three formats that keys are written in. -/
def isPrivateKey (s : PemSection) : Bool :=
  [bytesOf "PRIVATE KEY", bytesOf "RSA PRIVATE KEY", bytesOf "EC PRIVATE KEY"].contains s.label

end PemSection

/-! ## Readers -/

/-- A library that reads PEM files. -/
class PemReader where
  /-- The next section of a file with what comes after it; nothing when no section is left; or why
  what comes next is not a section. -/
  next : List UInt8 → Except String (Option (PemSection × List UInt8))
  /-- A section takes up some of the file, and what is left is what comes after that. -/
  remainder : ∀ {file s rest}, next file = .ok (some (s, rest)) →
    ∃ taken, taken ≠ [] ∧ taken ++ rest = file

section
variable [PemReader]

/-- Every section, in order; the first that is broken is reported. -/
def readSections : Nat → List UInt8 → Except String (List PemSection)
  | 0, _ => .ok []
  | fuel + 1, file =>
    match PemReader.next file with
    | .error e => .error e
    | .ok none => .ok []
    | .ok (some (s, rest)) => (readSections fuel rest).map (s :: ·)

/-- The first private key; what is broken before it is reported. -/
def findKey : Nat → List UInt8 → Except String (Option PemSection)
  | 0, _ => .ok none
  | fuel + 1, file =>
    match PemReader.next file with
    | .error e => .error e
    | .ok none => .ok none
    | .ok (some (s, rest)) => if s.isPrivateKey then .ok (some s) else findKey fuel rest

/-- The certificates of a file, all of whose sections must be well formed. -/
def pemCertificates (file : List UInt8) : Except String (List PemSection) :=
  (readSections (file.length + 1) file).map (·.filter PemSection.isCertificate)

/-- The first private key of a file, whose sections must be well formed up to there. -/
def pemPrivateKey (file : List UInt8) : Except String (Option PemSection) :=
  findKey (file.length + 1) file

end

end Federation
