/-
  Identities of collaborators.

  An identity names a working directory, so its alphabet leaves no way to write a path.
-/
import Federation.Error
import Federation.Text.Utf8

namespace Federation

def maxIdentityLength : Nat := 128

def isAsciiAlphanumeric (c : Char) : Bool :=
  (decide ('a' ≤ c) && decide (c ≤ 'z')) || (decide ('A' ≤ c) && decide (c ≤ 'Z')) ||
    (decide ('0' ≤ c) && decide (c ≤ '9'))

def isIdentityChar (c : Char) : Bool :=
  isAsciiAlphanumeric c || c = '.' || c = '_' || c = '-'

/-- One to 128 bytes of letters, digits, `.`, `_` and `-`, not dots alone. -/
def validateIdentity (id : String) : Except FederationError Unit :=
  if id.isEmpty || decide (maxIdentityLength < utf8Length id) then
    .error (.invalidArgument s!"collaborator identity must be 1-{maxIdentityLength} bytes")
  else if !id.toList.all isIdentityChar then
    .error (.invalidArgument ("collaborator identity `" ++ id ++ "` contains forbidden characters"))
  else if id.toList.all (· = '.') then
    .error (.invalidArgument ("collaborator identity `" ++ id ++ "` is reserved"))
  else .ok ()

end Federation
