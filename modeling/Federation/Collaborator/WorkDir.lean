/-
  A collaborator's private working directory.

  It holds `model.bin`, the trainer's input, and `update.bin`, its output.  The directory is for its
  owner alone, and so are the two files once they have been written or read here.
-/
import Federation.Disk.Program
import Federation.Error
import Federation.Model

namespace Federation

open Disk (Program OsError)

structure WorkDir where
  root : String
  deriving DecidableEq, Repr

namespace WorkDir

/-- What comes of a step in the working directory. -/
abbrev Step (α : Type) := ExceptT FederationError Program α

def failure (path : String) (e : OsError) : FederationError :=
  .trainingFailure (path ++ ": " ++ e.message)

/-- One request at a path. -/
def request (path : String) (r : Disk.Request) : Step r.Reply :=
  ExceptT.mk do
    match ← Program.request r with
    | .ok reply => return .ok reply
    | .error e => return .error (failure path e)

def directoryMode : Nat := 0o700
def fileMode : Nat := 0o600

def modelPath (w : WorkDir) : String := joinPath w.root "model.bin"
def updatePath (w : WorkDir) : String := joinPath w.root "update.bin"

/-- Make the directory with all above it, and close it to others. -/
def create (root : String) : Step WorkDir := do
  ExceptT.mk do
    match ← Disk.makeAll root 0o777 with
    | .ok () => return .ok ()
    | .error e => return .error (failure root e)
  request root (.changeMode root directoryMode)
  return ⟨root⟩

/-- Write the trainer's input.  A file that is there is closed to others before its content is
replaced. -/
def writeModel (w : WorkDir) (model : Blob) : Step Unit := do
  let path := w.modelPath
  let here ← ExceptT.lift (Program.request (.present path))
  if here.toOption.getD false then request path (.changeMode path fileMode)
  request path (.overwrite path fileMode model)

/-- Take away any earlier output, so that a trainer that writes nothing is noticed. -/
def clearUpdate (w : WorkDir) : Step Unit :=
  ExceptT.mk do
    match ← Program.request (.remove w.updatePath) with
    | .ok () => return .ok ()
    | .error .notFound => return .ok ()
    | .error e => return .error (failure w.updatePath e)

/-- Close the trainer's output to others and read it. -/
def readUpdate (w : WorkDir) : Step Blob := do
  let path := w.updatePath
  request path (.changeMode path fileMode)
  request path (.read path)

end WorkDir

end Federation
