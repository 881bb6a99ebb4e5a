/-
  The command line: `aggregator` or `collaborator`.

  A process is started on the real disk with the real environment.  Its first failure is printed,
  and so is the end of its run; a machine without a network is all that is ever assumed.
-/
import Federation.Aggregator.Startup
import Federation.Collaborator.Startup

namespace Federation.CommandLine

open Disk (OsError Program)

/-! ## The real disk -/

def osErrorOf : IO.Error → OsError
  | .noFileOrDirectory .. => .notFound
  | .permissionDenied .. => .permissionDenied
  | .alreadyExists .. => .alreadyExists
  | .inappropriateType .. => .isDirectory
  | .resourceExhausted .. => .noSpace
  | _ => .inputOutput

def attempt {α : Type} (action : IO α) : IO (Except OsError α) := do
  match ← action.toBaseIO with
  | .ok a => return .ok a
  | .error e => return .error (osErrorOf e)

def succeeds {α : Type} (action : IO α) : IO Bool := return (← attempt action).toOption.isSome

def accessRight (bits : Nat) : IO.AccessRight where
  read := bits &&& 4 ≠ 0
  write := bits &&& 2 ≠ 0
  execution := bits &&& 1 ≠ 0

def fileRight (mode : Nat) : IO.FileRight where
  user := accessRight (mode / 64)
  group := accessRight (mode / 8)
  other := accessRight mode

def isThere (path : String) : IO Bool := succeeds (IO.FS.realPath path)

def isDirectory (path : String) : IO Bool := succeeds (IO.FS.realPath (path ++ "/."))

/-- Make what a new file or directory needs, then give it the mode it is made with. -/
def withNewMode (path : String) (mode : Nat) (action : IO Unit) : IO Unit := do
  action
  IO.setAccessRights path (fileRight (Disk.Tree.userMask mode))

def overwriteFile (path : String) (mode : Nat) (content : List UInt8) : IO Unit := do
  let bytes := ByteArray.mk content.toArray
  if ← isThere path then IO.FS.writeBinFile path bytes
  else
    withNewMode path mode (IO.FS.writeBinFile path .empty)
    IO.FS.writeBinFile path bytes

def carryOut : (r : Disk.Request) → IO (Except OsError r.Reply)
  | .present path => return .ok (← isThere path)
  | .isDirectory path => return .ok (← isDirectory path)
  | .isRegular path => return .ok ((← isThere path) && !(← isDirectory path))
  | .read path => attempt (return (← IO.FS.readBinFile path).toList)
  | .makeDirectory path mode => attempt (withNewMode path mode (IO.FS.createDir path))
  | .changeMode path mode => attempt (IO.setAccessRights path (fileRight mode))
  | .overwrite path mode content => attempt (overwriteFile path mode content)
  | .remove path => attempt (IO.FS.removeFile path)
  | .rename source target => attempt (IO.FS.rename source target)

def carryOutAll {α : Type} : Program α → IO α
  | .done a => return a
  | .ask r next => do carryOutAll (next (← carryOut r))

/-! ## The real environment -/

/-- Where the system shows the environment of a process. -/
def environmentFile : String := "/proc/self/environ"

/-- A name and a value with the first equals sign between them. -/
def variableOf (entry : List UInt8) : Option (String × String) :=
  let (name, rest) := entry.span (· ≠ 61)
  match utf8Decode name, utf8Decode (rest.drop 1) with
  | some name, some value => if name.isEmpty then none else some (name, value)
  | _, _ => none

def readEnvironment : IO Environment := do
  match ← attempt (IO.FS.readBinFile environmentFile) with
  | .error _ => return []
  | .ok bytes => return (splitAt 0 bytes.toList).filterMap variableOf

/-! ## Commands -/

def report (failure : String) : IO UInt32 := do
  IO.eprintln ("Error: " ++ failure)
  return 1

def runAggregator (env : Environment) : IO UInt32 := do
  match ← carryOutAll (AggregatorProcess.start .down .blank env).run with
  | .error e => report e.message
  | .ok p =>
    IO.println ("listening at " ++ p.address.host ++ ":" ++ toString p.address.socket)
    return 0

def runCollaborator (env : Environment) : IO UInt32 := do
  match ← carryOutAll (CollaboratorProcess.start .blank env).run with
  | .error e => report e.message
  | .ok p =>
    match (p.runUnconnected .unreachable).result? with
    | some (.error e) => report e.message
    | _ => return 0

end Federation.CommandLine

/-- Start the process that is asked for. -/
def main (args : List String) : IO UInt32 := do
  let env ← Federation.CommandLine.readEnvironment
  match args with
  | ["aggregator"] => Federation.CommandLine.runAggregator env
  | ["collaborator"] => Federation.CommandLine.runCollaborator env
  | _ => Federation.CommandLine.report "expected one of: aggregator, collaborator"
