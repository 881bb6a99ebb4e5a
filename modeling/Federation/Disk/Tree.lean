/-
  Files and directories.

  * `OsError`: why the system refuses an operation, and how it says so;
  * `Tree`: what is on the disk, by location;
  * `Tree.resolve`: from a path to a location, one name at a time;
  * the operations on a tree, each of which happens at once or not at all.
-/
import Federation.Path

namespace Federation.Disk

/-! ## Refusals -/

inductive OsError where
  | notFound
  | permissionDenied
  | alreadyExists
  | notDirectory
  | isDirectory
  | noSpace
  | nameTooLong
  | notEmpty
  | badExecutable
  | inputOutput
  deriving DecidableEq, Repr

namespace OsError

def code : OsError → Nat
  | notFound => 2
  | inputOutput => 5
  | badExecutable => 8
  | permissionDenied => 13
  | alreadyExists => 17
  | notDirectory => 20
  | isDirectory => 21
  | noSpace => 28
  | nameTooLong => 36
  | notEmpty => 39

def text : OsError → String
  | notFound => "No such file or directory"
  | inputOutput => "Input/output error"
  | badExecutable => "Exec format error"
  | permissionDenied => "Permission denied"
  | alreadyExists => "File exists"
  | notDirectory => "Not a directory"
  | isDirectory => "Is a directory"
  | noSpace => "No space left on device"
  | nameTooLong => "File name too long"
  | notEmpty => "Directory not empty"

def message (e : OsError) : String := e.text ++ s!" (os error {e.code})"

end OsError

/-! ## Trees -/

/-- Names from the top of the disk down; the top itself is `[]`. -/
abbrev Location := List String

inductive Node where
  | file (content : List UInt8) (mode : Nat)
  | directory (mode : Nat)
  deriving DecidableEq, Repr

namespace Node

def mode : Node → Nat
  | file _ m => m
  | directory m => m

def withMode (m : Nat) : Node → Node
  | file content _ => file content m
  | directory _ => directory m

def isDirectory : Node → Bool
  | directory _ => true
  | file _ _ => false

end Node

structure Tree where
  /-- Every node below the top, at most once, and the top itself once its mode was changed. -/
  nodes : List (Location × Node)
  /-- Where relative paths begin. -/
  workplace : Location
  deriving DecidableEq, Repr

namespace Tree

/-- Group and others may not write what is made without saying so. -/
def userMask (mode : Nat) : Nat := mode - (mode &&& 0o022)

/-- A disk with nothing but an empty working directory. -/
def empty : Tree := ⟨[(["workplace"], .directory 0o755)], ["workplace"]⟩

/-- The mode of the top, which is there whatever else is. -/
def topMode (t : Tree) : Nat :=
  match t.nodes.lookup [] with
  | some (.directory m) => m
  | _ => 0o755

def node? (t : Tree) (l : Location) : Option Node :=
  if l.isEmpty then some (.directory t.topMode) else t.nodes.lookup l

def setNodes (l : Location) (n : Node) : List (Location × Node) → List (Location × Node)
  | [] => [(l, n)]
  | e :: es => if e.1 = l then (l, n) :: es else e :: setNodes l n es

/-- Put a node at a location, in place of the one that is there. -/
def set (t : Tree) (l : Location) (n : Node) : Tree := { t with nodes := setNodes l n t.nodes }

/-- Take away the node of a location. -/
def erase (t : Tree) (l : Location) : Tree := { t with nodes := t.nodes.filter (·.1 ≠ l) }

/-- Take away a location with everything below it. -/
def eraseBelow (t : Tree) (l : Location) : Tree :=
  { t with nodes := t.nodes.filter fun e => !l.isPrefixOf e.1 }

/-- What lies directly in a directory. -/
def children (t : Tree) (l : Location) : List (String × Node) :=
  t.nodes.filterMap fun e =>
    match e.1.reverse with
    | name :: parent => if parent.reverse = l then some (name, e.2) else none
    | [] => none

/-! ## Paths -/

/-- The longest name a directory may hold, in bytes. -/
def maxNameLength : Nat := 255

/-- One name further down, out of what must be a directory. -/
def step (t : Tree) (l : Location) (name : List Char) : Except OsError Location :=
  match t.node? l with
  | none => .error .notFound
  | some (.file _ _) => .error .notDirectory
  | some (.directory _) =>
    if isIdle name then .ok l
    else if name = ['.', '.'] then .ok l.dropLast
    else
      let name := String.ofList name
      if maxNameLength < utf8Length name then .error .nameTooLong else .ok (l ++ [name])

def walk (t : Tree) (l : Location) (names : List (List Char)) : Except OsError Location :=
  names.foldlM t.step l

/-- The location a path leads to.  Everything but the last name has to be there. -/
def resolve (t : Tree) (path : String) : Except OsError Location :=
  if path.isEmpty then .error .notFound
  else
    let cs := path.toList
    if isAbsolute cs then t.walk [] (segments cs).tail else t.walk t.workplace (segments cs)

/-- The node at the end of a path. -/
def find (t : Tree) (path : String) : Except OsError (Location × Node) := do
  let l ← t.resolve path
  match t.node? l with
  | some n => .ok (l, n)
  | none => .error .notFound

/-! ## Operations -/

def exists? (t : Tree) (path : String) : Bool := (t.find path).toOption.isSome

def directory? (t : Tree) (path : String) : Bool :=
  match t.find path with
  | .ok (_, n) => n.isDirectory
  | .error _ => false

def regular? (t : Tree) (path : String) : Bool :=
  match t.find path with
  | .ok (_, n) => !n.isDirectory
  | .error _ => false

def read (t : Tree) (path : String) : Except OsError (List UInt8) := do
  let (_, n) ← t.find path
  match n with
  | .file content _ => .ok content
  | .directory _ => .error .isDirectory

/-- Slashes at the end of a path say nothing when a directory is made. -/
def withoutSlashes (path : String) : String :=
  let cs := (path.toList.reverse.dropWhile (· = '/')).reverse
  if cs.isEmpty then path else String.ofList cs

def makeDirectory (t : Tree) (path : String) (mode : Nat) : Except OsError Tree := do
  let l ← t.resolve (withoutSlashes path)
  match t.node? l with
  | some _ => .error .alreadyExists
  | none => .ok (t.set l (.directory (userMask mode)))

def changeMode (t : Tree) (path : String) (mode : Nat) : Except OsError Tree := do
  let (l, n) ← t.find path
  return t.set l (n.withMode mode)

/-- Replace the content of a file, which is made with the given mode when it is not there. -/
def overwrite (t : Tree) (path : String) (mode : Nat) (content : List UInt8) :
    Except OsError Tree := do
  let l ← t.resolve path
  match t.node? l with
  | some (.directory _) => .error .isDirectory
  | some (.file _ m) => .ok (t.set l (.file content m))
  | none => .ok (t.set l (.file content (userMask mode)))

def remove (t : Tree) (path : String) : Except OsError Tree := do
  let (l, n) ← t.find path
  if n.isDirectory then .error .isDirectory else return t.erase l

/-- Move a file, over another one if there is one.  Directories stay where they are. -/
def rename (t : Tree) (source target : String) : Except OsError Tree := do
  let (a, n) ← t.find source
  let b ← t.resolve target
  if n.isDirectory then .error .isDirectory
  else if ((t.node? b).map Node.isDirectory).getD false then .error .isDirectory
  else if a = b then return t
  else return (t.erase a).set b n

/-! ## Setting the scene -/

/-- Make every directory on the way. -/
def makeParents (t : Tree) (base : Location) : List String → Tree
  | [] => t
  | name :: rest =>
    let l := base ++ [name]
    let t := if (t.node? l).isSome then t else t.set l (.directory 0o755)
    makeParents t l rest

/-- Names of a plain relative path. -/
def namesOf (path : String) : List String :=
  ((segments path.toList).filter (!isIdle ·)).map String.ofList

/-- Put a file or a directory where a path below the working directory says, parents included.  A
file keeps the mode it has unless another one is given. -/
def plant (t : Tree) (path : String) (content : Option (List UInt8)) (mode : Option Nat) : Tree :=
  let names := namesOf path
  let t := t.makeParents t.workplace names.dropLast
  let l := t.workplace ++ names
  let old := (t.node? l).map Node.mode
  match content with
  | some bytes => t.set l (.file bytes (mode.getD (old.getD 0o644)))
  | none => t.set l (.directory (mode.getD (old.getD 0o755)))

/-- Take away whatever is at a path below the working directory. -/
def uproot (t : Tree) (path : String) : Tree := t.eraseBelow (t.workplace ++ namesOf path)

end Tree

end Federation.Disk
