/-
  File operations as programs.

  What a part of the federation does to the disk is a value: a tree of requests, each continued by
  what comes of the answer.  The same program can then be run, cut off in the middle, or run on a
  disk on which any operation fails.

  * `Request`, `Program`: one operation, and a program of them;
  * `Fault`: how an operation fails, what it leaves behind included;
  * `Program.run`: the outcome, the disk afterwards and the faults that were not used up;
  * `Program.trees`: every state the disk goes through.
-/
import Federation.Disk.Tree

namespace Federation.Disk

inductive Request where
  | present (path : String)
  | isDirectory (path : String)
  | isRegular (path : String)
  | read (path : String)
  | makeDirectory (path : String) (mode : Nat)
  | changeMode (path : String) (mode : Nat)
  /-- Replace a file's content; the mode is for a file that is not there yet. -/
  | overwrite (path : String) (mode : Nat) (content : List UInt8)
  | remove (path : String)
  | rename (source target : String)
  deriving DecidableEq, Repr

/-- What a request is answered with. -/
abbrev Request.Reply : Request → Type
  | .present _ | .isDirectory _ | .isRegular _ => Bool
  | .read _ => List UInt8
  | _ => Unit

/-- A program that ends with an `α`. -/
inductive Program (α : Type) where
  | done (a : α)
  | ask (r : Request) (next : Except OsError r.Reply → Program α)

/-! ## Faults -/

/-- An operation that fails although the disk would allow it. -/
structure Fault where
  error : OsError
  /-- How much of a content reached the file before the failure; `none` when the file was not even
  opened. -/
  written : Option Nat
  deriving DecidableEq, Repr

/-- What the operations to come meet with, in order; past the end, nothing. -/
abbrev Faults := List (Option Fault)

namespace Request

/-- Carry out a request on a sound disk. -/
def perform : (r : Request) → Tree → Except OsError r.Reply × Tree
  | .present path, t => (.ok (t.exists? path), t)
  | .isDirectory path, t => (.ok (t.directory? path), t)
  | .isRegular path, t => (.ok (t.regular? path), t)
  | .read path, t => (t.read path, t)
  | .makeDirectory path mode, t => change (t.makeDirectory path mode) t
  | .changeMode path mode, t => change (t.changeMode path mode) t
  | .overwrite path mode content, t => change (t.overwrite path mode content) t
  | .remove path, t => change (t.remove path) t
  | .rename source target, t => change (t.rename source target) t
where
  /-- A refused change changes nothing. -/
  change (result : Except OsError Tree) (t : Tree) : Except OsError Unit × Tree :=
    match result with
    | .ok t => (.ok (), t)
    | .error e => (.error e, t)

/-- Fail at a request.  Only an interrupted write leaves something behind. -/
def fail (f : Fault) : (r : Request) → Tree → Except OsError r.Reply × Tree
  | .overwrite path mode content, t =>
    match f.written with
    | none => (.error f.error, t)
    | some n =>
      match t.overwrite path mode (content.take n) with
      | .ok t => (.error f.error, t)
      | .error e => (.error e, t)
  | .present _, t | .isDirectory _, t | .isRegular _, t | .read _, t | .makeDirectory _ _, t
  | .changeMode _ _, t | .remove _, t | .rename _ _, t => (.error f.error, t)

/-- Carry out a request, or fail at it when the next fault says so. -/
def meet (faults : Faults) (r : Request) (t : Tree) : Except OsError r.Reply × Tree :=
  match faults.head? with
  | some (some f) => r.fail f t
  | _ => r.perform t

end Request

/-! ## Programs -/

namespace Program

variable {α β : Type}

def bind : Program α → (α → Program β) → Program β
  | done a, f => f a
  | ask r next, f => ask r fun reply => (next reply).bind f

instance : Monad Program where
  pure := done
  bind := bind

/-- One request. -/
def request (r : Request) : Program (Except OsError r.Reply) := ask r done

/-- Run on a disk with the given faults ahead. -/
def run : Program α → Tree → Faults → α × Tree × Faults
  | done a, t, faults => (a, t, faults)
  | ask r next, t, faults =>
    let (reply, t) := r.meet faults t
    (next reply).run t faults.tail

/-- Run on a sound disk. -/
def runSound (p : Program α) (t : Tree) : α × Tree :=
  let (a, t, _) := p.run t []
  (a, t)

/-- Every state the disk goes through, the first one included. -/
def trees : Program α → Tree → Faults → List Tree
  | done _, t, _ => [t]
  | ask r next, t, faults =>
    let (reply, u) := r.meet faults t
    t :: (next reply).trees u faults.tail

end Program

/-! ## Making directories -/

/-- The directory a path lies in, if its text names one. -/
def parentPath (path : String) : Option String :=
  let named := namedSegments path.toList
  match named with
  | [] => none
  | _ =>
    if named = [[]] then none
    else
      let above := ((named.dropLast.reverse).dropWhile isIdle).reverse
      if above.isEmpty then some (if isAbsolute path.toList then "/" else "")
      else some (String.ofList (joinWith '/' above))

/-- Make a directory, and first those above it that are missing.  One that is there is fine. -/
def makeDirectories (mode : Nat) : Nat → String → Program (Except OsError Unit)
  | 0, _ => return .error .notFound
  | fuel + 1, path => do
    if path.isEmpty then return .ok ()
    else
      match ← Program.request (.makeDirectory path mode) with
      | .ok () => return .ok ()
      | .error .notFound =>
        match parentPath path with
        | none => return .error .notFound
        | some above =>
          match ← makeDirectories mode fuel above with
          | .error e => return .error e
          | .ok () => settle path (← Program.request (.makeDirectory path mode))
      | .error e => settle path (.error e)
where
  /-- A refusal does not count when the directory is there. -/
  settle (path : String) : Except OsError Unit → Program (Except OsError Unit)
    | .ok () => return .ok ()
    | .error e => do
      match ← Program.request (.isDirectory path) with
      | .ok true => return .ok ()
      | _ => return .error e

/-- Make a directory and all above it. -/
def makeAll (path : String) (mode : Nat) : Program (Except OsError Unit) :=
  makeDirectories mode (path.length + 1) path

end Federation.Disk
