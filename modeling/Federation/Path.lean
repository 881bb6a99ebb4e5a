/-
  Paths as text: segments between slashes, and what they mean.

  The functions work on lists of any symbols with a slash and a dot among them, so that the same
  definitions serve texts and raw bytes.

  * `components`: a path taken apart, empty segments and inner `.` dropped;
  * `joinPath`: a path below another one;
  * `fileName?`, `extension?`, `withExtension`: the last name and its ending.
-/
import Federation.Text.Utf8

namespace Federation

/-- The symbols paths are written with. -/
class PathSymbol (α : Type) [DecidableEq α] where
  slash : α
  dot : α

instance : PathSymbol Char := ⟨'/', '.'⟩
instance : PathSymbol UInt8 := ⟨47, 46⟩

section
variable {α : Type} [DecidableEq α] [PathSymbol α]

open PathSymbol (slash dot)

/-! ## Segments -/

/-- The pieces between separators, empty ones included; never none at all. -/
def splitAt (sep : α) : List α → List (List α)
  | [] => [[]]
  | c :: cs =>
    if c = sep then [] :: splitAt sep cs
    else
      match splitAt sep cs with
      | [] => [[c]]
      | s :: ss => (c :: s) :: ss

/-- Put pieces back together. -/
def joinWith (sep : α) : List (List α) → List α
  | [] => []
  | [s] => s
  | s :: ss => s ++ sep :: joinWith sep ss

def segments (p : List α) : List (List α) := splitAt slash p

/-! ## Components -/

inductive PathComponent (α : Type) where
  /-- The slash an absolute path begins with. -/
  | root
  /-- A leading `.` of a relative path. -/
  | current
  | parent
  | normal (name : List α)
  deriving DecidableEq, Repr

def componentOf (s : List α) : PathComponent α :=
  if s = [dot, dot] then .parent else .normal s

/-- Empty segments and `.` name nothing. -/
def isIdle (s : List α) : Bool := s.isEmpty || decide (s = [dot])

def isAbsolute (p : List α) : Bool := decide (p.head? = some slash)

/-- A path taken apart.  `.` counts only at the very front of a relative path. -/
def components (p : List α) : List (PathComponent α) :=
  let inner := ((segments p).filter (!isIdle ·)).map componentOf
  if isAbsolute p then .root :: inner
  else if (segments p).head? = some [dot] then .current :: inner
  else inner

/-! ## Putting paths together -/

/-- `p` seen from `base`; an absolute path stands for itself. -/
def joinSymbols (base p : List α) : List α :=
  if isAbsolute p then p
  else if base.isEmpty then p
  else if base.getLast? = some slash then base ++ p
  else base ++ slash :: p

/-! ## The last name -/

/-- The segments up to the last one that names something. -/
def namedSegments (p : List α) : List (List α) :=
  ((segments p).reverse.dropWhile isIdle).reverse

/-- The last component, when it is a name. -/
def fileName? (p : List α) : Option (List α) :=
  match (namedSegments p).getLast? with
  | some s => if s = [dot, dot] then none else some s
  | none => none

/-- A name before and after its last dot; a dot at the front does not count. -/
def splitExtension (name : List α) : List α × Option (List α) :=
  match name.reverse.span (· ≠ dot) with
  | (_, []) => (name, none)
  | (_, [_]) => (name, none)
  | (ending, _ :: stem) => (stem.reverse, some ending.reverse)

def extension? (p : List α) : Option (List α) := (fileName? p).bind fun n => (splitExtension n).2

/-- Replace the ending of the last name, or give it one; a path without a name stays as it is. -/
def withExtensionSymbols (p ending : List α) : List α :=
  match fileName? p with
  | none => p
  | some name =>
    joinWith slash ((namedSegments p).dropLast ++ [(splitExtension name).1]) ++ dot :: ending

end

/-! ## Paths that are texts -/

def joinPath (base name : String) : String :=
  String.ofList (joinSymbols base.toList name.toList)

def withExtension (p ending : String) : String :=
  String.ofList (withExtensionSymbols p.toList ending.toList)

/-- The names of a path's components, for a file system to walk. -/
def pathComponents (p : String) : List (PathComponent Char) := components p.toList

end Federation
