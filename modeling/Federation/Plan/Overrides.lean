/-
  Settings laid over one another.

  A source gives its top-level settings under path expressions such as `aggregator.address` or
  `collaborators[0]`.  Laying one over a tree replaces scalars and lists, merges tables key by key,
  and makes room for the path where the tree has none.

  * `SettingPath.ofKey`: reading a path expression;
  * `Setting.assign`: one value over a tree, table merge included;
  * `Setting.overlay`: one source over a tree;
  * `environmentOverrides`: the source that the process environment is.
-/
import Federation.Plan.Setting

namespace Federation

/-! ## Paths -/

inductive SettingStep where
  | key (name : String)
  /-- An item of a list; negative numbers count from past its end. -/
  | item (index : Int)
  deriving DecidableEq, Repr

/-- Steps from the root, the last one apart. -/
structure SettingPath where
  init : List SettingStep
  last : SettingStep
  deriving DecidableEq, Repr

namespace SettingPath

def isNameChar (c : Char) : Bool := isAsciiAlphanumeric c || c = ' ' || c = '_' || c = '-'

/-- A whole number with an optional sign and spaces around it. -/
def indexOf (cs : List Char) : Option Int :=
  let isPad := fun (c : Char) => c = ' ' || c = '\t'
  let inner := ((cs.dropWhile isPad).reverse.dropWhile isPad).reverse
  parseSigned 10 (String.ofList inner)

/-- The steps after the first name. -/
def readSteps : Nat → List Char → Option (List SettingStep)
  | _, [] => some []
  | 0, _ => none
  | fuel + 1, '.' :: cs =>
    let (name, rest) := cs.span isNameChar
    if name.isEmpty then none
    else (readSteps fuel rest).map (.key (String.ofList name) :: ·)
  | fuel + 1, '[' :: cs =>
    match cs.span (· ≠ ']') with
    | (digits, _ :: rest) => do
      let i ← indexOf digits
      let steps ← readSteps fuel rest
      return .item i :: steps
    | _ => none
  | _, _ => none

def splitLast : SettingStep → List SettingStep → SettingPath
  | s, [] => ⟨[], s⟩
  | s, t :: ts =>
    let p := splitLast t ts
    ⟨s :: p.init, p.last⟩

/-- A key as a path expression; one that is none names a single entry. -/
def ofKey (key : String) : SettingPath :=
  let (name, rest) := key.toList.span isNameChar
  match if name.isEmpty then none else readSteps rest.length rest with
  | some steps => splitLast (.key (String.ofList name)) steps
  | none => ⟨[], .key key⟩

end SettingPath

/-! ## Changing a tree -/

namespace Setting

/-- The entries of a table; anything else gives way to an empty one. -/
def entries : Setting → List (String × Setting)
  | table fields => fields
  | _ => []

/-- The items of a list; anything else gives way to an empty one. -/
def listItems : Setting → List Setting
  | list items => items
  | _ => []

/-- Change the entry of a name, which is added at the end when there is none. -/
def alterEntry (name : String) (f : Option Setting → Setting) :
    List (String × Setting) → List (String × Setting)
  | [] => [(name, f none)]
  | (k, s) :: rest => if k = name then (k, f (some s)) :: rest else (k, s) :: alterEntry name f rest

/-- Where an index points in a list of this length. -/
def position (index : Int) (length : Nat) : Nat :=
  if 0 ≤ index then index.toNat else length - index.natAbs

/-- Change the item at an index; the list grows as far as needed. -/
def alterItem (index : Int) (f : Setting → Setting) (items : List Setting) : List Setting :=
  let i := position index items.length
  let items := items ++ List.replicate (i + 1 - items.length) nil
  items.modify i f

/-- Change what a step leads to, making room for it. -/
def alterStep (f : Setting → Setting) : SettingStep → Setting → Setting
  | .key name, s => table (alterEntry name (fun t => f (t.getD nil)) s.entries)
  | .item i, s => list (alterItem i f s.listItems)

/-- Change what a path leads to, making room for it. -/
def alterAt (f : Setting → Setting) : List SettingStep → Setting → Setting
  | [], s => f s
  | step :: steps, s => alterStep (alterAt f steps) step s

/-- The name under which a value is stored: an existing entry keeps its spelling, and new ones are
lower case. -/
def storedName (name : String) (s : Setting) : String :=
  if s.entries.any (·.1 = name) then name else toLowercase name

mutual
/-- Lay a value over the entry of a name; a table is merged into the one that is there. -/
def assign (name : String) : Setting → Setting → Setting
  | table incoming, s =>
    table (alterEntry (toLowercase name) (fun t => mergeAll incoming (t.getD (table []))) s.entries)
  | value, s => table (alterEntry (storedName name s) (fun _ => value) s.entries)

def mergeAll : List (String × Setting) → Setting → Setting
  | [], s => s
  | (name, value) :: rest, s => mergeAll rest (assign name value s)
end

/-- Lay a value over what a path leads to. -/
def assignAt (value : Setting) (path : SettingPath) (s : Setting) : Setting :=
  match path.last with
  | .key name => alterAt (assign name value) path.init s
  | .item i => alterAt (alterStep (fun _ => value) (.item i)) path.init s

/-- Lay a whole source over a tree. -/
def overlay (source : List (String × Setting)) (s : Setting) : Setting :=
  source.foldl (fun s e => assignAt e.2 (SettingPath.ofKey e.1) s) s

/-- The tree that a single source makes. -/
def ofSource (source : List (String × Setting)) : Setting := overlay source (table [])

end Setting

/-! ## The environment -/

def environmentPrefix : String := "fedlink__"

/-- Each pair of underscores separates two levels. -/
def dotted : List Char → List Char
  | '_' :: '_' :: cs => '.' :: dotted cs
  | c :: cs => c :: dotted cs
  | [] => []

/-- A variable as a setting, when it is one of ours. -/
def environmentSetting (v : String × String) : Option (String × Setting) :=
  let name := (toLowercase v.1).toList
  let start := environmentPrefix.toList
  if start.isPrefixOf name then
    some (String.ofList (dotted (name.drop start.length)), .text v.2)
  else none

def environmentOverrides (env : List (String × String)) : List (String × Setting) :=
  env.filterMap environmentSetting

end Federation
