/-
  Untyped settings, and the two ways of giving them types.

  * `Setting`: a tree of scalars, lists and tables;
  * `Dialect`: how a source of settings answers when a plan asks for a number, a flag, a text;
  * `Dialect.lenient`: plan files and environment variables, where scalars are converted freely;
  * `Dialect.strict`: JSON, where every scalar must already have its type.
-/
import Federation.Json
import Federation.Plan.Plan

namespace Federation

inductive Setting where
  | nil
  | bool (b : Bool)
  | int (i : Int)
  | float (x : Double)
  | text (s : String)
  | list (items : List Setting)
  | table (fields : List (String × Setting))
  deriving Inhabited, Repr

namespace Setting

mutual
def ofJson : Json → Setting
  | .null => nil
  | .bool b => bool b
  | .int i => int i
  | .real x => float x
  | .text s => text s
  | .list items => list (ofJsonItems items)
  | .object fields => table (ofJsonFields fields).reverse

def ofJsonItems : List Json → List Setting
  | [] => []
  | v :: vs => ofJson v :: ofJsonItems vs

def ofJsonFields : List (String × Json) → List (String × Setting)
  | [] => []
  | (k, v) :: fs => (k, ofJson v) :: ofJsonFields fs
end

end Setting

/-- How a source of settings answers a typed question; `none` is a refusal. -/
structure Dialect where
  natural : Setting → Option Nat
  float : Setting → Option Double
  flag : Setting → Option Bool
  text : Setting → Option String
  argument : Setting → Option ArgValue
  mode : Setting → Option ModeName
  /-- May a list that stands for a record have more items than the record has fields? -/
  spareItems : Bool

namespace Dialect

/-! ## Lenient -/

/-- Words that stand for one and zero. -/
def switchWord (s : String) : Option Bool :=
  let s := toLowercase s
  if s = "true" || s = "on" || s = "yes" then some true
  else if s = "false" || s = "off" || s = "no" then some false
  else none

def bit (b : Bool) : Nat := if b then 1 else 0

/-- Whole numbers below 2 ^ 64: fractions are rounded and clamped, flags and switch words count. -/
def lenientNatural : Setting → Option Nat
  | .int i => if 0 ≤ i then some i.toNat else none
  | .float x => some (x.toIntClamped 0 (limit64 - 1)).toNat
  | .bool b => some (bit b)
  | .text s =>
    match switchWord s with
    | some b => some (bit b)
    | none => parseUnsigned limit64 s
  | _ => none

def lenientFloat : Setting → Option Double
  | .int i => some (.ofInt i)
  | .float x => some x
  | .bool b => some (.ofNat (bit b))
  | .text s =>
    match switchWord s with
    | some b => some (.ofNat (bit b))
    | none => Double.parse s
  | _ => none

def lenientFlag : Setting → Option Bool
  | .bool b => some b
  | .int i => some (decide (i ≠ 0))
  | .float x => some !(x.equals Double.zero)
  | .text s => if s = "1" then some true else if s = "0" then some false else switchWord s
  | _ => none

def lenientText : Setting → Option String
  | .text s => some s
  | .bool b => some (if b then "true" else "false")
  | .int i => some (toString i)
  | .float x => some x.display
  | _ => none

def lenientArgument : Setting → Option ArgValue
  | .bool b => some (.bool b)
  | .int i => some (.int i)
  | .float x => some (.float x)
  | .text s => some (.text s)
  | _ => none

def modeNamed (s : String) : Option ModeName :=
  if s = "sync" then some .sync else if s = "async" then some .async else none

/-- A mode's name in any case, or a table whose only key is one. -/
def lenientMode : Setting → Option ModeName
  | .text s => modeNamed (toLowercase s)
  | .table [(k, _)] => modeNamed (toLowercase k)
  | _ => none

def lenient : Dialect where
  natural := lenientNatural
  float := lenientFloat
  flag := lenientFlag
  text := lenientText
  argument := lenientArgument
  mode := lenientMode
  spareItems := true

/-! ## Strict -/

def strictArgument : Setting → Option ArgValue
  | .bool b => some (.bool b)
  | .int i => some (if i ≤ maxInt64 then .int i else .float (.ofInt i))
  | .float x => some (.float x)
  | .text s => some (.text s)
  | _ => none

def strict : Dialect where
  natural
    | .int i => if 0 ≤ i then some i.toNat else none
    | _ => none
  float
    | .int i => some (.ofInt i)
    | .float x => some x
    | _ => none
  flag
    | .bool b => some b
    | _ => none
  text
    | .text s => some s
    | _ => none
  argument := strictArgument
  mode
    | .text s => modeNamed s
    | .table [(k, .nil)] => modeNamed k
    | _ => none
  spareItems := false

end Dialect

end Federation
