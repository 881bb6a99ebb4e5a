/-
  JSON values: reading and writing.

  Whole numbers are kept apart from the others, because the settings that are read from JSON accept
  the one where they refuse the other.  A whole number outside the 64-bit range, and minus zero,
  count as floating point.
-/
import Federation.Numeric.Decimal

namespace Federation

inductive Json where
  | null
  | bool (b : Bool)
  | int (i : Int)
  | real (x : Double)
  | text (s : String)
  | list (items : List Json)
  | object (fields : List (String × Json))
  deriving Inhabited, Repr

namespace Json

/-! ## Reading -/

def isSpace (c : Char) : Bool := c = ' ' || c = '\n' || c = '\r' || c = '\t'

def skipSpace (cs : List Char) : List Char := cs.dropWhile isSpace

/-- Four hexadecimal digits. -/
def hexUnit : List Char → Option (Nat × List Char)
  | a :: b :: c :: d :: rest =>
    ([a, b, c, d].mapM (digitInBase 16)).map fun ds => (ds.foldl (fun n v => 16 * n + v) 0, rest)
  | _ => none

/-- The character of a `u` escape, a surrogate pair being two of them. -/
def unicodeEscape (cs : List Char) : Option (Char × List Char) :=
  match hexUnit cs with
  | none => none
  | some (hi, rest) =>
    if 0xd800 ≤ hi && hi < 0xdc00 then
      match rest with
      | '\\' :: 'u' :: rest =>
        match hexUnit rest with
        | some (lo, rest) =>
          if 0xdc00 ≤ lo && lo < 0xe000 then
            some (Char.ofNat (0x10000 + (hi - 0xd800) * 0x400 + (lo - 0xdc00)), rest)
          else none
        | none => none
      | _ => none
    else if 0xdc00 ≤ hi && hi < 0xe000 then none
    else some (Char.ofNat hi, rest)

def simpleEscape (c : Char) : Option Char :=
  if c = '"' || c = '\\' || c = '/' then some c
  else if c = 'n' then some '\n'
  else if c = 't' then some '\t'
  else if c = 'r' then some '\r'
  else if c = 'b' then some (Char.ofNat 8)
  else if c = 'f' then some (Char.ofNat 12)
  else none

/-- The rest of a string after its opening quote. -/
def readString : Nat → List Char → List Char → Option (String × List Char)
  | 0, _, _ => none
  | _, _, [] => none
  | fuel + 1, acc, c :: rest =>
    if c = '"' then some (String.ofList acc.reverse, rest)
    else if c = '\\' then
      match rest with
      | 'u' :: rest =>
        match unicodeEscape rest with
        | some (d, rest) => readString fuel (d :: acc) rest
        | none => none
      | d :: rest =>
        match simpleEscape d with
        | some d => readString fuel (d :: acc) rest
        | none => none
      | [] => none
    else if c.toNat < 32 then none
    else readString fuel (c :: acc) rest

def isNumberChar (c : Char) : Bool :=
  isDigit c || c = '-' || c = '+' || c = '.' || c = 'e' || c = 'E'

/-- The value of a number token. -/
def numberOf (token : List Char) : Option Json :=
  let s := String.ofList token
  let plain := token.all fun c => isDigit c || c = '-'
  if plain && s ≠ "-0" then
    match s.toInt? with
    | some i =>
      if minInt64 ≤ i && i < (limit64 : Int) then some (.int i) else (Double.parse s).map .real
    | none => none
  else (Double.parse s).map .real

mutual
/-- One value, white space before it skipped. -/
def readValue : Nat → List Char → Option (Json × List Char)
  | 0, _ => none
  | fuel + 1, cs =>
    match skipSpace cs with
    | [] => none
    | 'n' :: 'u' :: 'l' :: 'l' :: rest => some (.null, rest)
    | 't' :: 'r' :: 'u' :: 'e' :: rest => some (.bool true, rest)
    | 'f' :: 'a' :: 'l' :: 's' :: 'e' :: rest => some (.bool false, rest)
    | '"' :: rest => (readString (rest.length + 1) [] rest).map fun r => (.text r.1, r.2)
    | '[' :: rest =>
      match skipSpace rest with
      | ']' :: rest => some (.list [], rest)
      | rest => (readItems fuel [] rest).map fun r => (.list r.1, r.2)
    | '\x7b' :: rest =>
      match skipSpace rest with
      | '\x7d' :: rest => some (.object [], rest)
      | rest => (readFields fuel [] rest).map fun r => (.object r.1, r.2)
    | cs =>
      let (token, rest) := cs.span isNumberChar
      (numberOf token).map fun v => (v, rest)

/-- The items of a list after its opening bracket, at least one. -/
def readItems : Nat → List Json → List Char → Option (List Json × List Char)
  | 0, _, _ => none
  | fuel + 1, acc, cs =>
    match readValue fuel cs with
    | none => none
    | some (v, rest) =>
      match skipSpace rest with
      | ',' :: rest => readItems fuel (v :: acc) rest
      | ']' :: rest => some ((v :: acc).reverse, rest)
      | _ => none

/-- The fields of an object after its opening brace, at least one. -/
def readFields : Nat → List (String × Json) → List Char → Option (List (String × Json) × List Char)
  | 0, _, _ => none
  | fuel + 1, acc, cs =>
    match skipSpace cs with
    | '"' :: rest =>
      match readString (rest.length + 1) [] rest with
      | none => none
      | some (k, rest) =>
        match skipSpace rest with
        | ':' :: rest =>
          match readValue fuel rest with
          | none => none
          | some (v, rest) =>
            match skipSpace rest with
            | ',' :: rest => readFields fuel ((k, v) :: acc) rest
            | '\x7d' :: rest => some (((k, v) :: acc).reverse, rest)
            | _ => none
        | _ => none
    | _ => none
end

/-- A whole text as one value. -/
def parse (s : String) : Option Json :=
  let cs := s.toList
  match readValue (cs.length + 1) cs with
  | some (v, rest) => if (skipSpace rest).isEmpty then some v else none
  | none => none

/-! ## Looking inside -/

/-- The value of a field; the last one when a name is repeated. -/
def field? (name : String) : Json → Option Json
  | .object fields => fields.reverse.lookup name
  | _ => none

/-! ## Writing -/

def escapeChar (c : Char) : String :=
  if c = '"' then "\\\""
  else if c = '\\' then "\\\\"
  else if c = '\n' then "\\n"
  else if c = '\t' then "\\t"
  else if c = '\r' then "\\r"
  else if c.toNat < 32 then
    let ds := Nat.toDigits 16 c.toNat
    "\\u" ++ String.ofList (List.replicate (4 - ds.length) '0' ++ ds)
  else String.singleton c

def quote (s : String) : String :=
  "\"" ++ s.foldl (fun acc c => acc ++ escapeChar c) "" ++ "\""

/-- Compact text of a value. -/
def write : Json → String
  | .null => "null"
  | .bool b => if b then "true" else "false"
  | .int i => toString i
  | .real x => x.display
  | .text s => quote s
  | .list items => "[" ++ ",".intercalate (writeItems items) ++ "]"
  | .object fields => "\x7b" ++ ",".intercalate (writeFields fields) ++ "\x7d"
where
  writeItems : List Json → List String
    | [] => []
    | v :: vs => write v :: writeItems vs
  writeFields : List (String × Json) → List String
    | [] => []
    | (k, v) :: fs => (quote k ++ ":" ++ write v) :: writeFields fs

end Json

end Federation
