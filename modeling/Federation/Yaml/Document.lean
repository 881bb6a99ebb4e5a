/-
  YAML documents as settings.

  * `resolvePlain`, `resolveTagged`: what a scalar stands for;
  * `Composer`: the tokens left and the anchors seen so far;
  * `documents`: the document of a text, if it has one.

  Mapping keys are texts and whole numbers, each at most once; anything else is refused, and so is a
  text with more than one document.
-/
import Federation.Plan.Overrides
import Federation.Yaml.Token

namespace Federation.Yaml

/-! ## Scalars -/

/-- Whole numbers may be hexadecimal or octal, or have a plus in front of the number with its own
sign. -/
def wholeNumber (s : String) : Option Int :=
  match s.toList with
  | '0' :: 'x' :: ds => parseSigned 16 (String.ofList ds)
  | '0' :: 'o' :: ds => parseSigned 8 (String.ofList ds)
  | '+' :: ds => parseSigned 10 (String.ofList ds)
  | _ => parseSigned 10 s

/-- The spellings of infinity and of no number at all, which settings have no room for. -/
def isSpecialNumber (s : String) : Bool :=
  [".inf", ".Inf", ".INF", "+.inf", "+.Inf", "+.INF", "-.inf", "-.Inf", "-.INF", ".nan",
    ".NAN"].contains s

/-- A number that is not a whole one: it has a digit, so that words like `inf` stay words. -/
def realNumber (s : String) : Option Double :=
  if s = "NaN" then some Double.nan
  else if s.toList.any isDigit then Double.parse s
  else none

/-- A plain scalar without a tag.  Refused are the numbers that settings have no room for. -/
def resolvePlain (s : String) : Option Setting :=
  if s = "" || s = "~" || s = "null" then some .nil
  else if s = "true" then some (.bool true)
  else if s = "false" then some (.bool false)
  else if isSpecialNumber s then none
  else
    match wholeNumber s with
    | some i => some (.int i)
    | none =>
      match realNumber s with
      | some x => some (.float x)
      | none => some (.text s)

/-- A plain scalar with a tag of the core schema; one that does not fit its tag is nothing. -/
def resolveCore (suffix s : String) : Option Setting :=
  if suffix = "bool" then
    some (if s = "true" then .bool true else if s = "false" then .bool false else .nil)
  else if suffix = "int" then some (((parseSigned 10 s).map .int).getD .nil)
  else if suffix = "float" then
    if isSpecialNumber s then none else some (((realNumber s).map .float).getD .nil)
  else if suffix = "null" then some .nil
  else some (.text s)

/-- What the `!!` handle stands for. -/
def coreHandle : String := "tag:yaml.org,2002:"

/-- A tag after its handle has been looked up. -/
structure Tag where
  handle : String
  suffix : String

def resolveScalar (text : String) (plain : Bool) (tag : Option Tag) : Option Setting :=
  if !plain then some (.text text)
  else
    match tag with
    | none => resolvePlain text
    | some t => if t.handle = coreHandle then resolveCore t.suffix text else some (.text text)

/-! ## Mappings -/

def keyName : Setting → Option String
  | .text s => some s
  | .int i => some (toString i)
  | _ => none

/-- Two keys are the same only when they have the same type. -/
def sameKey : Setting → Setting → Bool
  | .text a, .text b => a = b
  | .int a, .int b => a = b
  | _, _ => false

/-- The table of a mapping's pairs. -/
def tableOf : List (Setting × Setting) → List Setting → List (String × Setting) → Option Setting
  | [], _, acc => some (.table acc)
  | (k, v) :: rest, seen, acc =>
    if seen.any (sameKey k) then none
    else
      match keyName k with
      | some name => tableOf rest (k :: seen) (Setting.alterEntry name (fun _ => v) acc)
      | none => none

def mapping (pairs : List (Setting × Setting)) : Option Setting := tableOf pairs [] []

/-! ## Composing -/

structure Composer where
  tokens : List Token
  /-- The latest node under each anchor's name, by number. -/
  anchors : List (String × Nat)
  /-- Finished nodes with an anchor. -/
  nodes : List (Nat × Setting)
  nextId : Nat
  /-- Tag prefixes declared by the document. -/
  handles : List (String × String)

abbrev Compose := StateT Composer Option

namespace Compose

def peek : Compose Token := do return (← get).tokens.head?.getD .streamEnd

def skip : Compose Unit := modify fun c => { c with tokens := c.tokens.tail }

/-- Is one of these next? -/
def nextIs (choices : List Token) : Compose Bool := do return choices.contains (← peek)

/-- A named handle must have been declared. -/
def resolveTag (handle suffix : String) : Compose Tag := do
  match (← get).handles.lookup handle with
  | some target => return ⟨target, suffix⟩
  | none =>
    if handle = "!!" then return ⟨coreHandle, suffix⟩
    else if handle.length ≥ 2 then failure
    else return ⟨handle, suffix⟩

def register (name : String) : Compose Nat := do
  let c ← get
  let id := c.nextId
  set { c with anchors := (name, id) :: c.anchors, nextId := id + 1 }
  return id

/-- The anchor and the tag in front of a node, in either order. -/
def properties : Compose (Option Nat × Option Tag) := do
  match ← peek with
  | .anchor name =>
    skip
    let id ← register name
    match ← peek with
    | .tag handle suffix =>
      skip
      return (some id, some (← resolveTag handle suffix))
    | _ => return (some id, none)
  | .tag handle suffix =>
    skip
    let tag ← resolveTag handle suffix
    match ← peek with
    | .anchor name =>
      skip
      return (some (← register name), some tag)
    | _ => return (none, some tag)
  | _ => return (none, none)

/-- Remember a finished node. -/
def keep (id : Option Nat) (node : Setting) : Compose Setting := do
  match id with
  | some id => modify fun c => { c with nodes := (id, node) :: c.nodes }
  | none => pure ()
  return node

/-- The node an alias stands for; one that is still unfinished is nothing. -/
def aliased (name : String) : Compose Setting := do
  let c ← get
  match c.anchors.lookup name with
  | some id => return (c.nodes.lookup id).getD .nil
  | none => failure

mutual
/-- One node.  `block` allows block collections, `inMapping` also a sequence at the mapping's own
indentation. -/
def node (block inMapping : Bool) : Nat → Compose Setting
  | 0 => failure
  | fuel + 1 => do
    match ← peek with
    | .alias name =>
      skip
      aliased name
    | _ =>
      let (id, tag) ← properties
      match ← peek with
      | .scalar text plain =>
        skip
        let s ← (resolveScalar text plain tag : Option Setting)
        keep id s
      | .flowSequenceStart =>
        skip
        let items ← flowItems true [] fuel
        keep id (.list items)
      | .flowMappingStart =>
        skip
        let pairs ← flowPairs true [] fuel
        keep id (← (mapping pairs : Option Setting))
      | .blockEntry =>
        if inMapping then
          let items ← looseItems [] fuel
          keep id (.list items)
        else emptyNode id tag
      | .blockSequenceStart =>
        if block then
          skip
          let items ← blockItems [] fuel
          keep id (.list items)
        else emptyNode id tag
      | .blockMappingStart =>
        if block then
          skip
          let pairs ← blockPairs [] fuel
          keep id (← (mapping pairs : Option Setting))
        else emptyNode id tag
      | _ => emptyNode id tag

/-- An empty node needs a property to be one. -/
def emptyNode (id : Option Nat) (tag : Option Tag) : Compose Setting := do
  if id.isSome || tag.isSome then
    let s ← (resolveScalar "" true tag : Option Setting)
    keep id s
  else failure

/-- Items of a block sequence up to its end. -/
def blockItems (acc : List Setting) : Nat → Compose (List Setting)
  | 0 => failure
  | fuel + 1 => do
    match ← peek with
    | .blockEnd =>
      skip
      return acc.reverse
    | .blockEntry =>
      skip
      let v ← orNil [.blockEntry, .blockEnd] true false fuel
      blockItems (v :: acc) fuel
    | _ => failure

/-- Items of a sequence at the indentation of the mapping around it. -/
def looseItems (acc : List Setting) : Nat → Compose (List Setting)
  | 0 => failure
  | fuel + 1 => do
    match ← peek with
    | .blockEntry =>
      skip
      let v ← orNil [.blockEntry, .key, .value, .blockEnd] true false fuel
      looseItems (v :: acc) fuel
    | _ => return acc.reverse

/-- A node, or nil when one of the given tokens shows that there is none. -/
def orNil (ends : List Token) (block inMapping : Bool) : Nat → Compose Setting
  | 0 => failure
  | fuel + 1 => do
    if ← nextIs ends then return .nil
    else node block inMapping fuel

/-- What follows a key of a block mapping. -/
def blockValue : Nat → Compose Setting
  | 0 => failure
  | fuel + 1 => do
    if ← nextIs [.value] then
      skip
      orNil [.key, .value, .blockEnd] true true fuel
    else return .nil

def blockPairs (acc : List (Setting × Setting)) : Nat → Compose (List (Setting × Setting))
  | 0 => failure
  | fuel + 1 => do
    match ← peek with
    | .blockEnd =>
      skip
      return acc.reverse
    | .key =>
      skip
      let k ← orNil [.key, .value, .blockEnd] true true fuel
      let v ← blockValue fuel
      blockPairs ((k, v) :: acc) fuel
    | _ => failure

/-- What follows a key inside a flow collection that ends with the given token. -/
def flowValue (close : Token) : Nat → Compose Setting
  | 0 => failure
  | fuel + 1 => do
    if ← nextIs [.value] then
      skip
      orNil [.flowEntry, close] false false fuel
    else return .nil

def flowItems (first : Bool) (acc : List Setting) : Nat → Compose (List Setting)
  | 0 => failure
  | fuel + 1 => do
    if ← nextIs [.flowSequenceEnd] then
      skip
      return acc.reverse
    else
      if !first then
        if ← nextIs [.flowEntry] then skip else failure
      match ← peek with
      | .flowSequenceEnd =>
        skip
        return acc.reverse
      | .key =>
        skip
        let k ← node false false fuel
        let v ← flowValue .flowSequenceEnd fuel
        let pair ← (mapping [(k, v)] : Option Setting)
        flowItems false (pair :: acc) fuel
      | _ =>
        let v ← node false false fuel
        flowItems false (v :: acc) fuel

def flowPairs (first : Bool) (acc : List (Setting × Setting)) :
    Nat → Compose (List (Setting × Setting))
  | 0 => failure
  | fuel + 1 => do
    if ← nextIs [.flowMappingEnd] then
      skip
      return acc.reverse
    else
      if !first then
        if ← nextIs [.flowEntry] then skip else failure
      match ← peek with
      | .flowMappingEnd =>
        skip
        return acc.reverse
      | .key =>
        skip
        let k ← node false false fuel
        let v ← flowValue .flowMappingEnd fuel
        flowPairs false ((k, v) :: acc) fuel
      | _ =>
        let k ← node false false fuel
        flowPairs false ((k, .nil) :: acc) fuel
end

/-! ## Documents -/

/-- Directives in front of a document, which then has to begin with `---`. -/
def directives : Nat → Bool → Compose Bool
  | 0, found => return found
  | fuel + 1, found => do
    match ← peek with
    | .versionDirective =>
      skip
      directives fuel true
    | .tagDirective handle target =>
      skip
      modify fun c => { c with handles := (handle, target) :: c.handles }
      directives fuel true
    | _ => return found

def skipDocumentEnds : Nat → Compose Unit
  | 0 => return ()
  | fuel + 1 => do
    if ← nextIs [.documentEnd] then
      skip
      skipDocumentEnds fuel

/-- The only document of a text, or none. -/
def stream (fuel : Nat) : Compose (Option Setting) := do
  skipDocumentEnds fuel
  if ← nextIs [.streamEnd] then return none
  else
    let declared ← directives fuel false
    let marked ← nextIs [.documentStart]
    if declared && !marked then failure
    if marked then skip
    let root ←
      if marked then
        orNil [.versionDirective, .documentStart, .documentEnd, .streamEnd] true false fuel
      else node true false fuel
    skipDocumentEnds fuel
    if ← nextIs [.streamEnd] then return some root else failure

end Compose

/-- Read a text: its document, or `none` inside when it has none at all. -/
def documents (s : String) : Option (Option Setting) := do
  let tokens ← tokenize s
  let (root, _) ← (Compose.stream (8 * tokens.length + 8)).run ⟨tokens, [], [], 1, []⟩
  return root

/-- The top-level settings of a text; a text without a document has none. -/
def settings (s : String) : Option (List (String × Setting)) :=
  match documents s with
  | some none => some []
  | some (some (.table fields)) => some fields
  | _ => none

end Federation.Yaml
