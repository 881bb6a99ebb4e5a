/-
  YAML tokens.

  The text is cut into tokens from left to right.  Two things need more than the text at hand: block
  collections begin and end by indentation alone, and whether something is a key is known only at
  the colon behind it, so that a place where a key may begin is remembered until then.

  * `Token`: the tokens;
  * `Tokenizer`: the text left, the open collections and the possible keys;
  * `tokenize`: the tokens of a whole text.
-/
import Federation.Identity
import Federation.Yaml.Scalar

namespace Federation.Yaml

inductive Token where
  | versionDirective
  | tagDirective (handle target : String)
  | documentStart
  | documentEnd
  | streamEnd
  | blockSequenceStart
  | blockMappingStart
  | blockEnd
  | flowSequenceStart
  | flowSequenceEnd
  | flowMappingStart
  | flowMappingEnd
  | blockEntry
  | flowEntry
  | key
  | value
  | alias (name : String)
  | anchor (name : String)
  | tag (handle suffix : String)
  | scalar (text : String) (plain : Bool)
  deriving DecidableEq, Repr, Inhabited

/-- A place where a key may have begun. -/
structure PossibleKey where
  possible : Bool
  /-- Nothing but a key can stand there. -/
  required : Bool
  /-- How many tokens come before it. -/
  tokenNumber : Nat
  index : Nat
  line : Nat
  col : Nat

def PossibleKey.none : PossibleKey := ⟨false, false, 0, 0, 0, 0⟩

def PossibleKey.dropped (k : PossibleKey) : PossibleKey := { k with possible := false }

/-- An indentation that an open collection gives way to when it ends. -/
structure Indent where
  outer : Int
  /-- A block collection was opened, not only room made for a value. -/
  isBlock : Bool

structure Tokenizer where
  cursor : Cursor
  tokens : Array Token
  /-- The last token was an anchor or a tag at the start of a line. -/
  propertyAtMargin : Bool
  indent : Int
  /-- Innermost first. -/
  indents : List Indent
  /-- One for every open flow collection and one for the block around them, innermost first. -/
  keys : List PossibleKey
  keyAllowed : Bool
  flowLevel : Nat
  /-- Where a colon needs no blank after it, behind a quoted key. -/
  adjacentAt : Option Nat
  /-- For each open flow sequence: are we inside a pair without braces? -/
  pairs : List Bool
  mappingStarted : Bool

namespace Tokenizer

def ofText (s : String) : Tokenizer where
  cursor := .ofText s
  tokens := #[]
  propertyAtMargin := false
  indent := -1
  indents := []
  keys := [.none]
  keyAllowed := true
  flowLevel := 0
  adjacentAt := none
  pairs := []
  mappingStarted := false

/-- Deeper nesting of flow collections is refused. -/
def maxFlowLevel : Nat := 255

def inFlow (t : Tokenizer) : Bool := t.flowLevel ≠ 0

def push (t : Tokenizer) (token : Token) : Tokenizer :=
  { t with tokens := t.tokens.push token, propertyAtMargin := false }

def insertAt (t : Tokenizer) (n : Nat) (token : Token) : Tokenizer :=
  { t with
    tokens := (t.tokens.extract 0 n).push token ++ t.tokens.extract n t.tokens.size
    propertyAtMargin := false }

def passSpacing (t : Tokenizer) : Option Tokenizer :=
  (t.cursor.passSpacing true).map fun r => { t with cursor := r.1 }

/-! ## Indentation -/

/-- Close the block collections indented deeper than `col`. -/
def unrollTo (col : Int) : List Indent → Tokenizer → Tokenizer
  | [], t => t
  | i :: is, t =>
    if col < t.indent then
      let t := { t with indent := i.outer, indents := is }
      unrollTo col is (if i.isBlock then t.push .blockEnd else t)
    else t

def unroll (t : Tokenizer) (col : Int) : Tokenizer :=
  if t.inFlow then t else unrollTo col t.indents t

/-- Give up room that was made for a value. -/
def dropRoom : List Indent → Tokenizer → Tokenizer
  | [], t => t
  | i :: is, t =>
    if i.isBlock then t else dropRoom is { t with indent := i.outer, indents := is }

/-- Open a block collection at `col` unless one is open there, its token at place `n` or last. -/
def roll (t : Tokenizer) (col : Nat) (n : Option Nat) (token : Token) : Tokenizer :=
  if t.inFlow then t
  else
    let t :=
      match t.indents with
      | i :: is =>
        if !i.isBlock && decide (t.indent ≤ (col : Int)) then
          { t with indent := i.outer, indents := is }
        else t
      | [] => t
    if t.indent < (col : Int) then
      let t := { t with indents := ⟨t.indent, true⟩ :: t.indents, indent := col }
      match n with
      | some n => t.insertAt n token
      | none => t.push token
    else t

/-- Make room for a value: whatever comes on further lines must be one column deeper. -/
def makeRoom (t : Tokenizer) : Tokenizer :=
  match t.indents with
  | i :: _ =>
    if !t.inFlow && i.isBlock then
      { t with indents := ⟨t.indent, false⟩ :: t.indents, indent := t.indent + 1 }
    else t
  | [] => t

/-! ## Possible keys -/

def innermostKey (t : Tokenizer) : PossibleKey := t.keys.head?.getD .none

def setKey (t : Tokenizer) (k : PossibleKey) : Tokenizer := { t with keys := k :: t.keys.tail }

/-- Remember that a key may begin here. -/
def saveKey (t : Tokenizer) : Tokenizer :=
  if t.keyAllowed then
    let c := t.cursor
    let required :=
      !t.inFlow && decide (t.indent = (c.col : Int)) && (t.indents.head?.map (·.isBlock)).getD false
    t.setKey ⟨true, required, t.tokens.size, c.index, c.line, c.col⟩
  else t

/-- Give up the possible key, unless it had to be one. -/
def removeKey (t : Tokenizer) : Option Tokenizer :=
  let k := t.innermostKey
  if k.possible && k.required then none else some (t.setKey k.dropped)

/-- A key is on one line and no longer than this many characters. -/
def maxKeyLength : Nat := 1024

def isStale (c : Cursor) (k : PossibleKey) : Bool :=
  k.possible && (k.line < c.line || k.index + maxKeyLength < c.index)

/-- Give up the possible keys that lie too far back. -/
def dropStaleKeys (t : Tokenizer) : Option Tokenizer :=
  if t.inFlow then some t
  else if t.keys.any fun k => isStale t.cursor k && k.required then none
  else
    some { t with
      keys := t.keys.map fun k => if isStale t.cursor k then k.dropped else k }

/-! ## Between tokens -/

/-- Pass blanks, line breaks and comments. -/
def passToToken : Nat → Tokenizer → Option Tokenizer
  | 0, t => some t
  | fuel + 1, t =>
    let c := t.cursor
    let d := c.peek
    if d = '\t' && !t.indents.isEmpty && c.fresh && decide ((c.col : Int) < t.indent) then
      match c.passSpacing true with
      | some (c, _) =>
        if isBreakOrEnd c.peek then passToToken fuel { t with cursor := c } else none
      | none => none
    else if isBlank d then passToToken fuel { t with cursor := c.passBlanks 1 }
    else if isBreak d then
      passToToken fuel { t with cursor := c.passBreak, keyAllowed := t.keyAllowed || !t.inFlow }
    else if d = '#' then passToToken fuel { t with cursor := c.passComment }
    else some t

def passAll (t : Tokenizer) : Option Tokenizer := passToToken (t.cursor.remaining + 1) t

/-! ## Structure tokens -/

def streamEnd (t : Tokenizer) : Option Tokenizer :=
  if t.keys.any fun k => k.possible && k.required then none
  else
    let t := { t with keys := t.keys.map PossibleKey.dropped }
    let t := t.unroll (-1)
    some (({ t with keyAllowed := false }).push .streamEnd)

/-- `---` or `...`; nothing but a comment may follow the latter on its line. -/
def documentMark (t : Tokenizer) : Option Tokenizer := do
  let isStart := t.cursor.peek = '-'
  let t ← (t.unroll (-1)).removeKey
  let t := { t with keyAllowed := false, cursor := t.cursor.passSolid 3 }
  let t := t.push (if isStart then .documentStart else .documentEnd)
  if isStart then some t
  else
    let t ← t.passSpacing
    if isBreakOrEnd t.cursor.peek then some t else none

/-- End a pair without braces. -/
def endPair (t : Tokenizer) : Tokenizer :=
  match t.pairs with
  | true :: rest =>
    ({ t with pairs := false :: rest, mappingStarted := false }).push .flowMappingEnd
  | _ => t

def flowStart (t : Tokenizer) (token : Token) : Option Tokenizer := do
  let t := t.saveKey.makeRoom
  if maxFlowLevel ≤ t.flowLevel then none
  else
    let t := { t with
      keys := .none :: t.keys, flowLevel := t.flowLevel + 1, keyAllowed := true
      cursor := t.cursor.passSolid 1 }
    let t :=
      if token = .flowMappingStart then { t with mappingStarted := true }
      else { t with pairs := false :: t.pairs }
    let t ← t.passSpacing
    return t.push token

def flowEnd (t : Tokenizer) (token : Token) : Option Tokenizer := do
  let t ← t.removeKey
  let t :=
    if t.inFlow then { t with flowLevel := t.flowLevel - 1, keys := t.keys.tail } else t
  let t := { t with keyAllowed := false }
  let t :=
    if token = .flowSequenceEnd then
      let t := t.endPair
      { t with pairs := t.pairs.tail }
    else t
  let t ← ({ t with cursor := t.cursor.passSolid 1 }).passSpacing
  let t := if t.inFlow then { t with adjacentAt := some t.cursor.index } else t
  return t.push token

def flowEntry (t : Tokenizer) : Option Tokenizer := do
  let t ← t.removeKey
  let t := ({ t with keyAllowed := true }).endPair
  let t ← ({ t with cursor := t.cursor.passSolid 1 }).passSpacing
  return t.push .flowEntry

def blockEntry (t : Tokenizer) : Option Tokenizer := do
  if t.inFlow || !t.keyAllowed then none
  else if t.propertyAtMargin && t.cursor.col = 0 && decide (-1 < t.indent) then none
  else
    let col := t.cursor.col
    let t := { t with cursor := t.cursor.passSolid 1 }
    let t := t.roll col none .blockSequenceStart
    let (c, spacing) ← t.cursor.passSpacing true
    if spacing.tabs && c.peek = '-' && isGapOrEnd (c.peekAt 1) then none
    else
      let t := { t with cursor := c }
      let t := if isBreak c.peek || isFlow c.peek then t.makeRoom else t
      let t ← t.removeKey
      return ({ t with keyAllowed := true }).push .blockEntry

/-- Pass spaces, line breaks and comments, but no tab. -/
def passToTerm : Nat → Cursor → Cursor
  | 0, c => c
  | fuel + 1, c =>
    if c.peek = ' ' then passToTerm fuel (c.passBlanks 1)
    else if isBreak c.peek then passToTerm fuel c.passBreak
    else if c.peek = '#' then passToTerm fuel c.passComment
    else c

/-- An explicit key, `?`. -/
def explicitKey (t : Tokenizer) : Option Tokenizer := do
  if !t.inFlow && !t.keyAllowed then none
  else
    let t :=
      if t.inFlow then { t with mappingStarted := true }
      else t.roll t.cursor.col none .blockMappingStart
    let t ← t.removeKey
    let c := t.cursor.passSolid 1
    let gap := passToTerm c.remaining c
    if gap.index = c.index || gap.peek = '\t' then none
    else
      let keyAllowed := !t.inFlow
      return ({ t with keyAllowed := keyAllowed, cursor := gap }).push .key

/-- A colon: what came before it since the possible key is a key. -/
def valueMark (t : Tokenizer) : Option Tokenizer := do
  let k := t.innermostKey
  let start := t.cursor
  let isPair := !t.pairs.isEmpty && !t.mappingStarted
  let t := if isPair then { t with pairs := true :: t.pairs.tail } else t
  let t := { t with cursor := t.cursor.passSolid 1 }
  let t ←
    if t.cursor.peek = '\t' then do
      let (c, spacing) ← t.cursor.passSpacing true
      if !spacing.spaces && (c.peek = '-' || isAsciiAlphanumeric c.peek || c.peek = '_') then none
      else pure { t with cursor := c }
    else pure t
  if k.possible then
    let t := t.insertAt k.tokenNumber .key
    if isPair && k.line < start.line then none
    else
      let t := if isPair then t.insertAt k.tokenNumber .flowMappingStart else t
      let t := (t.roll k.col (some k.tokenNumber) .blockMappingStart).makeRoom
      let t := t.setKey t.innermostKey.dropped
      return ({ t with keyAllowed := false }).push .value
  else
    let t := if isPair then t.push .flowMappingStart else t
    if !t.inFlow && !t.keyAllowed then none
    else
      let t := (t.roll start.col none .blockMappingStart).makeRoom
      return ({ t with keyAllowed := !t.inFlow }).push .value

/-! ## Node tokens -/

def anchorOrAlias (t : Tokenizer) : Option Tokenizer :=
  let isAlias := t.cursor.peek = '*'
  let atMargin := t.cursor.col = 0
  let t := { t.saveKey with keyAllowed := false }
  let c := t.cursor.passSolid 1
  let name := c.run isAnchorChar
  if name.isEmpty then none
  else
    let t := { t with cursor := c.passSolid name.length }
    let name := String.ofList name
    if isAlias then some (t.push (.alias name))
    else some { t.push (.anchor name) with propertyAtMargin := atMargin }

def isWordChar (c : Char) : Bool := isAsciiAlphanumeric c || c = '-'

def isHandleChar (c : Char) : Bool := isWordChar c || c = '_'

def isUriChar (c : Char) : Bool :=
  isWordChar c || "#;/?:@&=+$,_.!~*()[]%".toList.contains c || c = Char.ofNat 39

def isTagChar (c : Char) : Bool := isUriChar c && !isFlow c && c ≠ '!'

/-- A tag's handle and suffix: `!<uri>`, `!suffix`, `!!suffix` or `!name!suffix`. -/
def readTag (c : Cursor) : Option (Cursor × String × String) :=
  if c.peekAt 1 = '<' then
    let uri := (c.passSolid 2).run isUriChar
    let d := c.passSolid (2 + uri.length)
    if uri.isEmpty || d.peek ≠ '>' then none
    else some (d.passSolid 1, "", String.ofList uri)
  else
    let name := (c.passSolid 1).run isHandleChar
    let d := c.passSolid (1 + name.length)
    if d.peek = '!' then
      let d := d.passSolid 1
      let suffix := d.run isTagChar
      if suffix.isEmpty then none
      else some (d.passSolid suffix.length, "!" ++ String.ofList name ++ "!", String.ofList suffix)
    else
      let more := d.run isTagChar
      let suffix := name ++ more
      let d := d.passSolid more.length
      if suffix.isEmpty then some (d, "", "!") else some (d, "!", String.ofList suffix)

def tag (t : Tokenizer) : Option Tokenizer := do
  let atMargin := t.cursor.col = 0
  let t := { t.saveKey with keyAllowed := false }
  let (c, handle, suffix) ← readTag t.cursor
  if isGapOrEnd c.peek || (t.inFlow && isFlow c.peek) then
    return { ({ t with cursor := c }).push (.tag handle suffix) with propertyAtMargin := atMargin }
  else none

def blockText (t : Tokenizer) (literal : Bool) : Option Tokenizer := do
  let t := { t.saveKey with keyAllowed := true }
  let t := dropRoom t.indents t
  let (c, text) ← blockScalar literal t.indent t.cursor
  return ({ t with cursor := c }).push (.scalar text false)

def quotedText (t : Tokenizer) : Option Tokenizer := do
  let t := { t.saveKey with keyAllowed := false }
  let (c, text) ← quotedScalar t.inFlow t.indent t.cursor
  let t ← ({ t with cursor := c }).passAll
  return ({ t with adjacentAt := some t.cursor.index }).push (.scalar text false)

def plainText (t : Tokenizer) : Option Tokenizer := do
  let t := { t.saveKey with keyAllowed := false }
  let t := dropRoom t.indents t
  let (c, text) ← plainScalar t.inFlow (t.indent + 1) t.cursor
  return ({ t with cursor := c, keyAllowed := t.keyAllowed || c.fresh }).push (.scalar text true)

/-! ## Directives -/

/-- A `%` line: a version, a tag prefix, or one that is passed over. -/
def directive (t : Tokenizer) : Option Tokenizer := do
  let t ← (t.unroll (-1)).removeKey
  let t := { t with keyAllowed := false }
  let words := ((t.cursor.run fun d => !isBreak d).drop 1)
  let line := words.takeWhile (· ≠ '#')
  let parts := ((String.ofList line).splitOn " ").filter (!·.isEmpty)
  let t := { t with cursor := t.cursor.passComment }
  match parts with
  | ["YAML", version] =>
    match version.splitOn "." with
    | [major, minor] =>
      if (parseUnsigned limit64 major).isSome && (parseUnsigned limit64 minor).isSome then
        return t.push .versionDirective
      else none
    | _ => none
  | ["TAG", handle, target] => return t.push (.tagDirective handle target)
  | "YAML" :: _ => none
  | "TAG" :: _ => none
  | _ => return t.push (.tagDirective "" "")

/-! ## The next token -/

def dispatch (t : Tokenizer) : Option Tokenizer :=
  let c := t.cursor
  let d := c.peek
  let next := c.peekAt 1
  if d = '[' then t.flowStart .flowSequenceStart
  else if d = '\x7b' then t.flowStart .flowMappingStart
  else if d = ']' then t.flowEnd .flowSequenceEnd
  else if d = '\x7d' then t.flowEnd .flowMappingEnd
  else if d = ',' then t.flowEntry
  else if d = '-' && isGapOrEnd next then t.blockEntry
  else if d = '?' && isGapOrEnd next then t.explicitKey
  else if d = ':' &&
      (isGapOrEnd next || (t.inFlow && (isFlow next || t.adjacentAt = some c.index))) then
    t.valueMark
  else if d = '*' || d = '&' then t.anchorOrAlias
  else if d = '!' then t.tag
  else if d = '|' && !t.inFlow then t.blockText true
  else if d = '>' && !t.inFlow then t.blockText false
  else if d = '"' || d = Char.ofNat 39 then t.quotedText
  else if d = '%' || d = '@' || d = Char.ofNat 96 then none
  else t.plainText

/-- Read what comes next: a token, with the tokens that indentation implies before it. -/
def next (t : Tokenizer) : Option Tokenizer := do
  let t ← t.passAll
  let t ← t.dropStaleKeys
  let t := t.unroll t.cursor.col
  if isEnd t.cursor.peek then t.streamEnd
  else if t.cursor.col = 0 && t.cursor.peek = '%' then t.directive
  else if t.cursor.atDocumentMark then t.documentMark
  else if decide ((t.cursor.col : Int) < t.indent) then none
  else t.dispatch

def atEnd (t : Tokenizer) : Bool := t.tokens.back? = some .streamEnd

/-- Read on to the end of the text. -/
def drain : Nat → Tokenizer → Option Tokenizer
  | 0, _ => none
  | fuel + 1, t => if t.atEnd then some t else t.next.bind (drain fuel)

end Tokenizer

/-- The tokens of a whole text. -/
def tokenize (s : String) : Option (List Token) :=
  let t := Tokenizer.ofText s
  (Tokenizer.drain (2 * t.cursor.remaining + 4) t).map (·.tokens.toList)

end Federation.Yaml
