/-
  The texts of YAML scalars: plain, quoted and block.

  Every reader takes a cursor at the first character of the scalar and hands back the text and the
  cursor behind it, or nothing when the scalar is ill-formed.
-/
import Federation.Numeric.Decimal
import Federation.Yaml.Cursor

namespace Federation.Yaml

/-! ## Folding -/

/-- The white space between two words of a scalar that may go over several lines. -/
structure Gap where
  /-- Blanks on the line of the first word, last one first. -/
  blanks : List Char
  /-- A line break was passed, so that blanks no longer count. -/
  broken : Bool
  /-- The first of the breaks folds to a space. -/
  folds : Bool
  /-- Breaks after the first. -/
  more : Nat

namespace Gap

def none : Gap := ⟨[], false, false, 0⟩

/-- A break that leaves nothing behind. -/
def joined : Gap := ⟨[], true, false, 0⟩

def addBlank (g : Gap) (c : Char) : Gap :=
  if g.broken then g else { g with blanks := c :: g.blanks }

def addBreak (g : Gap) : Gap :=
  if g.broken then { g with more := g.more + 1 } else ⟨[], true, true, 0⟩

/-- The text a gap stands for, last character first. -/
def text (g : Gap) : List Char :=
  if !g.broken then g.blanks
  else if g.folds && g.more = 0 then [' ']
  else List.replicate g.more '\n'

end Gap

/-! ## Plain scalars -/

/-- A colon ends a plain scalar before white space, and before flow punctuation inside a flow
collection, where the punctuation itself ends it too. -/
def endsPlain (inFlow : Bool) (c next : Char) : Bool :=
  (c = ':' && (isGapOrEnd next || (inFlow && isFlow next))) || (inFlow && isFlow c)

/-- The word in front. -/
def plainWord (inFlow : Bool) : List Char → List Char
  | [] => []
  | c :: rest =>
    if isGapOrEnd c || endsPlain inFlow c (rest.head?.getD endMark) then []
    else c :: plainWord inFlow rest

/-- The white space after a word.  A tab may not indent a line that has content. -/
def plainGap (indent : Int) : Nat → Cursor → Gap → Option (Cursor × Gap)
  | 0, c, g => some (c, g)
  | fuel + 1, c, g =>
    let d := c.peek
    if isBlank d then
      if g.broken && decide ((c.col : Int) < indent) && d = '\t' then
        match c.passSpacing true with
        | some (c, _) => if isBreakOrEnd c.peek then plainGap indent fuel c g else none
        | none => none
      else plainGap indent fuel (c.passBlanks 1) (g.addBlank d)
    else if isBreak d then plainGap indent fuel c.passBreak g.addBreak
    else some (c, g)

def plainWords (inFlow : Bool) (indent : Int) :
    Nat → Cursor → List Char → Gap → Option (Cursor × List Char)
  | 0, _, _, _ => none
  | fuel + 1, c, acc, g =>
    if c.atDocumentMark || c.peek = '#' then some (c, acc)
    else if inFlow && c.peek = '-' && isFlow (c.peekAt 1) then none
    else
      let word := plainWord inFlow c.rest
      let acc := if word.isEmpty then acc else word.reverse ++ (g.text ++ acc)
      let c := if word.isEmpty then c else c.passSolid word.length
      if isBlank c.peek || isBreak c.peek then
        match plainGap indent c.remaining c .none with
        | none => none
        | some (c, g) =>
          if !inFlow && decide ((c.col : Int) < indent) then some (c, acc)
          else plainWords inFlow indent fuel c acc g
      else some (c, acc)

/-- A plain scalar whose further lines are indented by at least `indent`. -/
def plainScalar (inFlow : Bool) (indent : Int) (c : Cursor) : Option (Cursor × String) :=
  if inFlow && decide ((c.col : Int) < indent) then none
  else
    (plainWords inFlow indent (c.remaining + 1) c [] .none).map fun r =>
      (r.1, String.ofList r.2.reverse)

/-! ## Quoted scalars -/

/-- The character a one-letter escape stands for. -/
def escapedChar (c : Char) : Option Char :=
  if c = '0' then some endMark
  else if c = 'a' then some (Char.ofNat 7)
  else if c = 'b' then some (Char.ofNat 8)
  else if c = 't' || c = '\t' then some '\t'
  else if c = 'n' then some '\n'
  else if c = 'v' then some (Char.ofNat 11)
  else if c = 'f' then some (Char.ofNat 12)
  else if c = 'r' then some '\r'
  else if c = 'e' then some (Char.ofNat 27)
  else if c = ' ' || c = '"' || c = '/' || c = '\\' then some c
  else if c = 'N' then some (Char.ofNat 0x85)
  else if c = '_' then some (Char.ofNat 0xa0)
  else if c = 'L' then some (Char.ofNat 0x2028)
  else if c = 'P' then some (Char.ofNat 0x2029)
  else none

/-- How many hexadecimal digits a numeric escape has. -/
def escapeDigits (c : Char) : Option Nat :=
  if c = 'x' then some 2 else if c = 'u' then some 4 else if c = 'U' then some 8 else none

/-- The character after a backslash, and how many characters the whole escape takes. -/
def readEscape (c : Cursor) : Option (Char × Nat) :=
  match escapeDigits (c.peekAt 1) with
  | none => (escapedChar (c.peekAt 1)).map (·, 2)
  | some n => do
    let ds ← ((c.rest.drop 2).take n).mapM (digitInBase 16)
    if ds.length < n then none
    else
      let v := ds.foldl (fun v d => 16 * v + d) 0
      if v.isValidChar then some (Char.ofNat v, n + 2) else none

/-- Characters up to white space or the closing quote.  The flag says that an escaped line break
came last. -/
def quotedWord (quote : Char) : Nat → Cursor → List Char → Option (Cursor × List Char × Bool)
  | 0, _, _ => none
  | fuel + 1, c, acc =>
    let d := c.peek
    if isGapOrEnd d then some (c, acc, false)
    else if quote ≠ '"' && d = quote && c.peekAt 1 = quote then
      quotedWord quote fuel (c.passSolid 2) (quote :: acc)
    else if d = quote then some (c, acc, false)
    else if quote = '"' && d = '\\' then
      if isBreak (c.peekAt 1) then some ((c.passSolid 1).passBreak, acc, true)
      else
        match readEscape c with
        | some (e, n) => quotedWord quote fuel (c.passSolid n) (e :: acc)
        | none => none
    else quotedWord quote fuel (c.passSolid 1) (d :: acc)

/-- The white space between two words. -/
def quotedGap (indent : Int) : Nat → Cursor → Gap → Option (Cursor × Gap)
  | 0, c, g => some (c, g)
  | fuel + 1, c, g =>
    let d := c.peek
    if isBlank d then
      if g.broken && d = '\t' && decide ((c.col : Int) < indent) then none
      else quotedGap indent fuel (c.passBlanks 1) (g.addBlank d)
    else if isBreak d then quotedGap indent fuel c.passBreak g.addBreak
    else some (c, g)

def quotedWords (quote : Char) (indent : Int) :
    Nat → Cursor → List Char → Option (Cursor × List Char)
  | 0, _, _ => none
  | fuel + 1, c, acc =>
    if c.atDocumentMark || isEnd c.peek || decide ((c.col : Int) < indent) then none
    else
      match quotedWord quote (c.remaining + 1) c acc with
      | none => none
      | some (c, acc, joined) =>
        if c.peek = quote then some (c.passSolid 1, acc)
        else
          match quotedGap indent c.remaining c (if joined then .joined else .none) with
          | none => none
          | some (c, g) => quotedWords quote indent fuel c (g.text ++ acc)

/-- A quoted scalar, and what may follow it on its line: nothing, flow punctuation inside a flow
collection, or the colon that makes it a key. -/
def quotedScalar (inFlow : Bool) (indent : Int) (c : Cursor) : Option (Cursor × String) := do
  let (d, acc) ← quotedWords c.peek indent (c.remaining + 1) (c.passSolid 1) []
  let (d, _) ← d.passSpacing true
  let next := d.peek
  let follows :=
    isBreakOrEnd next || (inFlow && (next = ',' || next = '\x7d' || next = ']')) ||
      (next = ':' && (inFlow || d.line = c.line))
  if follows then some (d, String.ofList acc.reverse) else none

/-! ## Block scalars -/

/-- What becomes of the line breaks at the end. -/
inductive Chomping where
  | strip
  | clip
  | keep
  deriving DecidableEq

def chompingOf (c : Char) : Option Chomping :=
  if c = '+' then some .keep else if c = '-' then some .strip else none

/-- An indentation digit, which may not be zero. -/
def increment (c : Cursor) : Option (Nat × Cursor) :=
  if isDigit c.peek then
    if c.peek = '0' then none else some (digitValue c.peek, c.passSolid 1)
  else some (0, c)

def chomping (c : Cursor) : Chomping × Cursor :=
  match chompingOf c.peek with
  | some k => (k, c.passSolid 1)
  | none => (.clip, c)

/-- The two indicators after `|` or `>`, in either order. -/
def blockHeader (c : Cursor) : Option (Chomping × Nat × Cursor) :=
  match chompingOf c.peek with
  | some k => (increment (c.passSolid 1)).map fun r => (k, r.1, r.2)
  | none =>
    (increment c).map fun r =>
      if r.1 = 0 then (.clip, 0, r.2)
      else
        let k := chomping r.2
        (k.1, r.1, k.2)

/-- Pass indentation and empty lines; the number of empty lines. -/
def blockIndent (indent : Nat) : Nat → Cursor → Nat → Cursor × Nat
  | 0, c, n => (c, n)
  | fuel + 1, c, n =>
    let spaces := (c.run (· = ' ')).length
    let c := c.passBlanks (min spaces (indent - c.col))
    if isBreak c.peek then blockIndent indent fuel c.passBreak (n + 1) else (c, n)

/-- The indentation of the first line with content, at least as deep as every line before it. -/
def firstIndent : Nat → Cursor → Nat → Nat → Cursor × Nat × Nat
  | 0, c, deepest, n => (c, deepest, n)
  | fuel + 1, c, deepest, n =>
    let c := c.passBlanks (c.run (· = ' ')).length
    let deepest := max deepest c.col
    if isBreak c.peek then firstIndent fuel c.passBreak deepest (n + 1) else (c, deepest, n)

/-- A block scalar being read. -/
structure BlockText where
  acc : List Char
  /-- The line before ended in a break. -/
  leadingBreak : Bool
  /-- Empty lines since. -/
  empties : Nat
  /-- The line before began with a blank. -/
  blankBefore : Bool

/-- Lines at the scalar's indentation. -/
def blockLines (literal : Bool) (indent : Nat) : Nat → Cursor → BlockText → Cursor × BlockText
  | 0, c, t => (c, t)
  | fuel + 1, c, t =>
    if c.col ≠ indent || isEnd c.peek || (indent = 0 && c.atDocumentMark) then (c, t)
    else
      let blank := isBlank c.peek
      let newlines := List.replicate t.empties '\n'
      let front :=
        if !literal && t.leadingBreak && !t.blankBefore && !blank then
          if t.empties = 0 then [' '] else newlines
        else newlines ++ (if t.leadingBreak then ['\n'] else [])
      let content := c.run fun d => !isBreak d
      let acc := content.reverse ++ (front ++ t.acc)
      let c := c.passSolid content.length
      if isEnd c.peek then (c, ⟨acc, false, 0, blank⟩)
      else
        let (c, empties) := blockIndent indent c.remaining c.passBreak 0
        blockLines literal indent fuel c ⟨acc, true, empties, blank⟩

/-- The line breaks at the end of a block scalar. -/
def blockTail (k : Chomping) (indent : Nat) (c : Cursor) (t : BlockText) : List Char :=
  let clipped :=
    if k = .strip then []
    else
      (if isEnd c.peek && max indent 1 ≤ c.col then ['\n'] else []) ++
        (if t.leadingBreak then ['\n'] else [])
  let kept := if k = .keep then List.replicate t.empties '\n' else []
  kept ++ clipped

/-- What is left of a block scalar without content. -/
def emptyBlock (k : Chomping) (sameLine : Bool) (firstBreak : Bool) (empties : Nat) : List Char :=
  let first := if firstBreak then ['\n'] else []
  if k = .strip || sameLine then []
  else if k = .clip || empties = 0 then first
  else List.replicate empties '\n'

/-- A literal or folded scalar inside a block indented by `indent`. -/
def blockScalar (literal : Bool) (indent : Int) (start : Cursor) : Option (Cursor × String) := do
  let (k, inc, c) ← blockHeader (start.passSolid 1)
  let (c, _) ← c.passSpacing true
  if !isBreakOrEnd c.peek then none
  else
    let firstBreak := isBreak c.peek
    let c := if firstBreak then c.passBreak else c
    if c.peek = '\t' then none
    else
      let (c, depth, empties) :=
        if inc = 0 then
          let (c, deepest, empties) := firstIndent (c.remaining + 1) c 0 0
          let depth := max deepest (indent + 1).toNat
          (c, if 0 < indent then max depth 1 else depth, empties)
        else
          let depth := if 0 ≤ indent then (indent + inc).toNat else inc
          let (c, empties) := blockIndent depth (c.remaining + 1) c 0
          (c, depth, empties)
      if isEnd c.peek then
        some (c, String.ofList (emptyBlock k (c.line = start.line) firstBreak empties))
      else if c.col < depth && decide (indent < (c.col : Int)) then none
      else
        let (c, t) := blockLines literal depth (c.remaining + 1) c ⟨[], false, empties, false⟩
        some (c, String.ofList (blockTail k depth c t ++ t.acc).reverse)

end Federation.Yaml
