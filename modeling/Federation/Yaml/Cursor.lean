/-
  A place in a YAML text.

  * character classes of the language;
  * `Cursor`: what is left of the text, with the line and column reached;
  * moves over blanks, comments and line breaks.
-/

namespace Federation.Yaml

/-! ## Characters -/

/-- Stands for the end of the text, and ends the text where it occurs in it. -/
def endMark : Char := Char.ofNat 0

def isEnd (c : Char) : Bool := c = endMark
def isBreak (c : Char) : Bool := c = '\n' || c = '\r'
def isBlank (c : Char) : Bool := c = ' ' || c = '\t'
def isBreakOrEnd (c : Char) : Bool := isBreak c || isEnd c
def isGapOrEnd (c : Char) : Bool := isBlank c || isBreakOrEnd c

/-- Punctuation of the flow collections. -/
def isFlow (c : Char) : Bool :=
  c = ',' || c = '[' || c = ']' || c = '\x7b' || c = '\x7d'

def byteOrderMark : Char := Char.ofNat 0xfeff

def isAnchorChar (c : Char) : Bool := !isGapOrEnd c && !isFlow c && c ≠ byteOrderMark

/-! ## Cursors -/

structure Cursor where
  rest : List Char
  /-- Characters passed so far. -/
  index : Nat
  line : Nat
  col : Nat
  /-- Only blanks so far on this line. -/
  fresh : Bool
  deriving Repr

namespace Cursor

def ofText (s : String) : Cursor := ⟨s.toList, 0, 0, 0, true⟩

def peek (c : Cursor) : Char := c.rest.head?.getD endMark
def peekAt (c : Cursor) (n : Nat) : Char := (c.rest.drop n).head?.getD endMark

/-- Pass `n` characters of one line. -/
def pass (c : Cursor) (n : Nat) (fresh : Bool) : Cursor :=
  { c with rest := c.rest.drop n, index := c.index + n, col := c.col + n, fresh := fresh }

def passBlanks (c : Cursor) (n : Nat) : Cursor := c.pass n c.fresh
def passSolid (c : Cursor) (n : Nat) : Cursor := c.pass n false

/-- Pass one line break; a carriage return and the line feed after it are one. -/
def passBreak (c : Cursor) : Cursor :=
  let n := if c.peek = '\r' && c.peekAt 1 = '\n' then 2 else 1
  { c with
    rest := c.rest.drop n, index := c.index + n, line := c.line + 1, col := 0, fresh := true }

/-- Characters left, a bound for every loop over them. -/
def remaining (c : Cursor) : Nat := c.rest.length

/-- The run of characters in front that satisfy `p`. -/
def run (c : Cursor) (p : Char → Bool) : List Char := c.rest.takeWhile fun d => p d && !isEnd d

/-- `---` or `...` alone at the start of a line. -/
def atDocumentMark (c : Cursor) : Bool :=
  let three := fun d => c.peek = d && c.peekAt 1 = d && c.peekAt 2 = d
  c.col = 0 && (three '-' || three '.') && isGapOrEnd (c.peekAt 3)

/-! ## Blanks and comments -/

def passComment (c : Cursor) : Cursor := c.passSolid (c.run fun d => !isBreak d).length

/-- What was found between two tokens of one line. -/
structure Spacing where
  spaces : Bool
  tabs : Bool

/-- Pass blanks and a comment up to the end of the line or the next token.  A comment must be set
off by a blank. -/
def passSpacing (c : Cursor) (allowTabs : Bool) : Option (Cursor × Spacing) :=
  let blanks := c.run fun d => d = ' ' || (allowTabs && d = '\t')
  let found : Spacing := ⟨blanks.contains ' ', blanks.contains '\t'⟩
  let c := c.passBlanks blanks.length
  if c.peek = '#' then
    if found.spaces || found.tabs then some (c.passComment, found) else none
  else some (c, found)

end Cursor

end Federation.Yaml
