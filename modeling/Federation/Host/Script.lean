/-
  Shell scripts: simple commands with quoting, parameters and redirections.

  * `Word`: text with parameters in it, of which only the unquoted part is split into fields;
  * `Command`: words and redirections, and the condition under which it runs;
  * `readScript`: the commands of a script.

  The shell belongs to the system and is no part of the federation.  What stands here and in the
  other modules of scripts and their programs takes its place when a trainer has to be run; no
  theorem speaks of it, and what is proved of a training run holds whatever the trainer does.
-/
import Federation.Text.CharClass

namespace Federation.Host

/-! ## Words -/

inductive Fragment where
  | text (chars : List Char)
  /-- A parameter by its name, such as `1` or `$`. -/
  | parameter (name : Char) (quoted : Bool)
  deriving DecidableEq, Repr

structure Word where
  fragments : List Fragment
  /-- Some of it was quoted, so that the word counts even when it is empty. -/
  quoted : Bool
  deriving DecidableEq, Repr

/-! ## Commands -/

inductive Redirect where
  | create (stream : Nat) (target : Word)
  | append (stream : Nat) (target : Word)
  | read (source : Word)
  /-- Send a stream where another one goes. -/
  | duplicate (stream target : Nat)
  deriving DecidableEq, Repr

/-- When a command runs, given how the one before it ended. -/
inductive Condition where
  | always
  | succeeded
  | failed
  deriving DecidableEq, Repr

structure Command where
  condition : Condition
  line : Nat
  words : List Word
  redirects : List Redirect
  deriving DecidableEq, Repr

/-! ## Reading words -/

/-- Parameters: the numbered ones, their number, all of them, the last status and the process. -/
def isParameterName (c : Char) : Bool :=
  (decide ('0' ≤ c) && decide (c ≤ '9')) || "#@*?$".toList.contains c

/-- A parameter after its dollar sign, braces allowed. -/
def readParameter : List Char → Option (Char × List Char)
  | '\x7b' :: c :: '\x7d' :: rest => if isParameterName c then some (c, rest) else none
  | c :: rest => if isParameterName c then some (c, rest) else none
  | [] => none

def singleQuote : Char := Char.ofNat 39

/-- Add characters to the last fragment. -/
def addText (c : Char) : List Fragment → List Fragment
  | .text cs :: fs => .text (c :: cs) :: fs
  | fs => .text [c] :: fs

/-- The characters after an opening double quote, with line breaks counted. -/
def readDouble : Nat → List Fragment → Nat → List Char → Option (List Fragment × Nat × List Char)
  | 0, _, _, _ => none
  | _, _, _, [] => none
  | fuel + 1, acc, line, c :: rest =>
    if c = '"' then some (acc, line, rest)
    else if c = '\\' then
      match rest with
      | d :: rest =>
        if d = '\n' then readDouble fuel acc (line + 1) rest
        else if d = '$' || d = '"' || d = '\\' || d = Char.ofNat 96 then
          readDouble fuel (addText d acc) line rest
        else readDouble fuel (addText d (addText '\\' acc)) line rest
      | [] => none
    else if c = '$' then
      match readParameter rest with
      | some (name, rest) => readDouble fuel (.parameter name true :: acc) line rest
      | none => readDouble fuel (addText c acc) line rest
    else readDouble fuel (addText c acc) (if c = '\n' then line + 1 else line) rest

def endsWord (c : Char) : Bool := " \t\n;&|<>".toList.contains c

/-- A word up to the character that ends it; fragments last one first, their characters too. -/
def readWord : Nat → List Fragment → Bool → Nat → List Char →
    Option (List Fragment × Bool × Nat × List Char)
  | 0, _, _, _, _ => none
  | _, acc, quoted, line, [] => some (acc, quoted, line, [])
  | fuel + 1, acc, quoted, line, c :: rest =>
    if endsWord c then some (acc, quoted, line, c :: rest)
    else if c = singleQuote then
      let (inner, rest) := rest.span (· ≠ singleQuote)
      if rest.isEmpty then none
      else
        let acc := inner.foldl (fun acc c => addText c acc) acc
        readWord fuel acc true (line + inner.count '\n') rest.tail
    else if c = '"' then
      match readDouble (rest.length + 1) acc line rest with
      | some (acc, line, rest) => readWord fuel acc true line rest
      | none => none
    else if c = '\\' then
      match rest with
      | '\n' :: rest => readWord fuel acc quoted (line + 1) rest
      | d :: rest => readWord fuel (addText d acc) true line rest
      | [] => some (addText c acc, quoted, line, [])
    else if c = '$' then
      match readParameter rest with
      | some (name, rest) => readWord fuel (.parameter name false :: acc) quoted line rest
      | none => readWord fuel (addText c acc) quoted line rest
    else readWord fuel (addText c acc) quoted line rest

def fragmentInOrder : Fragment → Fragment
  | .text cs => .text cs.reverse
  | f => f

def wordOf (acc : List Fragment) (quoted : Bool) : Word :=
  ⟨(acc.map fragmentInOrder).reverse, quoted⟩

/-! ## Reading commands -/

/-- A command being read. -/
structure Draft where
  condition : Condition
  words : List Word
  redirects : List Redirect

def Draft.start (c : Condition) : Draft := ⟨c, [], []⟩

def Draft.finish (d : Draft) (line : Nat) : List Command :=
  if d.words.isEmpty && d.redirects.isEmpty then []
  else [⟨d.condition, line, d.words.reverse, d.redirects.reverse⟩]

/-- The stream number written in front of a redirection, or its usual one. -/
def streamOf (acc : List Fragment) (quoted : Bool) (usual : Nat) : Option Nat :=
  match acc, quoted with
  | [], false => some usual
  | [.text [c]], false => if c.isDigit then some (c.toNat - 48) else none
  | _, _ => none

def skipBlanks (cs : List Char) : List Char := cs.dropWhile fun c => c = ' ' || c = '\t'

/-- A redirection at its first sign. -/
def readRedirect (stream : Option Nat) (line : Nat) :
    List Char → Option (Redirect × Nat × List Char)
  | '>' :: '&' :: d :: rest =>
    if d.isDigit then some (.duplicate (stream.getD 1) (d.toNat - 48), line, rest) else none
  | '>' :: '>' :: rest => target (.append (stream.getD 1)) (skipBlanks rest)
  | '>' :: rest => target (.create (stream.getD 1)) (skipBlanks rest)
  | '<' :: rest => target .read (skipBlanks rest)
  | _ => none
where
  target (make : Word → Redirect) (cs : List Char) : Option (Redirect × Nat × List Char) :=
    match readWord (cs.length + 1) [] false line cs with
    | some (acc, quoted, line, rest) =>
      if acc.isEmpty && !quoted then none else some (make (wordOf acc quoted), line, rest)
    | none => none

/-- Commands one after the other; those that were complete before an error of form still count. -/
def readCommands : Nat → Draft → Nat → List Char → List Command × Bool
  | 0, _, _, _ => ([], false)
  | _, d, line, [] => (d.finish line, true)
  | fuel + 1, d, line, c :: rest =>
    let next := fun (condition : Condition) (line' : Nat) (rest : List Char) =>
      let (cmds, ok) := readCommands fuel (.start condition) line' rest
      (d.finish line ++ cmds, ok)
    if c = ' ' || c = '\t' then readCommands fuel d line rest
    else if c = '\n' then
      if d.words.isEmpty && d.redirects.isEmpty then readCommands fuel d (line + 1) rest
      else next .always (line + 1) rest
    else if c = '#' then readCommands fuel d line (rest.dropWhile (· ≠ '\n'))
    else if c = ';' then next .always line rest
    else if c = '&' && rest.head? = some '&' then next .succeeded line rest.tail
    else if c = '|' && rest.head? = some '|' then next .failed line rest.tail
    else if c = '&' || c = '|' then ([], false)
    else if c = '<' || c = '>' then
      match readRedirect none line (c :: rest) with
      | some (r, line, rest) =>
        readCommands fuel { d with redirects := r :: d.redirects } line rest
      | none => ([], false)
    else
      match readWord (rest.length + 2) [] false line (c :: rest) with
      | none => ([], false)
      | some (acc, quoted, line, rest) =>
        let isRedirect := rest.head? = some '<' || rest.head? = some '>'
        match if isRedirect then streamOf acc quoted 1 else none with
        | some n =>
          match readRedirect (some n) line rest with
          | some (r, line, rest) =>
            readCommands fuel { d with redirects := r :: d.redirects } line rest
          | none => ([], false)
        | none => readCommands fuel { d with words := wordOf acc quoted :: d.words } line rest

/-- The commands of a script, and whether all of it could be read. -/
def readScript (cs : List Char) : List Command × Bool :=
  readCommands (2 * cs.length + 2) (.start .always) 1 cs

end Federation.Host
