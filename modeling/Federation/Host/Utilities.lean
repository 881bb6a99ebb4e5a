/-
  The small programs that scripts call.

  Each takes its arguments, its input and the disk, and hands back what it wrote, how it ended and
  the disk it leaves.

  They take the place of the programs of a system, which are no part of the federation; no theorem
  speaks of what one of them does.
-/
import Federation.Disk.Tree
import Federation.Numeric.Decimal
import Federation.Text.Utf8

namespace Federation.Host

open Disk (Tree OsError Node)

/-- How a process ends. -/
inductive Ending where
  | exited (status : Nat)
  | killed (signal : Nat)
  deriving DecidableEq, Repr

/-- What a program did. -/
structure Work where
  out : List UInt8
  err : List UInt8
  ending : Ending
  tree : Tree

namespace Work

def quiet (tree : Tree) (status : Nat) : Work := ⟨[], [], .exited status, tree⟩

def saying (tree : Tree) (out : List UInt8) : Work := ⟨out, [], .exited 0, tree⟩

def complaining (tree : Tree) (status : Nat) (text : String) : Work :=
  ⟨[], utf8Encode (text ++ "\n"), .exited status, tree⟩

/-- Do one thing after another; the status is that of the worst. -/
def andThen (w : Work) (f : Tree → Work) : Work :=
  let v := f w.tree
  let ending :=
    match w.ending, v.ending with
    | .exited a, .exited b => .exited (max a b)
    | .exited _, e => e
    | e, _ => e
  ⟨w.out ++ v.out, w.err ++ v.err, ending, v.tree⟩

end Work

/-- How a path is quoted in a complaint. -/
def shownPath (path : String) : String := "'" ++ path ++ "'"

/-! ## Escapes -/

def octalDigits (limit : Nat) (cs : List Char) : List Char :=
  (cs.take limit).takeWhile fun c => decide ('0' ≤ c) && decide (c ≤ '7')

def octalValue (ds : List Char) : Nat := ds.foldl (fun n c => 8 * n + (c.toNat - 48)) 0

def escapeByte (c : Char) : Option UInt8 :=
  if c = 'n' then some 10
  else if c = 't' then some 9
  else if c = 'r' then some 13
  else if c = '\\' then some 92
  else if c = 'a' then some 7
  else if c = 'b' then some 8
  else if c = 'f' then some 12
  else if c = 'v' then some 11
  else none

/-- Text with backslash escapes.  Octal ones may need a zero in front. -/
def unescape (zeroFirst : Bool) : Nat → List Char → List UInt8
  | 0, _ => []
  | _, [] => []
  | fuel + 1, '\\' :: c :: rest =>
    match escapeByte c with
    | some b => b :: unescape zeroFirst fuel rest
    | none =>
      let digits := if zeroFirst then octalDigits 3 rest else octalDigits 3 (c :: rest)
      if zeroFirst && c = '0' then
        UInt8.ofNat (octalValue digits) :: unescape zeroFirst fuel (rest.drop digits.length)
      else if !zeroFirst && !digits.isEmpty then
        UInt8.ofNat (octalValue digits) :: unescape zeroFirst fuel ((c :: rest).drop digits.length)
      else 92 :: (utf8EncodeChar c ++ unescape zeroFirst fuel rest)
  | fuel + 1, c :: rest => utf8EncodeChar c ++ unescape zeroFirst fuel rest

def unescapeAll (zeroFirst : Bool) (s : String) : List UInt8 :=
  unescape zeroFirst s.toList.length s.toList

/-! ## Programs -/

def echo (args : List String) (t : Tree) : Work :=
  match args with
  | "-n" :: rest => .saying t (unescapeAll true (" ".intercalate rest))
  | _ => .saying t (unescapeAll true (" ".intercalate args) ++ [10])

/-- One pass over a format; conversions take arguments, missing ones are empty or zero. -/
def formatOnce : Nat → List Char → List String → List UInt8 × List String
  | 0, _, args => ([], args)
  | _, [], args => ([], args)
  | fuel + 1, '%' :: '%' :: rest, args =>
    let (out, args) := formatOnce fuel rest args
    (37 :: out, args)
  | fuel + 1, '%' :: 's' :: rest, args =>
    let (out, left) := formatOnce fuel rest args.tail
    (utf8Encode (args.head?.getD "") ++ out, left)
  | fuel + 1, '%' :: 'b' :: rest, args =>
    let (out, left) := formatOnce fuel rest args.tail
    (unescapeAll true (args.head?.getD "") ++ out, left)
  | fuel + 1, '%' :: 'd' :: rest, args =>
    let (out, left) := formatOnce fuel rest args.tail
    let n := ((args.head?.getD "0").toInt?).getD 0
    (utf8Encode (toString n) ++ out, left)
  | fuel + 1, '\\' :: c :: rest, args =>
    let digits := octalDigits 3 (c :: rest)
    let size := if (escapeByte c).isSome || digits.isEmpty then 1 else digits.length
    let (out, args) := formatOnce fuel ((c :: rest).drop size) args
    (unescape false 1 ('\\' :: (c :: rest).take size) ++ out, args)
  | fuel + 1, c :: rest, args =>
    let (out, args) := formatOnce fuel rest args
    (utf8EncodeChar c ++ out, args)

/-- The format is used again while it takes arguments. -/
def formatAll (format : List Char) : Nat → List String → List UInt8
  | 0, _ => []
  | fuel + 1, args =>
    let (out, left) := formatOnce format.length format args
    if left.isEmpty || left.length = args.length then out else out ++ formatAll format fuel left

def printf (args : List String) (t : Tree) : Work :=
  match args with
  | [] => .complaining t 2 "printf: usage: printf format [arg ...]"
  | format :: rest => .saying t (formatAll format.toList (rest.length + 1) rest)

def catOne (input : List UInt8) (path : String) (t : Tree) : Work :=
  if path = "-" then .saying t input
  else
    match t.read path with
    | .ok bytes => .saying t bytes
    | .error e => .complaining t 1 ("cat: " ++ path ++ ": " ++ e.text)

def cat (args : List String) (input : List UInt8) (t : Tree) : Work :=
  if args.isEmpty then .saying t input
  else args.foldl (fun w path => w.andThen (catOne input path)) (.quiet t 0)

def touchOne (path : String) (t : Tree) : Work :=
  if t.exists? path then .quiet t 0
  else
    match t.overwrite path 0o666 [] with
    | .ok t => .quiet t 0
    | .error e => .complaining t 1 ("touch: cannot touch " ++ shownPath path ++ ": " ++ e.text)

def touch (args : List String) (t : Tree) : Work :=
  args.foldl (fun w path => w.andThen (touchOne path)) (.quiet t 0)

/-- Where a copy goes: into a directory under its own name, else to the path itself. -/
def copyTarget (t : Tree) (source target : String) : String :=
  if t.directory? target then
    joinPath target (((fileName? source.toList).map String.ofList).getD "")
  else target

def cp (args : List String) (t : Tree) : Work :=
  match args with
  | [source, target] =>
    match t.find source with
    | .error e => .complaining t 1 ("cp: cannot stat " ++ shownPath source ++ ": " ++ e.text)
    | .ok (_, .directory _) =>
      .complaining t 1 ("cp: -r not specified; omitting directory " ++ shownPath source)
    | .ok (_, .file bytes mode) =>
      let target := copyTarget t source target
      match t.overwrite target mode bytes with
      | .ok t => .quiet t 0
      | .error e =>
        .complaining t 1 ("cp: cannot create regular file " ++ shownPath target ++ ": " ++ e.text)
  | [] => .complaining t 1 "cp: missing file operand"
  | _ => .complaining t 1 "cp: missing destination file operand"

def mv (args : List String) (t : Tree) : Work :=
  match args with
  | [source, target] =>
    let goal := copyTarget t source target
    match t.rename source goal with
    | .ok t => .quiet t 0
    | .error e => .complaining t 1 ("mv: cannot stat " ++ shownPath source ++ ": " ++ e.text)
  | _ => .complaining t 1 "mv: missing file operand"

def rmOne (force : Bool) (path : String) (t : Tree) : Work :=
  match t.remove path with
  | .ok t => .quiet t 0
  | .error .notFound =>
    if force then .quiet t 0
    else .complaining t 1 ("rm: cannot remove " ++ shownPath path ++ ": " ++ OsError.notFound.text)
  | .error e => .complaining t 1 ("rm: cannot remove " ++ shownPath path ++ ": " ++ e.text)

def rm (args : List String) (t : Tree) : Work :=
  let force := args.contains "-f"
  (args.filter (· ≠ "-f")).foldl (fun w path => w.andThen (rmOne force path)) (.quiet t 0)

def mkdirOne (path : String) (t : Tree) : Work :=
  match t.makeDirectory path 0o777 with
  | .ok t => .quiet t 0
  | .error e =>
    .complaining t 1 ("mkdir: cannot create directory " ++ shownPath path ++ ": " ++ e.text)

def mkdir (args : List String) (t : Tree) : Work :=
  args.foldl (fun w path => w.andThen (mkdirOne path)) (.quiet t 0)

/-- A program by its name, if there is one. -/
def utility? (name : String) : Option (List String → List UInt8 → Tree → Work) :=
  match name with
  | "true" => some fun _ _ t => .quiet t 0
  | "false" => some fun _ _ t => .quiet t 1
  | "echo" => some fun args _ t => echo args t
  | "printf" => some fun args _ t => printf args t
  | "cat" => some cat
  | "cp" => some fun args _ t => cp args t
  | "mv" => some fun args _ t => mv args t
  | "rm" => some fun args _ t => rm args t
  | "mkdir" => some fun args _ t => mkdir args t
  | "touch" => some fun args _ t => touch args t
  | "sleep" => some fun _ _ t => .quiet t 0
  | _ => none

end Federation.Host
