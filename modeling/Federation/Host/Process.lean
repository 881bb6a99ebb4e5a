/-
  Running programs: the shell, and starting a program by its path.

  * `runScript`: a script with its arguments;
  * `launch`: a program and its arguments, as the trainer starts them;
  * `Ending.display`: how the end of a process is reported.

  The way a script is run takes the place of the system's own, as the programs it calls do.
-/
import Federation.Host.Script
import Federation.Host.Utilities

namespace Federation.Host

open Disk (Tree OsError Node)

/-! ## Endings -/

def signalName (n : Nat) : String :=
  match n with
  | 1 => "SIGHUP"
  | 2 => "SIGINT"
  | 3 => "SIGQUIT"
  | 4 => "SIGILL"
  | 5 => "SIGTRAP"
  | 6 => "SIGABRT"
  | 7 => "SIGBUS"
  | 8 => "SIGFPE"
  | 9 => "SIGKILL"
  | 10 => "SIGUSR1"
  | 11 => "SIGSEGV"
  | 12 => "SIGUSR2"
  | 13 => "SIGPIPE"
  | 14 => "SIGALRM"
  | 15 => "SIGTERM"
  | _ => ""

namespace Ending

def isSuccess (e : Ending) : Bool := decide (e = .exited 0)

def display : Ending → String
  | exited n => s!"exit status: {n}"
  | killed n =>
    if (signalName n).isEmpty then s!"signal: {n}" else s!"signal: {n} (" ++ signalName n ++ ")"

end Ending

/-! ## The shell -/

structure Shell where
  tree : Tree
  out : List UInt8
  err : List UInt8
  /-- Status of the last command. -/
  status : Nat

/-- What a script was called with; `name` is how it calls itself. -/
structure Invocation where
  name : String
  args : List String

/-- The shell's own process number, which no path or option looks like. -/
def processNumber : String := "4242"

namespace Invocation

/-- The value of a parameter. -/
def parameter (i : Invocation) (status : Nat) (name : Char) : String :=
  if name = '0' then i.name
  else if name.isDigit then i.args.getD (name.toNat - 49) ""
  else if name = '#' then toString i.args.length
  else if name = '?' then toString status
  else if name = '$' then processNumber
  else " ".intercalate i.args

/-- Cut at white space; the first piece continues what came before. -/
def splitBlanks : List Char → List (List Char)
  | [] => [[]]
  | c :: cs =>
    if c = ' ' || c = '\t' || c = '\n' then [] :: splitBlanks cs
    else
      match splitBlanks cs with
      | [] => [[c]]
      | s :: ss => (c :: s) :: ss

/-- A word as one text, without splitting. -/
def joined (i : Invocation) (status : Nat) (w : Word) : String :=
  String.ofList (w.fragments.flatMap fun f =>
    match f with
    | .text cs => cs
    | .parameter name _ => (i.parameter status name).toList)

/-- A word as fields: parameters outside quotes are split, all others are taken whole. -/
def fields (i : Invocation) (status : Nat) (w : Word) : List String :=
  let pieces := w.fragments.map fun f =>
    match f with
    | .text cs => [cs]
    | .parameter name quoted =>
      if quoted then [(i.parameter status name).toList]
      else splitBlanks (i.parameter status name).toList
  let glue := fun (acc : List (List Char)) (ps : List (List Char)) =>
    match acc.reverse, ps with
    | last :: before, p :: more => before.reverse ++ (last ++ p) :: more
    | _, _ => acc
  let all := (pieces.foldl glue [[]]).map String.ofList
  if w.quoted then all else all.filter (!·.isEmpty)

end Invocation

/-! ## Redirections -/

/-- Where a stream goes. -/
inductive Sink where
  | out
  | err
  | file (path : String)
  | nowhere
  deriving DecidableEq

structure Streams where
  out : Sink
  err : Sink
  input : List UInt8
  tree : Tree

def nullDevice : String := "/dev/null"

def Streams.sink (s : Streams) (n : Nat) : Sink := if n = 2 then s.err else s.out

def Streams.setSink (s : Streams) (n : Nat) (k : Sink) : Streams :=
  if n = 2 then { s with err := k } else { s with out := k }

/-- Open one redirection, or say why it cannot be. -/
def openRedirect (i : Invocation) (status : Nat) (s : Streams) : Redirect → Except String Streams
  | .duplicate n m => .ok (s.setSink n (s.sink m))
  | .read source =>
    let path := i.joined status source
    if path = nullDevice then .ok { s with input := [] }
    else
      match s.tree.read path with
      | .ok bytes => .ok { s with input := bytes }
      | .error e => .error ("cannot open " ++ path ++ ": " ++ reason "No such file" e)
  | .create n target =>
    let path := i.joined status target
    if path = nullDevice then .ok (s.setSink n .nowhere)
    else
      match s.tree.overwrite path 0o666 [] with
      | .ok t => .ok ({ s with tree := t }.setSink n (.file path))
      | .error e =>
        .error ("cannot create " ++ path ++ ": " ++ reason "Directory nonexistent" e)
  | .append n target =>
    let path := i.joined status target
    if path = nullDevice then .ok (s.setSink n .nowhere)
    else
      let old := (s.tree.read path).toOption.getD []
      match s.tree.overwrite path 0o666 old with
      | .ok t => .ok ({ s with tree := t }.setSink n (.file path))
      | .error e =>
        .error ("cannot create " ++ path ++ ": " ++ reason "Directory nonexistent" e)
where
  reason (missing : String) : OsError → String
    | .notFound => missing
    | e => e.text

def openAll (i : Invocation) (status : Nat) : Streams → List Redirect → Except String Streams
  | s, [] => .ok s
  | s, r :: rs => (openRedirect i status s r).bind fun s => openAll i status s rs

/-- Deliver what a program wrote to a stream. -/
def deliver (sh : Shell) (sink : Sink) (bytes : List UInt8) : Shell :=
  match sink with
  | .out => { sh with out := sh.out ++ bytes }
  | .err => { sh with err := sh.err ++ bytes }
  | .nowhere => sh
  | .file path =>
    let old := (sh.tree.read path).toOption.getD []
    match sh.tree.overwrite path 0o666 (old ++ bytes) with
    | .ok t => { sh with tree := t }
    | .error _ => sh

/-! ## Commands of the shell itself -/

def signalNumber (s : String) : Option Nat :=
  match s.toNat? with
  | some n => some n
  | none =>
    ((List.range 16).drop 1).find? fun n => signalName n = "SIG" ++ s || signalName n = s

/-- The signal that a `kill` of the shell itself sends. -/
def ownSignal (args : List String) : Option Nat :=
  match args with
  | [pid] => if pid = processNumber then some 15 else none
  | ["-s", name, pid] => if pid = processNumber then signalNumber name else none
  | [option, pid] =>
    if pid = processNumber && option.toList.head? = some '-' then
      signalNumber (String.ofList option.toList.tail)
    else none
  | _ => none

/-- Exit with a status, the last one when none is given. -/
def exitStatus (args : List String) (last : Nat) : Nat :=
  match args with
  | [] => last
  | s :: _ => ((s.toNat?).getD 2) % 256

/-- The name of a program without the directories it is usually found in. -/
def programName (s : String) : String :=
  let strip := fun (front : String) =>
    if front.toList.isPrefixOf s.toList then some (String.ofList (s.toList.drop front.length))
    else none
  ((strip "/bin/").orElse fun _ => strip "/usr/bin/").getD s

/-- A command that is no program of its own, or a program that is there. -/
def runProgram (sh : Shell) (line : Nat) (i : Invocation) (input : List UInt8) (t : Tree)
    (name : String) (args : List String) : Work :=
  match name with
  | ":" | "set" | "umask" | "trap" | "export" => .quiet t 0
  | "exit" => ⟨[], [], .exited (exitStatus args sh.status), t⟩
  | "kill" =>
    match ownSignal args with
    | some n => ⟨[], [], if n = 0 then .exited 0 else .killed n, t⟩
    | none => .complaining t 1 (i.name ++ s!": {line}: kill: No such process")
  | _ =>
    match utility? (programName name) with
    | some f => f args input t
    | none => .complaining t 127 (i.name ++ s!": {line}: " ++ name ++ ": not found")

/-- Run one command; the ending is given when the script stops there. -/
def runCommand (i : Invocation) (sh : Shell) (c : Command) : Shell × Option Ending :=
  match openAll i sh.status ⟨.out, .err, [], sh.tree⟩ c.redirects with
  | .error text =>
    let sh := deliver sh .err (utf8Encode (i.name ++ s!": {c.line}: " ++ text ++ "\n"))
    ({ sh with status := 2 }, none)
  | .ok s =>
    let words := c.words.flatMap (i.fields sh.status)
    match words with
    | [] => ({ sh with tree := s.tree, status := 0 }, none)
    | name :: args =>
      let w := runProgram sh c.line i s.input s.tree name args
      let sh' := deliver (deliver { sh with tree := w.tree } s.out w.out) s.err w.err
      match w.ending with
      | .killed n => (sh', some (.killed n))
      | .exited n =>
        let sh' := { sh' with status := n }
        (sh', if name = "exit" then some (.exited n) else none)

def shouldRun (sh : Shell) : Condition → Bool
  | .always => true
  | .succeeded => sh.status = 0
  | .failed => sh.status ≠ 0

def runCommands (i : Invocation) : Shell → List Command → Shell × Ending
  | sh, [] => (sh, .exited sh.status)
  | sh, c :: cs =>
    if shouldRun sh c.condition then
      match runCommand i sh c with
      | (sh, some ending) => (sh, ending)
      | (sh, none) => runCommands i sh cs
    else runCommands i sh cs

/-- Run the text of a script. -/
def runScript (i : Invocation) (text : List UInt8) (t : Tree) : Work :=
  let (commands, whole) := readScript (utf8LossyChars text)
  let (sh, ending) := runCommands i ⟨t, [], [], 0⟩ commands
  if whole then ⟨sh.out, sh.err, ending, sh.tree⟩
  else
    ⟨sh.out, sh.err ++ utf8Encode (i.name ++ ": 1: Syntax error\n"), .exited 2, sh.tree⟩

/-- The shell as a program: a script and its arguments. -/
def shellProgram (self : String) (args : List String) (t : Tree) : Work :=
  match args with
  | [] => .quiet t 0
  | script :: rest =>
    match t.read script with
    | .ok text => runScript ⟨script, rest⟩ text t
    | .error .isDirectory => .quiet t 0
    | .error _ => .complaining t 2 (self ++ ": 0: cannot open " ++ script ++ ": No such file")

/-! ## Starting programs -/

def isShell (name : String) : Bool := name = "sh" || name = "dash"

/-- A program of the system, by its name without directories. -/
def systemProgram (self name : String) (args : List String) (t : Tree) : Option Work :=
  if isShell name then some (shellProgram self args t)
  else (utility? name).map fun f => f args [] t

def isExecutable (mode : Nat) : Bool := mode &&& 0o111 ≠ 0

/-- The interpreter a file names on its first line, with at most one argument. -/
def interpreterLine (text : List UInt8) : Option (String × List String) :=
  match text with
  | 35 :: 33 :: rest =>
    let line := (utf8LossyChars (rest.takeWhile (· ≠ 10))).dropWhile (· = ' ')
    let (name, more) := line.span fun c => c ≠ ' ' && c ≠ '\t'
    let more := more.dropWhile fun c => c = ' ' || c = '\t'
    let more := (more.reverse.dropWhile fun c => c = ' ' || c = '\t').reverse
    if name.isEmpty then none
    else some (String.ofList name, if more.isEmpty then [] else [String.ofList more])
  | _ => none

/-- Start a program.  A name without a slash is searched for among the system's programs. -/
def launch (program : String) (args : List String) (t : Tree) : Except OsError Work :=
  let system := systemProgram program (programName program) args t
  let isPath := program.toList.contains '/'
  if !isPath || programName program ≠ program then
    match system with
    | some w => .ok w
    | none => .error .notFound
  else
    match t.find program with
    | .error e => .error e
    | .ok (_, .directory _) => .error .permissionDenied
    | .ok (_, .file text mode) =>
      if !isExecutable mode then .error .permissionDenied
      else
        match interpreterLine text with
        | none => .error .badExecutable
        | some (name, extra) =>
          match systemProgram name (programName name) (extra ++ program :: args) t with
          | some w => .ok w
          | none => .error .notFound

end Federation.Host
