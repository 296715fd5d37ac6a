import GameInstaller.Process.Image
import GameInstaller.Shell.Command
import GameInstaller.Shell.Expand
import GameInstaller.Shell.Tool

/-! # Running commands

The meaning of commands.  `step` gives a command's effect in terms of an evaluator for the commands
inside it, and `eval` closes that knot with a bound on the depth.

* `step`       the effect of a command, given that of the commands inside it
* `eval`       the effect of a command, and its status
* `runLoaded`  the effect of a program -/

namespace GameInstaller.Shell

open Disk (Errno IoError)

/-- What evaluates the commands inside a command. -/
abbrev Evaluator := Streams → Command → Eval Nat

/-- Report a failure of the shell at a line. -/
def complain (io : Streams) (line : Nat) (text : String) : Eval Unit := do
  say io.complaint ((← get).name ++ s!": {line}: " ++ text ++ "\n")

/-- An action as part of a process of its own: of what it changes, only the disk and what was
    written stay. -/
def apartWith (killed : Nat → Eval Nat) (x : Eval Nat) : Eval Nat := do
  let before ← get
  let (r, after) := StateT.run (ExceptT.run x) before
  set { before with
    disk := { after.disk with working := before.disk.working }
    output := after.output, complaint := after.complaint, input := after.input }
  match r with
  | .ok n => pure n
  | .error (.exit n) => pure (n % 256)
  | .error (.leaveFunction n) => pure (n % 256)
  | .error (.killed signal) => killed signal
  | .error _ => pure 0

/-- Commands in a copy of the shell, which go by the shell's own process number: a signal that they
    send there ends the shell. -/
def apart (x : Eval Nat) : Eval Nat := apartWith (fun signal => throw (.killed signal)) x

/-- How a shell reports that a program was ended by a signal. -/
def signalReports : List (Nat × String) :=
  [(1, "Hangup"), (3, "Quit"), (4, "Illegal instruction"), (6, "Aborted"), (8, "Floating point exception"),
   (9, "Killed"), (10, "User defined signal 1"), (11, "Segmentation fault"),
   (12, "User defined signal 2"), (14, "Alarm clock"), (15, "Terminated")]

/-- A program in a process of its own. -/
def inProcess (io : Streams) (x : Eval Nat) : Eval Nat :=
  apartWith (fun signal => do
    match signalReports.find? fun (n, _) => n == signal with
    | some (_, text) => say io.complaint (text ++ "\n")
    | none => pure ()
    pure (128 + signal)) x

/-- An action that is looked at: its failure does not end the shell. -/
def looking {α : Type} (x : Eval α) : Eval α := do
  let before := (← get).tested
  modify fun s => { s with tested := true }
  let a ← x
  modify fun s => { s with tested := before }
  pure a

/-- Commands line by line. -/
def evalLines (eval : Evaluator) (io : Streams) : Nat → Nat → List Token → Eval Nat
  | 0, status, _ => pure status
  | n + 1, status, ts =>
    match Command.line ts with
    | .ok none => pure status
    | .ok (some (c, rest)) => do
      let status ← eval io c
      modify fun s => { s with status }
      evalLines eval io n status rest
    | .error e => do
      complain io e.line e.text
      throw (.exit 2)

/-- The commands of a text. -/
def evalText (eval : Evaluator) (io : Streams) (script : List Char) : Eval Nat :=
  let ts := tokens script
  evalLines eval io (ts.length + 1) 0 ts

/-- What a script writes. -/
def capture (eval : Evaluator) (io : Streams) : Capture := fun script => do
  let before := (← get).output
  modify fun s => { s with output := ByteArray.empty }
  let status ← apart (evalText eval { io with output := .output } script)
  let written := (← get).output
  modify fun s => { s with output := before, status }
  pure written

/-- Run the shell as a program. -/
def runShell (eval : Evaluator) (io : Streams) (argv : List String) : Eval Nat := do
  let name := argv.headD Disk.shellTool
  modify fun s => s.assign "PWD" (workingPath s.disk) false
  match argv.drop 1 with
  | "-c" :: script :: rest =>
    modify fun s => { s with name := rest.headD name, args := rest.drop 1 }
    evalText eval io script.toList
  | "-c" :: [] =>
    say io.complaint (name ++ ": 0: -c requires an argument\n")
    pure 2
  | path :: rest =>
    match ← onDisk (Disk.readBytes ⟨path⟩) with
    | .ok content =>
      modify fun s => { s with name := path, args := rest }
      evalText eval io (Text.lossy content).toList
    | .error _ =>
      say io.complaint (name ++ ": 0: cannot open " ++ path ++ ": No such file\n")
      pure 2
  | [] => do
    let input := (← get).input
    modify fun s => { s with input := [] }
    evalText eval io (Text.lossy ⟨input.toArray⟩).toList

/-- The status of a program that was not loaded, and how that is reported. -/
def loadFailure (e : Errno) : Nat × String :=
  match e with
  | .noEntry => (127, "not found")
  | .notDirectory => (127, "not found")
  | e => (126, e.wording)

/-- Whether an argument gives a variable a value. -/
def isAssignment (a : String) : Bool := a.toList.contains '='

/-- Run what was loaded, in place of the current program, by way of at most `depth` changes of the
    environment. -/
def runLoadedWith (eval : Evaluator) (io : Streams) (depth : Nat) (l : Loaded) : Eval Nat := do
  modify fun s => { s with vars := s.vars.filter (·.exported), functions := [], strict := false,
                           tested := false }
  let args := l.argv.drop 1
  match depth, l.tool, args.dropWhile isAssignment with
  | depth + 1, "env", program :: rest =>
    exportAll (args.takeWhile isAssignment)
    let s ← get
    match s.disk.loadProgram true s.environment program rest with
    | .ok l => runLoadedWith eval io depth l
    | .error e =>
      say io.complaint ("env: '" ++ program ++ "': " ++ e.wording ++ "\n")
      pure (loadFailure e).1
  | _, tool, _ =>
    if tool = Disk.shellTool then runShell eval io l.argv else runTool io tool args

/-- Run what was loaded, in place of the current program. -/
def runLoaded (eval : Evaluator) (io : Streams) (l : Loaded) : Eval Nat :=
  runLoadedWith eval io (l.argv.length + 1) l

/-- Run a program to its end. -/
def runProgram (eval : Evaluator) (io : Streams) (line : Nat) (program : String)
    (args : List String) : Eval Nat := do
  let s ← get
  match s.disk.loadProgram true s.environment program args with
  | .ok l => inProcess io (runLoaded eval io l)
  | .error e =>
    let (status, text) := loadFailure e
    complain io line (program ++ ": " ++ text)
    pure status

/-- Run a program in place of the shell. -/
def execute (eval : Evaluator) (io : Streams) (line : Nat) (program : String)
    (args : List String) : Eval Nat := do
  let s ← get
  match s.disk.loadProgram true s.environment program args with
  | .ok l =>
    let status ← runLoaded eval io l
    throw (.exit status)
  | .error e =>
    let (status, text) := loadFailure e
    complain io line ("exec: " ++ program ++ ": " ++ text)
    throw (.exit status)

/-- The largest number that the shell takes as an argument. -/
def maxNumber : Nat := 2147483647

/-- Leave the shell, or a function of it, with a status. -/
def leave (io : Streams) (line : Nat) (program : String) (how : Nat → Stop) (args : List String) :
    Eval Nat := do
  match args with
  | [] => throw (how (← get).status)
  | a :: _ =>
    match a.toNat?.filter (· ≤ maxNumber) with
    | some n => throw (how (n % 256))
    | none =>
      complain io line (program ++ ": Illegal number: " ++ a)
      throw (.exit 2)

/-- Drop arguments. -/
def shiftArgs (io : Streams) (line : Nat) (count : String) : Eval Nat := do
  let s ← get
  match count.toNat?.filter (· ≤ maxNumber) with
  | none =>
    complain io line ("shift: Illegal number: " ++ count)
    throw (.exit 2)
  | some n =>
    if s.args.length < n then
      complain io line "shift: can't shift that many"
      throw (.exit 2)
    else
      set { s with args := s.args.drop n }
      pure 0

/-- Run the commands of a file in the shell itself. -/
def source (eval : Evaluator) (io : Streams) (line : Nat) (path : String) : Eval Nat := do
  match ← onDisk (Disk.readBytes ⟨path⟩) with
  | .ok content => evalText eval io (Text.lossy content).toList
  | .error _ =>
    complain io line (".: cannot open " ++ path ++ ": No such file")
    throw (.exit 2)

/-- The commands that the shell itself knows. -/
def builtinNames : List String :=
  [":", ".", "true", "false", "echo", "printf", "test", "[", "pwd", "cd", "exit", "return", "break",
   "continue", "kill", "export", "unset", "shift", "set", "read", "exec", "eval", "umask", "wait",
   "trap", "command"]

/-- Show where the program of a name is. -/
def locate (io : Streams) (name : String) : Eval Nat := do
  let s ← get
  if builtinNames.contains name then
    say io.output (name ++ "\n")
    pure 0
  else
    match s.disk.findExecutable s.environment name with
    | some p =>
      say io.output (p.text ++ "\n")
      pure 0
    | none => pure 127

/-- Read a line into variables. -/
def readLine (names : List String) : Eval Nat := do
  let s ← get
  let line := s.input.takeWhile (· != 0x0A)
  let text := Text.lossy ⟨line.toArray⟩
  set { (names.foldl (fun s n => s.assign n (if some n = names.head? then text else "") false) s)
    with input := s.input.drop (line.length + 1) }
  pure (if s.input.isEmpty then 1 else 0)

/-- Change what the shell goes by. -/
def setOptions (args : List String) : Eval Nat := do
  match args with
  | "--" :: rest => modify fun s => { s with args := rest }
  | [] => pure ()
  | a :: rest =>
    if a.startsWith "-" then
      modify fun s => { s with strict := s.strict || a.toList.contains 'e' }
    else if a.startsWith "+" then
      modify fun s => { s with strict := s.strict && !a.toList.contains 'e' }
    else modify fun s => { s with args := a :: rest }
  pure 0

/-- The effect of a program or a builtin command with its arguments. -/
def invoke (eval : Evaluator) (io : Streams) (line : Nat) (program : String)
    (args : List String) : Eval Nat := do
  match program with
  | ":" => pure 0
  | "true" => pure 0
  | "false" => pure 1
  | "echo" => echo io args
  | "printf" => printf io args
  | "test" => testStatus args
  | "[" =>
    if args.getLast? = some "]" then testStatus args.dropLast
    else
      complain io line "[: missing ]"
      pure 2
  | "pwd" =>
    say io.output (workingPath (← get).disk ++ "\n")
    pure 0
  | "cd" =>
    let before ← get
    let target := args.headD ((before.valueOf "HOME").getD "")
    let status ← changeDir target
    if status ≠ 0 then complain io line ("cd: can't cd to " ++ target)
    else
      modify fun s => (s.assign "OLDPWD" (workingPath before.disk) false).assign "PWD"
        (workingPath s.disk) false
    pure status
  | "exit" => leave io line "exit" .exit args
  | "return" => leave io line "return" .leaveFunction args
  | "break" => throw .leaveLoop
  | "continue" => throw .nextRound
  | "kill" => kill processId args
  | "export" =>
    exportAll args
    pure 0
  | "unset" =>
    modify fun s => { s with vars := s.vars.filter fun v => !args.contains v.name }
    pure 0
  | "shift" => shiftArgs io line (args.headD "1")
  | "set" => setOptions args
  | "read" => readLine (args.filter fun a => !a.startsWith "-")
  | "exec" =>
    match args with
    | [] => pure 0
    | program :: rest => execute eval io line program rest
  | "eval" => evalText eval io (" ".intercalate args).toList
  | "umask" => pure 0
  | "wait" => pure 0
  | "trap" => pure 0
  | "." => source eval io line (args.headD "")
  | "command" =>
    match args with
    | "-v" :: name :: _ => locate io name
    | program :: rest => runProgram eval io line program rest
    | [] => pure 0
  | program => runProgram eval io line program args

/-- Run a function with arguments of its own. -/
def runFunction (eval : Evaluator) (io : Streams) (body : Command) (args : List String) :
    Eval Nat := do
  let before := (← get).args
  modify fun s => { s with args }
  let (r, s) := StateT.run (ExceptT.run (eval io body)) (← get)
  set { s with args := before }
  match r with
  | .ok n => pure n
  | .error (.leaveFunction n) => pure n
  | .error e => throw e

/-- The effect of a command by its name: a function, or what `invoke` runs. -/
def call (eval : Evaluator) (io : Streams) (line : Nat) (name : String) (args : List String) :
    Eval Nat := do
  match (← get).functions.find? fun (n, _) => n == name with
  | some (_, body) => runFunction eval io body args
  | none => invoke eval io line name args

/-- End a shell that does not go on after failures. -/
def failStrictly (status : Nat) : Eval Nat := do
  let s ← get
  if status ≠ 0 && s.strict && !s.tested then throw (.exit status) else pure status

/-- How a file that a redirection names was not opened. -/
def openFailure (creating : Bool) (e : IoError) : String :=
  match e with
  | .system .noEntry => if creating then "Directory nonexistent" else "No such file"
  | .system .notDirectory => if creating then "Directory nonexistent" else "No such file"
  | e => failureText e

/-- Open a file for writing. -/
def openSink (target : String) (append : Bool) : Eval (Except IoError Sink) := do
  if target = "/dev/null" then pure (.ok .nowhere)
  else
    match ← onDisk (if append then Disk.appendBytes ⟨target⟩ ByteArray.empty
        else Disk.writeBytes ⟨target⟩ ByteArray.empty) with
    | .error e => pure (.error e)
    | .ok () =>
      match (← get).disk.resolve .follow ⟨target⟩ with
      | .ok r => pure (.ok (.file r.location))
      | .error e => pure (.error e)

/-- Streams after one redirection; nothing when that failed, which was reported. -/
def redirected (eval : Evaluator) (io : Streams) (r : Redirect) : Eval (Option Streams) := do
  let target ← joined (capture eval io) r.target
  let put (sink : Sink) : Streams :=
    if r.stream = 2 then { io with complaint := sink }
    else if r.stream = 1 then { io with output := sink }
    else io
  match r.operator with
  | ">&" =>
    match target with
    | "1" => pure (some (put io.output))
    | "2" => pure (some (put io.complaint))
    | "-" => pure (some (put .nowhere))
    | _ => pure (some io)
  | "<&" => pure (some io)
  | "<" =>
    if target = "/dev/null" then
      modify fun s => { s with input := [] }
      pure (some io)
    else
      match ← onDisk (Disk.readBytes ⟨target⟩) with
      | .ok content =>
        modify fun s => { s with input := content.toList }
        pure (some io)
      | .error e =>
        complain io r.line ("cannot open " ++ target ++ ": " ++ openFailure false e)
        pure none
  | operator =>
    match ← openSink target (operator == ">>") with
    | .ok sink => pure (some (put sink))
    | .error e =>
      complain io r.line ("cannot create " ++ target ++ ": " ++ openFailure true e)
      pure none

/-- Streams after redirections, from left to right. -/
def redirectedAll (eval : Evaluator) (io : Streams) : List Redirect → Eval (Option Streams)
  | [] => pure (some io)
  | r :: rest => do
    match ← redirected eval io r with
    | some io => redirectedAll eval io rest
    | none => pure none

/-- The arm of a `case` whose pattern covers a text. -/
def chosen (eval : Evaluator) (io : Streams) (text : String) :
    List (List Word × Command) → Eval Command
  | [] => pure .skip
  | (ps, body) :: rest => do
    let fits ← ps.anyM fun p => do pure ((← pattern (capture eval io) p).covers text)
    if fits then pure body else chosen eval io text rest

/-- Give variables their values. -/
def assignAll (eval : Evaluator) (io : Streams) (exported : Bool) (as : List (String × Word)) :
    Eval Unit :=
  as.forM fun (name, w) => do
    let value ← joined (capture eval io) w
    modify fun s => s.assign name value exported

/-- A round of a loop: whether there is another one. -/
def loopRound (x : Eval Nat) : Eval (Bool × Nat) := do
  let (r, s) := StateT.run (ExceptT.run x) (← get)
  set s
  match r with
  | .ok n => pure (true, n)
  | .error .leaveLoop => pure (false, 0)
  | .error .nextRound => pure (true, 0)
  | .error e => throw e

/-- The body of a loop for every value. -/
def eachValue (eval : Evaluator) (io : Streams) (name : String) (body : Command) (status : Nat) :
    List String → Eval Nat
  | [] => pure status
  | v :: rest => do
    modify fun s => s.assign name v false
    let (more, status) ← loopRound (eval io body)
    if more then eachValue eval io name body status rest else pure status

/-- The effect of a simple command whose words are expanded. -/
def runSimple (eval : Evaluator) (io : Streams) (line : Nat) (assignments : List (String × Word)) :
    List String → Eval Nat
  | [] => do
    modify fun s => { s with status := 0 }
    assignAll eval io false assignments
    failStrictly (← get).status
  | program :: args => do
    if assignments.isEmpty then failStrictly (← call eval io line program args)
    else
      let before := (← get).vars
      assignAll eval io true assignments
      let status ← call eval io line program args
      modify fun s => { s with vars := before }
      failStrictly status

/-- An action with its streams redirected. -/
def withRedirects (eval : Evaluator) (io : Streams) (rs : List Redirect)
    (act : Streams → Eval Nat) : Eval Nat := do
  let before := (← get).input
  match ← redirectedAll eval io rs with
  | none => failStrictly 2
  | some io =>
    let status ← act io
    modify fun s => { s with input := before }
    pure status

/-- The effect of a command, given what evaluates the commands inside it.  The words of a simple
    command are expanded before its streams are redirected. -/
def step (eval : Evaluator) (io : Streams) : Command → Eval Nat
  | .skip => pure 0
  | .simple line assignments words => do
    runSimple eval io line assignments (← allFields (capture eval io) words)
  | .redirected (.simple line assignments words) rs => do
    let fields ← allFields (capture eval io) words
    withRedirects eval io rs fun io => runSimple eval io line assignments fields
  | .redirected c rs => withRedirects eval io rs fun io => eval io c
  | .subshell c => do failStrictly (← apart (eval io c))
  | .seq c .skip => eval io c
  | .seq c d => do
    let status ← eval io c
    modify fun s => { s with status }
    eval io d
  | .both c d => do
    let status ← looking (eval io c)
    modify fun s => { s with status }
    if status = 0 then eval io d else pure status
  | .either c d => do
    let status ← looking (eval io c)
    modify fun s => { s with status }
    if status = 0 then pure status else eval io d
  | .negated c => do
    let status ← looking (eval io c)
    pure (if status = 0 then 1 else 0)
  | .pipe c d => do
    let s ← get
    set { s with output := ByteArray.empty }
    let _ ← apart (looking (eval { io with output := .output } c))
    let written := (← get).output
    modify fun s' => { s' with output := s.output, input := written.toList }
    let status ← apart (looking (eval io d))
    modify fun s' => { s' with input := s.input }
    failStrictly status
  | .cond test yes no => do
    let status ← looking (eval io test)
    modify fun s => { s with status }
    if status = 0 then eval io yes else eval io no
  | .loop untilTrue test body => do
    let status ← looking (eval io test)
    if (status = 0) = !untilTrue then
      let (more, status) ← loopRound (eval io body)
      modify fun s => { s with status }
      if more then eval io (.loop untilTrue test body) else pure status
    else pure 0
  | .each name words body => do
    let values ← match words with
      | some ws => allFields (capture eval io) ws
      | none => pure (← get).args
    eachValue eval io name body 0 values
  | .choose subject arms => do
    let text ← joined (capture eval io) subject
    eval io (← chosen eval io text arms)
  | .define name body => do
    modify fun s => { s with functions := (name, body) :: s.functions }
    pure 0

/-- The signal that ends a program which runs too deep. -/
def depthSignal : Nat := 11

/-- The effect of a command, nested at most `depth` deep. -/
def eval : Nat → Evaluator
  | 0 => fun _ _ => throw (.killed depthSignal)
  | depth + 1 => step (eval depth)

/-- How deep commands may be nested, rounds of loops included. -/
def maxDepth : Nat := 10000

end GameInstaller.Shell
