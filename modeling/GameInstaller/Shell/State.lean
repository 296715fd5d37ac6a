import GameInstaller.Disk.Calls
import GameInstaller.Environment
import GameInstaller.Shell.Command

/-! # Running shells

What a running shell has at hand: the disk with its working directory, its variables and arguments,
what it can read, and what it has written so far.

* `State`  the shell
* `Sink`   where a stream goes
* `Eval`   an action of the shell, which may end it -/

namespace GameInstaller.Shell

/-- A variable; only an exported one is seen by the programs that the shell runs. -/
structure Variable where
  name : String
  value : String
  exported : Bool
  deriving DecidableEq, Repr

/-- A running shell, or any other program of the system. -/
structure State where
  disk : Disk
  vars : List Variable
  /-- Names that stand for commands, the latest first. -/
  functions : List (String × Command)
  /-- What the shell was called by. -/
  name : String
  args : List String
  /-- The status of the last command. -/
  status : Nat
  /-- What is left to read. -/
  input : List UInt8
  /-- What was written on the standard output. -/
  output : ByteArray
  /-- What was written on the error output. -/
  complaint : ByteArray
  /-- Whether a command that fails ends the shell. -/
  strict : Bool
  /-- Whether the status of the current command is being looked at. -/
  tested : Bool

/-- What ends a program, or a loop of it, before its last command. -/
inductive Stop where
  | exit (code : Nat)
  /-- The innermost loop is left. -/
  | leaveLoop
  /-- The innermost loop goes on with its next round. -/
  | nextRound
  /-- The innermost function is left. -/
  | leaveFunction (status : Nat)
  | killed (signal : Nat)
  deriving DecidableEq, Repr

/-- Where a stream goes. -/
inductive Sink where
  | nowhere
  | output
  | complaint
  | file (l : Location)
  deriving DecidableEq, Repr

/-- Where the output and the error output of a command go. -/
structure Streams where
  output : Sink
  complaint : Sink
  deriving Repr

/-- The streams of a new process. -/
def Streams.standard : Streams := ⟨.output, .complaint⟩

/-- An action of a running program. -/
abbrev Eval (α : Type) := ExceptT Stop (StateM State) α

/-- The action that changes only the disk, with its failure as a value. -/
def onDisk {α : Type} (x : Disk.Io α) : Eval (Except Disk.IoError α) := do
  let s ← get
  let (r, disk) := StateT.run (ExceptT.run x) s.disk
  set { s with disk }
  pure r

/-- Write bytes. -/
def writeTo (sink : Sink) (bytes : ByteArray) : Eval Unit :=
  match sink with
  | .nowhere => pure ()
  | .output => modify fun s => { s with output := s.output ++ bytes }
  | .complaint => modify fun s => { s with complaint := s.complaint ++ bytes }
  | .file l => modify fun s =>
    match s.disk.find? l with
    | some (.file content mode shared) =>
      { s with disk := s.disk.setContent l (content ++ bytes) mode shared }
    | _ => s

/-- Write text. -/
def say (sink : Sink) (text : String) : Eval Unit := writeTo sink text.toUTF8

/-- The value of a variable. -/
def State.valueOf (s : State) (name : String) : Option String :=
  (s.vars.find? fun v => v.name == name).map (·.value)

/-- The exported variables. -/
def State.environment (s : State) : Environment :=
  ⟨(s.vars.filter (·.exported)).map fun v => (v.name, v.value)⟩

/-- Variables with one of them changed, or a new one at the end. -/
def putVariable (name : String) (change : Option Variable → Variable) :
    List Variable → List Variable
  | [] => [change none]
  | v :: r => if v.name = name then change (some v) :: r else v :: putVariable name change r

/-- Give a variable a value. -/
def State.assign (s : State) (name value : String) (exported : Bool) : State :=
  { s with vars := putVariable name (fun
      | some v => ⟨name, value, v.exported || exported⟩
      | none => ⟨name, value, exported⟩) s.vars }

/-- The variables of an environment. -/
def variablesOf (env : Environment) : List Variable := env.vars.map fun (k, v) => ⟨k, v, true⟩

/-- The state of a new program. -/
def State.start (disk : Disk) (env : Environment) (name : String) (args : List String) : State :=
  { disk, vars := variablesOf env, functions := [], name, args, status := 0, input := [],
    output := ByteArray.empty, complaint := ByteArray.empty, strict := false, tested := false }

/-- The path of the working directory. -/
def workingPath (d : Disk) : String := "/" ++ "/".intercalate d.working

end GameInstaller.Shell
