import GameInstaller.Command.Bind

/-! # Errors of an install attempt

Every error is of one of four sorts: the text is no recipe, expected metadata is missing, a step
names no operation, or an operation failed.  Metadata errors and an existing target are advisory:
they are recorded and the phase goes on.  All others stop it. -/

namespace GameInstaller

/-- How an error affects the phase it arises in. -/
inductive Severity where
  /-- Recorded; the phase goes on. -/
  | advisory
  /-- Stops the phase at once. -/
  | fatal
  deriving DecidableEq, Repr

/-- The word for a severity. -/
def Severity.name : Severity → String
  | advisory => "advisory"
  | fatal => "fatal"

/-- Expected metadata is missing or malformed. -/
structure ValidationError where
  message : String
  field : Option String
  deriving DecidableEq, Repr

namespace ValidationError

/-- A required field is not there. -/
def missingField (field : String) : ValidationError :=
  ⟨s!"missing required field '{field}'", some field⟩

/-- The game's slug is not one path component. -/
def invalidSlug (slug : String) : ValidationError :=
  ⟨s!"game_slug '{slug}' must be letters, digits, '-', '_' or '.' and not start with '.'",
   some "game_slug"⟩

end ValidationError

/-- A step cannot be turned into an operation. -/
structure ScriptingError where
  message : String
  step : Option Nat
  command : Option String
  deriving DecidableEq, Repr

namespace ScriptingError

/-- An error that belongs to no step yet. -/
def new (message : String) : ScriptingError := ⟨message, none, none⟩

/-- A name that is not in the command table.  Leading underscores are not echoed. -/
def unknownCommand (name : String) : ScriptingError :=
  let shown := String.ofList (name.toList.dropWhile (· == '_'))
  ⟨s!"The command {shown} does not exists", none, some name⟩

/-- The same error, at a step. -/
def atStep (e : ScriptingError) (index : Nat) (command : String) : ScriptingError :=
  ⟨e.message, some index, some command⟩

end ScriptingError

/-- Why an operation failed. -/
inductive FailureKind where
  | notFound
  | permissionDenied
  | alreadyExists
  | io
  | process
  | checksum
  | runner
  | config
  deriving DecidableEq, Repr

namespace FailureKind

/-- The word for a kind. -/
def name : FailureKind → String
  | notFound => "not-found"
  | permissionDenied => "permission-denied"
  | alreadyExists => "already-exists"
  | io => "io"
  | process => "process"
  | checksum => "checksum"
  | runner => "runner"
  | config => "config"

/-- All kinds. -/
def all : List FailureKind :=
  [notFound, permissionDenied, alreadyExists, io, process, checksum, runner, config]

/-- The kind of a word. -/
def ofName? (s : String) : Option FailureKind := all.find? fun k => k.name == s

end FailureKind

/-- An operation failed while running. -/
structure ExecutionError where
  message : String
  kind : FailureKind
  step : Option Nat
  command : Option String
  deriving DecidableEq, Repr

namespace ExecutionError

/-- An error that belongs to no step yet. -/
def new (kind : FailureKind) (message : String) : ExecutionError := ⟨message, kind, none, none⟩

/-- The same error, at a step. -/
def atStep (e : ExecutionError) (index : Nat) (command : String) : ExecutionError :=
  ⟨e.message, e.kind, some index, some command⟩

/-- An existing target is advisory, all else is fatal. -/
def severity (e : ExecutionError) : Severity :=
  if e.kind = .alreadyExists then .advisory else .fatal

end ExecutionError

/-- Any error of an install attempt. -/
inductive InstallError where
  | parse (message : String)
  | validation (e : ValidationError)
  | scripting (e : ScriptingError)
  | execution (e : ExecutionError)
  deriving DecidableEq, Repr

namespace InstallError

/-- Whether the error stops its phase. -/
def severity : InstallError → Severity
  | parse _ => .fatal
  | validation _ => .advisory
  | scripting _ => .fatal
  | execution e => e.severity

/-- The message alone. -/
def message : InstallError → String
  | parse m => m
  | validation e => e.message
  | scripting e => e.message
  | execution e => e.message

/-- The word for the sort of error. -/
def sort : InstallError → String
  | parse _ => "parse"
  | validation _ => "validation"
  | scripting _ => "scripting"
  | execution _ => "execution"

/-- The message after the sort of error. -/
def display (e : InstallError) : String := e.sort ++ " error: " ++ e.message

/-- The step the error belongs to. -/
def step : InstallError → Option Nat
  | parse _ => none
  | validation _ => none
  | scripting e => e.step
  | execution e => e.step

/-- The command the error belongs to. -/
def command : InstallError → Option String
  | parse _ => none
  | validation _ => none
  | scripting e => e.command
  | execution e => e.command

end InstallError

/-- The errors of one install attempt, in order; the same error may be there more than once. -/
abbrev Errors := List InstallError

/-- Whether a fatal error is among them. -/
def Errors.hasFatal (errors : Errors) : Bool := errors.any fun e => e.severity = .fatal

/-- The command of a name, or the error for a name that has none. -/
def Command.resolve (name : String) : Except ScriptingError Command :=
  match Command.ofName? name with
  | some c => .ok c
  | none => .error (.unknownCommand name)

/-- The operation of a command with raw parameters, or the error for parameters of another
    shape. -/
def Command.operation (c : Command) (params : Yaml.Value) : Except ScriptingError Operation :=
  (c.bind params).mapError fun e => .new (c.bindMessage e)

end GameInstaller
