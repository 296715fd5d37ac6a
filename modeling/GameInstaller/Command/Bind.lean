import GameInstaller.Command.Params
import GameInstaller.Operation
import GameInstaller.Text.Blank

/-! # Binding parameters

Each command has one declared shape of parameters.  Binding checks raw parameters against it and
gives the operation that the step is. -/

namespace GameInstaller

open GameInstaller.Yaml (Value)
open GameInstaller.Params

/-- Why parameters do not fit a command. -/
inductive BindError where
  | shape (e : ShapeError)
  /-- A path of a transfer is blank. -/
  | blankField (name : String)
  | digest (e : Digest.ExpectedError)
  | takesNone
  deriving DecidableEq, Repr

/-- The wording of the defect. -/
def BindError.message : BindError → String
  | shape e => e.message
  | blankField name => s!"'{name}' must not be empty"
  | digest e => e.message
  | takesNone => "takes no parameters"

namespace Command

/-- Source and destination, neither of them blank. -/
def readTransfer (v : Value) : Except BindError Transfer := do
  let fields ← (readRecord "TransferParams" ["src", "dst"] (fun _ v => checkText v) v).mapError .shape
  let src ← (textField fields "src").mapError .shape
  let dst ← (textField fields "dst").mapError .shape
  if Text.allBlank src then .error (.blankField "src")
  else if Text.allBlank dst then .error (.blankField "dst")
  else .ok ⟨src, dst⟩

/-- Archive, and optionally destination and format. -/
def readExtract (v : Value) : Except ShapeError Operation := do
  let check (name : String) (v : Value) : Except ShapeError Unit :=
    if name = "file" then checkText v
    else if name = "dst" then (readOptionalText v).map fun _ => ()
    else (readOptionalFormat v).map fun _ => ()
  let fields ← readRecord "ExtractParams" ["file", "dst", "format"] check v
  let file ← textField fields "file"
  let dst ← match field? fields "dst" with
    | some v => readOptionalText v
    | none => .ok none
  let format ← match field? fields "format" with
    | some v => readOptionalFormat v
    | none => .ok none
  .ok (.extract file dst format)

/-- A file and the digest it must have; white space around the digest does not count. -/
def readChecksum (v : Value) : Except BindError Operation := do
  let fields ← (readRecord "ChecksumParams" ["file", "hash"] (fun _ v => checkText v) v).mapError .shape
  let file ← (textField fields "file").mapError .shape
  let hash ← (textField fields "hash").mapError .shape
  let expected ← (Digest.Expected.parse (Text.trim hash)).mapError .digest
  .ok (.checksum file expected)

/-- The operation of a command with raw parameters. -/
def bind (c : Command) (params : Value) : Except BindError Operation :=
  match c with
  | move => (readTransfer params).map .move
  | copy => (readTransfer params).map .copy
  | mkdir => ((readText params).mapError .shape).map .mkdir
  | extract => (readExtract params).mapError .shape
  | execute =>
    ((Buffered.read "ExecuteSpec" Buffered.program? params).mapError .shape).map fun (file, args) =>
      .execute file args
  | checksum => readChecksum params
  | checkDepends =>
    match params with
    | .null => .ok .checkDepends
    | .mapping [] => .ok .checkDepends
    | _ => .error .takesNone
  | writeConfig =>
    ((Buffered.read "WriteConfigSpec" Buffered.file? params).mapError .shape).map .writeConfig

/-- The message for parameters that do not fit. -/
def bindMessage (c : Command) (e : BindError) : String :=
  "invalid parameters for '" ++ c.name ++ "': " ++ e.message

end Command

end GameInstaller
