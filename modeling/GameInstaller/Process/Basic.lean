import GameInstaller.Disk.IoError
import GameInstaller.Environment
import GameInstaller.Path
import GameInstaller.Text.Blank
import GameInstaller.Text.Utf8

/-! # Processes

What is asked of the system when a program is run, and what comes of it. -/

namespace GameInstaller

/-- A program to run. -/
structure Launch where
  program : Path
  args : List String
  /-- Where it runs, if elsewhere than its parent. -/
  workingDir : Option Path
  /-- What it is given on top of the environment. -/
  env : Environment

/-- How a program ended. -/
structure Exit where
  /-- The exit code, unless the program was killed. -/
  code : Option Nat
  /-- What it wrote about its failure. -/
  complaint : ByteArray

namespace Exit

/-- Whether the program succeeded. -/
def success (e : Exit) : Bool := e.code = some 0

/-- The exit code as messages show it. -/
def codeText (e : Exit) : String :=
  match e.code with
  | some n => toString n
  | none => "-1"

/-- What the program wrote about its failure, trimmed. -/
def complaintText (e : Exit) : String := Text.trim (Text.lossy e.complaint)

end Exit

end GameInstaller
