import GameInstaller.Process.Basic
import GameInstaller.Shell.Run

/-! # Running programs

What comes of running a program on a disk.  What it writes on its standard output is not kept. -/

namespace GameInstaller

open Disk (IoError)

/-- Whether a text has a zero character. -/
def hasNul (text : String) : Bool := text.toList.contains '\x00'

/-- Whether a zero character keeps a program from being run. -/
def Launch.hasNul (l : Launch) : Bool :=
  GameInstaller.hasNul l.program.text || l.args.any GameInstaller.hasNul
    || l.env.vars.any (fun (k, v) => GameInstaller.hasNul k || GameInstaller.hasNul v)
    || (l.workingDir.any fun p => GameInstaller.hasNul p.text)

/-- The failure for a zero character in what a program is given. -/
def nulInData : IoError := .custom .invalidInput "nul byte found in provided data"

/-- The location of a directory that is to be worked in. -/
def Disk.enter (d : Disk) : Option Path → Except IoError Location
  | none => .ok d.working
  | some p =>
    match d.resolve .follow p with
    | .error e => .error e
    | .ok r =>
      match r.node with
      | none => .error (.system .noEntry)
      | some .dir => .ok r.location
      | some _ => .error (.system .notDirectory)

/-- How a program ended, and what it had done by then. -/
def exitOf (r : Except Shell.Stop Nat) (complaint : ByteArray) : Exit :=
  match r with
  | .ok n => ⟨some (n % 256), complaint⟩
  | .error (.exit n) => ⟨some (n % 256), complaint⟩
  | .error (.leaveFunction n) => ⟨some (n % 256), complaint⟩
  | .error (.killed _) => ⟨none, complaint⟩
  | .error _ => ⟨some 0, complaint⟩

/-- Run a program to its end.  The working directory of the program is entered before the program
    is looked up, so that a relative path starts from there.  A bare name is searched for along the
    search path that the program is given; when the launch itself sets that, a file of no known
    format is left to the shell. -/
def spawn (environ : Environment) (l : Launch) : StateM Disk (Except IoError Exit) := do
  if l.hasNul then pure (.error nulInData)
  else
    let d ← get
    match d.enter l.workingDir with
    | .error e => pure (.error e)
    | .ok working =>
      let env := environ.extend l.env.vars
      let asScript := (l.env.get? searchVariable).isSome && !namesPath l.program.text
      let child := { d with working }
      match child.loadProgram asScript env l.program.text l.args with
      | .error e => pure (.error (.system e))
      | .ok loaded =>
        let start := Shell.State.start child env (loaded.argv.headD "") []
        let (r, after) := StateT.run (ExceptT.run
          (Shell.runLoaded (Shell.eval Shell.maxDepth) Shell.Streams.standard loaded)) start
        set { after.disk with working := d.working }
        pure (.ok (exitOf r after.complaint))

end GameInstaller
