import GameInstaller.Archive.Extract
import GameInstaller.Install.Host
import GameInstaller.Process.Spawn
import GameInstaller.Runner.System
import GameInstaller.Time.Stamp

/-! # Machines

The computer that games are installed on: its disk, the environment of its programs and its clock.

* `Machine.fresh`  a machine with nothing but the system's own programs
* `Machine.files`  its filesystem
* `Machine.host`   what an install on it acts through -/

namespace GameInstaller

open Disk (Call)

/-- A computer. -/
structure Machine where
  disk : Disk
  /-- What every program is given. -/
  environ : Environment
  /-- The reading of the wall clock. -/
  now : Time.Instant

namespace Machine

/-- The entries of the system's own programs. -/
def systemPrograms : List (Location × Disk.Node) :=
  ((Disk.shellTool :: Shell.toolNames).map fun name =>
    (["usr", "bin", name], .file (Image.binary name) 0o755 none))

/-- The disk of a fresh system. -/
def systemDisk : Disk :=
  { entries := [(["usr"], .dir), (["usr", "bin"], .dir), (["bin"], .link "usr/bin"),
                (["etc"], .dir), (["tmp"], .dir)] ++ systemPrograms
    working := []
    split := false }

/-- A fresh system. -/
def fresh (environ : Environment) (now : Time.Instant) : Machine :=
  { disk := systemDisk, environ, now }

/-- An action on the disk. -/
def onDisk {α : Type} (x : StateM Disk α) : StateM Machine α :=
  onPart (·.disk) (fun disk m => { m with disk }) x

/-- A call on the disk, with its outcome as a value. -/
def call {ε α : Type} (x : Call ε α) : StateM Machine (Except ε α) := onDisk (ExceptT.run x)

/-- Run a program to its end. -/
def spawn (l : Launch) : StateM Machine (Except Disk.IoError Exit) := do
  onDisk (GameInstaller.spawn (← get).environ l)

/-- Where the distribution is identified. -/
def osReleasePath : Path := ⟨"/etc/os-release"⟩

/-- The identification of the distribution. -/
def osRelease : StateM Machine (Option String) := do
  match ← call (Disk.readText osReleasePath) with
  | .ok text => pure (some text)
  | .error _ => pure none

/-- What runners are installed on. -/
def platform : Platform Machine where
  findExecutable name := do
    let m ← get
    pure (m.disk.findExecutable m.environ name)
  osRelease := osRelease
  spawn := spawn

/-- The filesystem. -/
def files : Files Machine where
  movePath src dst := call (Disk.movePath src dst)
  copyTree src dst := call (Disk.copyTree src dst)
  createDir p := call (Disk.createDir p)
  extract archive dst format := call (Archive.extract archive dst format)
  openFile p := call (Disk.openFile p)

/-- Append to the journal of a game, with the time as it is. -/
def append (dir : Path) (game : String) (e : Journal.Event) :
    StateM Machine (Except Journal.LogError Unit) := do
  call (Journal.append (Time.stamp (← get).now.secs) dir game e)

/-- What an install through a runner acts through, with the entries of games under `configDir`.
    Nobody calls it off. -/
def host (runner : SystemRunner) (configDir : Path) : Host Machine :=
  { files with
    runner := runner.toProgram.runner platform
    dependency := runner.dependency.map fun d => d.runner platform
    saveEntry := fun id entry => call (ConfigStore.write configDir id entry)
    spawn := spawn
    isCancelled := pure false
    append := append
    newRunId := do pure (← get).now.runId
    clock := pure 0 }

end Machine

end GameInstaller
