import GameInstaller.Process.Basic
import GameInstaller.Runner.Basic
import GameInstaller.Runner.PackageManager

/-! # Runners of the system

A runner is installed when its executable is on the search path.  A missing one is installed from
its package by the package manager of the distribution, under a wrapper that gives the needed
rights; a repository may have to be added first.

* `Program`           a runner of the system
* `Program.commands`  what installing it runs, in order
* `Program.install`   run these until one fails -/

namespace GameInstaller

variable {σ : Type}

/-- What runners are installed on. -/
structure Platform (σ : Type) where
  /-- Where a program is. -/
  findExecutable : String → StateM σ (Option Path)
  /-- The identification of the distribution. -/
  osRelease : StateM σ (Option String)
  /-- Run a program to its end. -/
  spawn : Launch → StateM σ (Except Disk.IoError Exit)

/-- A runner of the system, but for the one that it may need first. -/
structure Program where
  name : String
  /-- What must be on the search path; a runner without it needs nothing. -/
  executable : Option String
  package : Option String
  /-- The repository that has the package, where there are such. -/
  repository : Option String
  /-- The wrapper that gives the rights to install. -/
  elevate : Option String
  /-- The package manager, when it is not that of the distribution. -/
  manager : Option PackageManager
  deriving DecidableEq, Repr

namespace Program

/-- The wrapper that is used unless another one is set. -/
def defaultElevate : String := "pkexec"

/-- A runner whose executable has its name. -/
def new (name : String) : Program :=
  { name, executable := some name, package := none, repository := none,
    elevate := some defaultElevate, manager := none }

/-- Whether the runner is there. -/
def isInstalled (p : Platform σ) (r : Program) : StateM σ Bool := do
  match r.executable with
  | none => pure true
  | some name => pure (← p.findExecutable name).isSome

/-- The commands that install a package with a manager. -/
def commands (r : Program) (m : PackageManager) (package : String) : List Invocation :=
  let before := match r.repository with
    | some ppa => (m.repositoryCommands ppa).getD []
    | none => []
  before ++ [m.installCommand package]

/-- How a command is run: by the wrapper, if there is one. -/
def launch (r : Program) (c : Invocation) : Launch :=
  match r.elevate with
  | some wrapper => ⟨⟨wrapper⟩, c.program :: c.args, none, ⟨[]⟩⟩
  | none => ⟨⟨c.program⟩, c.args, none, ⟨[]⟩⟩

/-- Run one command. -/
def runCommand (p : Platform σ) (r : Program) (c : Invocation) :
    StateM σ (Except RunnerError Unit) := do
  match ← p.spawn (r.launch c) with
  | .error e => pure (.error (.spawn c.program e))
  | .ok exit =>
    if exit.success then pure (.ok ())
    else pure (.error (.installFailed r.name exit.codeText exit.complaintText))

/-- Run commands in order until one fails. -/
def runCommands (p : Platform σ) (r : Program) :
    List Invocation → StateM σ (Except RunnerError Unit)
  | [] => pure (.ok ())
  | c :: rest => do
    match ← r.runCommand p c with
    | .ok () => r.runCommands p rest
    | .error e => pure (.error e)

/-- The package manager that installs the runner. -/
def packageManager? (p : Platform σ) (r : Program) : StateM σ (Option PackageManager) := do
  match r.manager with
  | some m => pure (some m)
  | none => pure ((← p.osRelease).bind PackageManager.ofOsRelease)

/-- Install the runner if it is missing. -/
def install (p : Platform σ) (r : Program) : StateM σ (Except RunnerError Unit) := do
  if ← r.isInstalled p then pure (.ok ())
  else
    match r.package with
    | none => pure (.error (.noPackage r.name))
    | some package =>
      match ← r.packageManager? p with
      | none => pure (.error (.unsupportedDistribution package))
      | some m => r.runCommands p (r.commands m package)

/-- The program as a runner. -/
def runner (p : Platform σ) (r : Program) : Runner σ := ⟨r.name, r.isInstalled p, r.install p⟩

end Program

/-- A runner of the system, with the one that it needs first. -/
structure SystemRunner extends Program where
  dependency : Option Program
  deriving DecidableEq, Repr

namespace SystemRunner

/-- A runner whose executable has its name. -/
def new (name : String) : SystemRunner := ⟨Program.new name, none⟩

/-- A known program whose executable and package have its name. -/
def packaged (name : String) : Program := { Program.new name with package := some name }

/-- A known program without an executable of its own. -/
def bare (name : String) : Program := { Program.new name with executable := none }

/-- The known runners. -/
def builtin? (name : String) : Option SystemRunner :=
  match name with
  | "linux" => some ⟨bare name, none⟩
  | "winesteam" => some ⟨bare name, some (packaged "wine")⟩
  | name =>
    if ["wine", "dosbox", "scummvm", "mednafen"].contains name then some ⟨packaged name, none⟩
    else none

/-- The known runner of a name, or one whose executable has that name. -/
def lookup (name : String) : SystemRunner := (builtin? name).getD (new name)

/-- The runner with a package. -/
def withPackage (r : SystemRunner) (package : String) : SystemRunner :=
  { r with package := some package }

/-- The runner with a repository that has its package. -/
def withRepository (r : SystemRunner) (repository : String) : SystemRunner :=
  { r with repository := some repository }

/-- The runner, and what it needs, with a wrapper or without one. -/
def withElevate (r : SystemRunner) (elevate : Option String) : SystemRunner :=
  { r with elevate, dependency := r.dependency.map fun d => { d with elevate } }

/-- The runner, and what it needs, with a package manager. -/
def withManager (r : SystemRunner) (m : PackageManager) : SystemRunner :=
  { r with manager := some m, dependency := r.dependency.map fun d => { d with manager := some m } }

end SystemRunner

end GameInstaller
