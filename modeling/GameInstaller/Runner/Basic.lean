import GameInstaller.Disk.IoError

/-! # Runners

A runner is the program that a game is played through.  Some need another one first. -/

namespace GameInstaller

/-- Why a runner was not installed. -/
inductive RunnerError where
  /-- There is no package to install it from. -/
  | noPackage (runner : String)
  /-- There is no known package manager. -/
  | unsupportedDistribution (package : String)
  | spawn (program : String) (cause : Disk.IoError)
  | installFailed (runner : String) (code : String) (complaint : String)

/-- The wording of the failure. -/
def RunnerError.message : RunnerError → String
  | noPackage r => s!"runner '{r}' has no package and cannot be installed automatically"
  | unsupportedDistribution p => s!"unsupported distribution; install '{p}' manually"
  | spawn p e => s!"failed to spawn {p}: " ++ e.text
  | installFailed r code complaint => s!"installing '{r}' failed (exit {code}): {complaint}"

/-- A runner as an install sees it. -/
structure Runner (σ : Type) where
  name : String
  isInstalled : StateM σ Bool
  /-- Install the runner if it is missing. -/
  install : StateM σ (Except RunnerError Unit)

end GameInstaller
