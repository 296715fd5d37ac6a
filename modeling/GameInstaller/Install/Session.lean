import GameInstaller.Install.Run

/-! # Sessions

A recipe with the errors of the current attempt to install it. -/

namespace GameInstaller

variable {σ : Type}

/-- A recipe and the errors recorded so far, in order. -/
structure Session where
  recipe : Recipe
  errors : Errors

namespace Session

/-- A session without errors. -/
def start (r : Recipe) : Session := ⟨r, []⟩

/-- Check the recipe and record what is wrong with it. -/
def validate (s : Session) : Validation × Session :=
  let v := s.recipe.validate
  (v, { s with errors := s.errors ++ v.errors s.recipe.metadataErrors })

/-- Discard the errors. -/
def reset (s : Session) : Session := { s with errors := [] }

/-- Run the steps without checking the recipe. -/
def run (h : Host σ) (c : Context) (s : Session) : StateM σ (RunResult × Session) := do
  let (result, errors) ← GameInstaller.run h c s.recipe.game s.recipe.steps s.errors
  pure (result, { s with errors })

/-- Run a valid recipe from a fresh start; an attempt that is called off leaves no errors. -/
def install (h : Host σ) (c : Context) (s : Session) : StateM σ (RunResult × Session) := do
  let (v, s) := s.reset.validate
  if v.isValid then
    let (result, s) ← s.run h c
    match result with
    | .abandoned _ => pure (result, s.reset)
    | _ => pure (result, s)
  else pure (.rejected v, s)

end Session

end GameInstaller
