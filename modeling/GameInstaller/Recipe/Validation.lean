import GameInstaller.Install.Error
import GameInstaller.Recipe.Basic
import GameInstaller.Slug

/-! # Validating recipes

Validation looks at nothing but the recipe.  Missing metadata and a malformed slug are advisory;
the first step whose parameters do not fit its command aborts.  Steps of unknown commands are left
for the run, which fails them when it resolves them. -/

namespace GameInstaller

/-- Outcome of validating a recipe. -/
inductive Validation where
  | valid
  /-- Errors of the metadata. -/
  | invalid (errors : List ValidationError)
  /-- A step does not fit its command. -/
  | aborted (e : ScriptingError)
  deriving DecidableEq, Repr

namespace Validation

def isValid : Validation → Bool
  | valid => true
  | _ => false

/-- What a validation adds to the errors of an attempt: metadata errors, then the step error. -/
def errors (metadata : List ValidationError) : Validation → Errors
  | aborted e => metadata.map .validation ++ [.scripting e]
  | _ => metadata.map .validation

end Validation

namespace Recipe

/-- One error per required field that is missing, in the order of `requiredFields`. -/
def missingFields (r : Recipe) : List ValidationError :=
  (requiredFields.filter fun f => (r.field f).isNone).map .missingField

/-- Missing fields, then a slug that is not one path component. -/
def metadataErrors (r : Recipe) : List ValidationError :=
  r.missingFields ++
    match r.gameSlug with
    | some slug => if isSlug slug then [] else [.invalidSlug slug]
    | none => []

/-- Bind every step whose command is known; the first mismatch is the outcome. -/
def checkSteps : List Step → Except ScriptingError Unit
  | [] => .ok ()
  | s :: r =>
    match Command.ofName? s.command with
    | none => checkSteps r
    | some c =>
      match c.operation s.params with
      | .ok _ => checkSteps r
      | .error e => .error (e.atStep s.index s.command)

/-- Metadata errors, unless a step does not fit. -/
def check (r : Recipe) : Except ScriptingError (List ValidationError) :=
  (checkSteps r.steps).map fun _ => r.metadataErrors

/-- Outcome of both checks; a step that does not fit takes precedence. -/
def validate (r : Recipe) : Validation :=
  match checkSteps r.steps with
  | .error e => .aborted e
  | .ok _ => if r.metadataErrors.isEmpty then .valid else .invalid r.metadataErrors

end Recipe

end GameInstaller
