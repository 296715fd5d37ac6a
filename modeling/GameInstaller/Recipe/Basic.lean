import GameInstaller.Text.Blank
import GameInstaller.Yaml.Value

/-! # Recipes

A recipe is its metadata, in authored order, and its steps.  The parameters of a step stay raw
here: each command has a shape of its own, against which they are bound later.

* `Recipe.field`    a metadata value as text, unless it is missing, blank or no scalar
* `Recipe.ofValue`  the recipe that a YAML value is -/

namespace GameInstaller

open GameInstaller.Yaml (Value)

/-- One install step: a command name and its raw parameters. -/
structure Step where
  /-- Position in the authored list, from zero. -/
  index : Nat
  /-- Command name, matched exactly. -/
  command : String
  params : Value
  deriving Repr, Inhabited

/-- How messages name a step. -/
def Step.display (s : Step) : String :=
  "step " ++ toString (s.index + 1) ++ " (" ++ s.command ++ ")"

/-- A recipe. -/
structure Recipe where
  /-- Every top-level key except the step list, in authored order. -/
  metadata : List (String × Value)
  /-- Steps in authored order. -/
  steps : List Step
  deriving Repr, Inhabited

namespace Recipe

/-- Metadata keys every recipe must carry, in reporting order. -/
def requiredFields : List String := ["runner", "name", "game_slug"]

/-- A metadata value under its key. -/
def get? (r : Recipe) (key : String) : Option Value :=
  (r.metadata.find? fun (k, _) => k == key).map (·.2)

/-- A scalar metadata value as text.  Missing, null and blank values give none. -/
def field (r : Recipe) (key : String) : Option String :=
  match r.get? key with
  | some (.string s) => notBlank s
  | some (.number n) => notBlank (Yaml.numberText n)
  | some (.bool b) => notBlank (Yaml.boolText b)
  | _ => none
where
  notBlank (s : String) : Option String := if Text.allBlank s then none else some s

def runner (r : Recipe) : Option String := r.field "runner"

def name (r : Recipe) : Option String := r.field "name"

def gameSlug (r : Recipe) : Option String := r.field "game_slug"

end Recipe

end GameInstaller
