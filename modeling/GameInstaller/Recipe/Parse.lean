import GameInstaller.Disk.Calls
import GameInstaller.Recipe.Basic
import GameInstaller.Yaml.Reader

/-! # Recipes from YAML

Parsing is structural only: the document is a mapping with text keys, and its steps are the
sequence under `steps`, or under `installer` when there is no `steps` and `installer` holds a
sequence.  Each step is a mapping of one command to its parameters. -/

namespace GameInstaller

open GameInstaller.Yaml (Value)

/-- Why a text or value is no recipe.  Steps are numbered from one. -/
inductive RecipeError where
  | notYaml
  | notMapping (kind : String)
  | keyNotText (kind : String)
  | stepsNotList (key kind : String)
  | stepNotMapping (number : Nat) (kind : String)
  | stepNotSingle (number entries : Nat)
  | commandNotText (number : Nat) (kind : String)
  | unreadable (path cause : String)
  deriving DecidableEq, Repr

/-- The wording of the defect. -/
def RecipeError.message : RecipeError → String
  | notYaml => "YAML parse error"
  | notMapping kind => "recipe must be a mapping, got " ++ kind
  | keyNotText kind => "recipe keys must be strings, got " ++ kind
  | stepsNotList key kind => s!"'{key}' must be a list of steps, got {kind}"
  | stepNotMapping n kind =>
    s!"step {n} must be a mapping of one command to its parameters, got {kind}"
  | stepNotSingle n entries => s!"step {n} must name exactly one command, found {entries}"
  | commandNotText n kind => s!"step {n} command name must be a string, got {kind}"
  | unreadable path cause => s!"failed to read {path}: {cause}"

namespace Recipe

/-- Key of the step list. -/
def stepsKey : String := "steps"

/-- Older recipes keep their step list under this key. -/
def legacyStepsKey : String := "installer"

/-- The key that the step list of a mapping stands under. -/
def stepsKeyOf (entries : List (Value × Value)) : Option String :=
  if (Value.get? entries stepsKey).isSome then some stepsKey
  else match Value.get? entries legacyStepsKey with
    | some (.sequence _) => some legacyStepsKey
    | _ => none

/-- The step that the entry at `index` is. -/
def parseStep (index : Nat) (entry : Value) : Except RecipeError Step :=
  match entry with
  | .mapping [(.string command, params)] => .ok ⟨index, command, params⟩
  | .mapping [(k, _)] => .error (.commandNotText (index + 1) k.kind)
  | .mapping entries => .error (.stepNotSingle (index + 1) entries.length)
  | v => .error (.stepNotMapping (index + 1) v.kind)

/-- The steps of a list of entries, the first at `index`; the first defect wins. -/
def parseEntries (index : Nat) : List Value → Except RecipeError (List Step)
  | [] => .ok []
  | v :: r =>
    match parseStep index v with
    | .error e => .error e
    | .ok s => (parseEntries (index + 1) r).map (s :: ·)

/-- The steps under the step key. -/
def parseSteps (key : String) : Value → Except RecipeError (List Step)
  | .sequence entries => parseEntries 0 entries
  | .null => .ok []
  | v => .error (.stepsNotList key v.kind)

/-- Sort the entries of a mapping into metadata and steps, in authored order; the first defect
    wins. -/
def parseMapping (key : Option String) : List (Value × Value) → Except RecipeError Recipe
  | [] => .ok ⟨[], []⟩
  | (.string k, v) :: r =>
    if key = some k then
      match parseSteps k v with
      | .error e => .error e
      | .ok steps => (parseMapping key r).map fun rest => ⟨rest.metadata, steps ++ rest.steps⟩
    else (parseMapping key r).map fun rest => ⟨(k, v) :: rest.metadata, rest.steps⟩
  | (k, _) :: _ => .error (.keyNotText k.kind)

/-- The recipe that a YAML value is. -/
def ofValue : Value → Except RecipeError Recipe
  | .mapping entries => parseMapping (stepsKeyOf entries) entries
  | v => .error (.notMapping v.kind)

/-- The recipe that a YAML text writes. -/
def ofText (text : String) : Except RecipeError Recipe :=
  match Value.ofText? text.toList with
  | some v => ofValue v
  | none => .error .notYaml

/-- The recipe in a file. -/
def ofFile (p : Path) : Disk.Call RecipeError Recipe := do
  match ← Disk.attempt (Disk.readText p) with
  | .error e => throw (.unreadable p.text e.text)
  | .ok text =>
    match ofText text with
    | .ok r => pure r
    | .error e => throw e

end Recipe

end GameInstaller
