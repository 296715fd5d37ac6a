import GameInstaller.Archive.Format
import GameInstaller.Yaml.Value

/-! # Reading parameters

Raw YAML parameters as texts, records and archive formats.  A value's tag is ignored where a text
or a record is expected.  A record is a mapping, or null for one without entries; its entries are
looked at in authored order, each key before its value, and the first defect is reported.

* `readText`    a text
* `readRecord`  the fields of a record, each of which a given reader accepts
* `readFormat`  an archive format
* `Buffered`    parameters with two admissible forms, which never hold a tag -/

namespace GameInstaller.Params

open GameInstaller.Yaml (Value)

/-- Why a value does not have the shape that was asked for. -/
inductive ShapeError where
  /-- What was found instead of what was expected. -/
  | wrongType (found expected : String)
  | unknownField (name : String) (known : List String)
  | duplicateField (name : String)
  | missingField (name : String)
  | unknownVariant (name : String) (known : List String)
  /-- None of the admissible forms fits. -/
  | noForm (spec : String)
  /-- A tag among parameters that have several forms. -/
  | taggedForm
  deriving DecidableEq, Repr

/-- Names in backticks: one alone, two with "or", more as a list. -/
def oneOf (names : List String) : String :=
  let quoted (n : String) : String := "`" ++ n ++ "`"
  match names with
  | [a] => quoted a
  | [a, b] => quoted a ++ " or " ++ quoted b
  | _ => "one of " ++ ", ".intercalate (names.map quoted)

/-- The wording of the mismatch. -/
def ShapeError.message : ShapeError → String
  | wrongType found expected => s!"invalid type: {found}, expected {expected}"
  | unknownField name known => s!"unknown field `{name}`, expected " ++ oneOf known
  | duplicateField name => s!"duplicate field `{name}`"
  | missingField name => s!"missing field `{name}`"
  | unknownVariant name known => s!"unknown variant `{name}`, expected " ++ oneOf known
  | noForm spec => s!"data did not match any variant of untagged enum {spec}"
  | taggedForm => "untagged and internally tagged enums do not support enum input"

/-- Numbers in messages are always written out. -/
def numberStyle : Decimal.Style := ⟨none, none, false, "NaN", "inf", "-inf"⟩

/-- How messages describe a value. -/
def describe : Value → String
  | .null => "unit value"
  | .bool b => "boolean `" ++ Yaml.boolText b ++ "`"
  | .number (.natural n) => s!"integer `{n}`"
  | .number (.negative n) => s!"integer `{n}`"
  | .number (.real x) => "floating point `" ++ numberStyle.text x ++ "`"
  | .string s => "string " ++ Text.escaped s
  | .sequence _ => "sequence"
  | .mapping _ => "map"
  | .tagged .. => "enum"

/-- A value without its tags. -/
def untag : Value → Value
  | .tagged _ v => untag v
  | v => v

/-- A text. -/
def readText (v : Value) : Except ShapeError String :=
  match untag v with
  | .string s => .ok s
  | other => .error (.wrongType (describe other) "a string")

/-- A text, or nothing when null. -/
def readOptionalText : Value → Except ShapeError (Option String)
  | .null => .ok none
  | v => (readText v).map some

/-- The name of a field. -/
def readKey (v : Value) : Except ShapeError String :=
  match untag v with
  | .string s => .ok s
  | other => .error (.wrongType (describe other) "field identifier")

/-- The fields among `known` that a mapping has, in authored order.  Each value has to pass
    `check`. -/
def readFields (known : List String) (check : String → Value → Except ShapeError Unit) :
    List String → List (Value × Value) → Except ShapeError (List (String × Value))
  | _, [] => .ok []
  | seen, (k, v) :: r =>
    match readKey k with
    | .error e => .error e
    | .ok name =>
      if !known.contains name then .error (.unknownField name known)
      else if seen.contains name then .error (.duplicateField name)
      else match check name v with
        | .error e => .error e
        | .ok () => (readFields known check (name :: seen) r).map ((name, v) :: ·)

/-- The fields of a record. -/
def readRecord (record : String) (known : List String)
    (check : String → Value → Except ShapeError Unit) (v : Value) :
    Except ShapeError (List (String × Value)) :=
  match untag v with
  | .mapping entries => readFields known check [] entries
  | .null => .ok []
  | other => .error (.wrongType (describe other) ("struct " ++ record))

/-- The value of a field. -/
def field? (fields : List (String × Value)) (name : String) : Option Value :=
  (fields.find? fun (n, _) => n == name).map (·.2)

/-- The text of a field that must be there. -/
def textField (fields : List (String × Value)) (name : String) : Except ShapeError String :=
  match field? fields name with
  | some v => readText v
  | none => .error (.missingField name)

/-- Accept texts. -/
def checkText (v : Value) : Except ShapeError Unit := (readText v).map fun _ => ()

/-- The format of a spelling. -/
def formatNamed (name : String) : Except ShapeError Archive.Format :=
  match Archive.Format.ofName? name with
  | some f => .ok f
  | none => .error (.unknownVariant name (Archive.Format.spellings.map (·.1)))

/-- An archive format: its spelling, or its spelling as the tag of a null. -/
def readFormat : Value → Except ShapeError Archive.Format
  | .string s => formatNamed s
  | .tagged tag content =>
    match formatNamed (Yaml.bareTag tag) with
    | .error e => .error e
    | .ok f =>
      match untag content with
      | .null => .ok f
      | other => .error (.wrongType (describe other) "unit")
  | other => .error (.wrongType (describe other) "a Value::Tagged enum")

/-- An archive format, or nothing when null. -/
def readOptionalFormat : Value → Except ShapeError (Option Archive.Format)
  | .null => .ok none
  | v => (readFormat v).map some

mutual

/-- Whether a value holds a tag anywhere. -/
def holdsTag : Value → Bool
  | .tagged .. => true
  | .sequence items => itemsHoldTag items
  | .mapping entries => entriesHoldTag entries
  | _ => false

/-- Whether an item holds a tag. -/
def itemsHoldTag : List Value → Bool
  | [] => false
  | v :: r => holdsTag v || itemsHoldTag r

/-- Whether a key or value holds a tag. -/
def entriesHoldTag : List (Value × Value) → Bool
  | [] => false
  | (k, v) :: r => holdsTag k || holdsTag v || entriesHoldTag r

end

namespace Buffered

/-- The texts of a list of texts. -/
def texts? : List Value → Option (List String)
  | [] => some []
  | .string s :: r => (texts? r).map (s :: ·)
  | _ :: _ => none

/-- The field a key stands for: its name, or its position. -/
def fieldName? (known : List String) : Value → Option String
  | .string s => if known.contains s then some s else none
  | .number (.natural n) => known[n]?
  | _ => none

/-- The fields of a mapping, no field twice. -/
def fields? (known : List String) : List String → List (Value × Value) →
    Option (List (String × Value))
  | _, [] => some []
  | seen, (k, v) :: r =>
    match fieldName? known k with
    | none => none
    | some name =>
      if seen.contains name then none
      else (fields? known (name :: seen) r).map ((name, v) :: ·)

/-- The fields of a record: the entries of a mapping, or the items of a sequence by position. -/
def record? (known : List String) : Value → Option (List (String × Value))
  | .mapping entries => fields? known [] entries
  | .sequence items => if items.length ≤ known.length then some (known.zip items) else none
  | _ => none

/-- A program and its arguments: a text alone, or a record of both. -/
def program? : Value → Option (String × List String)
  | .string s => some (s, [])
  | v =>
    match record? ["file", "args"] v with
    | none => none
    | some fields =>
      match field? fields "file", field? fields "args" with
      | some (.string file), none => some (file, [])
      | some (.string file), some (.sequence args) => (texts? args).map (file, ·)
      | _, _ => none

/-- A file: a text alone, or a record of it. -/
def file? : Value → Option String
  | .string s => some s
  | v =>
    match record? ["file"] v with
    | none => none
    | some fields =>
      match field? fields "file" with
      | some (.string file) => some file
      | _ => none

/-- Read parameters that have several forms. -/
def read {α : Type} (spec : String) (form? : Value → Option α) (v : Value) : Except ShapeError α :=
  if holdsTag v then .error .taggedForm
  else match form? v with
    | some a => .ok a
    | none => .error (.noForm spec)

end Buffered

end GameInstaller.Params
