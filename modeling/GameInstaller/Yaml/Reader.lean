import GameInstaller.Yaml.Node
import GameInstaller.Yaml.Plain

/-! # Reading YAML values

The value that a document denotes.  Collections nest at most 128 deep, aliases are followed at most
a hundred times as often as the document has parts, and no mapping has the same key twice. -/

namespace GameInstaller.Yaml

open GameInstaller.Decimal

namespace Document

/-- What is read of a part: the value, and how many more aliases may be followed. -/
abbrev Reading (α : Type) := Option (α × Nat)

/-- Read the members of a collection one after another. -/
def readAll {α β : Type} (f : α → Nat → Reading β) : List α → Nat → Reading (List β)
  | [], jumps => some ([], jumps)
  | a :: r, jumps =>
    match f a jumps with
    | none => none
    | some (b, jumps) =>
      match readAll f r jumps with
      | none => none
      | some (bs, jumps) => some (b :: bs, jumps)

/-- Whether no entry has the same key as one before it. -/
def distinctKeys : List (Value × Value) → List (Value × Value) → Bool
  | _, [] => true
  | seen, (k, v) :: r => !seen.any (fun (k', _) => k.same k') && distinctKeys ((k, v) :: seen) r

/-- The name of an application tag: one that starts with an exclamation mark. -/
def applicationTag? : Option (List Char) → Option String
  | some ['!'] => some "!"
  | some ('!' :: name) => some (String.ofList name)
  | _ => none

/-- The core tags, which fix the type of a scalar. -/
def coreTag (name : String) : Option (List Char) := some (("tag:yaml.org,2002:" ++ name).toList)

/-- The value of a scalar without tag. -/
def untagged (plain : Bool) (text : List Char) : Option Value :=
  if plain then Plain.value? text else some (.string (String.ofList text))

/-- The value of a scalar.  A core tag fixes its type, an application tag is kept, and any other
    tag makes it text. -/
def scalarValue (tag : Option (List Char)) (plain : Bool) (text : List Char) : Option Value :=
  let word := String.ofList text
  match applicationTag? tag with
  | some name => (untagged plain text).map (.tagged name)
  | none =>
    if tag.isNone then untagged plain text
    else if tag == coreTag "bool" then (Plain.bool? word).map .bool
    else if tag == coreTag "int" then (Plain.whole? text).bind fun n => n.map .number
    else if tag == coreTag "float" then (Plain.real? text).map fun x => .number (.real x)
    else if tag == coreTag "null" then
      (if !text.isEmpty && Plain.isNull word then some .null else none)
    else some (.string word)

/-- A collection under its application tag, if it has one. -/
def wrap (tag : Option (List Char)) (v : Value) : Value :=
  match applicationTag? tag with
  | some name => .tagged name v
  | none => v

/-- The value of a node.  `depth` is how many more collections may open, `jumps` how many more
    aliases may be followed. -/
def value (d : Document) : Nat → Node → Nat → Reading Value
  | depth, n, jumps =>
    let target : Option (Node × Nat) := match n with
      | .alias a => if jumps = 0 then none else (d.anchored? a).map fun n => (n, jumps - 1)
      | n => some (n, jumps)
    match target with
    | none => none
    | some (n, jumps) =>
      match n with
      | .alias _ => none
      | .scalar tag plain text => (scalarValue tag plain text).map fun v => (v, jumps)
      | .sequence tag items =>
        match depth with
        | 0 => none
        | depth + 1 =>
          (readAll (value d depth) items jumps).map fun (vs, jumps) => (wrap tag (.sequence vs), jumps)
      | .mapping tag entries =>
        match depth with
        | 0 => none
        | depth + 1 =>
          let entry (e : Node × Node) (jumps : Nat) : Reading (Value × Value) :=
            match value d depth e.1 jumps with
            | none => none
            | some (k, jumps) => (value d depth e.2 jumps).map fun (v, jumps) => ((k, v), jumps)
          match readAll entry entries jumps with
          | none => none
          | some (es, jumps) =>
            if distinctKeys [] es then some (wrap tag (.mapping es), jumps) else none

end Document

/-- The value of a stream with at most one document; an empty stream is null. -/
def Value.ofText? (text : List Char) : Option Value :=
  match Document.ofText? text with
  | none => none
  | some d =>
    match d.root with
    | none => some .null
    | some n => (d.value 128 n (100 * d.size)).map (·.1)

end GameInstaller.Yaml
