import GameInstaller.Archive.Format
import GameInstaller.Command.Basic
import GameInstaller.Json.Value

/-! # Published schemas

The shape of each command's parameters as a JSON schema, for editors and generators. -/

namespace GameInstaller

/-- What a schema says about a field beside its type. -/
structure FieldNote where
  description : Option String
  /-- The value a missing field stands for; a field without one is required. -/
  fallback : Option Json.Value

/-- A schema. -/
inductive Schema where
  | text
  | textOrNull
  | null
  /-- One of a list of texts. -/
  | choice (names : List String)
  | list (item : Schema)
  | anyOf (alternatives : List Schema)
  /-- A schema that is written once under its name and referred to. -/
  | shared (name : String) (description : Option String) (schema : Schema)
  /-- An object with these fields and no others, in the order of their names. -/
  | record (fields : List (String × FieldNote × Schema))

namespace Schema

/-- An entry with a text, if there is one. -/
def described (description : Option String) : List (String × Json.Value) :=
  match description with
  | some d => [("description", .string d)]
  | none => []

/-- The names of the fields that must be there. -/
def required (fields : List (String × FieldNote × Schema)) : List Json.Value :=
  (fields.filter fun (_, note, _) => note.fallback.isNone).map fun (name, _, _) => .string name

mutual

/-- The entries that write a schema. -/
def entries : Schema → List (String × Json.Value)
  | text => [("type", .string "string")]
  | textOrNull => [("type", .array [.string "string", .string "null"])]
  | null => [("type", .string "null")]
  | choice names => [("type", .string "string"), ("enum", .array (names.map .string))]
  | list item => [("type", .string "array"), ("items", .object (entries item))]
  | anyOf alternatives => [("anyOf", .array (objects alternatives))]
  | shared name _ _ => [("$ref", .string ("#/definitions/" ++ name))]
  | record fields =>
    [("type", .string "object"), ("required", .array (required fields)),
     ("properties", .object (properties fields)), ("additionalProperties", .bool false)]

/-- Each schema as an object. -/
def objects : List Schema → List Json.Value
  | [] => []
  | s :: r => .object (entries s) :: objects r

/-- Each field with its note and schema. -/
def properties : List (String × FieldNote × Schema) → List (String × Json.Value)
  | [] => []
  | (name, note, s) :: r =>
    let fallback := match note.fallback with
      | some v => [("default", v)]
      | none => []
    (name, .object (described note.description ++ fallback ++ entries s)) :: properties r

end

mutual

/-- The schemas that are referred to. -/
def definitions : Schema → List (String × Json.Value)
  | shared name description s => [(name, .object (described description ++ entries s))]
  | anyOf alternatives => definitionsOf alternatives
  | record fields => definitionsIn fields
  | list item => definitions item
  | _ => []

/-- The schemas that a list of schemas refers to. -/
def definitionsOf : List Schema → List (String × Json.Value)
  | [] => []
  | s :: r => definitions s ++ definitionsOf r

/-- The schemas that fields refer to. -/
def definitionsIn : List (String × FieldNote × Schema) → List (String × Json.Value)
  | [] => []
  | (_, _, s) :: r => definitions s ++ definitionsIn r

end

end Schema

/-- A schema with a title. -/
structure TitledSchema where
  title : String
  description : Option String
  schema : Schema

/-- The dialect all schemas are written in. -/
def schemaDialect : String := "http:" ++ "//json-schema.org/draft-07/schema#"

/-- The JSON of a schema. -/
def TitledSchema.toJson (s : TitledSchema) : Json.Value :=
  let definitions := match s.schema.definitions with
    | [] => []
    | ds => [("definitions", .object ds)]
  .object ([("$schema", .string schemaDialect), ("title", .string s.title)]
    ++ Schema.described s.description ++ s.schema.entries ++ definitions)

namespace Command

/-- A required text field. -/
def textNote (description : String) : FieldNote := ⟨some description, none⟩

/-- The schema of a command's parameters. -/
def schema : Command → TitledSchema
  | move => transfer
  | copy => transfer
  | mkdir => ⟨"String", none, .text⟩
  | extract =>
    ⟨"ExtractParams", none, .record
      [("dst", ⟨some "Destination, defaults to the game directory", some .null⟩, .textOrNull),
       ("file", textNote "Archive path; relative paths are under the cache directory", .text),
       ("format", ⟨some "Archive format, detected from the file name when omitted", some .null⟩,
        .anyOf [.shared "ArchiveFormat" (some "Supported archive formats.")
          (.choice (Archive.Format.all.map Archive.Format.name)), .null])]⟩
  | execute =>
    ⟨"ExecuteSpec", some "`execute: <file>` or `execute: \x7bfile, args\x7d`.", .anyOf
      [.text, .shared "ExecuteParams" none (.record
        [("args", ⟨none, some (.array [])⟩, .list .text),
         ("file", textNote "Program name on `PATH`, or a path", .text)])]⟩
  | checksum =>
    ⟨"ChecksumParams", none, .record
      [("file", textNote "File to verify; relative paths are under the cache directory", .text),
       ("hash", textNote "`sha256:<hex>`, `blake3:<hex>`, or `md5:<hex>`", .text)]⟩
  | checkDepends => ⟨"Null", none, .null⟩
  | writeConfig =>
    ⟨"WriteConfigSpec", some "`write_config: <path>` or `write_config: \x7bfile\x7d`.", .anyOf
      [.text, .shared "WriteConfigParams" none (.record
        [("file", textNote "Full path of the game executable", .text)])]⟩
where
  transfer : TitledSchema :=
    ⟨"TransferParams", some "`\x7bsrc, dst\x7d` for `move` and `copy`.", .record
      [("dst", textNote "Destination path; relative paths are under the game directory", .text),
       ("src", textNote "Source path; relative paths are under the cache directory", .text)]⟩

end Command

end GameInstaller
