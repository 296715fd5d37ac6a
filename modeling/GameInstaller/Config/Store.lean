import GameInstaller.Disk.Calls
import GameInstaller.Path
import GameInstaller.Slug
import GameInstaller.Yaml.Node
import GameInstaller.Yaml.Writer

/-! # Entries of games and their store

What is kept of an installed game, and the files that it is kept in. -/

/-! ## Game entries

What the launcher needs to start an installed game, and the YAML document it is kept in: a mapping
`main` of four texts.  When a document is read, any scalar counts as its text, keys that are not
known are skipped, and no known key may be there twice. -/

namespace GameInstaller

open Disk (Call PathError)

/-- What the launcher needs to start a game. -/
structure GameEntry where
  /-- Directory of the executable. -/
  path : Path
  executable : String
  displayName : String
  runnerName : String
  deriving DecidableEq, Repr

namespace GameEntry

/-- One line of the inner mapping, or several. -/
def line (key value : String) : List Char :=
  ' ' :: ' ' :: key.toList ++ ':' :: Yaml.Writer.entryValue value.toList

/-- The document of an entry. -/
def toYaml (e : GameEntry) : String :=
  String.ofList ("main:\n".toList ++ line "path" e.path.text ++ line "exe" e.executable
    ++ line "realname" e.displayName ++ line "runner" e.runnerName)

open Yaml (Node Document)

/-- The node that a node stands for. -/
def target (d : Document) : Node → Option Node
  | .alias a => d.anchored? a
  | n => some n

/-- The text of a scalar. -/
def text? (d : Document) (n : Node) : Option String :=
  match target d n with
  | some (.scalar _ _ cs) => some (String.ofList cs)
  | _ => none

/-- The values of the known keys of a mapping; nothing when a key is no scalar or a known one is
    there twice. -/
def fields? (d : Document) (known : List String) : List (String × Node) → List (Node × Node) →
    Option (List (String × Node))
  | acc, [] => some acc
  | acc, (k, v) :: r =>
    match text? d k with
    | none => none
    | some name =>
      if known.contains name then
        if acc.any fun (m, _) => m == name then none else fields? d known ((name, v) :: acc) r
      else fields? d known acc r

/-- The values of the known keys of a node that is a mapping. -/
def record? (d : Document) (known : List String) (n : Node) : Option (List (String × Node)) :=
  match target d n with
  | some (.mapping _ entries) => fields? d known [] entries
  | _ => none

/-- The text under a key. -/
def textUnder (d : Document) (fields : List (String × Node)) (key : String) : Option String :=
  (fields.find? fun (k, _) => k == key).bind fun (_, n) => text? d n

/-- The entry that a document holds. -/
def ofDocument? (d : Document) : Option GameEntry := do
  let root ← d.root
  let outer ← record? d ["main"] root
  let (_, main) ← outer.head?
  let fields ← record? d ["path", "exe", "realname", "runner"] main
  let path ← textUnder d fields "path"
  let executable ← textUnder d fields "exe"
  let displayName ← textUnder d fields "realname"
  let runnerName ← textUnder d fields "runner"
  pure ⟨⟨path⟩, executable, displayName, runnerName⟩

/-- The entry that a text holds. -/
def ofYaml? (text : String) : Option GameEntry :=
  (Document.ofText? text.toList).bind ofDocument?

end GameEntry

/-! ## The config store

Where the entries of installed games are kept: one YAML file per game, `<root>/games/<id>.yml`.
Identifiers become file names, so they have to be slugs. -/

/-- Why an entry was not saved or loaded. -/
inductive StoreError where
  | invalidId (id : String)
  | io (path : Path) (cause : Disk.IoError)
  /-- The file is no document of an entry. -/
  | format (path : Path)

/-- The wording of the failure. -/
def StoreError.message : StoreError → String
  | invalidId id => s!"invalid game id '{id}'"
  | io p e => "cannot write " ++ p.text ++ ": " ++ e.text
  | format p => "invalid game config " ++ p.text

namespace ConfigStore

/-- The file of a game. -/
def entryPath (root : Path) (id : String) : Path := (root / ⟨"games"⟩).child (id ++ ".yml")

/-- Save the entry of a game. -/
def write (root : Path) (id : String) (entry : GameEntry) : Call StoreError Unit := do
  if isSlug id then
    match ← Disk.attempt (Disk.replaceFile (entryPath root id) "yml.tmp" entry.toYaml.toUTF8) with
    | .ok () => pure ()
    | .error e => throw (.io e.path e.cause)
  else throw (.invalidId id)

/-- The entry of a game, if it has one. -/
def load (root : Path) (id : String) : Call StoreError (Option GameEntry) := do
  if isSlug id then
    let p := entryPath root id
    if !(← get).pathExists p then pure none
    else
      match ← Disk.attempt (Disk.readText p) with
      | .error e => throw (.io p e)
      | .ok text =>
        match GameEntry.ofYaml? text with
        | some e => pure (some e)
        | none => throw (.format p)
  else throw (.invalidId id)

end ConfigStore

end GameInstaller
