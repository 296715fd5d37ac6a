import GameInstaller.Disk.Calls

/-! # The game library

The record of installed games: one row per slug, the latest one.  The rows are kept in one database
file, which starts with a header; an empty file is an empty library, and a file with another start
is no library.

* `Rows.record`, `Rows.get?`, `Rows.list`   the library as a table
* `Library.openAt`, `Library.record`, `Library.rows`  the table in its file -/

namespace GameInstaller

open Disk (Call IoError)

/-- One installed game. -/
structure LibraryEntry where
  slug : String
  name : String
  runner : String
  directory : Path
  installedAt : String
  deriving DecidableEq, Repr

/-- The rows of a library, in increasing order of their slugs. -/
abbrev Rows := List LibraryEntry

namespace Rows

/-- Put a row in its place; one with the same slug is replaced. -/
def record (e : LibraryEntry) : Rows → Rows
  | [] => [e]
  | r :: rs =>
    if e.slug < r.slug then e :: r :: rs
    else if e.slug = r.slug then e :: rs
    else r :: record e rs

/-- The row of a slug. -/
def get? (rows : Rows) (slug : String) : Option LibraryEntry := rows.find? fun r => r.slug = slug

/-- All rows, by slug. -/
def list (rows : Rows) : List LibraryEntry := rows

end Rows

/-- Why a library cannot be used. -/
inductive LibraryError where
  /-- The directory of the file cannot be made. -/
  | io (path : Path) (cause : IoError)
  /-- The file is no library, or cannot be opened. -/
  | database

/-- The wording of the failure. -/
def LibraryError.message : LibraryError → String
  | io p e => "cannot create " ++ p.text ++ ": " ++ e.text
  | database => "library database error"

namespace Library

/-- What a library file starts with. -/
def header : List UInt8 := "SQLite format 3\x00".toUTF8.toList

/-- The byte that ends a field; it is in no text. -/
def fieldEnd : UInt8 := 0xFF

/-- The bytes of a row. -/
def encodeRow (e : LibraryEntry) : List UInt8 :=
  [e.slug, e.name, e.runner, e.directory.text, e.installedAt].flatMap fun s =>
    s.toUTF8.toList ++ [fieldEnd]

/-- The content of a library file. -/
def encode (rows : Rows) : ByteArray := ⟨(header ++ rows.flatMap encodeRow).toArray⟩

/-- The fields in a sequence of bytes; `cur` is the one under way, last byte first. -/
def fields : List UInt8 → List UInt8 → List (List UInt8)
  | _, [] => []
  | cur, b :: r => if b = fieldEnd then cur.reverse :: fields [] r else fields (b :: cur) r

/-- The rows that fields make, five each. -/
def rowsOf? : List String → Option Rows
  | [] => some []
  | slug :: name :: runner :: directory :: installedAt :: r =>
    (rowsOf? r).map (⟨slug, name, runner, ⟨directory⟩, installedAt⟩ :: ·)
  | _ => none

/-- The rows of the content of a library file. -/
def decode? (content : ByteArray) : Option Rows :=
  let bytes := content.toList
  if bytes.isEmpty then some []
  else if header.isPrefixOf bytes then
    (((fields [] (bytes.drop header.length)).mapM fun f => String.fromUTF8? ⟨f.toArray⟩).bind rowsOf?)
  else none

/-- The rows in the file at a path; an absent file holds none. -/
def rows (p : Path) : Call LibraryError Rows := do
  if (← get).pathExists p then
    match ← Disk.attempt (Disk.readBytes p) with
    | .error _ => throw .database
    | .ok content =>
      match decode? content with
      | some rows => pure rows
      | none => throw .database
  else pure []

/-- Write the rows to the file at a path. -/
def store (p : Path) (rows : Rows) : Call LibraryError Unit := do
  match ← Disk.attempt (Disk.writeBytes p (encode rows)) with
  | .ok () => pure ()
  | .error _ => throw .database

/-- Open the library at a path, making the file and its directory when they are missing. -/
def openAt (p : Path) : Call LibraryError Unit := do
  if let some parent := p.parent? then
    match ← Disk.attempt (Disk.createDirAll parent) with
    | .ok () => pure ()
    | .error e => throw (.io parent e)
  store p (← rows p)

/-- Insert or replace the row of a game. -/
def record (p : Path) (e : LibraryEntry) : Call LibraryError Unit := do
  store p ((← rows p).record e)

end Library

end GameInstaller
