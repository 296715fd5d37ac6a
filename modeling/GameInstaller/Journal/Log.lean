import GameInstaller.Disk.Calls
import GameInstaller.Journal.Event
import GameInstaller.Slug
import GameInstaller.Text.Blank

/-! # Journals on disk

One journal per game, `<dir>/<game>/events.jsonl`, with one event a line.  Names that could leave
the journal directory are refused. -/

namespace GameInstaller.Journal

open Disk (Call IoError)

/-- Why a journal was not written or read. -/
inductive LogError where
  | invalidName (game : String)
  | noDirectory (path : Path) (cause : IoError)
  | notOpened (path : Path) (cause : IoError)
  | notRead (path : Path) (cause : IoError)
  /-- A line holds no event; lines that are blank are not counted. -/
  | badEvent (path : Path) (number : Nat)

/-- The wording of the failure. -/
def LogError.message : LogError → String
  | invalidName game => s!"invalid journal name '{game}'"
  | noDirectory p e => "cannot create journal dir " ++ p.text ++ ": " ++ e.text
  | notOpened p e => "cannot open journal " ++ p.text ++ ": " ++ e.text
  | notRead p e => "cannot read journal " ++ p.text ++ ": " ++ e.text
  | badEvent p n => p.text ++ s!":{n}: bad event"

/-- The journal of a game. -/
def logPath (dir : Path) (game : String) : Except LogError Path :=
  if isSlug game then .ok ((dir.child game).child "events.jsonl") else .error (.invalidName game)

/-- A call whose failure is put into a journal failure. -/
def onFailure {α : Type} (make : IoError → LogError) (x : Disk.Io α) : Call LogError α := do
  match ← Disk.attempt x with
  | .ok a => pure a
  | .error e => throw (make e)

/-- Append an event to the journal of a game. -/
def append (time : String) (dir : Path) (game : String) (event : Event) : Call LogError Unit := do
  match logPath dir game with
  | .error e => throw e
  | .ok p =>
    if let some parent := p.parent? then
      onFailure (.noDirectory parent) (Disk.createDirAll parent)
    onFailure (.notOpened p) (Disk.appendBytes p ((Stamped.mk time event).line ++ "\n").toUTF8)

/-- The events of lines, which are numbered from `n`. -/
def eventsOf (p : Path) (n : Nat) : List (List Char) → Except LogError (List Stamped)
  | [] => .ok []
  | l :: r =>
    match Stamped.ofLine? l with
    | none => .error (.badEvent p n)
    | some e => (eventsOf p (n + 1) r).map (e :: ·)

/-- The events of the content of a journal. -/
def eventsOfText (p : Path) (content : String) : Except LogError (List Stamped) :=
  eventsOf p 1 ((Text.lines content.toList).filter fun l => !l.all Text.isBlank)

/-- The events of a game; none when it has no journal. -/
def read (dir : Path) (game : String) : Call LogError (List Stamped) := do
  match logPath dir game with
  | .error e => throw e
  | .ok p =>
    if !(← get).pathExists p then pure []
    else
      let content ← onFailure (.notRead p) (Disk.readText p)
      match eventsOfText p content with
      | .ok es => pure es
      | .error e => throw e

end GameInstaller.Journal
