import GameInstaller.Decimal.Binary64
import GameInstaller.Json.Reader
import GameInstaller.Json.Writer

/-! # Journal events

What an install writes to its journal, and the JSON object that each event is on its line.

* `Event.toJson`    the object of an event
* `Stamped.line`    the line of an event with its time
* `Stamped.ofLine?` the event that a line holds -/

namespace GameInstaller.Journal

open GameInstaller.Decimal
open GameInstaller.Json (Value)

/-- An event of an install. -/
inductive Event where
  | installStarted (game runId : String) (steps : Nat) (version : String)
  | stepStarted (game : String) (step : Nat) (command : String)
  | stepCompleted (game : String) (step : Nat) (command : String) (seconds : Binary64)
  | stepFailed (game : String) (step : Nat) (command error : String) (fatal : Bool)
  | installCompleted (game runId : String) (steps : Nat) (seconds : Binary64)
  | installAbandoned (game runId : String) (steps : Nat)
  deriving DecidableEq, Repr

/-- An event with the time at which it was written. -/
structure Stamped where
  time : String
  event : Event
  deriving DecidableEq, Repr

namespace Event

/-- The words for the kinds of events. -/
def kinds : List String :=
  ["install_started", "step_started", "step_completed", "step_failed", "install_completed",
   "install_abandoned"]

/-- The word for an event's kind. -/
def kind : Event → String
  | installStarted .. => "install_started"
  | stepStarted .. => "step_started"
  | stepCompleted .. => "step_completed"
  | stepFailed .. => "step_failed"
  | installCompleted .. => "install_completed"
  | installAbandoned .. => "install_abandoned"

/-- The entries of an event's object, without its kind. -/
def fields : Event → List (String × Value)
  | installStarted game runId steps version =>
    [("game", .string game), ("run_id", .string runId), ("steps", .nat steps),
     ("stagehand_version", .string version)]
  | stepStarted game step command =>
    [("game", .string game), ("step", .nat step), ("command", .string command)]
  | stepCompleted game step command seconds =>
    [("game", .string game), ("step", .nat step), ("command", .string command),
     ("duration_seconds", .number (.real seconds))]
  | stepFailed game step command error fatal =>
    [("game", .string game), ("step", .nat step), ("command", .string command),
     ("error", .string error), ("fatal", .bool fatal)]
  | installCompleted game runId steps seconds =>
    [("game", .string game), ("run_id", .string runId), ("steps_completed", .nat steps),
     ("total_seconds", .number (.real seconds))]
  | installAbandoned game runId steps =>
    [("game", .string game), ("run_id", .string runId), ("steps_completed", .nat steps)]

/-- The object of an event. -/
def entries (e : Event) : List (String × Value) := ("event", .string e.kind) :: e.fields

/-- The object of an event. -/
def toJson (e : Event) : Value := .object e.entries

/-! ## Reading -/

/-- The only value under a key; nothing when there is none or more than one. -/
def only? (es : List (String × Value)) (key : String) : Option Value :=
  match es.filter fun (k, _) => k == key with
  | [(_, v)] => some v
  | _ => none

/-- The text under a key. -/
def text? (es : List (String × Value)) (key : String) : Option String :=
  match only? es key with
  | some (.string s) => some s
  | _ => none

/-- The count under a key. -/
def count? (es : List (String × Value)) (key : String) : Option Nat :=
  match only? es key with
  | some (.number (.natural n)) => some n
  | _ => none

/-- The number under a key; a whole one is as good as any. -/
def real? (es : List (String × Value)) (key : String) : Option Binary64 :=
  match only? es key with
  | some (.number (.natural n)) => some (.ofNat n)
  | some (.number (.negative n)) => some (Binary64.ofNat n.natAbs).neg
  | some (.number (.real x)) => some x
  | _ => none

/-- The flag under a key. -/
def flag? (es : List (String × Value)) (key : String) : Option Bool :=
  match only? es key with
  | some (.bool b) => some b
  | _ => none

/-- The event of a kind with the fields that entries give; others are skipped. -/
def ofFields? (kind : String) (es : List (String × Value)) : Option Event := do
  let game ← text? es "game"
  match kind with
  | "install_started" =>
    pure (.installStarted game (← text? es "run_id") (← count? es "steps")
      (← text? es "stagehand_version"))
  | "step_started" => pure (.stepStarted game (← count? es "step") (← text? es "command"))
  | "step_completed" =>
    pure (.stepCompleted game (← count? es "step") (← text? es "command")
      (← real? es "duration_seconds"))
  | "step_failed" =>
    pure (.stepFailed game (← count? es "step") (← text? es "command") (← text? es "error")
      (← flag? es "fatal"))
  | "install_completed" =>
    pure (.installCompleted game (← text? es "run_id") (← count? es "steps_completed")
      (← real? es "total_seconds"))
  | "install_abandoned" =>
    pure (.installAbandoned game (← text? es "run_id") (← count? es "steps_completed"))
  | _ => none

/-- The event of an object whose kind is given by its word. -/
def ofJson? : Value → Option Event
  | .object es => (text? es "event").bind fun kind => ofFields? kind es
  | _ => none

/-- The kind under its key: its word, or its position. -/
def kindOrPosition? (es : List (String × Value)) : Option String :=
  match only? es "event" with
  | some (.string s) => some s
  | some (.number (.natural n)) => kinds[n]?
  | _ => none

end Event

namespace Stamped

/-- The line of an event. -/
def line (s : Stamped) : String :=
  (Value.object (("ts", .string s.time) :: s.event.entries)).compact

/-- The event that a line holds. -/
def ofLine? (line : List Char) : Option Stamped :=
  match Json.read? line with
  | some (.object es) => do
    let time ← Event.text? es "ts"
    let kind ← Event.kindOrPosition? es
    let event ← Event.ofFields? kind es
    pure ⟨time, event⟩
  | _ => none

end Stamped

end GameInstaller.Journal
