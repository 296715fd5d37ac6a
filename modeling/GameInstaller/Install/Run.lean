import GameInstaller.Install.Apply
import GameInstaller.Recipe.Validation

/-! # Running steps

Steps run strictly in their order.  Each is resolved, bound and applied; an error is recorded, and
a fatal one ends the run.  Between steps the run may be called off.  Nothing is ever undone, and the
journal has no influence.

* `runSteps`  the steps with their effects
* `run`       the same, with the events that open and close the journal -/

namespace GameInstaller

open Decimal (Binary64)

variable {σ : Type}

/-- How a run, or an install, ended. -/
inductive RunResult where
  /-- All steps ran; skipped ones count. -/
  | succeeded (steps : Nat)
  /-- A fatal error, and all errors recorded up to it. -/
  | failed (error : InstallError) (errors : Errors)
  /-- Called off after so many steps. -/
  | abandoned (completed : Nat)
  /-- The recipe was not valid. -/
  | rejected (v : Validation)
  deriving DecidableEq, Repr

/-- Whether all steps ran. -/
def RunResult.isSuccess : RunResult → Bool
  | succeeded _ => true
  | _ => false

/-- The version that journals name. -/
def version : String := "0.3.0"

/-- The name that the journal of a game without a slug has. -/
def unnamed : String := "unnamed"

/-- The name of a game's journal. -/
def Game.journalName (g : Game) : String := if g.slug.isEmpty then unnamed else g.slug

/-- Put an event into the journal, if there is one; whether that works makes no difference. -/
def Host.log (h : Host σ) (c : Context) (g : Game) (e : Journal.Event) : StateM σ Unit := do
  match c.journalDir with
  | none => pure ()
  | some dir =>
    let _ ← h.append dir g.journalName e
    pure ()

/-- The operation that a step is. -/
def Step.operation (s : Step) : Except InstallError Operation :=
  match Command.resolve s.command with
  | .error e => .error (.scripting (e.atStep s.index s.command))
  | .ok command => (command.operation s.params).mapError fun e =>
      .scripting (e.atStep s.index s.command)

/-- Resolve, bind and apply a step. -/
def Step.execute (h : Host σ) (c : Context) (g : Game) (s : Step) :
    StateM σ (Except InstallError Unit) := do
  match s.operation with
  | .error e => pure (.error e)
  | .ok operation =>
    pure ((← operation.apply h c g).mapError fun e => .execution (e.atStep s.index s.command))

/-- A step with its events in the journal. -/
def Step.perform (h : Host σ) (c : Context) (g : Game) (s : Step) :
    StateM σ (Except InstallError Unit) := do
  h.log c g (.stepStarted g.journalName s.index s.command)
  let start ← h.clock
  match ← s.execute h c g with
  | .ok () =>
    let now ← h.clock
    h.log c g (.stepCompleted g.journalName s.index s.command (Binary64.seconds (now - start)))
    pure (.ok ())
  | .error e =>
    h.log c g (.stepFailed g.journalName s.index s.command e.display (e.severity = .fatal))
    pure (.error e)

/-- Run steps.  `completed` steps ran before, and `errors` were recorded. -/
def runSteps (h : Host σ) (c : Context) (g : Game) (completed : Nat) (errors : Errors) :
    List Step → StateM σ (RunResult × Errors)
  | [] => pure (.succeeded completed, errors)
  | s :: rest => do
    if ← h.isCancelled then pure (.abandoned completed, errors)
    else
      match ← s.perform h c g with
      | .ok () => runSteps h c g (completed + 1) errors rest
      | .error e =>
        let errors := errors ++ [e]
        if e.severity = .fatal then pure (.failed e errors, errors)
        else runSteps h c g (completed + 1) errors rest

/-- The event that closes the journal of a run, if it has one. -/
def RunResult.closing (g : Game) (runId : String) (seconds : Binary64) :
    RunResult → Option Journal.Event
  | succeeded n => some (.installCompleted g.journalName runId n seconds)
  | abandoned n => some (.installAbandoned g.journalName runId n)
  | failed .. => none
  | rejected _ => none

/-- Run the steps of a game; the errors are those before and those of the run. -/
def run (h : Host σ) (c : Context) (g : Game) (steps : List Step) (errors : Errors) :
    StateM σ (RunResult × Errors) := do
  let start ← h.clock
  let runId ← h.newRunId
  h.log c g (.installStarted g.journalName runId steps.length version)
  let (result, errors) ← runSteps h c g 0 errors steps
  let now ← h.clock
  match result.closing g runId (Binary64.seconds (now - start)) with
  | some e => h.log c g e
  | none => pure ()
  pure (result, errors)

end GameInstaller
