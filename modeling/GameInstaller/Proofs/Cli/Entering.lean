import GameInstaller.Proofs.Cli.Installing
import GameInstaller.Proofs.Install.Journaling
import GameInstaller.Proofs.Library.Storing

/-!
# Entering games into the library

An install request that succeeds enters its game into the library, and one that fails leaves the rows
as they are, whether it fails before the recipe is run, in the run or behind it.

* `Place.entry`         the row of a game
* `Entered`             what a request did to the rows
* `InstallCall.Spares`  a call of which no step touches the library

## Key results

- `attempt_holds`: running a recipe leaves the library as it is
- `call_entered`: what a request does to the rows
-/

namespace GameInstaller

open Library (Holds)
open Cli.Job

/-! ## Runs -/

variable {p : Path} {l : Location} {found : Option Rows} {known : Prop}

/-- An event that is put into the journal leaves the library as it is. -/
theorem Machine.log_holds {runner : SystemRunner} {configDir : Path} {m : Machine}
    (h : Holds m.disk p l found known) (c : Context) (g : Game) (e : Journal.Event) :
    Holds (((Machine.host runner configDir).log c g e).run m).2.disk p l found known := by
  cases hdir : c.journalDir with
  | none =>
    unfold Host.log
    rw [hdir]
    exact h
  | some dir =>
    obtain ⟨time, hlog⟩ := (Machine.journalsOn runner configDir).disk_log hdir g e m
    have hdisk : (((Machine.host runner configDir).log c g e).run m).2.disk =
        (Disk.outcome (Journal.append time dir g.journalName e) m.disk).2 := hlog
    rw [hdisk]
    exact h.append time dir g.journalName e

/-- Running steps that do nothing to the library leaves it as it is. -/
theorem Machine.run_holds {runner : SystemRunner} {configDir : Path} {m : Machine} {c : Context}
    {g : Game} {steps : List Step} (errors : Errors) (h : Holds m.disk p l found known)
    (hsteps : ∀ k step t, Executes (Machine.host runner configDir) c g steps m k step t →
      t.disk.Spares ((step.execute (Machine.host runner configDir) c g).run t).2.disk p l) :
    Holds ((run (Machine.host runner configDir) c g steps errors).run m).2.disk p l found
      known := by
  obtain ⟨log, m₁, hl, he⟩ := exists_ending (Machine.host runner configDir) c g 0 errors steps
    (((Machine.host runner configDir).opening c g steps.length).run m).2
  have ha := RunAccount.of_ending rfl hl he
  have htracks : Tracks (Machine.host runner configDir) c g steps m
      fun _ t => Holds t.disk p l found known := {
    opening := Machine.log_holds h _ _ _
    log := fun _ _ _ ht => Machine.log_holds ht _ _ _
    clock := fun _ _ ht => ht
    isCancelled := fun _ _ ht => ht
    execute := fun _ k step t hexecutes ht => ht.spares (hsteps k step t hexecutes) }
  obtain ⟨-, -, hholds⟩ := ha.traced htracks
  exact hholds

namespace Cli

/-- Running a recipe of which no step touches the library leaves it as it is. -/
theorem attempt_holds {place : Place} {r : Recipe} {m : Machine} (hvalid : r.findings = [])
    (h : Holds m.disk p l found known)
    (hsteps : ∀ k step t,
      Executes (place.host r.game) (place.contextOn m) r.game r.steps m k step t →
      t.disk.Spares ((step.execute (place.host r.game) (place.contextOn m) r.game).run t).2.disk
        p l) :
    Holds (place.attempt r m).2.disk p l found known := by
  have hrun := Machine.run_holds [] h hsteps
  unfold Place.attempt
  rw [Session.install_of_valid hvalid]
  rcases hout : (run (place.host r.game) (place.contextOn m) r.game r.steps []).run m with
    ⟨⟨result, errors⟩, m'⟩
  have hm' : Holds m'.disk p l found known := by
    have := congrArg (fun out => Holds out.2.disk p l found known) hout
    exact this.mp hrun
  rw [run_bind_of hout]
  cases result <;> exact hm'

/-! ## Entering a game -/

/-- The row of a game that is entered into the library on a machine. -/
def Place.entry (p : Place) (game : Game) (m : Machine) : LibraryEntry :=
  { slug := game.slug, name := game.name, runner := game.runner, directory := p.gameDir
    installedAt := Time.stamp m.now.secs }

/-- A library has the same rows; there may have been no file for none. -/
def Kept (found found' : Option Rows) : Prop := found' = found ∨ found' = some (found.getD [])

theorem Kept.getD {found' : Option Rows} (h : Kept found found') :
    found'.getD [] = found.getD [] := by
  rcases h with rfl | rfl <;> rfl

theorem Kept.isSome {found' : Option Rows} (h : Kept found found') (hfound : found.isSome) :
    found'.isSome := by
  rcases h with rfl | rfl
  · exact hfound
  · rfl

/-- What a request did to the rows of the library: it succeeded and entered the row that it makes on
    the machine that it leaves, or it failed and kept the rows. -/
inductive Entered {α : Type} (p : Path) (l : Location) (found : Option Rows) (known : Prop)
    (row? : Machine → Option LibraryEntry) : Except Report α × Machine → Prop
  | ok {a : α} {m : Machine} {row : LibraryEntry} (entry : row? m = some row)
      (holds : Holds m.disk p l (some (Rows.record row (found.getD []))) True) :
      Entered p l found known row? (.ok a, m)
  | error {report : Report} {m : Machine} {found' : Option Rows}
      (holds : Holds m.disk p l found' known) (kept : Kept found found') :
      Entered p l found known row? (.error report, m)

theorem enroll_eq (place : Place) (game : Game) : enroll place game = (do
    ofCall LibraryError.message (Library.openAt place.settings.libraryPath)
    let m ← get
    ofCall LibraryError.message
      (Library.record place.settings.libraryPath (place.entry game m))) := rfl

/-- Entering a game puts its row into the library, or leaves the rows as they are. -/
theorem enroll_entered {place : Place} {game : Game} {m : Machine}
    (h : Holds m.disk place.settings.libraryPath l found known) :
    Entered place.settings.libraryPath l found known (fun m => some (place.entry game m))
      ((enroll place game).outcome m) := by
  rw [enroll_eq]
  have hopen := outcome_ofCall LibraryError.message
    (Library.openAt place.settings.libraryPath) m
  obtain ⟨d₁, hd₁, ⟨e, he⟩ | ⟨d₂, l₁, hok, hopened⟩⟩ :=
    Library.openAt_cases place.settings.libraryPath m.disk
  · rw [he] at hopen
    dsimp only [Except.mapError] at hopen
    rw [outcome_bind_of_error hopen]
    exact .error (h.addsDirs hd₁) (.inl rfl)
  rw [hok] at hopen
  dsimp only [Except.mapError] at hopen
  rw [outcome_bind_of_ok hopen, outcome_bind_of_ok (outcome_get _), outcome_ofCall]
  have hlibrary := hopened.holds (h.addsDirs hd₁)
  obtain ⟨e, he⟩ | ⟨d₃, l₂, hok', hrecorded⟩ := Library.record_cases place.settings.libraryPath
    (place.entry game { m with disk := d₂ }) d₂
  · -- The row was not recorded, but the library has been opened.
    rw [he]
    exact .error (hlibrary.imp fun _ => trivial) (.inr rfl)
  · rw [hok']
    have hrow := hrecorded.holds hlibrary
    exact .ok rfl hrow

/-- A request that reports on an attempt enters the game only if the attempt succeeded. -/
theorem conclude_entered {place : Place} {game : Game} {s : Session} {result : RunResult}
    {m : Machine} (h : Holds m.disk place.settings.libraryPath l found known) :
    Entered place.settings.libraryPath l found known (fun m => some (place.entry game m))
      ((conclude place game s result).outcome m) := by
  cases result with
  | rejected v => exact .error h (.inl rfl)
  | failed e errors => exact .error h (.inl rfl)
  | abandoned n => exact .error h (.inl rfl)
  | succeeded steps =>
    unfold conclude
    dsimp only
    have hentered : Entered place.settings.libraryPath l found known
        (fun m => some (place.entry game m)) ((enroll place game).outcome m) := enroll_entered h
    rcases henroll : (enroll place game).outcome m with ⟨report | u, m'⟩
    · rw [henroll] at hentered
      rw [outcome_withNotices_of_error (outcome_bind_of_error henroll)]
      cases hentered with
      | error holds kept => exact .error holds kept
    · rw [henroll] at hentered
      rw [outcome_withNotices_of_ok ((outcome_bind_of_ok henroll).trans (outcome_pure _ _))]
      cases hentered with
      | ok entry holds => exact .ok entry holds

/-! ## Calls -/

/-- The row that a call on the machine `m` enters, when it leaves the machine `m'`: that of the game
    of its recipe, with the directory that was asked for or that of the slug among the games of its
    settings, and the time at which it ended. -/
def InstallCall.row? (c : InstallCall) (m m' : Machine) : Option LibraryEntry :=
  match (loadSettings c.settings).outcome m, (openRecipe c.recipe).outcome m with
  | (.ok settings, _), (.ok session, _) =>
    let game := session.recipe.game
    some { slug := game.slug, name := game.name, runner := game.runner
           directory := c.gameDir.getD (settings.gamesDir.child game.slug)
           installedAt := Time.stamp m'.now.secs }
  | _, _ => none

theorem Starts.row?_eq {c : InstallCall} {m m₁ : Machine} {place : Place} {r : Recipe}
    (h : Starts c m place r m₁) : c.row? m = fun m' => some (place.entry r.game m') := by
  obtain ⟨-, hdir⟩ := ofGame_ok h.ofGame
  funext m'
  unfold InstallCall.row?
  rw [h.loaded, h.opened]
  simp [Place.entry, hdir, Session.start]

/-- Checking for a runner does nothing where the system itself is the runner. -/
theorem execute_checkDepends_of_linux {place : Place} {game : Game} {step : Step}
    (hgame : game.runner = "linux") (hstep : step.operation = .ok .checkDepends) (c : Context)
    (m : Machine) : ((step.execute (place.host game) c game).run m).2 = m := by
  unfold Step.execute Place.host
  rw [hgame, hstep]
  rfl

/-- A call on the machine `m` uses the library that `p` heads for, and no step of it touches the file
    of the library or the path to it. -/
structure InstallCall.Spares (p : Path) (l : Location) (c : InstallCall) (m : Machine) : Prop where
  library : ∀ settings, (loadSettings c.settings).outcome m = (.ok settings, m) →
    settings.libraryPath = p
  steps : ∀ place r m₁, Starts c m place r m₁ → ∀ k step t,
    Executes (place.host r.game) (place.contextOn m₁) r.game r.steps m₁ k step t →
    t.disk.Spares ((step.execute (place.host r.game) (place.contextOn m₁) r.game).run t).2.disk p l

/-- A call that succeeds puts its row into the library, and one that fails leaves the rows as they
    are. -/
theorem call_entered {c : InstallCall} {m : Machine} (hc : c.Spares p l m)
    (h : Holds m.disk p l found known) :
    Entered p l found known (c.row? m) (c.job.outcome m) := by
  have hended := install_ended c m
  generalize c.job.outcome m = out at hended
  cases hended with
  | refused report => exact .error h (.inl rfl)
  | unprepared report made => exact .error (h.addsDirs made) (.inl rfl)
  | @ran place r m₁ starts =>
    have hrun := attempt_holds starts.valid (h.addsDirs starts.addsDirs)
      (hc.steps place r m₁ starts)
    obtain rfl := hc.library _ starts.loaded
    rw [starts.row?_eq]
    exact conclude_entered hrun

end Cli

end GameInstaller
