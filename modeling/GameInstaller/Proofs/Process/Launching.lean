import GameInstaller.Install.Machine
import GameInstaller.Proofs.Install.Recording
import GameInstaller.Proofs.Process.Directories

/-!
# The programs that recipes run

A step that runs a program by a relative path with a slash joins the path to the working directory, and
has the system enter that directory before it follows what came of it.  So the directory is gone through
twice.  Where it is given from the root this makes no difference.  Otherwise the program that is run is
the one that the path of the directory, and the path of the program behind it, lead to in the directory.

* `Disk.imageAt`, `Disk.loadImage`, `Launch.outcome`   running what a path has led to, in a directory
* `Context.launch`      the launch that a step asks for
* `Context.NamesBelow`  a program is named by a relative path with a slash
* `Context.pathBelow`   the path of such a program under the working directory
* `LaunchAccount`       what is run for such a program, and where that is what lies at its path

## Key results

- `spawn_run_of_path`, `spawn_run_of_refused`: what a launch by a path comes to
- `Context.program_launch`: the program of a step is its path under the working directory
- `launch_account`: of each context, what its steps launch, whatever the program
-/

namespace GameInstaller

open Disk (AsFar Errno IoError Node Resolved)

/-! ## What is run -/

/-- What the system makes of what a path leads to, when it is to be run. -/
def Disk.imageAt : Option Node → Except Errno Image
  | none => .error .noEntry
  | some (.file content mode _) =>
    if mayExecute mode then Image.ofContent content else .error .permission
  | some _ => .error .permission

/-- The tool that runs an image; a script is run by its interpreter. -/
def Disk.loadImage (d : Disk) (path : String) (argv : List String) : Image → Except Errno Loaded
  | .tool name => .ok ⟨name, argv⟩
  | .script interpreter argument =>
    d.loadWith 4 interpreter (interpreter :: argument.toList ++ path :: argv.drop 1)

/-- What comes of running what a path has led to, in a directory. -/
def Launch.outcome (l : Launch) (environ : Environment) (d : Disk) (working : Location)
    (target : Except IoError Resolved) : Except IoError Exit × Disk :=
  match target with
  | .error e => (.error e, d)
  | .ok r =>
    let child := { d with working }
    match (Disk.imageAt r.node).bind
        (child.loadImage l.program.text (l.program.text :: l.args)) with
    | .error e => (.error (.system e), d)
    | .ok loaded =>
      let start := Shell.State.start child (environ.extend l.env.vars) (loaded.argv.headD "") []
      let (status, after) := StateT.run (ExceptT.run
        (Shell.runLoaded (Shell.eval Shell.maxDepth) Shell.Streams.standard loaded)) start
      (.ok (exitOf status after.complaint), { after.disk with working := d.working })

theorem Disk.image_eq (d : Disk) (p : Path) : d.image p = match d.resolve .follow p with
    | .error e => .error (errnoOf e)
    | .ok r => imageAt r.node := by
  unfold image stat
  cases d.resolve .follow p with
  | error e => rfl
  | ok r =>
    dsimp only
    cases r.node with
    | none => rfl
    | some n => cases n <;> rfl

/-- Only a zero character makes a path fail without a number of the system. -/
theorem Disk.resolve_error_system {d : Disk} {final : Final} {p : Path} {e : IoError}
    (hnul : hasNul p.text = false) (h : d.resolve final p = .error e) : e = .system (errnoOf e) := by
  unfold resolve at h
  unfold hasNul at hnul
  rw [if_neg (by simpa using hnul)] at h
  split at h
  · cases h; rfl
  split at h
  · cases h; rfl
  cases hw : d.walk final maxLinks (if p.isAbsolute then [] else d.working) (endsInSlash p.text)
      (segments p.text) with
  | ok r => rw [hw] at h; cases h
  | error n => rw [hw] at h; cases h; rfl

theorem Disk.loadAt_false (d : Disk) (path : String) (argv : List String) :
    d.loadAt false path argv = d.load path argv := by
  unfold loadAt
  split
  · simp_all
  · rfl

/-- A program that is named by a path is what that path leads to. -/
theorem Disk.loadProgram_path (d : Disk) (env : Environment) {program : String}
    (hpath : namesPath program = true) (args : List String) :
    d.loadProgram false env program args =
      match d.resolve .follow ⟨program⟩ with
      | .error e => .error (errnoOf e)
      | .ok r => (imageAt r.node).bind (d.loadImage program (program :: args)) := by
  have hne : ¬ program.isEmpty = true := by
    intro hempty
    rw [String.isEmpty_iff.mp hempty] at hpath
    cases hpath
  rw [loadProgram, if_neg hne, if_pos hpath, loadAt_false, load, maxInterpreters, loadWith, image_eq]
  cases d.resolve .follow ⟨program⟩ with
  | error e => rfl
  | ok r =>
    dsimp only
    cases imageAt r.node with
    | error e => rfl
    | ok image => cases image <;> rfl

/-- A launch by a path runs what its path leads to from the directory that it works in. -/
theorem spawn_run_of_path (environ : Environment) {l : Launch} {d : Disk} {working : Location}
    (hpath : namesPath l.program.text = true) (hnul : l.hasNul = false)
    (henter : d.enter l.workingDir = .ok working) :
    (spawn environ l).run d =
      l.outcome environ d working ({ d with working }.resolve .follow l.program) := by
  have hprogram : hasNul l.program.text = false := by
    unfold Launch.hasNul at hnul
    simp_all
  have hload := Disk.loadProgram_path { d with working } (environ.extend l.env.vars) hpath l.args
  unfold spawn
  rw [if_neg (by simpa using hnul)]
  rw [run_bind_of (show (get : StateM Disk Disk).run d = (d, d) from rfl), henter, hpath]
  simp only [Bool.not_true, Bool.and_false, hload, Launch.outcome]
  cases hr : Disk.resolve { d with working } .follow l.program with
  | error e =>
    rw [Disk.resolve_error_system hprogram hr]
    rfl
  | ok r =>
    dsimp only
    cases (Disk.imageAt r.node).bind
        (Disk.loadImage { d with working } l.program.text (l.program.text :: l.args)) with
    | error e => rfl
    | ok loaded => rfl

/-- Nothing is run where the directory to work in cannot be entered. -/
theorem spawn_run_of_refused (environ : Environment) {l : Launch} {d : Disk} {e : IoError}
    (hnul : l.hasNul = false) (henter : d.enter l.workingDir = .error e) :
    (spawn environ l).run d = (.error e, d) := by
  unfold spawn
  rw [if_neg (by simpa using hnul), run_bind_of (show (get : StateM Disk Disk).run d = (d, d) from rfl),
    henter]
  rfl

/-! ## Programs of recipes -/

namespace Context

variable (c : Context) (g : Game)

/-- The launch that a step asks for. -/
def launch (file : String) (args : List String) : Launch :=
  ⟨c.programPath (c.text g file), args.map (c.text g), some c.workingDir, c.env⟩

/-- A program is named by a relative path with a slash. -/
def NamesBelow (file : String) : Prop :=
  '/' ∈ (c.text g file).toList ∧ (⟨c.text g file⟩ : Path).isRelative = true

/-- The path that such a program has under the working directory. -/
def pathBelow (file : String) : Path := c.workingDir / ⟨c.text g file⟩

variable {c g} {file : String}

theorem text_dotSlash : c.text g "./" = "./" := by
  apply String.toList_inj.mp
  simp [Context.text, Environment.expand, Environment.expandChars]

theorem namesBelow_dotSlash : c.NamesBelow g "./" := by
  rw [NamesBelow, text_dotSlash]
  decide

theorem program_launch (h : c.NamesBelow g file) (args : List String) :
    (c.launch g file args).program = c.pathBelow g file := by
  obtain ⟨hslash, hrelative⟩ := h
  rw [launch, programPath, if_pos (by simp [hslash, hrelative]), pathBelow]

theorem namesPath_pathBelow (h : c.NamesBelow g file) :
    namesPath (c.pathBelow g file).text = true := by
  have hchars := Path.div_chars (p := c.workingDir) h.2
  rw [namesPath, pathBelow, hchars]
  simpa using .inr h.1

/-- Where a path under the working directory leads somewhere, that is a directory. -/
theorem exists_dirAt {d : Disk} {r : Resolved} (h : c.NamesBelow g file) (hne : c.workingDir.text ≠ "")
    (hr : d.resolve .follow (c.pathBelow g file) = .ok r) : ∃ l, d.DirAt c.workingDir l := by
  have hfile : c.text g file ≠ "" := by
    intro hempty
    rw [NamesBelow, hempty] at h
    cases h.1
  obtain ⟨rest, htext⟩ := Disk.exists_div_text (p := c.workingDir) h.2
  obtain ⟨r', hr', hnode⟩ := Disk.resolve_front hne htext (Disk.segments_div hne h.2)
    (Disk.segments_ne_nil h.2 hfile) hr
  exact ⟨r'.location, r', hr', rfl, hnode⟩

/-- A step runs what the path of its program leads to from the working directory. -/
theorem spawn_run_launch {d : Disk} {l : Location}
    (hl : d.enter (some c.workingDir) = .ok l) (environ : Environment) {args : List String}
    (hfile : c.NamesBelow g file) (hnul : (c.launch g file args).hasNul = false) :
    (spawn environ (c.launch g file args)).run d = (c.launch g file args).outcome environ d l
      ({ d with working := l }.resolve .follow (c.pathBelow g file)) := by
  have hprogram := program_launch hfile args
  have hrun := spawn_run_of_path environ (l := c.launch g file args)
    (by rw [hprogram]; exact namesPath_pathBelow hfile) hnul hl
  rwa [hprogram] at hrun

end Context

/-- A step has one request, which is the launch of its program. -/
theorem Host.execute_requests {σ : Type} (h : Host σ) {c : Context} {g : Game} (file : String)
    (args : List String) (s : σ) :
    (((Operation.execute file args).apply h.recorded c g).run (s, [])).2.2 =
      [.spawn (c.launch g file args)] := by
  rcases hl : (h.spawn (c.launch g file args)).run s with ⟨outcome, t⟩
  have hspawn : (h.recorded.spawn (c.launch g file args)).run (s, []) =
      (outcome, t, [.spawn (c.launch g file args)]) := by
    rw [Host.recorded, noted_run, hl]
    rfl
  change ((h.recorded.spawn (c.launch g file args) >>= _).run (s, [])).2.2 = _
  rw [run_bind_of hspawn]
  cases outcome with
  | error e => rfl
  | ok exit =>
    dsimp only
    split <;> rfl

/-- What is promised of the programs that the steps of a recipe name by relative paths with a slash. -/
structure LaunchAccount (c : Context) (g : Game) (d : Disk) : Prop where
  /-- A step has one request: to launch its program in the working directory. -/
  requested : ∀ {σ : Type} (h : Host σ) (file : String) (args : List String) (s : σ),
    (((Operation.execute file args).apply h.recorded c g).run (s, [])).2.2 =
      [.spawn (c.launch g file args)]
  /-- What runs is what the path under the working directory leads to from that directory. -/
  runs : ∀ l, d.enter (some c.workingDir) = .ok l → ∀ environ file args, c.NamesBelow g file →
    (c.launch g file args).hasNul = false → (spawn environ (c.launch g file args)).run d =
      (c.launch g file args).outcome environ d l
        ({ d with working := l }.resolve .follow (c.pathBelow g file))
  /-- With a zero character in what the system is given, nothing is run. -/
  unspelled : ∀ environ file args, (c.launch g file args).hasNul = true →
    (spawn environ (c.launch g file args)).run d = (.error nulInData, d)
  /-- A directory that cannot be entered has no programs, and nothing is run. -/
  refused : ∀ e, d.enter (some c.workingDir) = .error e → ∀ environ file args, c.NamesBelow g file →
    (c.launch g file args).hasNul = false →
    (spawn environ (c.launch g file args)).run d = (.error e, d) ∧
      (c.workingDir.text ≠ "" → ∀ r, d.resolve .follow (c.pathBelow g file) ≠ .ok r)
  /-- If the directory is given from the root, or by dots alone, the path leads where it leads from
      outside. -/
  direct : (c.workingDir.isAbsolute = true ∨ ∀ name ∈ Disk.segments c.workingDir.text, name = ".") →
    ∀ l, d.enter (some c.workingDir) = .ok l → ∀ file, c.NamesBelow g file →
      { d with working := l }.resolve .follow (c.pathBelow g file) =
        d.resolve .follow (c.pathBelow g file)
  /-- In all, it leads there, whatever the program, if the directory leads back to itself from within, and
      only then. -/
  below_iff : ∀ l, d.enter (some c.workingDir) = .ok l → ((∀ file, c.NamesBelow g file →
    AsFar ({ d with working := l }.resolve .follow (c.pathBelow g file))
      (d.resolve .follow (c.pathBelow g file))) ↔ d.Returns c.workingDir l)

/-- The steps of every context launch what the account says, whatever the disk. -/
theorem launch_account (c : Context) (g : Game) (d : Disk) : LaunchAccount c g d where
  requested h file args s := h.execute_requests file args s
  runs _ hl environ _ _ hfile hnul := Context.spawn_run_launch hl environ hfile hnul
  unspelled environ _ _ hnul := by
    rw [spawn, if_pos hnul]
    rfl
  refused _ he environ _ _ hfile hnul :=
    ⟨spawn_run_of_refused environ hnul he, fun hne _ hr => by
      obtain ⟨l, hdir⟩ := Context.exists_dirAt hfile hne hr
      cases he.symm.trans (Disk.enter_eq_ok_iff.mpr hdir)⟩
  direct hgiven l hl file hfile := by
    have hdir := Disk.enter_eq_ok_iff.mp hl
    by_cases habsolute : c.workingDir.isAbsolute = true
    · exact Disk.resolve_working ((Disk.isAbsolute_div hdir.text_ne hfile.2).trans habsolute) d l
        .follow
    · have hdots := hgiven.resolve_left habsolute
      rw [hdir.eq_working_of_dots (Bool.eq_false_of_not_eq_true habsolute) hdots]
  below_iff l hl := by
    have hdir := Disk.enter_eq_ok_iff.mp hl
    refine ⟨fun h => Disk.returns_of_asFar hdir ?_, fun h file hfile => h.asFar hdir hfile.2 hfile.1⟩
    -- The directory itself is named like a program.
    have hdot := h "./" Context.namesBelow_dotSlash
    rwa [Context.pathBelow, Context.text_dotSlash] at hdot

/-! ## A program that is not found -/

namespace Nested

/-- A game in a directory of its own, with a script beside it. -/
def disk : Disk :=
  { entries := [(["games"], .dir), (["games", "baz"], .dir),
      (["games", "baz", "setup.sh"], .file (Image.binary "true") 0o755 none)]
    working := []
    split := false }

/-- Its directory as seen from the root. -/
def context : Context := .ofGameDir ⟨"games/baz"⟩ none

def game : Game := ⟨"baz", "Baz", "linux"⟩

/-- The script as a recipe names it. -/
def script : String := "./setup.sh"

theorem text_script : context.text game script = script := by
  apply String.toList_inj.mp
  simp [Context.text, Environment.expand, Environment.expandChars, script]

theorem namesBelow_script : context.NamesBelow game script := by
  unfold Context.NamesBelow
  rw [text_script]
  decide

theorem pathBelow_script : context.pathBelow game script = ⟨"games/baz/./setup.sh"⟩ := by
  rw [Context.pathBelow, text_script]
  decide

theorem enter_workingDir : disk.enter (some context.workingDir) = .ok ["games", "baz"] := by
  rw [Disk.enter_eq_ok_iff]
  refine ⟨⟨["games", "baz"], some .dir, false, false⟩, ?_, rfl, rfl⟩
  rw [Disk.resolve_relative _ _ ["games", "baz"] (by decide)]
  simp (disch := decide) [Disk.walk_cons, Disk.walkAt, disk, Disk.find?, Disk.lookup]
  rfl

/-- From the root the path leads to the script. -/
theorem resolve_script : disk.resolve .follow ⟨"games/baz/./setup.sh"⟩ =
    .ok ⟨["games", "baz", "setup.sh"], some (.file (Image.binary "true") 0o755 none), false, false⟩ := by
  rw [Disk.resolve_relative _ _ ["games", "baz", ".", "setup.sh"] (by decide)]
  simp (disch := decide) [Disk.walk, Disk.walk_cons, Disk.walkAt, disk, Disk.find?, Disk.lookup]
  rfl

/-- From the directory of the game it leads nowhere. -/
theorem resolve_nested : { disk with working := ["games", "baz"] }.resolve .follow
    ⟨"games/baz/./setup.sh"⟩ = .error (.system .noEntry) := by
  rw [Disk.resolve_relative _ _ ["games", "baz", ".", "setup.sh"] (by decide)]
  simp (disch := decide) [Disk.walk_cons, Disk.walkAt, disk, Disk.find?, Disk.lookup]
  rfl

theorem imageAt_script :
    Disk.imageAt (some (.file (Image.binary "true") 0o755 none)) = .ok (.tool "true") := by
  decide +kernel

end Nested

open Nested in
/-- With a directory that is not given from the root, a program in it is looked for in a directory of that
    name in it, and not found. -/
theorem exists_program_missed : ∃ (c : Context) (g : Game) (d : Disk) (file : String),
    c.NamesBelow g file ∧
    (∃ r, d.resolve .follow (c.pathBelow g file) = .ok r ∧
      Disk.imageAt r.node = .ok (.tool "true")) ∧
    ∀ environ, (spawn environ (c.launch g file [])).run d = (.error (.system .noEntry), d) := by
  refine ⟨context, game, disk, script, namesBelow_script, ?_, fun environ => ?_⟩
  · rw [pathBelow_script]
    exact ⟨_, resolve_script, imageAt_script⟩
  · have hnul : (context.launch game script []).hasNul = false := by
      rw [Launch.hasNul, Context.program_launch namesBelow_script, pathBelow_script]
      decide
    rw [Context.spawn_run_launch enter_workingDir environ namesBelow_script hnul, pathBelow_script,
      resolve_nested]
    rfl

end GameInstaller
