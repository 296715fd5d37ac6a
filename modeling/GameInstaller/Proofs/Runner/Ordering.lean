import GameInstaller.Install.Host
import GameInstaller.Proofs.Actions
import GameInstaller.Runner.System
import Mathlib.Data.List.Infix

/-!
# The order of an installation

A runner that is missing is installed by a list of commands that run in order, each only if all
before it succeeded.  The commands are written down as they are run, with how each of them ended.

* `Platform.recorded`              a platform whose commands are written down
* `PackageManager.commandLines`    what installing a package takes, in order
* `CommandsRun`                    the courses that a list of commands can take
* `ProgramAccount`                 what an installation ran, and what came of it
* `Setting`, `SystemRunner.configured`   how a runner is configured, in any order

## Key results

- `Program.runCommands_recorded`: commands run in order up to the first that fails
- `installs_in_order`: a runner is installed by the commands of its list, in order and up to the
  first that fails, and so is what a known runner needs, however it was configured
-/

namespace GameInstaller

variable {σ : Type}

/-! ## What is run -/

/-- A command that was run, and how it ended. -/
structure Spawned where
  launch : Launch
  outcome : Except Disk.IoError Exit

/-- The command was started and exited with success. -/
def Spawned.Succeeded (e : Spawned) : Prop := ∃ exit, e.outcome = .ok exit ∧ exit.code = some 0

/-- A program with its arguments, as they are typed. -/
def Launch.words (l : Launch) : List String := l.program.text :: l.args

/-- A platform whose commands are written down. -/
def Platform.recorded (p : Platform σ) : Platform (σ × List Spawned) where
  findExecutable name := onPart Prod.fst (fun s q => (s, q.2)) (p.findExecutable name)
  osRelease := onPart Prod.fst (fun s q => (s, q.2)) p.osRelease
  spawn l := fun q =>
    let (outcome, s) := (p.spawn l).run q.1
    (outcome, (s, q.2 ++ [⟨l, outcome⟩]))

/-! ## What is to be run -/

/-- The command lines that install a package, in order.  A repository is added where there are such,
    and the index is refreshed before the package is looked for. -/
def PackageManager.commandLines (m : PackageManager) (repository : Option String)
    (package : String) : List (List String) :=
  match m, repository with
  | .apt, some ppa =>
    [["add-apt-repository", "-y", ppa], ["apt-get", "update"], ["apt-get", "-y", "install", package]]
  | .apt, none => [["apt-get", "-y", "install", package]]
  | .dnf, _ => [["dnf", "-y", "install", package]]

namespace Program

/-- The command lines that install a runner: the wrapper, if there is one, stands before each. -/
def commandLines (r : Program) (m : PackageManager) (package : String) : List (List String) :=
  (m.commandLines r.repository package).map (r.elevate.toList ++ ·)

theorem words_launch (r : Program) (c : Invocation) :
    (r.launch c).words = r.elevate.toList ++ c.program :: c.args := by
  unfold launch
  cases r.elevate <;> rfl

/-- Every package takes a command. -/
theorem commandLines_ne_nil (r : Program) (m : PackageManager) (package : String) :
    r.commandLines m package ≠ [] := by
  unfold commandLines
  cases m <;> cases r.repository <;> simp [PackageManager.commandLines]

/-- The commands of a runner are launched as its command lines. -/
theorem words_commands (r : Program) (m : PackageManager) (package : String) :
    (r.commands m package).map (fun c => (r.launch c).words) = r.commandLines m package := by
  simp only [words_launch, commandLines, commands]
  cases m <;> cases r.repository <;>
    simp [PackageManager.commandLines, PackageManager.repositoryCommands,
      PackageManager.installCommand]

/-! ## Commands in order -/

/-- Why a command that ended so keeps the runner from being installed. -/
def failure? (r : Program) (c : String) (outcome : Except Disk.IoError Exit) : Option RunnerError :=
  match outcome with
  | .error e => some (.spawn c e)
  | .ok exit =>
    if exit.success then none else some (.installFailed r.name exit.codeText exit.complaintText)

/-- A command is no obstacle if and only if it succeeded. -/
theorem failure?_eq_none_iff (r : Program) (c : String) (e : Spawned) :
    r.failure? c e.outcome = none ↔ e.Succeeded := by
  unfold failure? Spawned.Succeeded
  cases e.outcome with
  | error e => simp
  | ok exit => simp [Exit.success]

/-- What comes of a command that ended so. -/
def answer (r : Program) (c : String) (outcome : Except Disk.IoError Exit) :
    Except RunnerError Unit :=
  match r.failure? c outcome with
  | none => .ok ()
  | some e => .error e

theorem runCommand_run (p : Platform σ) (r : Program) (c : Invocation) {s t : σ}
    {outcome : Except Disk.IoError Exit} (hc : (p.spawn (r.launch c)).run s = (outcome, t)) :
    (r.runCommand p c).run s = (r.answer c.program outcome, t) := by
  unfold runCommand
  rw [run_bind_of hc]
  unfold answer failure?
  cases outcome with
  | error e => rfl
  | ok exit =>
    dsimp only
    cases exit.success <;> rfl

theorem runCommand_recorded (p : Platform σ) (r : Program) (c : Invocation) {s t : σ}
    {outcome : Except Disk.IoError Exit} (hc : (p.spawn (r.launch c)).run s = (outcome, t))
    (log : List Spawned) : (r.runCommand p.recorded c).run (s, log) =
      (r.answer c.program outcome, t, log ++ [⟨r.launch c, outcome⟩]) := by
  refine runCommand_run p.recorded r c ?_
  change (let (outcome, s) := (p.spawn (r.launch c)).run s
    (outcome, s, log ++ [Spawned.mk (r.launch c) outcome])) = _
  rw [hc]

end Program

/-- The courses that a list of commands can take: what was run, and what came of it. -/
inductive CommandsRun (r : Program) :
    List Invocation → List Spawned → Except RunnerError Unit → Prop
  | done : CommandsRun r [] [] (.ok ())
  | next {c cs outcome log out} (passed : r.failure? c.program outcome = none)
      (rest : CommandsRun r cs log out) : CommandsRun r (c :: cs) (⟨r.launch c, outcome⟩ :: log) out
  | stopped {c cs outcome e} (failed : r.failure? c.program outcome = some e) :
      CommandsRun r (c :: cs) [⟨r.launch c, outcome⟩] (.error e)

/-- Commands run in order up to the first that fails, and writing them down does not disturb. -/
theorem Program.runCommands_recorded (p : Platform σ) (r : Program) (cs : List Invocation) (s : σ)
    (log : List Spawned) :
    ∃ new, CommandsRun r cs new ((r.runCommands p cs).run s).1 ∧
      (r.runCommands p.recorded cs).run (s, log) =
        (((r.runCommands p cs).run s).1, ((r.runCommands p cs).run s).2, log ++ new) := by
  -- By induction on the list: what follows a command starts from where that one left the platform.
  induction cs generalizing s log with
  | nil => exact ⟨[], .done, by rw [List.append_nil]; rfl⟩
  | cons c cs ih =>
    rcases hc : (p.spawn (r.launch c)).run s with ⟨outcome, t⟩
    simp only [Program.runCommands]
    rw [run_bind_of (runCommand_run p r c hc), run_bind_of (runCommand_recorded p r c hc log)]
    unfold answer
    cases hf : r.failure? c.program outcome with
    | some e => exact ⟨[⟨r.launch c, outcome⟩], .stopped hf, rfl⟩
    | none =>
      obtain ⟨new, hnew, heq⟩ := ih t (log ++ [⟨r.launch c, outcome⟩])
      rw [List.append_assoc, List.singleton_append] at heq
      exact ⟨⟨r.launch c, outcome⟩ :: new, .next hf hnew, heq⟩

namespace CommandsRun

variable {r : Program} {cs : List Invocation} {log : List Spawned}
  {out : Except RunnerError Unit}

/-- What was run begins the list. -/
theorem launches_prefix (h : CommandsRun r cs log out) :
    log.map (·.launch) <+: cs.map r.launch := by
  induction h with
  | done => exact List.prefix_rfl
  | next _ _ ih => exact List.prefix_cons_iff.mpr (.inr ⟨_, rfl, ih⟩)
  | stopped => simp

/-- Nothing is run after a command that failed. -/
theorem succeeded_of_mem_dropLast (h : CommandsRun r cs log out) :
    ∀ e ∈ log.dropLast, e.Succeeded := by
  induction h with
  | done | stopped => simp
  | @next c cs outcome log out passed rest ih =>
    cases log with
    | nil => simp
    | cons e log =>
      rw [List.dropLast_cons_cons, List.forall_mem_cons]
      exact ⟨(r.failure?_eq_none_iff c.program _).mp passed, ih⟩

/-- Commands come to success if and only if the whole list was run and each of them succeeded. -/
theorem ok_iff (h : CommandsRun r cs log out) :
    out = .ok () ↔ log.map (·.launch) = cs.map r.launch ∧ ∀ e ∈ log, e.Succeeded := by
  induction h with
  | done => simp
  | @next c cs outcome log out passed rest ih =>
    have hc : Spawned.Succeeded ⟨r.launch c, outcome⟩ :=
      (r.failure?_eq_none_iff c.program _).mp passed
    rw [ih, List.forall_mem_cons]
    simp [hc]
  | @stopped c cs outcome e failed =>
    have hc : ¬ Spawned.Succeeded ⟨r.launch c, outcome⟩ := fun hs => by
      simp [(r.failure?_eq_none_iff c.program _).mpr hs] at failed
    simp [hc]

/-- A failure is that of the command that was run last. -/
theorem last_of_error (h : CommandsRun r cs log out) {e : RunnerError} (he : out = .error e) :
    ∃ before c outcome, log = before ++ [⟨r.launch c, outcome⟩] ∧
      r.failure? c.program outcome = some e := by
  induction h with
  | done => cases he
  | next _ _ ih =>
    obtain ⟨before, c, outcome, rfl, hc⟩ := ih he
    exact ⟨_ :: before, c, outcome, rfl, hc⟩
  | @stopped c cs outcome e' failed =>
    cases he
    exact ⟨[], c, outcome, rfl, failed⟩

end CommandsRun

/-! ## Installing a runner -/

/-- The package manager that is known when the executable of the runner has been looked for in vain:
    that of the runner, or that of the distribution. -/
def Program.knownManager (p : Platform σ) (r : Program) (s : σ) : Option PackageManager :=
  match r.manager with
  | some m => some m
  | none => ((p.osRelease.run ((r.isInstalled p).run s).2).1).bind PackageManager.ofOsRelease

/-- What installing a runner from a state ran, and what came of it. -/
structure ProgramAccount (p : Platform σ) (r : Program) (s : σ) (log : List Spawned)
    (out : Except RunnerError Unit) : Prop where
  /-- For a runner that is there nothing is run. -/
  present : ((r.isInstalled p).run s).1 = true → log = [] ∧ out = .ok ()
  /-- Without a package nothing is run. -/
  noPackage : ((r.isInstalled p).run s).1 = false → r.package = none →
    log = [] ∧ out = .error (.noPackage r.name)
  /-- Without a package manager nothing is run. -/
  unsupported : ∀ package, ((r.isInstalled p).run s).1 = false → r.package = some package →
    r.knownManager p s = none → log = [] ∧ out = .error (.unsupportedDistribution package)
  /-- What is run begins the list of command lines. -/
  begins : ∀ package m, r.package = some package → r.knownManager p s = some m →
    log.map (·.launch.words) <+: r.commandLines m package
  /-- It is run where the installer runs, with the environment as it is. -/
  plain : ∀ e ∈ log, e.launch.workingDir = none ∧ e.launch.env = ⟨[]⟩
  /-- Nothing is run after a command that failed. -/
  stops : ∀ e ∈ log.dropLast, e.Succeeded
  /-- Success means that the runner was there or that every command line succeeded. -/
  ok_iff : out = .ok () ↔ ((r.isInstalled p).run s).1 = true ∨ ∃ package m,
    r.package = some package ∧ r.knownManager p s = some m ∧
    log.map (·.launch.words) = r.commandLines m package ∧ ∀ e ∈ log, e.Succeeded
  /-- With a package and a package manager, a failure is that of the command that was run last. -/
  failed : ∀ package m e, r.package = some package → r.knownManager p s = some m →
    out = .error e → ∃ before last program args, log = before ++ [last] ∧
    last.launch.words = r.elevate.toList ++ program :: args ∧ ¬ last.Succeeded ∧
    r.failure? program last.outcome = some e

namespace Program

theorem isInstalled_recorded (p : Platform σ) (r : Program) (s : σ) (log : List Spawned) :
    (r.isInstalled p.recorded).run (s, log) =
      (((r.isInstalled p).run s).1, ((r.isInstalled p).run s).2, log) := by
  unfold isInstalled
  cases r.executable <;> rfl

theorem packageManager?_recorded (p : Platform σ) (r : Program) (s : σ) (log : List Spawned) :
    (r.packageManager? p.recorded).run (s, log) =
      (((r.packageManager? p).run s).1, ((r.packageManager? p).run s).2, log) := by
  unfold packageManager?
  cases r.manager <;> rfl

/-- The state in which the first command is run. -/
def ready (p : Platform σ) (r : Program) (s : σ) : σ :=
  ((r.packageManager? p).run ((r.isInstalled p).run s).2).2

theorem packageManager?_run (p : Platform σ) (r : Program) (s : σ) :
    (r.packageManager? p).run ((r.isInstalled p).run s).2 = (r.knownManager p s, r.ready p s) := by
  unfold ready packageManager? knownManager
  cases r.manager <;> rfl

/-- An installation that comes to an end before its first command. -/
theorem account_of_nothing_run {p : Platform σ} {r : Program} {s : σ} {out : Except RunnerError Unit}
    (hpresent : ((r.isInstalled p).run s).1 = true → out = .ok ())
    (habsent : ((r.isInstalled p).run s).1 = false → ∃ e, out = .error e ∧
      ((r.package = none ∧ e = .noPackage r.name) ∨ ∃ package, r.package = some package ∧
        r.knownManager p s = none ∧ e = .unsupportedDistribution package)) :
    ProgramAccount p r s [] out where
  present hi := ⟨rfl, hpresent hi⟩
  noPackage hi hn := by
    obtain ⟨e, rfl, ⟨-, rfl⟩ | ⟨package, hp, -⟩⟩ := habsent hi
    · exact ⟨rfl, rfl⟩
    · cases hn.symm.trans hp
  unsupported package hi hp hm := by
    obtain ⟨e, rfl, ⟨hn, -⟩ | ⟨package', hp', -, rfl⟩⟩ := habsent hi
    · cases hn.symm.trans hp
    · cases hp.symm.trans hp'
      exact ⟨rfl, rfl⟩
  begins _ _ _ _ := List.nil_prefix
  plain _ he := by cases he
  stops _ he := by cases he
  ok_iff := by
    constructor
    · intro ho
      refine .inl ?_
      by_contra hi
      obtain ⟨e, he, -⟩ := habsent (Bool.not_eq_true _ ▸ hi)
      cases ho.symm.trans he
    · rintro (hi | ⟨package, m, -, -, hlines, -⟩)
      · exact hpresent hi
      · exact absurd hlines.symm (r.commandLines_ne_nil m package)
  failed package m e hp hm ho := by
    cases hi : ((r.isInstalled p).run s).1 with
    | true => cases ho.symm.trans (hpresent hi)
    | false =>
      obtain ⟨_, -, ⟨hn, -⟩ | ⟨_, -, hn, -⟩⟩ := habsent hi
      · cases hn.symm.trans hp
      · cases hn.symm.trans hm

/-- Commands that ran in order account for an installation that came to them. -/
theorem account_of_commandsRun {p : Platform σ} {r : Program} {s : σ}
    (habsent : ((r.isInstalled p).run s).1 = false) {package : String} (hp : r.package = some package)
    {m : PackageManager} (hm : r.knownManager p s = some m) {log : List Spawned}
    {out : Except RunnerError Unit} (h : CommandsRun r (r.commands m package) log out) :
    ProgramAccount p r s log out := by
  have hwords : log.map (·.launch.words) = (log.map (·.launch)).map Launch.words := by simp
  have hlines : r.commandLines m package = ((r.commands m package).map r.launch).map Launch.words := by
    rw [← words_commands, List.map_map]
    rfl
  exact {
    present := fun hi => by simp [habsent] at hi
    noPackage := fun _ hn => by simp [hp] at hn
    unsupported := fun _ _ _ hn => by simp [hm] at hn
    begins := fun package' m' hp' hm' => by
      obtain rfl : package = package' := Option.some.inj (hp.symm.trans hp')
      obtain rfl : m = m' := Option.some.inj (hm.symm.trans hm')
      rw [hwords, hlines]
      exact h.launches_prefix.map _
    plain := fun e he => by
      obtain ⟨c, -, hc⟩ := List.mem_map.mp (h.launches_prefix.subset (List.mem_map_of_mem he))
      rw [← hc]
      unfold launch
      cases r.elevate <;> exact ⟨rfl, rfl⟩
    stops := h.succeeded_of_mem_dropLast
    ok_iff := by
      rw [h.ok_iff]
      constructor
      · rintro ⟨hall, hs⟩
        exact .inr ⟨package, m, hp, hm, by rw [hwords, hlines, hall], hs⟩
      · rintro (hi | ⟨package', m', hp', hm', hall, hs⟩)
        · simp [habsent] at hi
        obtain rfl : package = package' := Option.some.inj (hp.symm.trans hp')
        obtain rfl : m = m' := Option.some.inj (hm.symm.trans hm')
        -- A beginning of the list that is as long as the list is the list.
        have hlength := congrArg List.length hall
        rw [hlines] at hlength
        exact ⟨h.launches_prefix.eq_of_length (by simpa using hlength), hs⟩
    failed := fun _ _ e _ _ he => by
      obtain ⟨before, c, outcome, rfl, hc⟩ := h.last_of_error he
      refine ⟨before, _, c.program, c.args, rfl, r.words_launch c, fun hs => ?_, hc⟩
      simp [(r.failure?_eq_none_iff c.program _).mpr hs] at hc }

/-- A runner that is there is not installed again. -/
theorem install_run_of_installed {p : Platform σ} {r : Program} {s t : σ}
    (hi : (r.isInstalled p).run s = (true, t)) : (r.install p).run s = (.ok (), t) := by
  unfold install
  rw [run_bind_of hi]
  rfl

/-- A runner without a package cannot be installed. -/
theorem install_run_of_noPackage {p : Platform σ} {r : Program} {s t : σ}
    (hi : (r.isInstalled p).run s = (false, t)) (hp : r.package = none) :
    (r.install p).run s = (.error (.noPackage r.name), t) := by
  unfold install
  rw [run_bind_of hi, hp]
  rfl

/-- Where no package manager is known, nothing can be installed. -/
theorem install_run_of_unsupported {p : Platform σ} {r : Program} {s t u : σ}
    (hi : (r.isInstalled p).run s = (false, t)) {package : String} (hp : r.package = some package)
    (hm : (r.packageManager? p).run t = (none, u)) :
    (r.install p).run s = (.error (.unsupportedDistribution package), u) := by
  unfold install
  rw [run_bind_of hi, hp]
  exact run_bind_of hm

/-- A missing runner is installed by its commands. -/
theorem install_run_of_manager {p : Platform σ} {r : Program} {s t u : σ}
    (hi : (r.isInstalled p).run s = (false, t)) {package : String} (hp : r.package = some package)
    {m : PackageManager} (hm : (r.packageManager? p).run t = (some m, u)) :
    (r.install p).run s = (r.runCommands p (r.commands m package)).run u := by
  unfold install
  rw [run_bind_of hi, hp]
  exact run_bind_of hm

/-- An installation runs the commands of its list in order and up to the first that fails, and
    writing them down does not disturb. -/
theorem install_account (p : Platform σ) (r : Program) (s : σ) :
    let out := (r.install p.recorded).run (s, [])
    (r.install p).run s = (out.1, out.2.1) ∧ ProgramAccount p r s out.2.2 out.1 := by
  intro out
  -- The cases are those of the program: there, no package, no manager, and the commands.
  rcases hi : (r.isInstalled p).run s with ⟨b, t⟩
  have hir := r.isInstalled_recorded p s []
  rw [hi] at hir
  have hb : ((r.isInstalled p).run s).1 = b := by rw [hi]
  cases b with
  | true =>
    have hout : out = (.ok (), t, []) := install_run_of_installed hir
    rw [hout, install_run_of_installed hi]
    exact ⟨rfl, account_of_nothing_run (fun _ => rfl) fun hf => by simp [hb] at hf⟩
  | false =>
    cases hp : r.package with
    | none =>
      have hout : out = (.error (.noPackage r.name), t, []) := install_run_of_noPackage hir hp
      rw [hout, install_run_of_noPackage hi hp]
      exact ⟨rfl, account_of_nothing_run (fun ht => by simp [hb] at ht)
        fun _ => ⟨_, rfl, .inl ⟨hp, rfl⟩⟩⟩
    | some package =>
      have hm := r.packageManager?_run p s
      rw [hi] at hm
      have hmr := r.packageManager?_recorded p t []
      rw [hm] at hmr
      cases hk : r.knownManager p s with
      | none =>
        rw [hk] at hm hmr
        have hout : out = (.error (.unsupportedDistribution package), r.ready p s, []) :=
          install_run_of_unsupported hir hp hmr
        rw [hout, install_run_of_unsupported hi hp hm]
        exact ⟨rfl, account_of_nothing_run (fun ht => by simp [hb] at ht)
          fun _ => ⟨_, rfl, .inr ⟨package, hp, hk, rfl⟩⟩⟩
      | some m =>
        rw [hk] at hm hmr
        obtain ⟨log, hlog, hrun⟩ := runCommands_recorded p r (r.commands m package) (r.ready p s) []
        have hout := (install_run_of_manager hir hp hmr).trans hrun
        change out = _ at hout
        rw [hout, install_run_of_manager hi hp hm]
        exact ⟨rfl, account_of_commandsRun hb hp hk hlog⟩

end Program

/-! ## Configured runners -/

/-- Something that is set of a runner. -/
inductive Setting where
  | package (package : String)
  | repository (repository : String)
  | elevate (wrapper : Option String)
  | manager (m : PackageManager)

/-- The wrapper that is set. -/
def Setting.wrapper? : Setting → Option (Option String)
  | elevate wrapper => some wrapper
  | _ => none

/-- The package manager that is set. -/
def Setting.manager? : Setting → Option PackageManager
  | manager m => some m
  | _ => none

namespace SystemRunner

/-- The runner with one thing set. -/
def set (r : SystemRunner) : Setting → SystemRunner
  | .package package => r.withPackage package
  | .repository repository => r.withRepository repository
  | .elevate wrapper => r.withElevate wrapper
  | .manager m => r.withManager m

/-- The runner with things set, one after the other. -/
def configured (r : SystemRunner) (settings : List Setting) : SystemRunner := settings.foldl set r

/-- What a runner needs is told of wrappers and package managers, and of nothing else. -/
theorem dependency_set (r : SystemRunner) (x : Setting) :
    (r.set x).dependency = r.dependency.map fun d =>
      { d with elevate := x.wrapper?.getD d.elevate, manager := x.manager?.or d.manager } := by
  cases hd : r.dependency <;> cases x <;>
    simp [set, withPackage, withRepository, withElevate, withManager, hd, Setting.wrapper?,
      Setting.manager?]

/-- What a runner needs has the wrapper and the package manager that were set last. -/
theorem dependency_configured (r : SystemRunner) (settings : List Setting) :
    (r.configured settings).dependency = r.dependency.map fun d =>
      { d with
        elevate := (settings.filterMap Setting.wrapper?).getLast?.getD d.elevate
        manager := (settings.filterMap Setting.manager?).getLast?.or d.manager } := by
  -- By induction from the right, since what is set last counts.
  induction settings using List.reverseRecOn with
  | nil => cases hd : r.dependency <;> simp [configured, hd]
  | append_singleton settings x ih =>
    have hstep : r.configured (settings ++ [x]) = (r.configured settings).set x := by
      simp [configured, List.foldl_append]
    rw [hstep, dependency_set, ih, Option.map_map]
    congr 1
    funext d
    cases x <;> simp [Setting.wrapper?, Setting.manager?, List.filterMap_append, Function.comp_apply]

/-- What a known runner needs is the packaged `wine`. -/
theorem dependency_of_builtin? {name : String} {r : SystemRunner} (hr : builtin? name = some r)
    {d : Program} (hd : r.dependency = some d) : d = packaged "wine" := by
  unfold builtin? at hr
  split at hr
  · cases hr; cases hd
  · cases hr; cases hd; rfl
  · split at hr
    · cases hr; cases hd
    · cases hr

end SystemRunner

/-- A runner is installed by the commands of its list in order and up to the first that fails, and so
    is what it needs; writing the commands down does not disturb.  What a known runner needs has the
    wrapper and the package manager that were set last, in whatever order things were set. -/
theorem installs_in_order (p : Platform σ) (s : σ) (r : SystemRunner) :
    (∀ q, q = r.toProgram ∨ r.dependency = some q →
      let out := (q.install p.recorded).run (s, [])
      (q.install p).run s = (out.1, out.2.1) ∧ ProgramAccount p q s out.2.2 out.1) ∧
    ∀ name known settings, SystemRunner.builtin? name = some known →
      r = known.configured settings → r.dependency = known.dependency.map fun _ =>
      { SystemRunner.packaged "wine" with
        elevate := (settings.filterMap Setting.wrapper?).getLast?.getD (some Program.defaultElevate)
        manager := (settings.filterMap Setting.manager?).getLast? } := by
  refine ⟨fun q _ => q.install_account p s, ?_⟩
  rintro name known settings hknown rfl
  rw [SystemRunner.dependency_configured]
  cases hd : known.dependency with
  | none => rfl
  | some d =>
    rw [SystemRunner.dependency_of_builtin? hknown hd]
    simp [SystemRunner.packaged, Program.new]

/-- A platform that has nothing, and where commands end as they are told to. -/
def Platform.scripted : Platform (List (Except Disk.IoError Exit)) where
  findExecutable _ := pure none
  osRelease := pure none
  spawn _ := fun outcomes => (outcomes.headD (.ok ⟨some 0, ⟨#[]⟩⟩), outcomes.tail)

/-- What `winesteam` needs is installed with the last of two package managers, without the wrapper
    that was taken away between them; its only command fails. -/
theorem installs_in_order_winesteam :
    let settings : List Setting := [.manager .dnf, .elevate none, .manager .apt]
    let known : SystemRunner := ⟨SystemRunner.bare "winesteam", some (SystemRunner.packaged "wine")⟩
    let r := known.configured settings
    let q : Program := { SystemRunner.packaged "wine" with elevate := none, manager := some .apt }
    let outcomes : List (Except Disk.IoError Exit) := [.ok ⟨some 100, ⟨#[]⟩⟩]
    let out := (q.install Platform.scripted.recorded).run (outcomes, [])
    SystemRunner.builtin? "winesteam" = some known ∧ r.dependency = some q ∧
      ProgramAccount Platform.scripted q outcomes out.2.2 out.1 ∧
      out.2.2.map (·.launch.words) = [["apt-get", "-y", "install", "wine"]] ∧ out.1 ≠ .ok () := by
  intro settings known r q outcomes out
  have h := installs_in_order Platform.scripted outcomes r
  have hq : r.dependency = some q := h.2 "winesteam" known settings rfl rfl
  exact ⟨rfl, hq, (h.1 q (.inr hq)).2, rfl, nofun⟩

/-- The package is not asked for when its repository's index cannot be refreshed. -/
example :
    let r : Program := { SystemRunner.packaged "wine" with
      repository := some "ppa:lutris-team/lutris", manager := some .apt }
    let outcomes : List (Except Disk.IoError Exit) :=
      [.ok ⟨some 0, ⟨#[]⟩⟩, .error (.system .noEntry), .ok ⟨some 0, ⟨#[]⟩⟩]
    ((r.install Platform.scripted.recorded).run (outcomes, [])).2.2.map (·.launch.words) =
      [["pkexec", "add-apt-repository", "-y", "ppa:lutris-team/lutris"],
        ["pkexec", "apt-get", "update"]] := rfl

end GameInstaller
