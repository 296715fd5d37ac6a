import GameInstaller.Install.Machine
import GameInstaller.Proofs.Archive.Extract
import GameInstaller.Proofs.Install.Attempts

/-!
# Skipped steps

A step whose failure is advisory is skipped, and the run goes on.  On the disk of a machine such a
failure is a collision of a move, a copy, the making of a directory or an extraction.  It leaves
the disk as it was exactly if nothing had been done when it was met (`Operation.Traceless`).

## Key results

- `Operation.apply_alike_iff`: when an operation that fails with an advisory error leaves the disk
  as it was
- `Step.execute_skipped_iff`: the same of a step
-/

namespace GameInstaller

open Disk (Alike Fault Fs Untouched isCollision outcome)

variable {σ : Type} {h : Host σ}

/-- The filesystem of a host is that of a machine in its state. -/
structure Host.OnMachine (h : Host σ) where
  get : σ → Machine
  put : Machine → σ → σ
  get_put : ∀ m s, get (put m s) = m
  files : h.toFiles = Machine.files.onPart get put

/-- The disk under a host. -/
def Host.OnMachine.disk (machine : h.OnMachine) (s : σ) : Disk := (machine.get s).disk

theorem Machine.get_put (m _s : Machine) : id m = m := rfl

/-- What an install on a machine acts through has the filesystem of the machine. -/
def Machine.onMachine (runner : SystemRunner) (configDir : Path) :
    (Machine.host runner configDir).OnMachine where
  get := id
  put m _ := m
  get_put := Machine.get_put
  files := rfl

/-- A call of the filesystem of a machine is a call on its disk. -/
theorem Host.OnMachine.disk_call {ε α : Type} (machine : h.OnMachine) (x : Disk.Call ε α) (s : σ) :
    machine.disk ((onPart machine.get machine.put (Machine.call x)).run s).2 =
      (outcome x (machine.disk s)).2 :=
  congrArg Machine.disk (machine.get_put _ _)

/-- A call of the filesystem of a machine that fails, fails on its disk. -/
theorem Host.OnMachine.run_call (machine : h.OnMachine) {x : Fs Unit} {s s' : σ} {e : ExecutionError}
    (hrun : (do pure (faultError (← onPart machine.get machine.put (Machine.call x))) :
      StateM σ Applied).run s = (.error e, s')) :
    ∃ f, outcome x (machine.disk s) = (.error f, machine.disk s') ∧ f.toError = e := by
  rcases hx : outcome x (machine.disk s) with ⟨r, d⟩
  have hcall : (do pure (faultError (← onPart machine.get machine.put (Machine.call x))) :
      StateM σ Applied).run s =
        (faultError (outcome x (machine.disk s)).1,
          machine.put { machine.get s with disk := (outcome x (machine.disk s)).2 } s) := rfl
  rw [hcall, hx] at hrun
  cases r with
  | ok u => cases hrun
  | error f =>
    obtain ⟨he, rfl⟩ := Prod.mk.inj hrun
    refine ⟨f, ?_, Except.error.inj he⟩
    rw [disk, machine.get_put]

/-- An error of the filesystem is advisory when it is a collision. -/
theorem advisory_toError {f : Fault} : f.toError.severity = .advisory ↔ isCollision f := by
  change (if f.kind = .alreadyExists then Severity.advisory else .fatal) = .advisory ↔
    f.kind = .alreadyExists
  split <;> simp_all

theorem fatal_toError {f : Fault} (hf : ¬ isCollision f) : f.toError.severity = .fatal := if_neg hf

/-- On this disk an operation collides before it has changed anything, if it collides.  Operations
    that do not work on the disk themselves never do. -/
def Operation.Traceless (c : Context) (g : Game) (d : Disk) : Operation → Prop
  | move t =>
    let src := c.inputPath g t.src
    let target := d.moveTarget src (c.targetPath g t.dst)
    d.pathExists target = true ∨ Untouched (d.moveWorks src target) d
  | copy t =>
    let src := c.inputPath g t.src
    Untouched (d.copyPlan Disk.pathLimit src (d.copyTarget src (c.targetPath g t.dst))) d
  | mkdir p => d.pathExists (c.targetPath g p) = true ∨ d.blocked (c.targetPath g p) = true
  | extract file dst format =>
    let archive := c.inputPath g file
    let dst := match dst with
      | some dst => c.targetPath g dst
      | none => c.gameDir
    match archiveFormat archive format with
    | none => True
    | some format => Untouched (Archive.extractWorks d archive dst format) d
  | _ => True

/-! ## Operations that are never skipped -/

/-- An action of which every failure is fatal. -/
def FailsFatally (x : StateM σ Applied) : Prop :=
  ∀ s e s', x.run s = (.error e, s') → e.severity = .fatal

namespace FailsFatally

theorem pure_ok : FailsFatally (pure (.ok ()) : StateM σ Applied) := nofun

theorem pure_new {kind : FailureKind} (hk : kind ≠ .alreadyExists) (message : String) :
    FailsFatally (pure (.error (.new kind message)) : StateM σ Applied) := by
  intro s e s' h
  cases h
  exact if_neg hk

theorem bind {α : Type} {x : StateM σ α} {k : α → StateM σ Applied}
    (hk : ∀ s a s', x.run s = (a, s') → FailsFatally (k a)) : FailsFatally (x >>= k) := by
  intro s e s' h
  rcases hx : x.run s with ⟨a, s₁⟩
  rw [run_bind_of hx] at h
  exact hk _ _ _ hx _ _ _ h

end FailsFatally

theorem Host.execute_failsFatally (h : Host σ) (c : Context) (program : Path) (args : List String) :
    FailsFatally (h.execute c program args) := by
  refine .bind fun s r s' _ => ?_
  split
  · refine .pure_new ?_ _
    split <;> decide
  · split
    · exact .pure_ok
    · exact .pure_new (by decide) _

theorem ensureInstalled_failsFatally (r : Runner σ) : FailsFatally (ensureInstalled r) := by
  refine .bind fun s installed s' _ => ?_
  split
  · exact .pure_ok
  · refine .bind fun s r s' _ => ?_
    split
    · exact .pure_ok
    · exact .pure_new (by decide) _

theorem Host.checkDepends_failsFatally (h : Host σ) : FailsFatally h.checkDepends := by
  unfold Host.checkDepends
  split
  · exact ensureInstalled_failsFatally _
  · refine .bind fun s r s' hr => ?_
    split
    · exact ensureInstalled_failsFatally _
    · intro s₁ e s₂ he
      cases he
      exact ensureInstalled_failsFatally _ _ _ _ hr

theorem Host.writeConfig_failsFatally (h : Host σ) (g : Game) (executable : Path) :
    FailsFatally (h.writeConfig g executable) := by
  unfold Host.writeConfig
  split
  · refine .bind fun s r s' _ => ?_
    split
    · exact .pure_ok
    · exact .pure_new (by decide) _
  · exact .pure_new (by decide) _

/-- Opening a file and reading it never collides with anything. -/
structure Files.OpensFreely (files : Files σ) : Prop where
  opening : ∀ {p s f s'}, (files.openFile p).run s = (.error f, s') → ¬ isCollision f
  reading : ∀ {p s stream s' e}, (files.openFile p).run s = (.ok stream, s') →
    stream.failure = some e → ¬ isCollision e

/-- A file that is opened on the disk of a machine can be read, or is a directory. -/
theorem Host.OnMachine.opensFreely (machine : h.OnMachine) : h.OpensFreely := by
  have hopen (p : Path) : h.openFile p =
      onPart machine.get machine.put (Machine.call (Disk.openFile p)) :=
    congrFun (congrArg Files.openFile machine.files) p
  -- What the host gives is what opening the file on its disk gives.
  have houtcome {p s r s'} (hr : (h.openFile p).run s = (r, s')) :
      outcome (Disk.openFile p) (machine.disk s) =
        (r, (outcome (Disk.openFile p) (machine.disk s)).2) := by
    rw [hopen] at hr
    have hanswer : (outcome (Disk.openFile p) (machine.disk s)).1 = r := congrArg Prod.fst hr
    exact Prod.ext hanswer rfl
  constructor
  · intro p s f s' hf
    exact ((Disk.openStream_clear p).about p).clear (houtcome hf)
  · intro p s stream s' e hs he
    have hfailure := Disk.openStream_failure (Disk.outcome_about_eq_ok.mp (houtcome hs))
    rw [he] at hfailure
    obtain rfl : e = .system .isDirectory := by simpa using hfailure
    decide

/-- A stream that never collides has the expected digest, or a fatal error. -/
theorem verify_fatal {p : Path} {expected : Digest.Expected} {s : Disk.ByteStream}
    {e : ExecutionError} (hs : ∀ e, s.failure = some e → ¬ isCollision e)
    (he : verify p expected s = .error e) : e.severity = .fatal := by
  unfold verify Digest.Algorithm.hexOfStream Disk.ByteStream.readAll at he
  cases hf : s.failure with
  | none =>
    rw [hf] at he
    simp only [Except.map] at he
    split at he
    · cases he
    · cases he
      rfl
  | some cause =>
    rw [hf] at he
    cases he
    exact fatal_toError (mt Disk.isCollision_ofIo.mp (hs cause hf))

theorem Host.checksum_failsFatally (hf : h.OpensFreely) (p : Path) (expected : Digest.Expected) :
    FailsFatally (h.checksum p expected) := by
  refine .bind fun s r s' hr => ?_
  split
  · intro s₁ e s₂ he
    cases he
    exact fatal_toError (hf.opening hr)
  · intro s₁ e s₂ he
    exact verify_fatal (fun _ => hf.reading hr) (Prod.mk.inj he).1

/-! ## Skipped operations -/

theorem Operation.apply_alike_iff (machine : h.OnMachine) {c : Context} {g : Game} {o : Operation}
    {s s' : σ} {e : ExecutionError} (hrun : (o.apply h c g).run s = (.error e, s'))
    (hadv : e.severity = .advisory) :
    Alike (machine.disk s) (machine.disk s') ↔ o.Traceless c g (machine.disk s) := by
  -- Four operations are those of the disk, and the others never fail with an advisory error.
  have never {x : StateM σ Applied} (hx : FailsFatally x) (hrun : x.run s = (.error e, s')) : False := by
    rw [hx _ _ _ hrun] at hadv
    cases hadv
  cases o with
  | move t =>
    have hmove : h.movePath = fun src dst =>
        onPart machine.get machine.put (Machine.call (Disk.movePath src dst)) :=
      congrArg Files.movePath machine.files
    unfold Operation.apply at hrun
    rw [hmove] at hrun
    obtain ⟨f, hf, rfl⟩ := machine.run_call hrun
    exact Disk.movePath_alike_iff hf (advisory_toError.mp hadv)
  | copy t =>
    have hcopy : h.copyTree = fun src dst =>
        onPart machine.get machine.put (Machine.call (Disk.copyTree src dst)) :=
      congrArg Files.copyTree machine.files
    unfold Operation.apply at hrun
    rw [hcopy] at hrun
    obtain ⟨f, hf, rfl⟩ := machine.run_call hrun
    exact Disk.copyTree_alike_iff hf (advisory_toError.mp hadv)
  | mkdir p =>
    have hmkdir : h.createDir = fun p =>
        onPart machine.get machine.put (Machine.call (Disk.createDir p)) :=
      congrArg Files.createDir machine.files
    unfold Operation.apply at hrun
    rw [hmkdir] at hrun
    obtain ⟨f, hf, rfl⟩ := machine.run_call hrun
    exact Disk.createDir_alike_iff hf (advisory_toError.mp hadv)
  | extract file dst format =>
    have hextract : h.extract = fun archive dst format =>
        onPart machine.get machine.put (Machine.call (Archive.extract archive dst format)) :=
      congrArg Files.extract machine.files
    unfold Operation.apply at hrun
    unfold Operation.Traceless
    dsimp only at hrun ⊢
    cases hformat : archiveFormat (c.inputPath g file) format with
    | none =>
      rw [hformat] at hrun
      cases hrun
      cases hadv
    | some format =>
      rw [hformat, hextract] at hrun
      obtain ⟨f, hf, rfl⟩ := machine.run_call hrun
      exact Archive.extract_alike_iff hf (advisory_toError.mp hadv)
  | execute file args => exact (never (h.execute_failsFatally c _ _) hrun).elim
  | checksum file expected => exact (never (h.checksum_failsFatally machine.opensFreely _ _) hrun).elim
  | checkDepends => exact (never h.checkDepends_failsFatally hrun).elim
  | writeConfig file => exact (never (h.writeConfig_failsFatally g _) hrun).elim

/-- A skipped step leaves the disk as it was exactly if it collided before it had changed
    anything. -/
theorem Step.execute_skipped_iff (machine : h.OnMachine) {c : Context} {g : Game} {step : Step}
    {s s' : σ} {e : InstallError} (hrun : (step.execute h c g).run s = (.error e, s'))
    (hadv : e.severity = .advisory) :
    ∃ o, step.operation = .ok o ∧
      (Alike (machine.disk s) (machine.disk s') ↔ o.Traceless c g (machine.disk s)) := by
  cases ho : step.operation with
  | error e₁ =>
    unfold Step.execute at hrun
    rw [ho] at hrun
    cases hrun
    rw [(Step.operation_error ho).2.2] at hadv
    cases hadv
  | ok o =>
    rw [Step.execute_run_of_operation ho] at hrun
    rcases happly : (o.apply h c g).run s with ⟨r, s₁⟩
    rw [happly] at hrun
    refine ⟨o, rfl, ?_⟩
    cases r with
    | ok u => cases hrun
    | error e₁ =>
      cases hrun
      exact Operation.apply_alike_iff machine happly hadv

/-! ## A skipped step that leaves a directory behind -/

namespace Detour

/-- A disk with a file in the directory of a game. -/
def disk : Disk :=
  { entries := [(["g"], .dir), (["g", "file"], .file ByteArray.empty Disk.newFileMode none)],
    working := [], split := false }

/-- A machine with that disk. -/
def machine : Machine := { disk, environ := ⟨[]⟩, now := default }

/-- What installs on a machine act through. -/
def host : Host Machine := Machine.host (.new "linux") ⟨"/c"⟩

/-- Every machine has its own disk. -/
def onMachine : host.OnMachine := ⟨id, fun m _ => m, fun _ _ => rfl, rfl⟩

/-- The context of the game. -/
def context : Context := .ofGameDir ⟨"/g"⟩ none

/-- The game. -/
def game : Game := ⟨"baz", "Baz", "linux"⟩

/-- A step that makes a directory at the place of the file, by way of one that is missing. -/
def step : Step := ⟨0, "mkdir", .string "new/../file"⟩

/-- The disk after the step. -/
def left : Disk := disk.set ["g", "new"] .dir

theorem resolve_file (final : Disk.Final) :
    disk.resolve final ⟨"/g/new/../file"⟩ = .error (.system .noEntry) := by
  rw [Disk.resolve_absolute _ _ ["g", "new", "..", "file"] (by decide)]
  simp (disch := decide) [Disk.walk_cons, Disk.walkAt, disk, Disk.find?, Disk.lookup]
  rfl

theorem resolve_up (final : Disk.Final) :
    disk.resolve final ⟨"/g/new/.."⟩ = .error (.system .noEntry) := by
  rw [Disk.resolve_absolute _ _ ["g", "new", ".."] (by decide)]
  simp (disch := decide) [Disk.walk_cons, Disk.walkAt, disk, Disk.find?, Disk.lookup]
  rfl

theorem resolve_new : disk.resolve .entry ⟨"/g/new"⟩ = .ok ⟨["g", "new"], none, false, false⟩ := by
  rw [Disk.resolve_absolute _ _ ["g", "new"] (by decide)]
  simp (disch := decide) [Disk.walk_cons, Disk.walkAt, disk, Disk.find?, Disk.lookup]
  rfl

theorem resolve_up_left (final : Disk.Final) :
    left.resolve final ⟨"/g/new/.."⟩ = .ok ⟨["g"], some .dir, false, true⟩ := by
  rw [Disk.resolve_absolute _ _ ["g", "new", ".."] (by decide)]
  simp (disch := decide) [Disk.walk, Disk.walk_cons, Disk.walkAt, left, disk, Disk.find?]
  rfl

theorem resolve_file_left (final : Disk.Final) :
    left.resolve final ⟨"/g/new/../file"⟩ =
      .ok ⟨["g", "file"], some (.file ByteArray.empty Disk.newFileMode none), false, false⟩ := by
  rw [Disk.resolve_absolute _ _ ["g", "new", "..", "file"] (by decide)]
  simp (disch := decide) [Disk.walk, Disk.walk_cons, Disk.walkAt, left, disk, Disk.find?]
  rfl

/-- The directory is made on the way up, and the file met on the way down. -/
theorem outcome_createDir : outcome (Disk.createDir ⟨"/g/new/../file"⟩) disk =
    (.error (.alreadyExists ⟨"/g/new/../file"⟩), left) := by
  have hexists : disk.pathExists ⟨"/g/new/../file"⟩ = false := by
    simp [Disk.pathExists, Disk.stat, resolve_file]
  have hfile := Disk.outcome_mkdir_of_error (resolve_file .entry)
  have hup := Disk.outcome_mkdir_of_error (resolve_up .entry)
  have hnew := Disk.outcome_mkdir_of_none resolve_new rfl
  have hup' := Disk.outcome_mkdir_of_some (resolve_up_left .entry) rfl
  have hfile' := Disk.outcome_mkdir_of_some (resolve_file_left .entry) rfl
  have hparent : Path.parent? ⟨"/g/new/../file"⟩ = some ⟨"/g/new/.."⟩ := by decide
  have hparent' : Path.parent? ⟨"/g/new/.."⟩ = some ⟨"/g/new"⟩ := by decide
  have hmissing : (Disk.IoError.system .noEntry).kind = .notFound := rfl
  have hthere : (Disk.IoError.system .fileExists).kind = .alreadyExists := rfl
  have hclimb : outcome (Disk.climb 15 ⟨"/g/new/../file"⟩ []) disk =
      (.ok [⟨"/g/new/.."⟩, ⟨"/g/new/../file"⟩], left) := by
    rw [Disk.outcome_climb (by decide) 14, hfile]
    simp only [hmissing, ↓reduceIte, hparent]
    rw [Disk.outcome_climb (by decide) 13, hup]
    simp only [hmissing, ↓reduceIte, hparent']
    rw [Disk.outcome_climb (by decide) 12, hnew]
    rfl
  have hmkdirs : outcome (Disk.mkdirs [⟨"/g/new/.."⟩, ⟨"/g/new/../file"⟩]) left =
      (.error (.system .fileExists), left) := by
    simp [Disk.outcome_mkdirs_cons, hup', hfile', hthere, Disk.isDir, Disk.stat, resolve_up_left,
      resolve_file_left, Disk.Node.isDir]
  have hmake : outcome (Disk.createDirAll ⟨"/g/new/../file"⟩) disk =
      (.error (.system .fileExists), left) := by
    have hlen : (Path.mk "/g/new/../file").text.length + 1 = 15 := by decide
    rw [Disk.createDirAll, if_neg (by decide), hlen, Disk.outcome_bind_of_ok hclimb, hmkdirs]
  rw [Disk.createDir, Disk.outcome_bind_of_ok (Disk.outcome_get disk), hexists]
  exact Disk.outcome_about_eq_error.mpr ⟨_, hmake, rfl⟩

/-- The step is skipped. -/
theorem run_step : (step.execute host context game).run machine =
    (.error (.execution ⟨"/g/new/../file already exists", .alreadyExists, some 0, some "mkdir"⟩),
      { machine with disk := left }) := by
  have hpath : context.targetPath game "new/../file" = ⟨"/g/new/../file"⟩ := by
    decide +kernel
  have hoperation : step.operation = .ok (.mkdir "new/../file") := rfl
  have happly : (Operation.apply host context game (.mkdir "new/../file")).run machine =
      (.error (Fault.alreadyExists ⟨"/g/new/../file"⟩).toError, { machine with disk := left }) := by
    have hcall : (Operation.apply host context game (.mkdir "new/../file")).run machine =
      (faultError (outcome (Disk.createDir (context.targetPath game "new/../file")) disk).1,
        { machine with disk :=
          (outcome (Disk.createDir (context.targetPath game "new/../file")) disk).2 }) := rfl
    rw [hcall, hpath, outcome_createDir]
    rfl
  rw [Step.execute_run_of_operation hoperation, happly]
  rfl

/-- The directory that was missing before the step is there after it. -/
theorem not_alike_left : ¬ Alike disk left :=
  fun h => h.not_newEntry ⟨["g", "new"], rfl, rfl⟩

end Detour

/-- A step can be skipped and have changed the disk. -/
theorem exists_skipped_not_alike : ∃ e s', (Detour.step.execute Detour.host Detour.context
    Detour.game).run Detour.machine = (.error e, s') ∧ e.severity = .advisory ∧
      ¬ Alike (Detour.onMachine.disk Detour.machine) (Detour.onMachine.disk s') :=
  ⟨_, _, Detour.run_step, rfl, Detour.not_alike_left⟩

/-- That step has an operation, and it was not traceless. -/
theorem execute_skipped_iff_detour : ∃ e s', (Detour.step.execute Detour.host Detour.context
    Detour.game).run Detour.machine = (.error e, s') ∧ e.severity = .advisory ∧
      ∃ o, Detour.step.operation = .ok o ∧
        (Alike (Detour.onMachine.disk Detour.machine) (Detour.onMachine.disk s') ↔
          o.Traceless Detour.context Detour.game (Detour.onMachine.disk Detour.machine)) :=
  ⟨_, _, Detour.run_step, rfl, Step.execute_skipped_iff Detour.onMachine Detour.run_step rfl⟩

end GameInstaller
