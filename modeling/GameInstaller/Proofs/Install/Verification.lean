import GameInstaller.Install.Rehearsal
import GameInstaller.Proofs.Install.Executions
import GameInstaller.Proofs.Install.Skipping

/-!
# Verified files

A step that checks a digest is a gate.  It passes exactly if its file can be opened and read to the
end and has the digest, and every way to fail it is fatal, provided that opening and reading never
collide with anything: then a collision could be taken for the check.  So what comes after the gate,
be it a step or the end of the run, comes after a verified file.

## Key results

- `Host.checksum_eq_ok_iff`: when a check passes
- `Host.OnMachine.verifies_iff`: what that means on the disk of a machine
- `checksum_gates`: what comes after a check
-/

namespace GameInstaller

variable {σ : Type} {h : Host σ}

/-! ## Checks -/

/-- In the state `s` the file at a path is opened and read to its end without a failure, and all its
    bytes together have the expected digest. -/
def Host.Verifies (h : Host σ) (p : Path) (expected : Digest.Expected) (s : σ) : Prop :=
  ∃ stream content, ((h.openFile p).run s).1 = .ok stream ∧ stream.readAll = .ok content ∧
    expected.algorithm.hexDigest content = expected.hex

theorem verify_eq_ok_iff {p : Path} {expected : Digest.Expected} {s : Disk.ByteStream} :
    verify p expected s = .ok () ↔
      ∃ content, s.readAll = .ok content ∧
        expected.algorithm.hexDigest content = expected.hex := by
  unfold verify Digest.Algorithm.hexOfStream
  cases s.readAll with
  | error e => simp [Except.map]
  | ok content => simp [Except.map]

/-- A check passes exactly if the file is verified. -/
theorem Host.checksum_eq_ok_iff {p : Path} {expected : Digest.Expected} {s : σ} :
    ((h.checksum p expected).run s).1 = .ok () ↔ h.Verifies p expected s := by
  rcases hopen : (h.openFile p).run s with ⟨r, s'⟩
  unfold checksum Verifies
  rw [run_bind_of hopen, hopen]
  cases r with
  | error f => exact ⟨nofun, nofun⟩
  | ok stream =>
    refine verify_eq_ok_iff.trans ⟨fun ⟨content, hread⟩ => ⟨stream, content, rfl, hread⟩, ?_⟩
    rintro ⟨stream', content, hstream, hread⟩
    cases hstream
    exact ⟨content, hread⟩

/-- What can be opened and read to its end is a regular file, and what is read is its content. -/
theorem Disk.openFile_read_iff {d : Disk} {p : Path} {content : ByteArray} :
    (∃ stream, (Disk.outcome (Disk.openFile p) d).1 = .ok stream ∧ stream.readAll = .ok content) ↔
      ∃ r mode shared, d.resolve .follow p = .ok r ∧ r.node = some (.file content mode shared) := by
  have hopen {stream} : (Disk.outcome (Disk.openFile p) d).1 = .ok stream ↔
      (Disk.outcome (Disk.openStream p) d).1 = .ok stream := by
    rw [Disk.openFile, Disk.outcome_about, mapError_eq_ok]
  simp only [hopen, Disk.openStream, Disk.outcome_bind, Disk.outcome_find]
  cases hr : d.resolve .follow p with
  | error e => simp
  | ok r =>
    cases hn : r.node with
    | none => simp [hn]
    | some n =>
      cases n with
      | dir | link target => simp [hn, Disk.ByteStream.readAll]
      | file bytes mode shared =>
        -- An empty file is read in no piece, any other in one.
        have hjoined : (if bytes.isEmpty then [] else [bytes]).foldl (· ++ ·) ByteArray.empty =
            bytes := by
          by_cases hempty : bytes.isEmpty = true
          · rw [if_pos hempty]
            exact (show bytes = ByteArray.empty by simpa [ByteArray.isEmpty] using hempty).symm
          · rw [if_neg hempty]
            simp
        simp [hn, Disk.ByteStream.readAll, Disk.ByteStream.joined, hjoined]

/-- On the disk of a machine a file is verified when the path leads to a regular file whose content
    has the digest. -/
theorem Host.OnMachine.verifies_iff (machine : h.OnMachine) {p : Path} {expected : Digest.Expected}
    {s : σ} : h.Verifies p expected s ↔
      ∃ r content mode shared, (machine.disk s).resolve .follow p = .ok r ∧
        r.node = some (.file content mode shared) ∧
        expected.algorithm.hexDigest content = expected.hex := by
  have hopen : ((h.openFile p).run s).1 = (Disk.outcome (Disk.openFile p) (machine.disk s)).1 := by
    rw [show h.openFile p = _ from congrFun (congrArg Files.openFile machine.files) p]
    rfl
  unfold Verifies
  rw [hopen]
  constructor
  · rintro ⟨stream, content, hstream, hread, hdigest⟩
    obtain ⟨r, mode, shared, hr, hn⟩ := Disk.openFile_read_iff.mp ⟨stream, hstream, hread⟩
    exact ⟨r, content, mode, shared, hr, hn, hdigest⟩
  · rintro ⟨r, content, mode, shared, hr, hn, hdigest⟩
    obtain ⟨stream, hstream, hread⟩ := Disk.openFile_read_iff.mpr ⟨r, mode, shared, hr, hn⟩
    exact ⟨stream, content, hstream, hread, hdigest⟩

/-! ## Steps that check -/

section Steps

variable {c : Context} {g : Game} {step : Step} {file : String} {expected : Digest.Expected}

/-- A step that checks a file passes without an error exactly if the file is verified. -/
theorem Step.execute_checksum_iff (ho : step.operation = .ok (.checksum file expected)) {s : σ} :
    ((step.execute h c g).run s).1 = .ok () ↔ h.Verifies (c.inputPath g file) expected s := by
  rw [Step.execute_run_of_operation ho, mapError_eq_ok]
  exact Host.checksum_eq_ok_iff

/-- Every error of a step is fatal if its operation fails fatally. -/
theorem Step.fatal_of_failsFatally {o : Operation} (ho : step.operation = .ok o)
    (hx : FailsFatally (o.apply h c g)) {s : σ} {e : InstallError}
    (he : ((step.execute h c g).run s).1 = .error e) : e.severity = .fatal := by
  rw [Step.execute_run_of_operation ho] at he
  rcases hr : (o.apply h c g).run s with ⟨r, s'⟩
  rw [hr] at he
  cases r with
  | ok u => cases he
  | error x =>
    cases he
    have hfatal : x.severity = .fatal := hx _ _ _ hr
    exact hfatal

/-- Every error of a step that checks a file is fatal. -/
theorem Step.fatal_of_checksum (hf : h.OpensFreely)
    (ho : step.operation = .ok (.checksum file expected)) {s : σ} {e : InstallError}
    (he : ((step.execute h c g).run s).1 = .error e) : e.severity = .fatal :=
  Step.fatal_of_failsFatally ho (h.checksum_failsFatally hf _ _) he

/-- A step that checks a file and passes has verified it. -/
theorem Step.verifies_of_passes (hf : h.OpensFreely)
    (ho : step.operation = .ok (.checksum file expected)) {s : σ} {a : Attempt}
    (ha : ((step.execute h c g).run s).1 = a.outcome) (hp : a.Passes) :
    h.Verifies (c.inputPath g file) expected s := by
  rw [← Step.execute_checksum_iff ho, ha]
  cases hout : a.outcome with
  | ok => rfl
  | error e =>
    have hadvisory := hp e (by simp [Attempt.error?, hout])
    rw [Step.fatal_of_checksum hf ho (ha.trans hout)] at hadvisory
    cases hadvisory

end Steps

/-! ## Runs -/

/-- A checksum step is a gate for the rest of its run.  If a later step is attempted, or the run comes
    to its end, then the step was executed, and its file was opened, read to the end and found to
    have the expected digest.  If the step is executed and its file is not verified, because it
    cannot be opened, or not be read to its end, or has another digest, then the run fails with the
    error of this step, which is the last one that is attempted. -/
theorem checksum_gates (hf : Nonempty h.OnMachine ∨ h.OpensFreely) (c : Context) (g : Game)
    (steps : List Step) (errors : Errors) (s : σ) {k : Nat} {step : Step} {file : String}
    {expected : Digest.Expected} (hk : steps[k]? = some step)
    (ho : step.operation = .ok (.checksum file expected)) :
    let out := (run h c g steps errors).run s
    let path := c.inputPath g file
    (((∃ n, out.1.1 = .succeeded n) ∨
        ∃ k' > k, ∃ step' t', Executes h c g steps s k' step' t') →
      ∃ t, Executes h c g steps s k step t ∧ h.Verifies path expected t) ∧
    (∀ t, Executes h c g steps s k step t → ¬ h.Verifies path expected t →
      ∃ e log s₁, ((step.execute h c g).run t).1 = .error e ∧ e.step = some step.index ∧
        e.command = some step.command ∧ out.1.1 = .failed e out.1.2 ∧
        RunAccount h c g steps errors s log s₁ out ∧ log.length = k + 1) ∧
    ∀ (machine : h.OnMachine) (t : σ), h.Verifies path expected t ↔
      ∃ r content mode shared, (machine.disk t).resolve .follow path = .ok r ∧
        r.node = some (.file content mode shared) ∧
        expected.algorithm.hexDigest content = expected.hex := by
  have hopens : h.OpensFreely := hf.elim (fun ⟨machine⟩ => machine.opensFreely) id
  refine ⟨?_, fun t ht hno => ?_, fun machine t => machine.verifies_iff⟩
  · intro hlater
    obtain ⟨a, t, ht, hout, hp⟩ : ∃ (a : Attempt) (t : σ), Executes h c g steps s k a.step t ∧
        ((a.step.execute h c g).run t).1 = a.outcome ∧ a.Passes := by
      rcases hlater with ⟨n, hn⟩ | ⟨k', hk', step', t', ht'⟩
      · obtain ⟨log, s₁, hl, he⟩ := exists_ending h c g 0 errors steps
          ((h.opening c g steps.length).run s).2
        obtain ⟨hlt, -⟩ := List.getElem?_eq_some_iff.mp hk
        exact (RunAccount.of_ending rfl hl he).executes_of_succeeded hn hlt
      · exact ht'.of_lt hk'
    obtain rfl : a.step = step := Option.some.inj (ht.getElem?.symm.trans hk)
    exact ⟨t, ht, Step.verifies_of_passes hopens ho hout hp⟩
  · -- A file that is not verified is an error, and the error is fatal.
    cases hout : ((step.execute h c g).run t).1 with
    | ok => exact absurd ((Step.execute_checksum_iff ho).mp hout) hno
    | error e =>
      obtain ⟨hindex, hcommand, -⟩ := Step.execute_error hout
      obtain ⟨log, s₁, ha, hlen, es, hes⟩ :=
        ht.failed errors hout (Step.fatal_of_checksum hopens ho hout)
      obtain ⟨-, -, rfl⟩ := (ha.failed_iff e es).mp hes
      exact ⟨e, log, s₁, rfl, hindex, hcommand, hes, ha, hlen⟩

/-- A run that checks a file which is not there, and would then make a directory. -/
theorem checksum_gates_missing :
    let h := Machine.host (.new "linux") ⟨"/c"⟩
    let c := Context.ofGameDir ⟨"/g"⟩ none
    let g : Game := ⟨"baz", "Baz", "linux"⟩
    let m : Machine := ⟨⟨[], [], false⟩, ⟨[]⟩, default⟩
    let check : Step := ⟨0, "checksum", .mapping [(.string "file", .string "/x"),
      (.string "hash", .string "md5:D41D8CD98F00B204E9800998ECF8427E")]⟩
    let expected : Digest.Expected := ⟨.md5, "d41d8cd98f00b204e9800998ecf8427e"⟩
    let steps := [check, ⟨1, "mkdir", .string "data"⟩]
    ((Nonempty h.OnMachine ∨ h.OpensFreely) ∧ steps[0]? = some check ∧
        check.operation = .ok (.checksum "/x" expected)) ∧
      (∃ e, ((run h c g steps []).run m).1.1 = .failed e ((run h c g steps []).run m).1.2) ∧
        ¬ ∃ k' > 0, ∃ step' t', Executes h c g steps m k' step' t' := by
  intro h c g m check expected steps
  have hf : Nonempty h.OnMachine ∨ h.OpensFreely := .inl ⟨Machine.onMachine _ _⟩
  have ho : check.operation = .ok (.checksum "/x" expected) := rfl
  obtain ⟨hlater, hfails, hfile⟩ := checksum_gates hf c g steps [] m (k := 0) rfl ho
  have hexecutes : Executes h c g steps m 0 check m :=
    .intro (by rfl) (.nil _) (by simp) rfl rfl
  have hpath : c.inputPath g "/x" = ⟨"/x"⟩ := by decide +kernel
  have hmissing : m.disk.resolve .follow ⟨"/x"⟩ = .ok ⟨["x"], none, false, false⟩ := by
    rw [Disk.resolve_absolute _ _ ["x"] (by decide)]
    simp (disch := decide) [Disk.walk_cons, Disk.walkAt, m, Disk.find?, Disk.lookup]
    rfl
  have hno : ¬ h.Verifies (c.inputPath g "/x") expected m := by
    rw [hfile (Machine.onMachine _ _) m, hpath]
    rintro ⟨r, content, mode, shared, hr, hn, -⟩
    rw [show ((Machine.onMachine _ _).disk m) = m.disk from rfl, hmissing] at hr
    cases hr
    cases hn
  refine ⟨⟨hf, rfl, ho⟩, ?_, fun hafter => ?_⟩
  · obtain ⟨e, -, -, -, -, -, hfailed, -⟩ := hfails m hexecutes hno
    exact ⟨e, hfailed⟩
  · obtain ⟨t, ht, hverified⟩ := hlater (.inr hafter)
    obtain ⟨-, rfl⟩ := ht.unique hexecutes
    exact hno hverified

end GameInstaller
