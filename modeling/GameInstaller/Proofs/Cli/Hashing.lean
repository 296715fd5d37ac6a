import GameInstaller.Proofs.Cli.Installing
import GameInstaller.Proofs.Command.Binding
import GameInstaller.Proofs.Digest.Printed
import GameInstaller.Proofs.Disk.Beneath
import GameInstaller.Proofs.Install.Checking
import GameInstaller.Proofs.Install.Verification

/-!
# Printed and verified digests

What a hash request prints for a file is what a checksum step takes for a file with the same content,
whatever blanks are put around it and whatever letter case its digits are given.  No other digest of
the algorithm passes.

* `Host.Yields`   a file is opened and read to its end
* `ChecksFor`     a step that checks a file for the digest in a text

## Key results

- `outcome_hash`: what a hash request prints
- `ChecksFor.bind_eq`: what is bound of a step that checks a file
- `ChecksFor.execute_eq`: how a step that checks a file ends
- `printed_digest_verifies`: all of these together
-/

namespace GameInstaller

open Digest (Algorithm Expected Hasher Spells)
open Params (IsRecord)
open Yaml (Value)

/-- The digest of a message, as it is printed. -/
def Digest.Algorithm.printed (alg : Algorithm) (content : ByteArray) : Expected :=
  ⟨alg, alg.hexDigest content⟩

theorem Disk.Holds.openStream {d : Disk} {p : Path} {content : ByteArray} (h : d.Holds p content) :
    ∃ stream, Disk.outcome (Disk.openStream p) d = (.ok stream, d) ∧
      stream.readAll = .ok content := by
  obtain ⟨stream, hstream, hread⟩ := Disk.openFile_read_iff.mpr h
  obtain ⟨r, mode, shared, hr, hn⟩ := h
  rw [Disk.openFile, Disk.outcome_about, mapError_eq_ok] at hstream
  refine ⟨stream, Prod.ext hstream ?_, hread⟩
  simp [Disk.openStream, Disk.outcome_bind, hr, hn]

/-! ## Hash requests -/

/-- The digest of a file. -/
theorem Digest.outcome_ofFile {d : Disk} {p : Path} {content : ByteArray} (h : d.Holds p content)
    (alg : Algorithm) :
    Disk.outcome (Digest.ofFile alg p) d = (.ok (alg.printed content).display, d) := by
  obtain ⟨stream, hopen, hread⟩ := h.openStream
  have hhex : alg.hexOfStream stream = .ok (alg.hexDigest content) := by
    rw [Algorithm.hexOfStream, hread]
    rfl
  unfold Digest.ofFile
  rw [Disk.outcome_bind_of_ok (Disk.outcome_attempt _ _), hopen]
  refine (Disk.outcome_bind_of_ok (Disk.outcome_pure stream d)).trans ?_
  dsimp only
  rw [hhex]
  rfl

/-- A hash request prints the digest of a file. -/
theorem Cli.outcome_hash {m : Machine} {p : Path} {content : ByteArray}
    (h : m.disk.Holds p content) (alg : Algorithm) :
    (Cli.hash p alg.label).outcome m = (.ok (Cli.line (alg.printed content).display), m) := by
  have hdigest := Digest.outcome_ofFile h alg
  unfold Cli.hash
  rw [Expected.ofLabel?_eq_some_iff.mpr rfl]
  refine Cli.Job.outcome_bind_of_ok (a := (alg.printed content).display)
    ((Cli.Job.outcome_ofCall _ _ _).trans ?_)
  rw [hdigest]
  rfl

/-! ## Steps that check a file -/

variable {σ : Type} {h : Host σ} {c : Context} {g : Game} {s : σ}

/-- In the state `s` the file at a path is opened and read to its end, and this is its content. -/
def Host.Yields (h : Host σ) (p : Path) (s : σ) (content : ByteArray) : Prop :=
  ∃ stream, ((h.openFile p).run s).1 = .ok stream ∧ stream.readAll = .ok content

/-- A step that checks a file for the digest in a text. -/
structure ChecksFor (step : Step) (file text : String) : Prop where
  command : step.command = "checksum"
  params : ∃ fields, IsRecord ["file", "hash"] fields step.params ∧
    ("file", .string file) ∈ fields ∧ ("hash", .string text) ∈ fields

section Steps

variable {step : Step} {file text : String} {expected : Expected} {content : ByteArray}

/-- A digest that is read of the text is bound. -/
theorem ChecksFor.bind_eq (hs : ChecksFor step file text)
    (he : Expected.parse (Text.trim text) = .ok expected) :
    Command.bind .checksum step.params = .ok (.checksum file expected) := by
  obtain ⟨fields, hrecord, hfile, hhash⟩ := hs.params
  have htag : Params.holdsTag step.params = false := by
    rw [hrecord.entries, Params.holdsTag, Params.entriesHoldTag_textEntries]
    intro ⟨name, w⟩ hf
    have hname : name = "file" ∨ name = "hash" := by simpa using hrecord.known _ hf
    rcases hname with rfl | rfl
    · rw [hrecord.unique hf hfile]
      rfl
    · rw [hrecord.unique hf hhash]
      rfl
  rw [Command.bind, Command.readChecksum_eq_ok_iff htag]
  exact .checksum hrecord hfile hhash (Expected.parse_eq_ok_iff.mp he)

theorem ChecksFor.operation_eq (hs : ChecksFor step file text)
    (he : Expected.parse (Text.trim text) = .ok expected) :
    step.operation = .ok (.checksum file expected) := by
  have hname : Command.ofName? step.command = some .checksum := by
    rw [hs.command]
    rfl
  rw [Step.operation_of_name hname, Command.operation, hs.bind_eq he]
  rfl

/-- The step ends well if the file has the digest, and else with the mismatch. -/
theorem ChecksFor.execute_eq (hs : ChecksFor step file text)
    (he : Expected.parse (Text.trim text) = .ok expected)
    (hc : h.Yields (c.inputPath g file) s content) :
    ((step.execute h c g).run s).1 =
      if expected.algorithm.hexDigest content = expected.hex then .ok ()
      else .error (.execution ((mismatch (c.inputPath g file) expected
        (expected.algorithm.hexDigest content)).atStep step.index step.command)) := by
  obtain ⟨stream, hopen, hread⟩ := hc
  have hverify : verify (c.inputPath g file) expected stream =
      if expected.algorithm.hexDigest content = expected.hex then .ok ()
      else .error (mismatch (c.inputPath g file) expected
        (expected.algorithm.hexDigest content)) := by
    rw [verify, Algorithm.hexOfStream, hread]
    rfl
  have happly : (((Operation.checksum file expected).apply h c g).run s).1 =
      verify (c.inputPath g file) expected stream := by
    rcases hrun : (h.openFile (c.inputPath g file)).run s with ⟨r, s'⟩
    rw [hrun] at hopen
    subst hopen
    rw [Operation.apply, Host.checksum, run_bind_of hrun]
    rfl
  rw [Step.execute_run_of_operation (hs.operation_eq he), happly, hverify]
  split <;> rfl

/-- On a machine, what is read of a path to a regular file is its content. -/
theorem Host.OnMachine.yields_iff (machine : h.OnMachine) {p : Path} :
    h.Yields p s content ↔ (machine.disk s).Holds p content := by
  have hopen : ((h.openFile p).run s).1 = (Disk.outcome (Disk.openFile p) (machine.disk s)).1 := by
    rw [show h.openFile p = _ from congrFun (congrArg Files.openFile machine.files) p]
    rfl
  rw [Yields, hopen]
  exact Disk.openFile_read_iff

end Steps

/-! ## Printing and verifying -/

section Printed

variable {alg : Algorithm} {content : ByteArray}

theorem spells_printed (alg : Algorithm) (content : ByteArray) :
    Spells (alg.printed content).display (alg.printed content) :=
  Digest.spells_display (Digest.lowercase_hexDigest alg content)

/-- Every spelling of a printed digest is read as it. -/
theorem parse_trim_of_spells_printed {text : String} (h : Spells text (alg.printed content)) :
    Expected.parse (Text.trim text) = .ok (alg.printed content) :=
  Digest.parse_trim_eq_ok_iff.mpr ⟨h, Digest.isHex_hexDigest alg content⟩

end Printed

/-- What a hash request prints for a file is the digest of its whole content, however the reads cut
    it.  A checksum step takes it, with blanks around it and digits of either letter case, and passes at
    a file with this content.  With any other digest of the algorithm the step fails at such a file,
    with a failure of the kind of checksums.  And every digest that is read is read back of its display,
    which differs from what was read by the letter case of its digits alone. -/
theorem printed_digest_verifies (alg : Algorithm) (content : ByteArray) :
    (∀ (hasher : Hasher) (stream : Disk.ByteStream), hasher.Computes alg →
      (∀ piece ∈ stream.pieces, piece.size ≠ 0) → stream.readAll = .ok content →
        hasher.hexOf stream = .ok (alg.printed content).hex) ∧
    (∀ (m : Machine) (p : Path), m.disk.Holds p content →
      (Cli.hash p alg.label).outcome m = (.ok (Cli.line (alg.printed content).display), m)) ∧
    Spells (alg.printed content).display (alg.printed content) ∧
    (∀ (step : Step) (file text : String), ChecksFor step file text →
      (Spells text (alg.printed content) →
        Command.bind .checksum step.params = .ok (.checksum file (alg.printed content)) ∧
        ∀ {σ : Type} (h : Host σ) (c : Context) (g : Game) (s : σ),
          h.Yields (c.inputPath g file) s content → ((step.execute h c g).run s).1 = .ok ()) ∧
      ∀ other, Expected.parse (Text.trim text) = .ok other → other.algorithm = alg →
        other ≠ alg.printed content →
        Command.bind .checksum step.params = .ok (.checksum file other) ∧
        ∀ {σ : Type} (h : Host σ) (c : Context) (g : Game) (s : σ),
          h.Yields (c.inputPath g file) s content →
            ∃ e : ExecutionError, ((step.execute h c g).run s).1 = .error (.execution e) ∧
              e.kind = .checksum) ∧
    (∀ {σ : Type} {h : Host σ} (machine : h.OnMachine) (p : Path) (s : σ),
      h.Yields p s content ↔ (machine.disk s).Holds p content) ∧
    ∀ (s : String) (e : Expected), Expected.parse s = .ok e → Expected.parse e.display = .ok e ∧
      ∃ digits, s = e.algorithm.label ++ ":" ++ String.ofList digits ∧
        e.display = e.algorithm.label ++ ":" ++ Digest.lowercase digits := by
  refine ⟨fun hasher stream hh hs hread => ?_, fun m p hm => Cli.outcome_hash hm alg,
    spells_printed alg content, fun step file text hstep => ⟨fun htext => ?_,
      fun other hother halg hne => ?_⟩, fun machine p s => machine.yields_iff,
    fun s e => Digest.parse_display⟩
  · rw [Hasher.hexOf_eq hh hs, Algorithm.hexOfStream, hread]
    rfl
  · have he := parse_trim_of_spells_printed htext
    refine ⟨hstep.bind_eq he, fun h c g s hc => ?_⟩
    rw [hstep.execute_eq he hc]
    exact if_pos rfl
  · refine ⟨hstep.bind_eq hother, fun h c g s hc => ?_⟩
    have hhex : other.algorithm.hexDigest content ≠ other.hex := by
      intro heq
      obtain ⟨alg', hex⟩ := other
      subst halg
      exact hne (congrArg (Expected.mk alg') heq.symm)
    rw [hstep.execute_eq hother hc, if_neg hhex]
    exact ⟨_, rfl, rfl⟩

/-- A message in two pieces, a file on a machine, and a step with the printed digest behind a blank. -/
theorem printed_digest_verifies_file :
    let h := Machine.host (.new "linux") ⟨"/c"⟩
    let c := Context.ofGameDir ⟨"/g"⟩ none
    let g : Game := ⟨"baz", "Baz", "linux"⟩
    let content := "baz".toUTF8
    let m : Machine := ⟨⟨[(["x"], .file content 0o644 none)], [], false⟩, ⟨[]⟩, default⟩
    let printed := Algorithm.md5.printed content
    let check (text : String) : Step := ⟨0, "checksum", .mapping [(.string "file", .string "/x"),
      (.string "hash", .string text)]⟩
    (Hasher.keeping .md5).hexOf ⟨["ba".toUTF8, "z".toUTF8], none⟩ = .ok printed.hex ∧
      m.disk.Holds ⟨"/x"⟩ content ∧
      (Cli.hash ⟨"/x"⟩ "md5").outcome m = (.ok (Cli.line printed.display), m) ∧
      (((check (" " ++ printed.display)).execute h c g).run m).1 = .ok () := by
  intro h c g content m printed check
  have hchecks (text : String) : ChecksFor (check text) "/x" text :=
    ⟨rfl, [("file", .string "/x"), ("hash", .string text)], ⟨rfl, by simp, by simp⟩, by simp, by simp⟩
  obtain ⟨hpieces, hprints, ⟨before, digits, after, hbefore, hafter, hdigits, htext⟩, hsteps, hyields, -⟩ :=
    printed_digest_verifies .md5 content
  have hresolve : m.disk.resolve .follow ⟨"/x"⟩ =
      .ok ⟨["x"], some (.file content 0o644 none), false, false⟩ :=
    Disk.resolve_root_name (by decide) (by decide) (.inl rfl)
  have hholds : m.disk.Holds ⟨"/x"⟩ content := ⟨_, _, _, hresolve, rfl⟩
  have hpath : c.inputPath g "/x" = ⟨"/x"⟩ := by decide +kernel
  have hspells : Spells (" " ++ printed.display) printed := by
    refine ⟨' ' :: before, digits, after, ?_, hafter, hdigits, ?_⟩
    · rw [List.forall_mem_cons]
      exact ⟨by decide, hbefore⟩
    · rw [show printed.display = _ from htext, ← String.toList_inj]
      simp [printed]
  have hhex : (Hasher.keeping .md5).hexOf ⟨["ba".toUTF8, "z".toUTF8], none⟩ = .ok printed.hex :=
    hpieces _ _ (Hasher.keeping_computes .md5) (by decide +kernel) (by decide +kernel)
  refine ⟨hhex, hholds, hprints m _ hholds, ?_⟩
  refine ((hsteps _ _ _ (hchecks _)).1 hspells).2 h c g m ?_
  rw [hpath]
  exact (hyields (Machine.onMachine _ _) _ _).mpr hholds

end GameInstaller
