import GameInstaller.Install.Machine
import GameInstaller.Proofs.Install.Skipping
import GameInstaller.Proofs.Install.Tracing
import GameInstaller.Proofs.Install.Views
import GameInstaller.Proofs.Journal.Appending

/-!
# Journals of runs

A run that has a journal adds a trace of itself to it, and to no other file.  So after many runs, of
whichever games, a journal holds what it held before and then the traces of its own runs, one after
the other.  All this is said of journals to which events can be appended and which no step touches.

* `Job`                a run with a journal
* `Host.JournalsOn`    a host whose journals are on a disk
* `InTurn`             what holds of jobs that are run one after the other
* `Chronicle`          what these jobs add to their journals

## Key results

- `Job.page`: what a run adds to its journal
- `journal_grammar`: what runs add to all journals
-/

namespace GameInstaller

open Journal (Event Grown Page Stamped share textOf)

variable {σ : Type} {h : Host σ}

/-- The journals of a host are on the disk of a machine in its state, which stays the same when the
    clock is read, a name taken or the flag looked at. -/
structure Host.JournalsOn (h : Host σ) where
  get : σ → Machine
  put : Machine → σ → σ
  get_put : ∀ m s, get (put m s) = m
  append : ∀ dir game e, h.append dir game e = onPart get put (Machine.append dir game e)
  clock : Silent (fun s => (get s).disk) h.clock
  newRunId : Silent (fun s => (get s).disk) h.newRunId
  isCancelled : Silent (fun s => (get s).disk) h.isCancelled

/-- The disk that the journals of a host are on. -/
def Host.JournalsOn.disk (on : h.JournalsOn) (s : σ) : Disk := (on.get s).disk

section Disk

variable (on : h.JournalsOn) (s : σ)

@[simp] theorem Host.JournalsOn.disk_clock : on.disk (h.clock.run s).2 = on.disk s := on.clock s

@[simp] theorem Host.JournalsOn.disk_newRunId : on.disk (h.newRunId.run s).2 = on.disk s :=
  on.newRunId s

@[simp] theorem Host.JournalsOn.disk_isCancelled : on.disk (h.isCancelled.run s).2 = on.disk s :=
  on.isCancelled s

end Disk

/-- What an install on a machine acts through has its journals on the disk of the machine. -/
def Machine.journalsOn (runner : SystemRunner) (configDir : Path) :
    (Machine.host runner configDir).JournalsOn where
  get := id
  put m _ := m
  get_put := Machine.get_put
  append _ _ _ := rfl
  clock _ := rfl
  newRunId _ := rfl
  isCancelled _ := rfl

/-- An event that is put into the journal is appended on the disk. -/
theorem Host.JournalsOn.disk_log (on : h.JournalsOn) {c : Context} {dir : Path}
    (hc : c.journalDir = some dir) (g : Game) (e : Event) (s : σ) :
    ∃ time, on.disk ((h.log c g e).run s).2 =
      (Disk.outcome (Journal.append time dir g.journalName e) (on.disk s)).2 := by
  unfold Host.log
  rw [hc]
  dsimp only
  rw [on.append]
  exact ⟨Time.stamp (on.get s).now.secs, congrArg Machine.disk (on.get_put _ _)⟩

/-! ## Jobs -/

/-- A run with a journal. -/
structure Job where
  context : Context
  dir : Path
  journaled : context.journalDir = some dir
  game : Game
  steps : List Step
  errors : Errors

namespace Job

/-- Run the steps of a job. -/
def run (h : Host σ) (j : Job) : StateM σ (RunResult × Errors) :=
  GameInstaller.run h j.context j.game j.steps j.errors

/-- The state after a job. -/
def after (h : Host σ) (j : Job) (s : σ) : σ := ((j.run h).run s).2

/-- The journal of a job is at this location. -/
def LiesAt (j : Job) (d : Disk) (l : Location) : Prop := Journal.LiesAt d j.dir j.game.journalName l

/-- Events can be appended to the journal of a job. -/
def Accepts (j : Job) (d : Disk) : Prop := Journal.Accepts d j.dir j.game.journalName

/-- In the run of the job from the state `s` no step touches the file at this location. -/
def Spares (on : h.JournalsOn) (j : Job) (s : σ) (l : Location) : Prop :=
  ∀ k step t, Executes h j.context j.game j.steps s k step t →
    Journal.Spares (on.disk t) (on.disk ((step.execute h j.context j.game).run t).2) l

/-- In the run of the job from the state `s` events can be appended to its journal, and no step
    touches it. -/
structure Undisturbed (on : h.JournalsOn) (j : Job) (s : σ) : Prop where
  accepts : j.Accepts (on.disk s)
  spares : ∀ k step t l, Executes h j.context j.game j.steps s k step t → j.LiesAt (on.disk t) l →
    Journal.Spares (on.disk t) (on.disk ((step.execute h j.context j.game).run t).2) l

/-- What is known when the events so far are in the journal. -/
def Journaled (on : h.JournalsOn) (j : Job) (s : σ) (events : List Event) (t : σ) : Prop :=
  ∃ l page, page.map (·.event) = events ∧
    Page (j.Spares on s) (on.disk s) (on.disk t) j.dir j.game.journalName l page

/-- All that is done in the run keeps the events in the journal. -/
theorem tracks (on : h.JournalsOn) {j : Job} {s : σ} (hj : j.Undisturbed on s) :
    Tracks h j.context j.game j.steps s (j.Journaled on s) where
  opening := by
    -- Before the first event the clock is read and a name taken.
    obtain ⟨time, hlog⟩ := on.disk_log j.journaled j.game
      (.installStarted j.game.journalName (h.newRunId.run (h.clock.run s).2).1 j.steps.length version)
      (h.newRunId.run (h.clock.run s).2).2
    rw [on.disk_newRunId, on.disk_clock] at hlog
    obtain ⟨l, -, hpage⟩ := Page.start hj.accepts (j.Spares on s) time
      (.installStarted j.game.journalName (h.newRunId.run (h.clock.run s).2).1 j.steps.length version)
    rw [← hlog] at hpage
    exact ⟨l, _, rfl, hpage⟩
  log events t e := by
    rintro ⟨l, page, rfl, hpage⟩
    obtain ⟨time, hlog⟩ := on.disk_log j.journaled j.game e t
    exact ⟨l, _, List.map_append, hlog ▸ hpage.snoc time e⟩
  clock events t := by
    rintro ⟨l, page, hevents, hpage⟩
    exact ⟨l, page, hevents, by rwa [on.disk_clock]⟩
  isCancelled events t := by
    rintro ⟨l, page, hevents, hpage⟩
    exact ⟨l, page, hevents, by rwa [on.disk_isCancelled]⟩
  execute events k step t he := by
    rintro ⟨l, page, hevents, hpage⟩
    exact ⟨l, page, hevents, hpage.spare (hj.spares k step t l he hpage.liesAt)
      fun _ hspares => hspares k step t he⟩

/-- What a run adds to its journal is a trace of it. -/
theorem page (on : h.JournalsOn) {j : Job} {s : σ} (hj : j.Undisturbed on s) :
    ∃ log s₁ l page,
      RunAccount h j.context j.game j.steps j.errors s log s₁ ((j.run h).run s) ∧
      RunTrace j.game j.steps j.errors log ((j.run h).run s).1 (page.map (·.event)) ∧
      Page (j.Spares on s) (on.disk s) (on.disk (j.after h s)) j.dir j.game.journalName l page := by
  obtain ⟨log, s₁, hl, he⟩ := exists_ending h j.context j.game 0 j.errors j.steps
    ((h.opening j.context j.game j.steps.length).run s).2
  have ha := RunAccount.of_ending rfl hl he
  obtain ⟨_, htrace, l, page, rfl, hpage⟩ := ha.traced (j.tracks on hj)
  exact ⟨log, s₁, l, page, ha, htrace, hpage⟩

end Job

/-! ## Jobs one after the other -/

/-- The state after jobs that are run one after the other. -/
def Host.after (h : Host σ) (jobs : List Job) (s : σ) : σ := jobs.foldl (fun s j => j.after h s) s

/-- A job with what it added to its journal, and where that is. -/
structure Chapter extends Job where
  location : Location
  page : List Stamped

/-- What chapters added to the file at a location, in their order. -/
def Chapter.textAt (l : Location) (chapters : List Chapter) : ByteArray :=
  textOf ((chapters.filter fun p => p.location = l).flatMap (·.page))

/-- In their turn, when they are run from the state `s`, jobs have a property. -/
def InTurn {α : Type} (h : Host σ) (job : α → Job) (P : α → σ → Prop) : List α → σ → Prop
  | [], _ => True
  | a :: rest, s => P a s ∧ InTurn h job P rest ((job a).after h s)

theorem InTurn.of_forall {α : Type} {job : α → Job} {P : α → σ → Prop} {jobs : List α} {s : σ}
    (hP : ∀ a ∈ jobs, ∀ t, P a t) : InTurn h job P jobs s := by
  induction jobs generalizing s with
  | nil => trivial
  | cons a rest ih =>
    obtain ⟨ha, hrest⟩ := List.forall_mem_cons.mp hP
    exact ⟨ha s, ih hrest⟩

theorem InTurn.imp {α : Type} {job : α → Job} {P Q : α → σ → Prop} {jobs : List α} {s : σ}
    (hjobs : InTurn h job P jobs s) (hPQ : ∀ a ∈ jobs, ∀ t, P a t → Q a t) :
    InTurn h job Q jobs s := by
  induction jobs generalizing s with
  | nil => trivial
  | cons a rest ih =>
    obtain ⟨ha, hrest⟩ := List.forall_mem_cons.mp hPQ
    exact ⟨ha s hjobs.1, ih hjobs.2 hrest⟩

/-- A chapter tells of the run of its job from the state `s`: it is a trace of the run, and was added
    to the journal. -/
structure Chapter.Records (on : h.JournalsOn) (p : Chapter) (s : σ) : Prop where
  trace : ∃ log s₁, RunAccount h p.context p.game p.steps p.errors s log s₁ ((p.run h).run s) ∧
    RunTrace p.game p.steps p.errors log ((p.run h).run s).1 (p.page.map (·.event))
  liesAt : p.LiesAt (on.disk (p.after h s)) p.location
  grown : Grown (on.disk s) (on.disk (p.after h s)) p.location (textOf p.page)

theorem Chapter.textAt_cons (l : Location) (p : Chapter) (chapters : List Chapter) :
    textAt l (p :: chapters) = share p.location p.page l ++ textAt l chapters := by
  unfold textAt share
  by_cases hl : p.location = l
  · simp [hl, Journal.textOf_append]
  · simp [hl, Ne.symm hl]

/-- What jobs add to all files that are run one after the other from the state `s`: each adds its
    chapter to its journal.  A file with one name that no step touches has in it what it had before,
    and then the chapters that were added to it, and the journals of these are where they were
    written. -/
structure Chronicle (on : h.JournalsOn) (jobs : List Job) (s : σ) (chapters : List Chapter) :
    Prop where
  of_jobs : chapters.map (·.toJob) = jobs
  records : InTurn h Chapter.toJob (fun p s => p.Records on s) chapters s
  grown : ∀ l, InTurn h id (fun j s => j.Spares on s l) jobs s → (on.disk s).HasOneName l →
    Grown (on.disk s) (on.disk (h.after jobs s)) l (Chapter.textAt l chapters)
  liesAt : ∀ l, InTurn h id (fun j s => j.Spares on s l) jobs s → (on.disk s).HasOneName l →
    ∀ p ∈ chapters, p.location = l → p.LiesAt (on.disk (h.after jobs s)) l

theorem Chronicle.nil (on : h.JournalsOn) (s : σ) : Chronicle on [] s [] where
  of_jobs := rfl
  records := trivial
  grown _ _ _ := Journal.Spares.refl
  liesAt _ _ _ := by simp

/-- A job that is run before others adds the first chapter. -/
theorem Chronicle.cons {on : h.JournalsOn} {p : Chapter} {jobs : List Job} {s : σ}
    {chapters : List Chapter} (hp : p.Records on s)
    (hpage : Page (p.Spares on s) (on.disk s) (on.disk (p.after h s)) p.dir p.game.journalName
      p.location p.page)
    (hrest : Chronicle on jobs (p.after h s) chapters) :
    Chronicle on (p.toJob :: jobs) s (p :: chapters) where
  of_jobs := congrArg (p.toJob :: ·) hrest.of_jobs
  records := ⟨hp, hrest.records⟩
  grown l hspares hone := by
    -- What the first job did to the file, and what the others did.
    have hfirst := hpage.others l hspares.1 hone
    rw [Chapter.textAt_cons]
    exact hfirst.trans (hrest.grown l hspares.2 (hfirst.hasOneName hone))
  liesAt l hspares hone := by
    have hfirst := hpage.others l hspares.1 hone
    have hone' := hfirst.hasOneName hone
    refine List.forall_mem_cons.mpr ⟨?_, hrest.liesAt l hspares.2 hone'⟩
    rintro rfl
    exact (hrest.grown _ hspares.2 hone').liesAt _ _ hpage.liesAt

/-- Jobs that are undisturbed in their turn add chapters. -/
theorem exists_chronicle (on : h.JournalsOn) {jobs : List Job} {s : σ}
    (hjobs : InTurn h id (fun j s => j.Undisturbed on s) jobs s) :
    ∃ chapters, Chronicle on jobs s chapters := by
  induction jobs generalizing s with
  | nil => exact ⟨[], .nil on s⟩
  | cons j jobs ih =>
    obtain ⟨hj, hjobs⟩ := hjobs
    obtain ⟨log, s₁, l, page, ha, htrace, hpage⟩ := j.page on hj
    obtain ⟨chapters, hchapters⟩ := ih hjobs
    have hrecords : (Chapter.mk j l page).Records on s :=
      ⟨⟨log, s₁, ha, htrace⟩, hpage.liesAt, hpage.own⟩
    exact ⟨_, .cons hrecords hpage hchapters⟩

/-- When the journals of jobs are there, and their steps touch no journal, then the jobs are
    undisturbed. -/
theorem inTurn_undisturbed (on : h.JournalsOn) {jobs : List Job} {s : σ}
    (hlies : ∀ j ∈ jobs, ∃ l, j.LiesAt (on.disk s) l ∧ (on.disk s).HasOneName l)
    (hspares : ∀ j ∈ jobs, ∀ step ∈ j.steps, ∀ t l, Journal.Spares (on.disk t)
      (on.disk ((step.execute h j.context j.game).run t).2) l) :
    InTurn h id (fun j s => j.Undisturbed on s) jobs s := by
  induction jobs generalizing s with
  | nil => trivial
  | cons j jobs ih =>
    obtain ⟨⟨l, hl, -⟩, hlies⟩ := List.forall_mem_cons.mp hlies
    obtain ⟨hsteps, hspares⟩ := List.forall_mem_cons.mp hspares
    have hj : j.Undisturbed on s := {
      accepts := hl.accepts
      spares := fun k step t l he _ => hsteps step (List.mem_of_getElem? he.getElem?) t l }
    obtain ⟨_, _, _, _, -, -, hpage⟩ := j.page on hj
    refine ⟨hj, ih (fun j' hj' => ?_) hspares⟩
    -- The journals of the other jobs are there still.
    obtain ⟨l', hl', hone⟩ := hlies j' hj'
    have hl'' := hpage.others l'
      (fun k step t he => hsteps step (List.mem_of_getElem? he.getElem?) t l') hone
    exact ⟨l', hl''.liesAt _ _ hl', hl''.hasOneName hone⟩

/-- A run that has a journal asks its host to append a trace of itself, and nothing else, to the
    journal of its game.  When jobs are run one after the other, and each in its turn can append to
    its journal and has no step that touches it, then each of them adds a trace of itself to its
    journal, and in every journal that none of the steps touches the traces of its own runs come one
    after the other. -/
theorem journal_grammar (h : Host σ) :
    (∀ (j : Job) (s : σ), let out := (j.run h.recorded).run (s, [])
      out.1 = ((j.run h).run s).1 ∧ ∃ log s₁ events,
        RunAccount h.recorded j.context j.game j.steps j.errors (s, []) log s₁ out ∧
        RunTrace j.game j.steps j.errors log out.1 events ∧
        appendsOf out.2.2 = events.map fun e => (j.dir, j.game.journalName, e)) ∧
    ∀ (on : h.JournalsOn) (jobs : List Job) (s : σ),
      InTurn h id (fun j s => j.Undisturbed on s) jobs s →
      ∃ chapters, Chronicle on jobs s chapters :=
  ⟨fun j s => ⟨(run_recorded h j.context j.game j.steps j.errors (s, [])).1,
      run_appends h j.journaled j.game j.steps j.errors s⟩,
    fun on _ _ hjobs => exists_chronicle on hjobs⟩

/-- A step that makes a directory on a machine makes directories and does nothing else. -/
theorem Step.addsDirs_of_mkdir (machine : h.OnMachine) (c : Context) (g : Game) {step : Step}
    {p : String} (ho : step.operation = .ok (.mkdir p)) (s : σ) :
    Disk.AddsDirs (machine.disk s) (machine.disk ((step.execute h c g).run s).2) := by
  have hcreate : h.createDir (c.targetPath g p) =
      onPart machine.get machine.put (Machine.call (Disk.createDir (c.targetPath g p))) := by
    simp only [machine.files, Files.onPart, Machine.files]
  have happly : machine.disk (((Operation.mkdir p).apply h c g).run s).2 =
      (Disk.outcome (Disk.createDir (c.targetPath g p)) (machine.disk s)).2 := by
    rw [← machine.disk_call, ← hcreate]
    rfl
  rw [Step.execute_run_of_operation ho, happly]
  exact Disk.createDir_addsDirs _ _

/-- A step that makes a directory on a machine touches no journal. -/
theorem Step.spares_of_mkdir (machine : h.OnMachine) (c : Context) (g : Game) {step : Step}
    {p : String} (ho : step.operation = .ok (.mkdir p)) (s : σ) (l : Location) :
    Journal.Spares (machine.disk s) (machine.disk ((step.execute h c g).run s).2) l :=
  .of_addsDirs (Step.addsDirs_of_mkdir machine c g ho s)

/-- Two games are installed, one of them twice, with the journals of both in place. -/
theorem journal_grammar_two_games :
    let h := Machine.host (.new "linux") ⟨"/c"⟩
    let on := Machine.journalsOn (.new "linux") ⟨"/c"⟩
    let context : Context := { Context.ofGameDir ⟨"/g"⟩ none with journalDir := some ⟨"/s"⟩ }
    let job (slug : String) : Job :=
      ⟨context, ⟨"/s"⟩, rfl, ⟨slug, slug, "linux"⟩, [⟨0, "mkdir", .string "data"⟩], []⟩
    let jobs := ["baz", "qux", "baz"].map job
    let empty : Disk.Node := .file ByteArray.empty Disk.newFileMode none
    let m : Machine := ⟨⟨[(["g"], .dir), (["s"], .dir), (["s", "baz"], .dir),
      (["s", "baz", "events.jsonl"], empty), (["s", "qux"], .dir),
      (["s", "qux", "events.jsonl"], empty)], [], false⟩, ⟨[]⟩, default⟩
    InTurn h id (fun j s => j.Undisturbed on s) jobs m ∧
      ∃ chapters : List Chapter, chapters.map (·.toJob) = jobs ∧
        Grown m.disk (on.disk (h.after jobs m)) ["s", "baz", "events.jsonl"]
          (Chapter.textAt ["s", "baz", "events.jsonl"] chapters) := by
  intro h on context job jobs empty m
  have ho : (⟨0, "mkdir", .string "data"⟩ : Step).operation = .ok (.mkdir "data") := rfl
  let machine : h.OnMachine := Machine.onMachine _ _
  have hdisk (t : Machine) : machine.disk t = on.disk t := rfl
  have hspares : ∀ j ∈ jobs, ∀ step ∈ j.steps, ∀ t l, Journal.Spares (on.disk t)
      (on.disk ((step.execute h j.context j.game).run t).2) l := by
    rintro j hj step hstep t l
    obtain ⟨slug, -, rfl⟩ := List.mem_map.mp hj
    obtain rfl := List.mem_singleton.mp hstep
    have hmkdir := Step.spares_of_mkdir machine context ⟨slug, slug, "linux"⟩ ho t l
    rwa [hdisk, hdisk] at hmkdir
  have hbaz : (job "baz").LiesAt m.disk ["s", "baz", "events.jsonl"] := by
    have hresolve : m.disk.resolve .follow ⟨"/s/baz/events.jsonl"⟩ =
        .ok ⟨["s", "baz", "events.jsonl"], some empty, false, false⟩ := by
      rw [Disk.resolve_absolute _ _ ["s", "baz", "events.jsonl"] (by decide)]
      simp (disch := decide) [Disk.walk_cons, Disk.walkAt, m, empty, Disk.find?, Disk.lookup]
      rfl
    have hpath : Journal.logPath ⟨"/s"⟩ "baz" = .ok ⟨"/s/baz/events.jsonl"⟩ :=
      Journal.logPath_eq_ok.mpr ⟨by decide, by decide +kernel⟩
    exact ⟨_, hpath, _, _, _, _, hresolve, rfl, rfl⟩
  have hqux : (job "qux").LiesAt m.disk ["s", "qux", "events.jsonl"] := by
    have hresolve : m.disk.resolve .follow ⟨"/s/qux/events.jsonl"⟩ =
        .ok ⟨["s", "qux", "events.jsonl"], some empty, false, false⟩ := by
      rw [Disk.resolve_absolute _ _ ["s", "qux", "events.jsonl"] (by decide)]
      simp (disch := decide) [Disk.walk_cons, Disk.walkAt, m, empty, Disk.find?, Disk.lookup]
      rfl
    have hpath : Journal.logPath ⟨"/s"⟩ "qux" = .ok ⟨"/s/qux/events.jsonl"⟩ :=
      Journal.logPath_eq_ok.mpr ⟨by decide, by decide +kernel⟩
    exact ⟨_, hpath, _, _, _, _, hresolve, rfl, rfl⟩
  have hone : m.disk.HasOneName ["s", "baz", "events.jsonl"] := by
    simp [Disk.HasOneName, m, empty, Disk.find?, Disk.lookup]
  have hone' : m.disk.HasOneName ["s", "qux", "events.jsonl"] := by
    simp [Disk.HasOneName, m, empty, Disk.find?, Disk.lookup]
  have hjobs : InTurn h id (fun j s => j.Undisturbed on s) jobs m := by
    refine inTurn_undisturbed on (fun j hj => ?_) hspares
    obtain ⟨slug, hslug, rfl⟩ := List.mem_map.mp hj
    obtain rfl | rfl | rfl : slug = "baz" ∨ slug = "qux" ∨ slug = "baz" := by simpa using hslug
    · exact ⟨_, hbaz, hone⟩
    · exact ⟨_, hqux, hone'⟩
    · exact ⟨_, hbaz, hone⟩
  obtain ⟨chapters, hchapters⟩ := (journal_grammar h).2 on jobs m hjobs
  refine ⟨hjobs, chapters, hchapters.of_jobs, hchapters.grown _ ?_ hone⟩
  exact InTurn.of_forall fun j hj s k step t he =>
    hspares j hj step (List.mem_of_getElem? he.getElem?) t _

end GameInstaller
