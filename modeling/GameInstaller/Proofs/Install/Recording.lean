import GameInstaller.Install.Session
import GameInstaller.Proofs.Actions

/-!
# Hosts that answer alike

An install knows its host by the answers to its calls only.  So two hosts whose calls answer alike,
and go on answering alike, cannot be told apart by any step: `Step.execute_related`.  If their flags,
journals and clocks answer alike as well, no run can tell them apart: `run_related`.

`Host.recorded` does what its host does and writes down each call of a collaborator, so that
statements on the state of a host are at the same time statements on the calls that it was asked
for.

* `Host.Matches R`   two hosts whose collaborators answer alike in states related by `R`
* `Operation.Matches R`, `Step.Matches R`   the calls of an operation or a step answer alike
* `Host.MatchesAll R`   two hosts all of whose actions answer alike
* `Host.MatchesFor R`   two hosts all of whose actions answer alike when a given game is installed
* `Host.recorded_matches`, `Operation.Matches.recorded`   hosts that answer alike are asked for the
  same calls
* `run_recorded`   recording does not disturb
-/

namespace GameInstaller

variable {σ τ : Type}

/-- Two runners that answer alike. -/
structure Runner.Matches (R : σ → τ → Prop) (r : Runner σ) (r' : Runner τ) : Prop where
  name : r.name = r'.name
  isInstalled : Related R r.isInstalled r'.isInstalled
  install : Related R r.install r'.install

/-- Two hosts whose filesystems, runners and stores answer alike. -/
structure Host.Matches (R : σ → τ → Prop) (h : Host σ) (h' : Host τ) : Prop where
  movePath : ∀ src dst, Related R (h.movePath src dst) (h'.movePath src dst)
  copyTree : ∀ src dst, Related R (h.copyTree src dst) (h'.copyTree src dst)
  createDir : ∀ p, Related R (h.createDir p) (h'.createDir p)
  extract : ∀ archive dst format,
    Related R (h.extract archive dst format) (h'.extract archive dst format)
  openFile : ∀ p, Related R (h.openFile p) (h'.openFile p)
  runner : Runner.Matches R h.runner h'.runner
  dependency : Option.Rel (Runner.Matches R) h.dependency h'.dependency
  saveEntry : ∀ id entry, Related R (h.saveEntry id entry) (h'.saveEntry id entry)
  spawn : ∀ l, Related R (h.spawn l) (h'.spawn l)

/-- Two hosts all of whose actions answer alike. -/
structure Host.MatchesAll (R : σ → τ → Prop) (h : Host σ) (h' : Host τ) : Prop
    extends Host.Matches R h h' where
  isCancelled : Related R h.isCancelled h'.isCancelled
  append : ∀ dir game e, Related R (h.append dir game e) (h'.append dir game e)
  newRunId : Related R h.newRunId h'.newRunId
  clock : Related R h.clock h'.clock

variable {R : σ → τ → Prop} {h : Host σ} {h' : Host τ}

theorem ensureInstalled_related {r : Runner σ} {r' : Runner τ} (hr : Runner.Matches R r r') :
    Related R (ensureInstalled r) (ensureInstalled r') := by
  refine hr.isInstalled.bind fun installed => ?_
  cases installed with
  | true => exact .pure _
  | false =>
    refine hr.install.bind fun result => ?_
    cases result with
    | ok => exact .pure _
    | error e => simp only [hr.name]; exact .pure _

/-! ## Operations -/

/-- The calls that an operation makes answer alike on two hosts. -/
def Operation.Matches (R : σ → τ → Prop) (h : Host σ) (h' : Host τ) (c : Context) (g : Game) :
    Operation → Prop
  | move t =>
    let src := c.inputPath g t.src
    let dst := c.targetPath g t.dst
    Related R (h.movePath src dst) (h'.movePath src dst)
  | copy t =>
    let src := c.inputPath g t.src
    let dst := c.targetPath g t.dst
    Related R (h.copyTree src dst) (h'.copyTree src dst)
  | mkdir p => Related R (h.createDir (c.targetPath g p)) (h'.createDir (c.targetPath g p))
  | extract file dst format =>
    let archive := c.inputPath g file
    let dst := match dst with
      | some dst => c.targetPath g dst
      | none => c.gameDir
    ∀ f, archiveFormat archive format = some f →
      Related R (h.extract archive dst f) (h'.extract archive dst f)
  | execute file args =>
    let l : Launch :=
      ⟨c.programPath (c.text g file), args.map (c.text g), some c.workingDir, c.env⟩
    Related R (h.spawn l) (h'.spawn l)
  | checksum file _ => Related R (h.openFile (c.inputPath g file)) (h'.openFile (c.inputPath g file))
  | checkDepends =>
    Runner.Matches R h.runner h'.runner ∧
      Option.Rel (Runner.Matches R) h.dependency h'.dependency
  | writeConfig file =>
    let executable := c.targetPath g (dropFileUrl (c.text g file))
    ∀ dir name, executable.parent? = some dir → executable.fileName? = some name →
      let entry : GameEntry := ⟨dir, name, g.name, g.runner⟩
      Related R (h.saveEntry g.slug entry) (h'.saveEntry g.slug entry)

/-- On matching hosts the calls of every operation answer alike. -/
theorem Host.Matches.operation (hm : h.Matches R h') (c : Context) (g : Game) (o : Operation) :
    o.Matches R h h' c g := by
  cases o with
  | move t => exact hm.movePath _ _
  | copy t => exact hm.copyTree _ _
  | mkdir p => exact hm.createDir _
  | extract file dst format => exact fun f _ => hm.extract _ _ f
  | execute file args => exact hm.spawn _
  | checksum file expected => exact hm.openFile _
  | checkDepends => exact ⟨hm.runner, hm.dependency⟩
  | writeConfig file => exact fun _ _ _ _ => hm.saveEntry _ _

namespace Host

theorem execute_related {c : Context} {program : Path} {args : List String}
    (hs : Related R (h.spawn ⟨program, args, some c.workingDir, c.env⟩)
      (h'.spawn ⟨program, args, some c.workingDir, c.env⟩)) :
    Related R (h.execute c program args) (h'.execute c program args) := by
  refine hs.bind fun result => ?_
  cases result with
  | error e => exact .pure _
  | ok exit => dsimp only; split <;> exact .pure _

theorem checksum_related {p : Path} (ho : Related R (h.openFile p) (h'.openFile p))
    (expected : Digest.Expected) : Related R (h.checksum p expected) (h'.checksum p expected) := by
  refine ho.bind fun result => ?_
  cases result <;> exact .pure _

theorem checkDepends_related (hr : Runner.Matches R h.runner h'.runner)
    (hd : Option.Rel (Runner.Matches R) h.dependency h'.dependency) :
    Related R h.checkDepends h'.checkDepends := by
  unfold Host.checkDepends
  generalize h.dependency = d at hd ⊢
  generalize h'.dependency = d' at hd ⊢
  cases hd with
  | none => exact ensureInstalled_related hr
  | some hd =>
    refine (ensureInstalled_related hd).bind fun result => ?_
    cases result with
    | ok => exact ensureInstalled_related hr
    | error e => exact .pure _

theorem writeConfig_related {g : Game} {executable : Path}
    (hs : ∀ dir name, executable.parent? = some dir → executable.fileName? = some name →
      Related R (h.saveEntry g.slug ⟨dir, name, g.name, g.runner⟩)
        (h'.saveEntry g.slug ⟨dir, name, g.name, g.runner⟩)) :
    Related R (h.writeConfig g executable) (h'.writeConfig g executable) := by
  unfold Host.writeConfig
  split
  · rename_i dir name hdir hname
    refine (hs dir name hdir hname).bind fun result => ?_
    cases result <;> exact .pure _
  · exact .pure _

end Host

/-- Operations cannot tell hosts apart on which their calls answer alike. -/
theorem Operation.apply_related {c : Context} {g : Game} {o : Operation}
    (ho : o.Matches R h h' c g) : Related R (o.apply h c g) (o.apply h' c g) := by
  cases o with
  | move t => exact Related.map ho _
  | copy t => exact Related.map ho _
  | mkdir p => exact Related.map ho _
  | extract file dst format =>
    simp only [Operation.apply]
    split
    · exact .pure _
    · rename_i f hf
      exact Related.map (ho f hf) _
  | execute file args => exact Host.execute_related ho
  | checksum file expected => exact Host.checksum_related ho expected
  | checkDepends => exact Host.checkDepends_related ho.1 ho.2
  | writeConfig file => exact Host.writeConfig_related ho

/-- The calls that a step makes answer alike on two hosts. -/
def Step.Matches (R : σ → τ → Prop) (h : Host σ) (h' : Host τ) (c : Context) (g : Game)
    (s : Step) : Prop :=
  ∀ o, s.operation = .ok o → o.Matches R h h' c g

/-- Steps cannot tell hosts apart on which their calls answer alike. -/
theorem Step.Matches.execute_related {c : Context} {g : Game} {s : Step}
    (hs : s.Matches R h h' c g) : Related R (s.execute h c g) (s.execute h' c g) := by
  unfold Step.execute
  split
  · exact .pure _
  · rename_i o ho
    exact (Operation.apply_related (hs o ho)).map _

/-- Steps cannot tell matching hosts apart. -/
theorem Step.execute_related (hm : h.Matches R h') (c : Context) (g : Game) (s : Step) :
    Related R (s.execute h c g) (s.execute h' c g) :=
  Step.Matches.execute_related fun o _ => hm.operation c g o

/-! ## Runs -/

/-- Two hosts whose actions answer alike as far as a run for a game calls them. -/
structure Host.MatchesFor (R : σ → τ → Prop) (h : Host σ) (h' : Host τ) (c : Context) (g : Game) :
    Prop where
  operation : ∀ o : Operation, o.Matches R h h' c g
  isCancelled : Related R h.isCancelled h'.isCancelled
  append : ∀ dir e, Related R (h.append dir g.journalName e) (h'.append dir g.journalName e)
  newRunId : Related R h.newRunId h'.newRunId
  clock : Related R h.clock h'.clock

theorem Host.MatchesAll.matchesFor (hm : h.MatchesAll R h') (c : Context) (g : Game) :
    h.MatchesFor R h' c g where
  operation := hm.toMatches.operation c g
  isCancelled := hm.isCancelled
  append dir e := hm.append dir g.journalName e
  newRunId := hm.newRunId
  clock := hm.clock

section Runs

variable {c : Context} {g : Game} (hm : h.MatchesFor R h' c g)

include hm

theorem Host.MatchesFor.log (e : Journal.Event) : Related R (h.log c g e) (h'.log c g e) := by
  unfold Host.log
  split
  · exact .pure ()
  · exact (hm.append _ _).bind fun _ => .pure ()

theorem Step.perform_related (s : Step) : Related R (s.perform h c g) (s.perform h' c g) := by
  refine (hm.log _).bind fun _ => hm.clock.bind fun start => ?_
  have hexecute : Related R (s.execute h c g) (s.execute h' c g) :=
    Step.Matches.execute_related fun o _ => hm.operation o
  refine hexecute.bind fun outcome => ?_
  cases outcome with
  | ok => exact hm.clock.bind fun _ => (hm.log _).bind fun _ => .pure _
  | error e => exact (hm.log _).bind fun _ => .pure _

theorem runSteps_related_of_matches (n : Nat) (errors : Errors) (steps : List Step) :
    Related R (runSteps h c g n errors steps) (runSteps h' c g n errors steps) := by
  induction steps generalizing n errors with
  | nil => exact .pure _
  | cons step rest ih =>
    refine hm.isCancelled.bind fun cancelled => ?_
    cases cancelled with
    | true => exact .pure _
    | false =>
      refine (Step.perform_related hm step).bind fun outcome => ?_
      cases outcome with
      | ok => exact ih _ _
      | error e =>
        dsimp only
        split
        · exact .pure _
        · exact ih _ _

/-- Runs for a game cannot tell hosts apart that match for it. -/
theorem run_related (steps : List Step) (errors : Errors) :
    Related R (run h c g steps errors) (run h' c g steps errors) := by
  refine hm.clock.bind fun start => hm.newRunId.bind fun runId => ?_
  refine (hm.log _).bind fun _ => ?_
  refine (runSteps_related_of_matches hm 0 errors steps).bind fun (result, collected) => ?_
  refine hm.clock.bind fun now => ?_
  dsimp only
  split
  · exact (hm.log _).bind fun _ => .pure _
  · exact .pure _

end Runs

end GameInstaller

/-! ## Recorded calls -/

namespace GameInstaller

variable {σ τ α : Type}

/-- A call of a collaborator. -/
inductive Request where
  | movePath (src dst : Path)
  | copyTree (src dst : Path)
  | createDir (p : Path)
  | extract (archive dst : Path) (format : Archive.Format)
  | openFile (p : Path)
  | isInstalled (runner : String)
  | install (runner : String)
  | saveEntry (id : String) (entry : GameEntry)
  | spawn (l : Launch)
  | append (dir : Path) (game : String) (e : Journal.Event)

/-- An action that leaves the record alone. -/
def unrecorded (x : StateM σ α) : StateM (σ × List Request) α :=
  onPart Prod.fst (fun s p => (s, p.2)) x

/-- An action that is written down. -/
def noted (q : Request) (x : StateM σ α) : StateM (σ × List Request) α := do
  modify fun p => (p.1, p.2 ++ [q])
  unrecorded x

/-- A runner whose calls are written down. -/
def Runner.recorded (r : Runner σ) : Runner (σ × List Request) where
  name := r.name
  isInstalled := noted (.isInstalled r.name) r.isInstalled
  install := noted (.install r.name) r.install

/-- A host whose calls are written down. -/
def Host.recorded (h : Host σ) : Host (σ × List Request) where
  movePath src dst := noted (.movePath src dst) (h.movePath src dst)
  copyTree src dst := noted (.copyTree src dst) (h.copyTree src dst)
  createDir p := noted (.createDir p) (h.createDir p)
  extract archive dst format := noted (.extract archive dst format) (h.extract archive dst format)
  openFile p := noted (.openFile p) (h.openFile p)
  runner := h.runner.recorded
  dependency := h.dependency.map Runner.recorded
  saveEntry id entry := noted (.saveEntry id entry) (h.saveEntry id entry)
  spawn l := noted (.spawn l) (h.spawn l)
  isCancelled := unrecorded h.isCancelled
  append dir game e := noted (.append dir game e) (h.append dir game e)
  newRunId := unrecorded h.newRunId
  clock := unrecorded h.clock

theorem noted_run (q : Request) (x : StateM σ α) (p : σ × List Request) :
    (noted q x).run p = ((x.run p.1).1, ((x.run p.1).2, p.2 ++ [q])) := rfl

/-- States that are related and have related records. -/
def RecordedAlike (K : List Request → List Request → Prop) (R : σ → τ → Prop)
    (p : σ × List Request) (q : τ × List Request) : Prop :=
  R p.1 q.1 ∧ K p.2 q.2

section Alike

variable {K : List Request → List Request → Prop} {R : σ → τ → Prop}
  (hK : ∀ {a b : List Request} (q : Request), K a b → K (a ++ [q]) (b ++ [q]))

include hK

theorem noted_related {x : StateM σ α} {y : StateM τ α} (hx : Related R x y) (q : Request) :
    Related (RecordedAlike K R) (noted q x) (noted q y) := by
  rintro p p' ⟨hR, hcalls⟩
  obtain ⟨ha, hR'⟩ := hx p.1 p'.1 hR
  rw [noted_run, noted_run]
  exact ⟨ha, hR', hK q hcalls⟩

theorem Runner.recorded_matches {r : Runner σ} {r' : Runner τ} (hr : r.Matches R r') :
    r.recorded.Matches (RecordedAlike K R) r'.recorded where
  name := hr.name
  isInstalled := by
    simp only [Runner.recorded, hr.name]
    exact noted_related hK hr.isInstalled _
  install := by
    simp only [Runner.recorded, hr.name]
    exact noted_related hK hr.install _

theorem Runner.recorded_rel {d : Option (Runner σ)} {d' : Option (Runner τ)}
    (hd : Option.Rel (Runner.Matches R) d d') :
    Option.Rel (Runner.Matches (RecordedAlike K R)) (d.map Runner.recorded)
      (d'.map Runner.recorded) := by
  cases hd with
  | none => exact .none
  | some hd => exact .some (Runner.recorded_matches hK hd)

/-- Hosts that answer alike are asked for the same calls. -/
theorem Host.recorded_matches {h : Host σ} {h' : Host τ} (hm : h.Matches R h') :
    h.recorded.Matches (RecordedAlike K R) h'.recorded where
  movePath src dst := noted_related hK (hm.movePath src dst) _
  copyTree src dst := noted_related hK (hm.copyTree src dst) _
  createDir p := noted_related hK (hm.createDir p) _
  extract archive dst format := noted_related hK (hm.extract archive dst format) _
  openFile p := noted_related hK (hm.openFile p) _
  runner := Runner.recorded_matches hK hm.runner
  dependency := Runner.recorded_rel hK hm.dependency
  saveEntry id entry := noted_related hK (hm.saveEntry id entry) _
  spawn l := noted_related hK (hm.spawn l) _

/-- An operation whose calls answer alike asks for the same calls. -/
theorem Operation.Matches.recorded {h : Host σ} {h' : Host τ} {c : Context} {g : Game}
    {o : Operation} (ho : o.Matches R h h' c g) :
    o.Matches (RecordedAlike K R) h.recorded h'.recorded c g := by
  cases o with
  | move t | copy t | mkdir p | execute file args | checksum file expected =>
    exact noted_related hK ho _
  | extract file dst format => exact fun f hf => noted_related hK (ho f hf) _
  | checkDepends => exact ⟨Runner.recorded_matches hK ho.1, Runner.recorded_rel hK ho.2⟩
  | writeConfig file => exact fun dir name hdir hname => noted_related hK (ho dir name hdir hname) _

end Alike

/-! ## Recording does not disturb -/

/-- A state with its record, and the state. -/
def Recorded (p : σ × List Request) (s : σ) : Prop := p.1 = s

theorem unrecorded_related (x : StateM σ α) : Related Recorded (unrecorded x) x := by
  rintro p s rfl
  exact ⟨rfl, rfl⟩

theorem noted_related_self (q : Request) (x : StateM σ α) : Related Recorded (noted q x) x := by
  rintro p s rfl
  exact ⟨rfl, rfl⟩

theorem Runner.recorded_matches_self (r : Runner σ) : r.recorded.Matches Recorded r where
  name := rfl
  isInstalled := noted_related_self _ _
  install := noted_related_self _ _

/-- A host answers the same when its calls are written down. -/
theorem Host.recorded_matches_self (h : Host σ) : h.recorded.MatchesAll Recorded h where
  movePath _ _ := noted_related_self _ _
  copyTree _ _ := noted_related_self _ _
  createDir _ := noted_related_self _ _
  extract _ _ _ := noted_related_self _ _
  openFile _ := noted_related_self _ _
  runner := h.runner.recorded_matches_self
  dependency := by
    simp only [Host.recorded]
    cases h.dependency with
    | none => exact .none
    | some d => exact .some d.recorded_matches_self
  saveEntry _ _ := noted_related_self _ _
  spawn _ := noted_related_self _ _
  isCancelled := unrecorded_related _
  append _ _ _ := noted_related_self _ _
  newRunId := unrecorded_related _
  clock := unrecorded_related _

/-- A run does the same when its calls are written down. -/
theorem run_recorded (h : Host σ) (c : Context) (g : Game) (steps : List Step) (errors : Errors)
    (p : σ × List Request) :
    ((run h.recorded c g steps errors).run p).1 = ((run h c g steps errors).run p.1).1 ∧
      ((run h.recorded c g steps errors).run p).2.1 = ((run h c g steps errors).run p.1).2 :=
  run_related (h.recorded_matches_self.matchesFor c g) steps errors p p.1 rfl

end GameInstaller
