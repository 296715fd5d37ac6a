import GameInstaller.Cli.Run
import GameInstaller.Proofs.Disk.Contents
import GameInstaller.Proofs.Install.Sessions

/-!
# What an install request does

An install request first reads its settings and its recipe, and ends there when something is wrong
with them.  Then it makes directories, and only then it runs the recipe; what it reports hangs on how
the run ended.

* `Job.outcome`  what a request gives on a machine, and the machine after it
* `Reads`        a request that changes nothing
* `InstallCall`  a call of `install` with its options
* `Starts`       a call comes to run its recipe
* `Refused`      something is wrong with the settings or the recipe of a call
* `Passes`       nothing is, and the recipe is installed
* `Ended`        the ways in which a call ends

## Key results

- `refused_or_passes`: every call is refused, and does nothing, or it passes
- `install_ended`: every call ends in one of these ways
-/

namespace GameInstaller.Cli

/-! ## Outcomes -/

namespace Job

variable {α β ε : Type} {m m' : Machine}

/-- What a request gives on a machine, and the machine after it. -/
def outcome (x : Job α) (m : Machine) : Except Report α × Machine := (ExceptT.run x).run m

@[simp] theorem outcome_pure (a : α) (m : Machine) :
    (pure a : Job α).outcome m = (.ok a, m) := rfl

@[simp] theorem outcome_throw (r : Report) (m : Machine) :
    (throw r : Job α).outcome m = (.error r, m) := rfl

@[simp] theorem outcome_get (m : Machine) : (get : Job Machine).outcome m = (.ok m, m) := rfl

@[simp] theorem outcome_lift (x : StateM Machine α) (m : Machine) :
    (liftM x : Job α).outcome m = (.ok (x.run m).1, (x.run m).2) := rfl

theorem outcome_bind_of_ok {x : Job α} {f : α → Job β} {a : α} (hx : x.outcome m = (.ok a, m')) :
    (x >>= f).outcome m = (f a).outcome m' := by
  have hx' : (ExceptT.run x).run m = (.ok a, m') := hx
  simp only [outcome, ExceptT.run_bind, StateT.run_bind, hx']
  rfl

theorem outcome_bind_of_error {x : Job α} {f : α → Job β} {r : Report}
    (hx : x.outcome m = (.error r, m')) : (x >>= f).outcome m = (.error r, m') := by
  have hx' : (ExceptT.run x).run m = (.error r, m') := hx
  simp only [outcome, ExceptT.run_bind, StateT.run_bind, hx']
  rfl

/-- A call on the disk of the machine, whose failure is reported. -/
theorem outcome_ofCall (message : ε → String) (x : Disk.Call ε α) (m : Machine) :
    (ofCall message x).outcome m =
      ((Disk.outcome x m.disk).1.mapError fun e => .failed [] (message e),
        { m with disk := (Disk.outcome x m.disk).2 }) := by
  have hcall : (Machine.call x).run m =
      ((Disk.outcome x m.disk).1, { m with disk := (Disk.outcome x m.disk).2 }) := rfl
  have hlift : (liftM (Machine.call x) : Job (Except ε α)).outcome m =
      (.ok (Disk.outcome x m.disk).1, { m with disk := (Disk.outcome x m.disk).2 }) := by
    rw [outcome_lift, hcall]
  unfold ofCall
  rw [outcome_bind_of_ok hlift]
  cases (Disk.outcome x m.disk).1 <;> rfl

theorem outcome_withNotices_of_ok {notices : List String} {x : Job Report} {r : Report}
    (hx : x.outcome m = (.ok r, m')) :
    (withNotices notices x).outcome m = (.ok { r with notices }, m') := by
  have hx' : (ExceptT.run x).run m = (.ok r, m') := hx
  simp only [outcome, withNotices, ExceptT.run_mk, StateT.run_bind, hx']
  rfl

theorem outcome_withNotices_of_error {notices : List String} {x : Job Report} {r : Report}
    (hx : x.outcome m = (.error r, m')) :
    (withNotices notices x).outcome m = (.error { r with notices }, m') := by
  have hx' : (ExceptT.run x).run m = (.error r, m') := hx
  simp only [outcome, withNotices, ExceptT.run_mk, StateT.run_bind, hx']
  rfl

/-- A request that changes nothing on any machine. -/
def Reads (x : Job α) : Prop := ∀ m, (x.outcome m).2 = m

theorem reads_ofCall {message : ε → String} {x : Disk.Call ε α} (hx : Disk.Quiet x) :
    Reads (ofCall message x) := by
  intro m
  rw [outcome_ofCall, hx m.disk]

theorem Reads.bind {x : Job α} {f : α → Job β} (hx : Reads x) (hf : ∀ a, Reads (f a)) :
    Reads (x >>= f) := by
  intro m
  have hm := hx m
  rcases h : x.outcome m with ⟨r | a, m'⟩
  · rw [h] at hm
    rw [outcome_bind_of_error h]
    exact hm
  · rw [h] at hm
    obtain rfl : m' = m := hm
    rw [outcome_bind_of_ok h, hf]

theorem Reads.outcome_eq {x : Job α} (hx : Reads x) {a : Except Report α}
    (h : (x.outcome m).1 = a) : x.outcome m = (a, m) :=
  Prod.ext h (hx m)

/-- What follows a request that changes nothing starts from the same machine. -/
theorem Reads.cases {x : Job α} (hx : Reads x) (m : Machine) :
    (∃ r, x.outcome m = (.error r, m)) ∨ ∃ a, x.outcome m = (.ok a, m) := by
  have hm := hx m
  rcases h : x.outcome m with ⟨r | a, m'⟩
  · rw [h] at hm
    obtain rfl : m' = m := hm
    exact .inl ⟨r, rfl⟩
  · rw [h] at hm
    obtain rfl : m' = m := hm
    exact .inr ⟨a, rfl⟩

end Job

open Job

/-! ## Settings and recipes -/

theorem reads_loadSettings (p : Option Path) : Reads (loadSettings p) := by
  have hload (env : Environment) (p : Path) : Disk.Quiet (Settings.load env p) := by
    refine (Disk.readText_quiet p).attempt.bind fun text => ?_
    split
    · exact .throw _
    split
    · exact .throw _
    split
    · exact .pure _
    · exact .throw _
  refine Reads.bind (fun _ => rfl) fun m => ?_
  cases p with
  | some p => exact reads_ofCall (hload _ p)
  | none =>
    refine reads_ofCall (Disk.Quiet.get.bind fun d => ?_)
    split
    · exact hload _ _
    · exact .pure _

theorem reads_openRecipe (p : Path) : Reads (openRecipe p) := by
  refine (reads_ofCall ((Disk.readText_quiet p).attempt.bind fun text => ?_)).bind fun _ _ => rfl
  split
  · exact .throw _
  split
  · exact .pure _
  · exact .throw _

/-- Settings that were loaded from a file are those that its text gives. -/
theorem load_ok {env : Environment} {p : Path} {settings : Settings} {d : Disk}
    (h : (Disk.outcome (Settings.load env p) d).1 = .ok settings) :
    ∃ text, (Disk.outcome (Disk.readText p) d).1 = .ok text ∧
      Settings.ofToml? (.default env) text = some settings := by
  unfold Settings.load at h
  rw [Disk.outcome_bind_of_ok (Disk.outcome_attempt _ _)] at h
  generalize (Disk.outcome (Disk.readText p) d).1 = read at h ⊢
  cases read with
  | error e => cases h
  | ok text =>
    refine ⟨text, rfl, ?_⟩
    dsimp only at h
    cases hsettings : Settings.ofToml? (.default env) text with
    | none =>
      rw [hsettings] at h
      cases h
    | some s =>
      rw [hsettings] at h
      dsimp only at h
      cases hvalid : s.validate with
      | error e =>
        rw [hvalid] at h
        cases h
      | ok u =>
        rw [hvalid] at h
        cases h
        rfl

theorem loadSettings_ok {p : Path} {settings : Settings} {m m' : Machine}
    (h : (loadSettings (some p)).outcome m = (.ok settings, m')) :
    ∃ text, (Disk.outcome (Disk.readText p) m.disk).1 = .ok text ∧
      Settings.ofToml? (.default m.environ) text = some settings := by
  unfold loadSettings at h
  rw [outcome_bind_of_ok (outcome_get m), outcome_ofCall] at h
  obtain ⟨hloaded, -⟩ := Prod.mk.inj h
  exact load_ok (mapError_eq_ok.mp hloaded)

/-- A session that was opened has no errors yet, and the recipe that the text of its file gives. -/
theorem openRecipe_ok {p : Path} {s : Session} {m m' : Machine}
    (h : (openRecipe p).outcome m = (.ok s, m')) :
    s = .start s.recipe ∧ ∃ text, (Disk.outcome (Disk.readText p) m.disk).1 = .ok text ∧
      Recipe.ofText text = .ok s.recipe := by
  unfold openRecipe at h
  rcases hr : (ofCall RecipeError.message (Recipe.ofFile p)).outcome m with ⟨e | r, m₁⟩
  · rw [outcome_bind_of_error hr] at h
    cases h
  rw [outcome_bind_of_ok hr] at h
  cases h
  refine ⟨rfl, ?_⟩
  rw [outcome_ofCall] at hr
  obtain ⟨hread, -⟩ := Prod.mk.inj hr
  rw [mapError_eq_ok] at hread
  unfold Recipe.ofFile at hread
  rw [Disk.outcome_bind_of_ok (Disk.outcome_attempt _ _)] at hread
  generalize (Disk.outcome (Disk.readText p) m.disk).1 = read at hread ⊢
  cases read with
  | error e => cases hread
  | ok text =>
    refine ⟨text, rfl, ?_⟩
    dsimp only at hread
    cases hrecipe : Recipe.ofText text with
    | error e =>
      rw [hrecipe] at hread
      cases hread
    | ok r' =>
      rw [hrecipe] at hread
      cases hread
      rfl

/-! ## Directories -/

theorem makeDirectory_cases (p : Path) (m : Machine) :
    ∃ d, Disk.AddsDirs m.disk d ∧
      ((∃ r, (makeDirectory p).outcome m = (.error r, { m with disk := d })) ∨
        (makeDirectory p).outcome m = (.ok (), { m with disk := d })) := by
  refine ⟨_, Disk.createDirAll_addsDirs p m.disk, ?_⟩
  unfold makeDirectory
  rw [outcome_ofCall]
  cases (Disk.outcome (Disk.createDirAll p) m.disk).1 with
  | error e => exact .inl ⟨_, rfl⟩
  | ok u => exact .inr rfl

/-! ## Calls -/

/-- A call of `install` with its options. -/
structure InstallCall where
  recipe : Path
  settings : Option Path
  gameDir : Option Path
  journal : Bool

/-- What a call does. -/
def InstallCall.job (c : InstallCall) : Job Report :=
  install c.recipe c.settings c.gameDir c.journal

/-- A call on the machine `m` comes to run the recipe `r`, from the machine `m₁`: its settings and
    its recipe were read, the recipe is valid, and the directories of the game were made. -/
structure Starts (c : InstallCall) (m : Machine) (place : Place) (r : Recipe) (m₁ : Machine) :
    Prop where
  loaded : (loadSettings c.settings).outcome m = (.ok place.settings, m)
  opened : (openRecipe c.recipe).outcome m = (.ok (.start r), m)
  valid : r.findings = []
  ofGame : Place.ofGame place.settings c.gameDir c.journal r.game = .ok place
  made : ∃ m', (makeDirectory place.gameDir).outcome m = (.ok (), m') ∧
    (makeDirectory place.cacheDir).outcome m' = (.ok (), m₁)

/-- Before a recipe is run, directories are made and nothing else is done. -/
theorem Starts.addsDirs {c : InstallCall} {m m₁ : Machine} {place : Place} {r : Recipe}
    (h : Starts c m place r m₁) : Disk.AddsDirs m.disk m₁.disk := by
  have hmade {p : Path} {m m' : Machine} (h : (makeDirectory p).outcome m = (.ok (), m')) :
      Disk.AddsDirs m.disk m'.disk := by
    have hdirs := Disk.createDirAll_addsDirs p m.disk
    rw [makeDirectory, outcome_ofCall] at h
    obtain ⟨-, rfl⟩ := Prod.mk.inj h
    exact hdirs
  obtain ⟨m', hgame, hcache⟩ := h.made
  exact (hmade hgame).trans (hmade hcache)

/-- The context in which a recipe is run on a machine. -/
def Place.contextOn (p : Place) (m : Machine) : Context := p.context (m.environ.get? "HOME")

/-- An attempt to install a recipe on a machine: how it ends, and the machine after it. -/
def Place.attempt (p : Place) (r : Recipe) (m : Machine) : (RunResult × Session) × Machine :=
  ((Session.start r).install (p.host r.game) (p.contextOn m)).run m

/-- Where an install goes: into the directory that was asked for, or that of the slug among the games
    of the settings. -/
theorem ofGame_ok {settings : Settings} {gameDir : Option Path} {journal : Bool} {game : Game}
    {place : Place} (h : Place.ofGame settings gameDir journal game = .ok place) :
    place.settings = settings ∧ place.gameDir = gameDir.getD (settings.gamesDir.child game.slug) := by
  unfold Place.ofGame Settings.gameDir Settings.gameCache Settings.slugDir at h
  cases hslug : isSlug game.slug with
  | false =>
    rw [hslug] at h
    cases gameDir <;> cases h
  | true =>
    rw [hslug] at h
    cases gameDir <;> cases h <;> exact ⟨rfl, rfl⟩

/-! ## What is checked before a call does anything -/

/-- Something is wrong with the settings or the recipe of a call on the machine `m`. -/
inductive Refused (c : InstallCall) (m : Machine) : Report → Prop
  | settings {report : Report} (unread : ((loadSettings c.settings).outcome m).1 = .error report) :
      Refused c m report
  | recipe {settings : Settings} {report : Report}
      (loaded : ((loadSettings c.settings).outcome m).1 = .ok settings)
      (unread : ((openRecipe c.recipe).outcome m).1 = .error report) : Refused c m report
  | invalid {settings : Settings} {r : Recipe}
      (loaded : ((loadSettings c.settings).outcome m).1 = .ok settings)
      (opened : ((openRecipe c.recipe).outcome m).1 = .ok (.start r)) (invalid : r.findings ≠ []) :
      Refused c m (rejected ⟨r, r.findings⟩)
  | unplaced {settings : Settings} {r : Recipe} {e : SettingsError}
      (loaded : ((loadSettings c.settings).outcome m).1 = .ok settings)
      (opened : ((openRecipe c.recipe).outcome m).1 = .ok (.start r)) (valid : r.findings = [])
      (ofGame : Place.ofGame settings c.gameDir c.journal r.game = .error e) :
      Refused c m (.failed [] e.message)

/-- A call on the machine `m` has settings and a valid recipe, so it is known where it goes. -/
structure Passes (c : InstallCall) (m : Machine) (place : Place) (r : Recipe) : Prop where
  loaded : (loadSettings c.settings).outcome m = (.ok place.settings, m)
  opened : (openRecipe c.recipe).outcome m = (.ok (.start r), m)
  valid : r.findings = []
  ofGame : Place.ofGame place.settings c.gameDir c.journal r.game = .ok place

theorem Starts.passes {c : InstallCall} {m m₁ : Machine} {place : Place} {r : Recipe}
    (h : Starts c m place r m₁) : Passes c m place r :=
  ⟨h.loaded, h.opened, h.valid, h.ofGame⟩

/-- Install a recipe where it goes: make its directories, run it and report on that. -/
def Place.carryOut (p : Place) (r : Recipe) : Job Report := do
  makeDirectory p.gameDir
  makeDirectory p.cacheDir
  let context := p.context ((← get).environ.get? "HOME")
  let (result, s) ← (Session.start r).install (p.host r.game) context
  conclude p r.game s result

/-- With settings and a recipe, what a call does hangs on what is wrong with the recipe. -/
theorem outcome_job_of_opened {c : InstallCall} {m : Machine} {settings : Settings} {r : Recipe}
    (loaded : ((loadSettings c.settings).outcome m).1 = .ok settings)
    (opened : ((openRecipe c.recipe).outcome m).1 = .ok (.start r)) :
    c.job.outcome m =
      if r.findings = [] then
        (ofExcept SettingsError.message (Place.ofGame settings c.gameDir c.journal r.game) >>=
          fun place => place.carryOut r).outcome m
      else (.error (rejected ⟨r, r.findings⟩), m) := by
  unfold InstallCall.job install
  rw [outcome_bind_of_ok ((reads_loadSettings _).outcome_eq loaded),
    outcome_bind_of_ok ((reads_openRecipe _).outcome_eq opened), Session.validate_run]
  have hrecipe : (Session.start r).recipe = r := rfl
  rw [hrecipe]
  dsimp only
  by_cases hf : r.findings = []
  · rw [r.validate_isValid.mpr hf, if_pos hf]
    rfl
  · have hinvalid : r.validate.isValid = false := by simpa using mt r.validate_isValid.mp hf
    rw [hinvalid, if_neg hf]
    rfl

/-- A call that is refused does nothing. -/
theorem Refused.outcome_job {c : InstallCall} {m : Machine} {report : Report}
    (h : Refused c m report) : c.job.outcome m = (.error report, m) := by
  cases h with
  | settings unread => exact outcome_bind_of_error ((reads_loadSettings _).outcome_eq unread)
  | recipe loaded unread =>
    exact (outcome_bind_of_ok ((reads_loadSettings _).outcome_eq loaded)).trans
      (outcome_bind_of_error ((reads_openRecipe _).outcome_eq unread))
  | invalid loaded opened invalid => rw [outcome_job_of_opened loaded opened, if_neg invalid]
  | unplaced loaded opened valid ofGame =>
    rw [outcome_job_of_opened loaded opened, if_pos valid, ofGame]
    rfl

/-- A call that passes installs its recipe. -/
theorem Passes.outcome_job {c : InstallCall} {m : Machine} {place : Place} {r : Recipe}
    (h : Passes c m place r) : c.job.outcome m = (place.carryOut r).outcome m := by
  have loaded := congrArg Prod.fst h.loaded
  have opened := congrArg Prod.fst h.opened
  rw [outcome_job_of_opened loaded opened, if_pos h.valid, h.ofGame]
  rfl

/-- Every call is refused or passes. -/
theorem refused_or_passes (c : InstallCall) (m : Machine) :
    (∃ report, Refused c m report) ∨ ∃ place r, Passes c m place r := by
  cases loaded : ((loadSettings c.settings).outcome m).1 with
  | error report => exact .inl ⟨report, .settings loaded⟩
  | ok settings =>
  cases opened : ((openRecipe c.recipe).outcome m).1 with
  | error report => exact .inl ⟨report, .recipe loaded opened⟩
  | ok s =>
  have hopened := (reads_openRecipe c.recipe).outcome_eq opened
  obtain ⟨hstart, -⟩ := openRecipe_ok hopened
  rw [hstart] at opened hopened
  by_cases hf : s.recipe.findings = []
  · cases hp : Place.ofGame settings c.gameDir c.journal s.recipe.game with
    | error e => exact .inl ⟨_, .unplaced loaded opened hf hp⟩
    | ok place =>
      obtain ⟨rfl, -⟩ := ofGame_ok hp
      have hloaded := (reads_loadSettings c.settings).outcome_eq loaded
      exact .inr ⟨place, s.recipe, hloaded, hopened, hf, hp⟩
  · exact .inl ⟨_, .invalid loaded opened hf⟩

/-! ## How a call ends -/

/-- The ways in which a call on the machine `m` ends. -/
inductive Ended (c : InstallCall) (m : Machine) : Except Report Report × Machine → Prop
  /-- Something is wrong with the settings or the recipe, and nothing was done. -/
  | refused (report : Report) : Ended c m (.error report, m)
  /-- The directories of the game were not made, or not all of them. -/
  | unprepared (report : Report) {d : Disk} (made : Disk.AddsDirs m.disk d) :
      Ended c m (.error report, { m with disk := d })
  /-- The recipe was run. -/
  | ran {place : Place} {r : Recipe} {m₁ : Machine} (starts : Starts c m place r m₁) :
      Ended c m ((conclude place r.game (place.attempt r m₁).1.2
        (place.attempt r m₁).1.1).outcome (place.attempt r m₁).2)

/-- Every call ends in one of these ways. -/
theorem install_ended (c : InstallCall) (m : Machine) : Ended c m (c.job.outcome m) := by
  obtain ⟨report, hrefused⟩ | ⟨place, r, hpasses⟩ := refused_or_passes c m
  · rw [hrefused.outcome_job]
    exact .refused report
  rw [hpasses.outcome_job, Place.carryOut]
  obtain ⟨d, hd, ⟨report, hmade⟩ | hmade⟩ := makeDirectory_cases place.gameDir m
  · rw [outcome_bind_of_error hmade]
    exact .unprepared report hd
  rw [outcome_bind_of_ok hmade]
  obtain ⟨d', hd', ⟨report, hmade'⟩ | hmade'⟩ :=
    makeDirectory_cases place.cacheDir { m with disk := d }
  · rw [outcome_bind_of_error hmade']
    exact .unprepared report (hd.trans hd')
  rw [outcome_bind_of_ok hmade', outcome_bind_of_ok (outcome_get _),
    outcome_bind_of_ok (outcome_lift _ _)]
  exact .ran ⟨hpasses.loaded, hpasses.opened, hpasses.valid, hpasses.ofGame, _, hmade, hmade'⟩

/-- A call whose recipe cannot be read does nothing. -/
theorem outcome_job_of_unread {c : InstallCall} {m : Machine}
    (h : ∀ s, (openRecipe c.recipe).outcome m ≠ (.ok s, m)) : (c.job.outcome m).2 = m := by
  obtain ⟨report, hrefused⟩ | ⟨place, r, hpasses⟩ := refused_or_passes c m
  · rw [hrefused.outcome_job]
  · exact absurd hpasses.opened (h _)

end GameInstaller.Cli
