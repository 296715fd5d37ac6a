import GameInstaller.Proofs.Config.Files
import GameInstaller.Proofs.Install.Checking
import GameInstaller.Proofs.Install.Verification
import GameInstaller.Proofs.Install.Views
import GameInstaller.Proofs.Text
import GameInstaller.Settings

/-!
# Valid recipes

What a valid recipe is, said of its metadata and steps; what is reported of any other recipe; and
what the slug of a valid recipe may be used for.  The settings, the journal and the store each check
slugs on their own, and each accepts the slug of a valid recipe.

* `Recipe.Has`          the metadata has a text under a key
* `Recipe.Reports`      the errors of the metadata
* `Host.AgreesOnSlugs`  two hosts that differ in what they do with names that are no slugs only

## Key results

- `validate_eq_valid_iff`: what a valid recipe is
- `metadataErrors_reports`: the errors of the metadata
- `install_eq_of_agreesOnSlugs`: no install uses names that are no slugs
- `validate_account`: all of these together, with the uses of a slug
- `valid_slug_too_long`: a slug may be valid and still be too long for a file
-/

namespace GameInstaller

open Yaml (Value)

variable {σ : Type}

/-! ## Metadata -/

/-- The text of a scalar. -/
inductive Yaml.Value.HasText : Value → String → Prop where
  | string (s : String) : HasText (.string s) s
  | number (n : Decimal.Number) : HasText (.number n) (Yaml.numberText n)
  | bool (b : Bool) : HasText (.bool b) (Yaml.boolText b)

namespace Recipe

/-- The metadata has a scalar under the key, whose text is not blank. -/
def Has (r : Recipe) (key text : String) : Prop :=
  ∃ v, r.get? key = some v ∧ v.HasText text ∧ Text.trim text ≠ ""

/-- The fields that a recipe must have are absent. -/
def Lacks (r : Recipe) (missing : List String) : Prop :=
  missing.Sublist ["runner", "name", "game_slug"] ∧
    ∀ key ∈ ["runner", "name", "game_slug"], key ∈ missing ↔ ∀ text, ¬ r.Has key text

/-- The errors of a slug: none if there is no slug, or if it is one. -/
inductive SlugErrors (r : Recipe) : List ValidationError → Prop where
  | absent (h : ∀ text, ¬ r.Has "game_slug" text) : SlugErrors r []
  | slug {text : String} (h : r.Has "game_slug" text) (hs : isSlug text = true) : SlugErrors r []
  | noSlug {text : String} (h : r.Has "game_slug" text) (hs : isSlug text = false) :
      SlugErrors r [.invalidSlug text]

/-- The errors of the metadata: one for each field that is absent, in the order in which fields are
    required, and then those of the slug. -/
def Reports (r : Recipe) (errors : List ValidationError) : Prop :=
  ∃ missing slugErrors, errors = missing.map .missingField ++ slugErrors ∧ r.Lacks missing ∧
    r.SlugErrors slugErrors

variable {r : Recipe} {key text : String}

theorem notBlank_eq_some_iff {s : String} :
    field.notBlank s = some text ↔ s = text ∧ Text.trim text ≠ "" := by
  rw [field.notBlank, Ne, ← Text.allBlank_iff]
  split
  · rename_i hblank
    refine iff_of_false nofun ?_
    rintro ⟨rfl, hno⟩
    exact hno hblank
  · rename_i hblank
    rw [Option.some.injEq]
    exact ⟨fun h => ⟨h, h ▸ hblank⟩, And.left⟩

theorem field_eq_some_iff : r.field key = some text ↔ r.Has key text := by
  unfold field Has
  cases r.get? key with
  | none => simp
  | some v =>
    simp only [Option.some.injEq, exists_eq_left']
    cases v with
    | string | number | bool =>
      rw [notBlank_eq_some_iff]
      constructor
      · rintro ⟨rfl, hblank⟩
        exact ⟨by constructor, hblank⟩
      · rintro ⟨⟨⟩, hblank⟩
        exact ⟨rfl, hblank⟩
    | _ =>
      refine iff_of_false (by rintro ⟨⟩) ?_
      rintro ⟨⟨⟩, -⟩

theorem field_eq_none_iff : r.field key = none ↔ ∀ text, ¬ r.Has key text := by
  simp only [← field_eq_some_iff, Option.eq_none_iff_forall_ne_some, Ne]

/-- No two texts stand under one key. -/
theorem Has.unique {other : String} (h : r.Has key text) (h' : r.Has key other) : text = other := by
  rw [← field_eq_some_iff] at h h'
  exact Option.some.inj (h.symm.trans h')

theorem missingFields_eq (r : Recipe) :
    ∃ missing, r.missingFields = missing.map .missingField ∧ r.Lacks missing := by
  refine ⟨requiredFields.filter fun f => (r.field f).isNone, rfl, List.filter_sublist, ?_⟩
  intro key hkey
  have hrequired : key ∈ requiredFields := hkey
  simp [List.mem_filter, hrequired, field_eq_none_iff]

theorem metadataErrors_reports (r : Recipe) : r.Reports r.metadataErrors := by
  obtain ⟨missing, hmissing, hlacks⟩ := r.missingFields_eq
  unfold metadataErrors
  rw [hmissing]
  refine ⟨missing, _, rfl, hlacks, ?_⟩
  split
  · rename_i slug hslug
    have hhas := field_eq_some_iff.mp hslug
    cases hok : isSlug slug with
    | true => exact .slug hhas hok
    | false => exact .noSlug hhas hok
  · exact .absent (field_eq_none_iff.mp ‹_›)

/-- Nothing is wrong with the metadata when all required fields are there and the slug is one. -/
theorem metadataErrors_eq_nil_iff :
    r.metadataErrors = [] ↔ (∃ runner, r.Has "runner" runner) ∧ (∃ name, r.Has "name" name) ∧
      ∃ slug, r.Has "game_slug" slug ∧ isSlug slug = true := by
  obtain ⟨missing, slugErrors, heq, ⟨hsub, hmissing⟩, hslug⟩ := r.metadataErrors_reports
  rw [heq, List.append_eq_nil_iff, List.map_eq_nil_iff]
  constructor
  · rintro ⟨rfl, rfl⟩
    have hthere (key : String) (hkey : key ∈ ["runner", "name", "game_slug"]) :
        ∃ text, r.Has key text := by simpa using (hmissing key hkey).not
    refine ⟨hthere _ (by simp), hthere _ (by simp), ?_⟩
    cases hslug with
    | absent hno => exact absurd (hthere "game_slug" (by simp)) (by simpa using hno)
    | slug h hs => exact ⟨_, h, hs⟩
  · rintro ⟨⟨runner, hrunner⟩, ⟨name, hname⟩, slug, hgame, hok⟩
    constructor
    · -- A field that is missing would be one of the three that are there.
      refine List.eq_nil_iff_forall_not_mem.mpr fun key hkey => ?_
      have hrequired := hsub.subset hkey
      have hno := (hmissing key hrequired).mp hkey
      simp only [List.mem_cons, List.not_mem_nil, or_false] at hrequired
      rcases hrequired with rfl | rfl | rfl
      · exact hno runner hrunner
      · exact hno name hname
      · exact hno slug hgame
    · cases hslug with
      | absent | slug => rfl
      | noSlug h hs => simp [← hgame.unique h, hok] at hs

end Recipe

/-! ## Steps -/

theorem Command.ofName?_eq_some_iff {name : String} {c : Command} :
    Command.ofName? name = some c ↔ name = c.name := by
  constructor
  · intro h
    unfold Command.ofName? at h
    have hname := List.find?_some h
    exact (beq_iff_eq.mp hname).symm
  · rintro rfl
    cases c <;> decide

/-- A step fits when its command is not in the table, or takes its parameters. -/
theorem Step.fits_iff {s : Step} :
    s.Fits ↔ ∀ c : Command, s.command = c.name → ∃ o, c.bind s.params = .ok o := by
  have hoperation {c : Command} (hc : Command.ofName? s.command = some c) {o : Operation} :
      s.operation = .ok o ↔ c.bind s.params = .ok o := by
    rw [operation_of_name hc, mapError_eq_ok, Command.operation, mapError_eq_ok]
  constructor
  · intro h c hc
    rw [← Command.ofName?_eq_some_iff] at hc
    obtain ⟨o, ho⟩ := h (Option.isSome_iff_exists.mpr ⟨c, hc⟩)
    exact ⟨o, (hoperation hc).mp ho⟩
  · intro h hknown
    obtain ⟨c, hc⟩ := Option.isSome_iff_exists.mp hknown
    obtain ⟨o, ho⟩ := h c (Command.ofName?_eq_some_iff.mp hc)
    exact ⟨o, (hoperation hc).mpr ho⟩

/-! ## Validation -/

namespace Recipe

variable {r : Recipe}

theorem validate_eq_aborted_iff {e : ScriptingError} :
    r.validate = .aborted e ↔ checkSteps r.steps = .error e := by
  unfold validate
  cases checkSteps r.steps with
  | error e' => simp
  | ok u =>
    dsimp only
    split <;> simp

theorem validate_eq_invalid_iff {errors : List ValidationError} :
    r.validate = .invalid errors ↔ r.check = .ok errors ∧ errors ≠ [] := by
  unfold validate check
  cases checkSteps r.steps with
  | error e => simp [Except.map]
  | ok u =>
    by_cases hno : r.metadataErrors = []
    · simp [hno, Except.map, eq_comm]
    · simp [hno, Except.map]
      grind

/-- A recipe is valid when its required fields are there, its slug is one, and its steps fit. -/
theorem validate_eq_valid_iff :
    r.validate = .valid ↔ r.metadataErrors = [] ∧ ∀ s ∈ r.steps, s.Fits := by
  rw [← checkSteps_eq_ok_iff]
  unfold validate
  cases checkSteps r.steps with
  | error e => simp
  | ok u => by_cases hno : r.metadataErrors = [] <;> simp [hno]

/-- The game of a valid recipe has the slug of the metadata. -/
theorem game_of_valid (h : r.validate = .valid) :
    r.Has "game_slug" r.game.slug ∧ isSlug r.game.slug = true := by
  obtain ⟨hno, -⟩ := validate_eq_valid_iff.mp h
  obtain ⟨-, -, slug, hslug, hok⟩ := metadataErrors_eq_nil_iff.mp hno
  rw [game, gameSlug, field_eq_some_iff.mpr hslug]
  exact ⟨hslug, hok⟩

end Recipe

/-! ## Uses of a slug -/

theorem Settings.slugDir_eq_ok {slug : String} (hslug : isSlug slug = true) (dir : Path) :
    Settings.slugDir dir slug = .ok (dir.child slug) :=
  if_pos hslug

/-- A game with a slug keeps its journal under it. -/
theorem Game.journalName_eq {g : Game} (hg : isSlug g.slug = true) : g.journalName = g.slug := by
  have hne : g.slug.isEmpty = false := by
    cases hempty : g.slug.isEmpty with
    | false => rfl
    | true =>
      rw [String.isEmpty_iff.mp hempty] at hg
      exact absurd hg (by decide)
  simp [journalName, hne]

/-- Two hosts that differ only in what they do with names that are no slugs. -/
structure Host.AgreesOnSlugs (h h' : Host σ) : Prop where
  otherwise : h' = { h with saveEntry := h'.saveEntry, append := h'.append }
  saveEntry : ∀ id entry, isSlug id = true → h.saveEntry id entry = h'.saveEntry id entry
  append : ∀ dir game e, isSlug game = true → h.append dir game e = h'.append dir game e

section Names

variable {h h' : Host σ}

/-- With everything in view, actions that cannot be told apart are the same. -/
theorem related_id_iff {α : Type} {x y : StateM σ α} : Related (Agree id) x y ↔ x = y := by
  constructor
  · intro hxy
    funext s
    obtain ⟨ha, hs⟩ := hxy s s rfl
    exact Prod.ext ha hs
  · rintro rfl
    exact .refl x

/-- An install of a game with a slug uses no other name. -/
theorem Host.AgreesOnSlugs.matchesFor (ha : h.AgreesOnSlugs h') (c : Context) {g : Game}
    (hg : isSlug g.slug = true) : h.MatchesFor (Agree id) h' c g := by
  -- Saving and writing to the journal are the only two actions that take the name of a game.
  obtain ⟨hrest, hsave, happend⟩ := ha
  generalize h'.saveEntry = saveEntry, h'.append = append at hrest hsave happend
  subst hrest
  have hmatches := Host.Matches.refl h
  exact {
    operation := fun o => by
      cases o with
      | move | copy | mkdir | execute | checksum => exact .refl _
      | extract => exact fun _ _ => .refl _
      | checkDepends => exact ⟨hmatches.runner, hmatches.dependency⟩
      | writeConfig => exact fun _ _ _ _ => related_id_iff.mpr (hsave _ _ hg)
    isCancelled := .refl _
    append := fun dir e => by
      rw [g.journalName_eq hg]
      exact related_id_iff.mpr (happend _ _ _ hg)
    newRunId := .refl _
    clock := .refl _ }

/-- No install uses a name that is no slug, so it is the same whatever is done with such names. -/
theorem Session.install_eq_of_agreesOnSlugs (ha : h.AgreesOnSlugs h') (session : Session)
    (c : Context) : session.install h c = session.install h' c := by
  rw [install_eq_start, install_eq_start session h']
  by_cases hf : session.recipe.findings = []
  · have hv : session.recipe.validate = .valid := by
      have hvalid := session.recipe.validate_isValid.mpr hf
      cases hr : session.recipe.validate with
      | valid => rfl
      | invalid | aborted => simp [hr, Validation.isValid] at hvalid
    have hrun := run_related (ha.matchesFor c (Recipe.game_of_valid hv).2)
      session.recipe.steps []
    rw [install_of_valid hf, install_of_valid hf, related_id_iff.mp hrun]
  · rw [install_of_findings hf, install_of_findings hf]

end Names

/-! ## Slugs that are too long -/

theorem Host.writeConfig_error {h : Host σ} {g : Game}
    (hsave : ∀ entry s, ((h.saveEntry g.slug entry).run s).1 ≠ .ok ()) (executable : Path) (s : σ) :
    ∃ e, ((h.writeConfig g executable).run s).1 = .error e := by
  unfold Host.writeConfig
  split
  · rename_i dir name _ _
    have hno := hsave ⟨dir, name, g.name, g.runner⟩ s
    rcases hs : (h.saveEntry g.slug ⟨dir, name, g.name, g.runner⟩).run s with ⟨result, s'⟩
    rw [hs] at hno
    rw [run_bind_of hs]
    cases result with
    | ok u => exact absurd rfl hno
    | error e => exact ⟨_, rfl⟩
  · exact ⟨_, rfl⟩

/-- A slug that is too long for a file name is the end of every install that begins with saving the
    entry of the game. -/
theorem Session.install_failed_of_long_slug {r : Recipe} (hv : r.validate = .valid)
    (hlong : Disk.maxName < r.game.slug.utf8ByteSize) {step : Step} {rest : List Step}
    {file : String} (hsteps : r.steps = step :: rest)
    (ho : step.operation = .ok (.writeConfig file)) (runner : SystemRunner) (configDir : Path)
    (c : Context) (m : Machine) :
    ∃ e errors, (((start r).install (Machine.host runner configDir) c).run m).1.1 =
      .failed e errors := by
  set h := Machine.host runner configDir
  have hsave (entry : GameEntry) (s : Machine) :
      ((h.saveEntry r.game.slug entry).run s).1 ≠ .ok () := by
    intro hok
    have hlen := ConfigStore.name_of_write (d := s.disk) hok
    rw [String.utf8ByteSize_append] at hlen
    omega
  -- The first step is executed, and its failure is fatal.
  obtain ⟨t, ht⟩ : ∃ t, Executes h c r.game r.steps m 0 step t :=
    ⟨_, .intro (by exact hsteps.symm) (.nil _) (by simp) rfl rfl⟩
  clear_value h
  have happly : Operation.apply h c r.game (.writeConfig file) =
      h.writeConfig r.game (c.targetPath r.game (dropFileUrl (c.text r.game file))) := rfl
  obtain ⟨x, hx⟩ := Host.writeConfig_error hsave _ t
  obtain ⟨e, he⟩ : ∃ e, ((step.execute h c r.game).run t).1 = .error e := by
    rw [Step.execute_run_of_operation ho, happly, hx]
    exact ⟨_, rfl⟩
  have hfatal := Step.fatal_of_failsFatally ho (h.writeConfig_failsFatally _ _) he
  obtain ⟨-, -, -, -, es, hes⟩ := ht.failed [] he hfatal
  exact ⟨e, es,
    (install_of_run (Recipe.checkSteps_of_valid hv).1 (Prod.ext (Prod.ext hes rfl) rfl)).1⟩

theorem utf8ByteSize_letters (n : Nat) :
    (String.ofList (List.replicate n 'a')).utf8ByteSize = n := by
  induction n with
  | zero => rfl
  | succ n ih =>
    rw [List.replicate_succ', String.ofList_append, String.utf8ByteSize_append, ih]
    rfl

theorem isSlug_letters (n : Nat) :
    isSlug (String.ofList (List.replicate (n + 1) 'a')) = true := by
  have hall : (List.replicate (n + 1) 'a').all isSlugChar = true := by
    rw [List.all_replicate, if_neg n.succ_ne_zero]
    decide
  rw [isSlug, String.toList_ofList, List.replicate_succ, isSlugChars, ← List.replicate_succ, hall]
  decide

theorem trim_letters_ne (n : Nat) :
    Text.trim (String.ofList (List.replicate (n + 1) 'a')) ≠ "" := by
  rw [Ne, ← Text.allBlank_iff, Text.allBlank, String.toList_ofList, List.all_replicate,
    if_neg n.succ_ne_zero]
  decide

/-! ## The account -/

/-- What validating a session gives, and what a valid recipe may rely on.

    A recipe is valid when runner, name and slug are scalars with texts that are not blank, the slug
    is one, and each step whose command is in the table fits it.  A step that does not fit aborts;
    otherwise the errors of the metadata are reported, and they are those of the fields that are
    absent and of the slug.  The slug of a valid recipe names its directories, its journal and its
    entry, and no install uses another name. -/
theorem validate_account (session : Session) :
    let r := session.recipe
    let v := session.validate.1
    (v = .valid ↔ (∃ runner, r.Has "runner" runner) ∧ (∃ name, r.Has "name" name) ∧
      (∃ slug, r.Has "game_slug" slug ∧ isSlug slug = true) ∧
        ∀ s ∈ r.steps, ∀ c : Command, s.command = c.name → ∃ o, c.bind s.params = .ok o) ∧
    (∀ e, v = .aborted e ↔ Recipe.checkSteps r.steps = .error e) ∧
    (∀ errors, v = .invalid errors ↔ r.check = .ok errors ∧ errors ≠ []) ∧
    (∀ errors, r.check = .ok errors → r.Reports errors) ∧
    (v = .valid →
      let slug := r.game.slug
      r.Has "game_slug" slug ∧ r.game.journalName = slug ∧
      (∀ settings : Settings, settings.gameDir slug = .ok (settings.gamesDir.child slug) ∧
        settings.gameCache slug = .ok (settings.cacheDir.child slug)) ∧
      (∀ dir, Journal.logPath dir slug = .ok ((dir.child slug).child "events.jsonl")) ∧
      (∀ time dir e d game,
        (Disk.outcome (Journal.append time dir slug e) d).1 ≠ .error (.invalidName game)) ∧
      (∀ root entry d id,
        (Disk.outcome (ConfigStore.write root slug entry) d).1 ≠ .error (.invalidId id)) ∧
      ∀ {σ : Type} (h h' : Host σ) (c : Context), h.AgreesOnSlugs h' →
        session.install h c = session.install h' c) := by
  intro r v
  have hv : v = r.validate := congrArg Prod.fst session.validate_run
  rw [hv]
  refine ⟨?_, fun e => Recipe.validate_eq_aborted_iff, fun errors => Recipe.validate_eq_invalid_iff,
    fun errors hcheck => ?_, fun hvalid => ?_⟩
  · simp only [Recipe.validate_eq_valid_iff, Recipe.metadataErrors_eq_nil_iff, Step.fits_iff,
      and_assoc]
  · obtain ⟨_, _, rfl⟩ := map_eq_ok_iff.mp hcheck
    exact r.metadataErrors_reports
  · obtain ⟨hhas, hslug⟩ := Recipe.game_of_valid hvalid
    exact ⟨hhas, r.game.journalName_eq hslug,
      fun settings => ⟨Settings.slugDir_eq_ok hslug _, Settings.slugDir_eq_ok hslug _⟩,
      fun dir => Journal.logPath_eq_ok.mpr ⟨hslug, rfl⟩,
      fun time dir e d => Journal.append_ne_invalidName hslug time dir e d,
      fun root entry d => ConfigStore.write_ne_invalidId hslug root entry d,
      fun h h' c ha => session.install_eq_of_agreesOnSlugs ha c⟩

/-- A recipe with a number as its name and a boolean as its slug, and a host that refuses names that
    are no slugs beside one that may not. -/
theorem validate_account_scalars :
    let r : Recipe := ⟨[("runner", .string "linux"), ("name", .number (.natural 7)),
      ("game_slug", .bool true)], [⟨0, "mkdir", .string "data"⟩, ⟨1, "launch", .null⟩]⟩
    let h := Machine.host (.new "linux") ⟨"/c"⟩
    let h' : Host Machine := { h with
      saveEntry := fun id entry =>
        if isSlug id then h.saveEntry id entry else pure (.error (.invalidId id)) }
    let c := Context.ofGameDir ⟨"/g"⟩ none
    let settings := Settings.rooted ⟨"/r"⟩
    ((Session.start r).validate.1 = .valid ∧ r.check = .ok [] ∧ h.AgreesOnSlugs h') ∧
      r.Reports [] ∧
      settings.gameDir r.game.slug = .ok (settings.gamesDir.child "true") ∧
        (Session.start r).install h c = (Session.start r).install h' c := by
  intro r h h' c settings
  obtain ⟨hvalid_iff, -, -, hreports, huses⟩ := validate_account (Session.start r)
  have hvalid : (Session.start r).validate.1 = .valid := by
    refine hvalid_iff.mpr ⟨⟨"linux", _, rfl, .string _, by decide⟩,
      ⟨_, _, rfl, .number (.natural 7), by decide⟩, ⟨_, ⟨_, rfl, .bool true, by decide⟩, rfl⟩,
      fun s hs command hcommand => ?_⟩
    have hfind := Command.ofName?_eq_some_iff.mpr hcommand
    rcases List.mem_cons.mp hs with rfl | hs
    · have hmkdir : Command.ofName? "mkdir" = some .mkdir := by decide
      obtain rfl := Option.some.inj (hmkdir.symm.trans hfind)
      exact ⟨.mkdir "data", rfl⟩
    · obtain rfl := List.mem_singleton.mp hs
      have hnone : Command.ofName? "launch" = none := by decide
      exact nomatch hnone.symm.trans hfind
  have hcheck : r.check = .ok [] := rfl
  have hagrees : h.AgreesOnSlugs h' := by
    refine ⟨rfl, fun id entry hid => ?_, fun _ _ _ _ => rfl⟩
    exact (if_pos hid).symm
  obtain ⟨hhas, -, hdirs, -, -, -, hinstall⟩ := huses hvalid
  have hslug : r.game.slug = "true" := hhas.unique ⟨_, rfl, .bool true, by decide⟩
  refine ⟨⟨hvalid, hcheck, hagrees⟩, hreports [] hcheck, ?_, hinstall h h' c hagrees⟩
  rw [← hslug]
  exact (hdirs settings).1

/-- A recipe with a slug of 300 letters, which is valid.  Its entry is never saved and its journal
    never written, because no file can have such a name, so every install of it fails. -/
theorem valid_slug_too_long :
    let slug := String.ofList (List.replicate 300 'a')
    let r : Recipe := ⟨[("runner", .string "linux"), ("name", .string "Long"),
      ("game_slug", .string slug)], [⟨0, "write_config", .string "/bin/baz"⟩]⟩
    (Session.start r).validate.1 = .valid ∧ r.game.slug = slug ∧
      (∀ root entry d, (Disk.outcome (ConfigStore.write root slug entry) d).1 ≠ .ok ()) ∧
      (∀ time dir e d, (Disk.outcome (Journal.append time dir slug e) d).1 ≠ .ok ()) ∧
      ∀ runner configDir c m, ∃ e errors,
        (((Session.start r).install (Machine.host runner configDir) c).run m).1.1 =
          .failed e errors := by
  intro slug r
  have hlong : Disk.maxName < slug.utf8ByteSize := by
    rw [utf8ByteSize_letters]
    decide
  have hslug : isSlug slug = true := isSlug_letters 299
  have hblank : Text.trim slug ≠ "" := trim_letters_ne 299
  clear_value slug
  have hgame : r.Has "game_slug" slug := ⟨_, rfl, .string _, hblank⟩
  have hvalid : r.validate = .valid := by
    rw [Recipe.validate_eq_valid_iff, Recipe.metadataErrors_eq_nil_iff]
    refine ⟨⟨⟨"linux", _, rfl, .string _, by decide⟩, ⟨"Long", _, rfl, .string _, by decide⟩,
      slug, hgame, hslug⟩, fun s hs => ?_⟩
    obtain rfl := List.mem_singleton.mp hs
    exact fun _ => ⟨.writeConfig "/bin/baz", rfl⟩
  have hslugs : r.game.slug = slug := (Recipe.game_of_valid hvalid).1.unique hgame
  refine ⟨(congrArg Prod.fst (Session.start r).validate_run).trans hvalid, hslugs,
    fun root entry d hok => ?_, fun time dir e d hok => ?_, fun runner configDir c m => ?_⟩
  · have hlen := ConfigStore.name_of_write hok
    rw [String.utf8ByteSize_append] at hlen
    omega
  · have hlen := Journal.name_of_append hok
    omega
  · have hlong' : Disk.maxName < r.game.slug.utf8ByteSize := by rwa [hslugs]
    have ho : Step.operation ⟨0, "write_config", .string "/bin/baz"⟩ =
        .ok (.writeConfig "/bin/baz") := rfl
    exact Session.install_failed_of_long_slug hvalid hlong' rfl ho runner configDir c m

end GameInstaller
