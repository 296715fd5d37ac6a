import GameInstaller.Proofs.Cli.Rejecting
import GameInstaller.Proofs.Disk.Places
import GameInstaller.Proofs.Recipe.Starter

/-!
# Recipes that were started

An init request writes a recipe to start from into a directory, unless there is one.  What it wrote is
the recipe that a validate request reads.  The slug stands in it without quotes, so that the recipe is
usable exactly if YAML reads the slug as itself.

* `recipeIn`        where the recipe of a directory is
* `Makes`           a directory can be made, and holds no recipe
* `Usable`          the recipe of a directory is valid, has the slug, and its steps name the slug
* `StarterAccount`  what an init request does

## Key results

- `outcome_init_of_makes`: an init request writes the recipe where there is none
- `usable_iff`: which slugs give a usable recipe
- `init_account`: all of these together
- `exists_starter_lost`: a slug may be read as something else
-/

namespace GameInstaller.Cli

open Cli.Job
open Disk (DirAt Fits)

variable {m : Machine} {directory : Path} {slug : String} {d : Disk}

/-- The path of the recipe in a directory. -/
def recipeIn (directory : Path) : Path := directory.child recipeFile

theorem isProper_recipeFile : Path.IsProper recipeFile := ⟨⟨by decide, by decide⟩, by decide⟩

/-- A directory can be made on a machine, whose disk is `d` then, and holds no recipe; behind its path
    the name of one may stand. -/
structure Makes (m : Machine) (directory : Path) (d : Disk) : Prop where
  named : directory.text ≠ ""
  created : Disk.outcome (Disk.createDirAll directory) m.disk = (.ok (), d)
  vacant : ∀ l, DirAt d directory l → d.find? (l ++ [recipeFile]) = none
  fits : Fits directory recipeFile

/-! ## The request -/

/-- A recipe that is there already is kept. -/
theorem outcome_init_of_there (h : m.disk.pathExists (recipeIn directory) = true) (slug : String) :
    (init directory slug).outcome m =
      (.error (.failed [] ((recipeIn directory).text ++ " already exists")), m) := by
  unfold init
  rw [outcome_bind_of_ok (outcome_get m), if_pos (by exact h)]
  rfl

/-- A directory without a recipe had none before it was made. -/
theorem Makes.not_pathExists (h : Makes m directory d) :
    m.disk.pathExists (recipeIn directory) = false := by
  obtain ⟨l, hdir⟩ := Disk.dirAt_of_createDirAll h.created h.named isProper_recipeFile.toIsName h.fits
  -- What was at the path before would still be there after the directory was made.
  have hextends := (Disk.createDirAll_addsDirs directory m.disk).extending
  rw [h.created] at hextends
  rw [← Bool.not_eq_true]
  intro hthere
  have hstill := hextends.pathExists hthere
  rw [recipeIn, hdir.not_pathExists isProper_recipeFile (h.vacant l hdir)] at hstill
  cases hstill

/-- A disk with a recipe to start from in the directory at a location. -/
def withStarter (d : Disk) (l : Location) (slug : String) : Disk :=
  d.set (l ++ [recipeFile]) (.file (starterRecipe slug).toUTF8 Disk.newFileMode none)

/-- Where there is none, the recipe is written, and is what is read then. -/
theorem outcome_init_of_makes (h : Makes m directory d) (slug : String) :
    ∃ l, DirAt d directory l ∧
      (init directory slug).outcome m = (.ok (line ("Created " ++ (recipeIn directory).text)),
        { m with disk := withStarter d l slug }) ∧
      Disk.outcome (Disk.readText (recipeIn directory)) (withStarter d l slug) =
        (.ok (starterRecipe slug), withStarter d l slug) := by
  obtain ⟨l, hdir⟩ := Disk.dirAt_of_createDirAll h.created h.named isProper_recipeFile.toIsName h.fits
  have hnone := h.vacant l hdir
  have hr := hdir.resolve_child isProper_recipeFile h.fits (by simp [hnone]) .follow
  rw [hnone] at hr
  -- The path leads to a name of the directory that is free, so a file is made there.
  refine ⟨l, hdir, ?_, ?_⟩
  · have hmake : (makeDirectory directory).outcome m = (.ok (), { m with disk := d }) := by
      unfold makeDirectory
      rw [outcome_ofCall, h.created]
      rfl
    have hwrite : Disk.outcome (Disk.writeBytes (recipeIn directory) (starterRecipe slug).toUTF8) d =
        (.ok (), withStarter d l slug) := Disk.outcome_update_of_none hr rfl rfl _ _
    unfold init
    rw [outcome_bind_of_ok (outcome_get m), if_neg (by exact ne_true_of_eq_false h.not_pathExists),
      outcome_bind_of_ok hmake]
    refine outcome_bind_of_ok (a := ()) ((outcome_ofCall _ _ _).trans ?_)
    rw [← recipeIn, hwrite]
    rfl
  · exact Disk.outcome_readText_of_file (Disk.resolve_set hr rfl rfl _ _ _) rfl

/-- A path behind which the name of a recipe may not stand leads nowhere. -/
theorem resolve_recipeIn_of_unfit (h : ¬ Fits directory recipeFile) :
    ∃ e, ∀ (final : Disk.Final) (d : Disk), d.resolve final (recipeIn directory) = .error e := by
  by_cases hnul : (recipeIn directory).text.toList.contains '\x00' = true
  · exact ⟨_, fun _ _ => if_pos hnul⟩
  have hnul' : '\x00' ∉ (recipeIn directory).text.toList := by simpa using hnul
  have hlong : Disk.pathLimit ≤ (recipeIn directory).text.utf8ByteSize := by
    by_contra hshort
    exact h ⟨hnul', Nat.not_le.mp hshort, by decide⟩
  have hempty : ¬ (recipeIn directory).text.isEmpty = true := by
    simpa [recipeIn] using directory.child_text_ne isProper_recipeFile.toIsName
  refine ⟨.system .nameTooLong, fun final d => ?_⟩
  rw [Disk.resolve, if_neg hnul, if_neg hempty, if_pos hlong]

/-- There the directory is made, but no recipe can be written. -/
theorem outcome_init_of_unfit
    (hcreated : Disk.outcome (Disk.createDirAll directory) m.disk = (.ok (), d))
    (h : ¬ Fits directory recipeFile) (slug : String) :
    ∃ e, (init directory slug).outcome m =
      (.error (.failed [] ("cannot write " ++ (recipeIn directory).text ++ ": " ++ e)),
        { m with disk := d }) := by
  obtain ⟨e, hr⟩ := resolve_recipeIn_of_unfit h
  have hgone : m.disk.pathExists (recipeIn directory) = false := by
    simp [Disk.pathExists, Disk.stat, hr]
  have hmake : (makeDirectory directory).outcome m = (.ok (), { m with disk := d }) := by
    unfold makeDirectory
    rw [outcome_ofCall, hcreated]
    rfl
  have hwrite : Disk.outcome (Disk.writeBytes (recipeIn directory) (starterRecipe slug).toUTF8) d =
      (.error e, d) := Disk.outcome_update_of_error (hr _ _) _ _
  refine ⟨e.text, ?_⟩
  unfold init
  rw [outcome_bind_of_ok (outcome_get m), if_neg (by exact ne_true_of_eq_false hgone),
    outcome_bind_of_ok hmake]
  refine outcome_bind_of_error ((outcome_ofCall _ _ _).trans ?_)
  rw [← recipeIn, hwrite]
  rfl

/-! ## The recipe -/

/-- The recipe that the text of a file gives is opened. -/
theorem outcome_openRecipe {p : Path} {text : String}
    (h : Disk.outcome (Disk.readText p) m.disk = (.ok text, m.disk)) :
    (openRecipe p).outcome m =
      (match Recipe.ofText text with
        | .ok r => .ok (.start r)
        | .error e => .error (.failed [] e.message), m) := by
  have hfile : Disk.outcome (Recipe.ofFile p) m.disk = (Recipe.ofText text, m.disk) := by
    unfold Recipe.ofFile
    rw [Disk.outcome_bind_of_ok (Disk.outcome_attempt _ _), h]
    dsimp only
    cases Recipe.ofText text <;> rfl
  have hcall := outcome_ofCall RecipeError.message (Recipe.ofFile p) m
  rw [hfile] at hcall
  unfold openRecipe
  cases hr : Recipe.ofText text with
  | ok r =>
    rw [hr] at hcall
    rw [outcome_bind_of_ok hcall]
    rfl
  | error e =>
    rw [hr] at hcall
    rw [outcome_bind_of_error hcall]

/-- The recipe in a directory is accepted, its game has this slug, and its steps are those for it. -/
def Usable (m : Machine) (directory : Path) (slug : String) : Prop :=
  (validate (recipeIn directory)).outcome m = (.ok (line "OK: My Game (linux, 4 steps)"), m) ∧
    ∃ r, (openRecipe (recipeIn directory)).outcome m = (.ok (.start r), m) ∧
      r.gameSlug = some slug ∧ r.steps.map Step.operation = (starterOperations slug).map .ok

/-- A recipe to start from is usable exactly if its slug is kept. -/
theorem usable_iff (hslug : isSlug slug = true)
    (hread : Disk.outcome (Disk.readText (recipeIn directory)) m.disk =
      (.ok (starterRecipe slug), m.disk)) :
    Usable m directory slug ↔ KeepsSlug slug := by
  have hopen := outcome_openRecipe hread
  rw [ofText_starterRecipe hslug] at hopen
  constructor
  · -- A recipe that was opened tells what its slug was read as.
    rintro ⟨-, r, hr, hgame, -⟩
    rw [hopen] at hr
    split_ifs at hr with hdash
    · cases hr
    cases hv : Yaml.Plain.value? slug.toList with
    | none =>
      rw [hv] at hr
      cases hr
    | some v =>
      rw [hv] at hr
      cases hr
      have htext := (gameSlug_starterWith hslug hv).mp hgame
      exact ⟨hdash, by rw [hv, Option.map_some, htext]⟩
  · rintro ⟨hdash, hkept⟩
    obtain ⟨v, hv, htext⟩ := Option.map_eq_some_iff.mp hkept
    have hgame := (gameSlug_starterWith hslug hv).mpr htext
    rw [if_neg hdash, hv] at hopen
    refine ⟨?_, _, hopen, hgame, operations_starterSteps slug⟩
    have htexts : "OK: " ++ "My Game" ++ " (" ++ "linux" ++ ", " ++ toString 4 ++ " steps)" =
        "OK: My Game (linux, 4 steps)" := by decide
    rw [outcome_validate (congrArg Prod.fst hopen), if_pos (findings_starterWith hslug hgame),
      ← htexts]
    rfl

/-! ## All together -/

/-- What an init request does in a directory. -/
structure StarterAccount (m : Machine) (directory : Path) (slug : String) : Prop where
  /-- Where there is a recipe, it fails, and nothing is changed. -/
  there : m.disk.pathExists (recipeIn directory) = true →
    (init directory slug).outcome m =
      (.error (.failed [] ((recipeIn directory).text ++ " already exists")), m)
  /-- Where there is none and the directory can be made, it writes one, and does nothing else; with a
      slug this is usable exactly if the slug is kept. -/
  made : ∀ d, Makes m directory d → ∃ l m', DirAt d directory l ∧
    m' = { m with disk := withStarter d l slug } ∧
    (init directory slug).outcome m =
      (.ok (line ("Created " ++ (recipeIn directory).text)), m') ∧
    (isSlug slug = true → (Usable m' directory slug ↔ KeepsSlug slug))
  /-- It is kept if it has a character that no number, boolean or null is written with. -/
  kept : (∃ c ∈ slug.toList, Yaml.Plain.isForeign c = true) → KeepsSlug slug
  /-- Behind the path of the directory there must be room for a name; else it fails. -/
  unfit : ∀ d, Disk.outcome (Disk.createDirAll directory) m.disk = (.ok (), d) →
    ¬ Fits directory recipeFile → ∃ e, (init directory slug).outcome m =
      (.error (.failed [] ("cannot write " ++ (recipeIn directory).text ++ ": " ++ e)),
        { m with disk := d })

/-- What an init request does, in every directory of every machine. -/
theorem init_account (m : Machine) (directory : Path) (slug : String) :
    StarterAccount m directory slug where
  there h := outcome_init_of_there h slug
  made d h := by
    obtain ⟨l, hdir, hinit, hread⟩ := outcome_init_of_makes h slug
    exact ⟨l, _, hdir, rfl, hinit, fun hslug => usable_iff hslug hread⟩
  kept := fun ⟨_, hmem, hc⟩ => keepsSlug_of_isForeign hmem hc
  unfit d hcreated h := outcome_init_of_unfit hcreated h slug

/-- A slug that YAML reads as null is written, and missing then. -/
theorem exists_starter_lost : ∃ (m m' : Machine) (d : Disk), isSlug "null" = true ∧
    Makes m ⟨"/"⟩ d ∧
    (init ⟨"/"⟩ "null").outcome m = (.ok (line "Created /install.yml"), m') ∧
    (validate ⟨"/install.yml"⟩).outcome m' =
      (.error (complaint ["  WARNING: validation error: missing required field 'game_slug'"] 1), m') := by
  have hmakes : Makes (.fresh ⟨[]⟩ ⟨0, 0⟩) ⟨"/"⟩ Machine.systemDisk := by
    refine ⟨by decide, rfl, fun l hl => ?_, by decide, by decide, by decide⟩
    obtain rfl := hl.unique (Disk.dirAt_slash _)
    decide
  obtain ⟨l, -, hinit, hread⟩ := outcome_init_of_makes hmakes "null"
  have hpath : recipeIn ⟨"/"⟩ = ⟨"/install.yml"⟩ := by decide
  have hopen := outcome_openRecipe (m := { Machine.fresh ⟨[]⟩ ⟨0, 0⟩ with
    disk := withStarter Machine.systemDisk l "null" }) hread
  have hvalue : Yaml.Plain.value? "null".toList = some .null := rfl
  rw [ofText_starterRecipe (by decide), if_neg (by decide), hvalue, hpath] at hopen
  refine ⟨_, _, _, by decide, hmakes, hinit, ?_⟩
  have hfindings : (starterWith "null" .null).findings =
      [.validation (.missingField "game_slug")] := rfl
  rw [outcome_validate (congrArg Prod.fst hopen), hfindings]
  rfl

end GameInstaller.Cli
