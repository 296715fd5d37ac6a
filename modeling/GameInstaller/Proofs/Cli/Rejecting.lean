import GameInstaller.Proofs.Cli.Installing
import GameInstaller.Proofs.Install.Validity

/-!
# Recipes that are rejected

An install request checks its recipe as a validate request does, and shows what that one shows.  A
recipe that fails the check is rejected before anything is done to the machine; a recipe that passes
it is checked once more when it is run, and cannot fail then.

* `rejection`         the report on a recipe that is not installed
* `complaint`         the report on a recipe that is not valid
* `FailsOtherwise`    a request that fails does not say that a recipe is rejected
* `RejectionAccount`  what a call has to do with validating its recipe

## Key results

- `outcome_validate`: what a validate request reports on a recipe that can be read
- `carryOut_failsOtherwise`: a recipe that passed the check is not rejected later
- `install_rejects`: a call rejects what a validate request complains of
-/

namespace GameInstaller.Cli

open Cli.Job

/-- The report on a recipe that is not installed, because of so many errors. -/
def rejection (notices : List String) (n : Nat) : Report :=
  .failed notices s!"recipe rejected: {n} error(s)"

/-- The report on a recipe that is not valid, because of so many errors. -/
def complaint (notices : List String) (n : Nat) : Report :=
  .failed notices s!"{n} validation error(s)"

/-- Counts that are written alike are the same. -/
theorem toString_nat_inj {a b : Nat} (h : toString a = toString b) : a = b := by
  have hread (n : Nat) : Nat.ofDigitChars 10 (toString n).toList 0 = n := by
    rw [Nat.toString_eq_repr, Nat.repr_eq_ofList_toDigits, String.toList_ofList,
      Nat.ofDigitChars_toDigits (by decide) (by decide)]
  rw [← hread a, h, hread]

theorem rejection_inj {notices notices' : List String} {n n' : Nat} :
    rejection notices n = rejection notices' n' ↔ notices = notices' ∧ n = n' := by
  constructor
  · intro h
    obtain ⟨-, hnotices, htext⟩ := Report.mk.inj h
    have hcount : "recipe rejected: " ++ toString n ++ " error(s)" =
        "recipe rejected: " ++ toString n' ++ " error(s)" := Option.some.inj htext
    exact ⟨hnotices, toString_nat_inj (by simpa only [String.append_left_inj,
      String.append_right_inj] using hcount)⟩
  · rintro ⟨rfl, rfl⟩
    rfl

theorem complaint_inj {notices notices' : List String} {n n' : Nat} :
    complaint notices n = complaint notices' n' ↔ notices = notices' ∧ n = n' := by
  constructor
  · intro h
    obtain ⟨-, hnotices, htext⟩ := Report.mk.inj h
    have hcount : toString n ++ " validation error(s)" = toString n' ++ " validation error(s)" :=
      Option.some.inj htext
    exact ⟨hnotices, toString_nat_inj (by simpa only [String.append_left_inj] using hcount)⟩
  · rintro ⟨rfl, rfl⟩
    rfl

/-! ## Validating -/

variable {m : Machine} {p : Path} {r : Recipe}

/-- A recipe that can be read is found valid, or its errors are shown and counted. -/
theorem outcome_validate (h : ((openRecipe p).outcome m).1 = .ok (.start r)) :
    (validate p).outcome m =
      (if r.findings = [] then
        .ok (line s!"OK: {r.game.name} ({r.game.runner}, {r.steps.length} steps)")
      else .error (complaint (noticesOf r.findings) r.findings.length), m) := by
  unfold validate
  rw [outcome_bind_of_ok ((reads_openRecipe p).outcome_eq h), Session.validate_run]
  have hrecipe : (Session.start r).recipe = r := rfl
  rw [hrecipe]
  dsimp only
  by_cases hf : r.findings = []
  · rw [if_pos (r.validate_isValid.mpr hf), if_pos hf]
    rfl
  · rw [if_neg (mt r.validate_isValid.mp hf), if_neg hf]
    rfl

/-! ## Failures behind the check -/

/-- A text begins as its front does. -/
theorem head?_append {s : String} {first : Char} (h : s.toList.head? = some first) (t : String) :
    (s ++ t).toList.head? = some first := by
  rw [String.toList_append, List.head?_append, h]
  rfl

/-- What is said of a directory that was not made. -/
theorem head?_cannotCreate (path cause : String) :
    ("cannot create " ++ path ++ ": " ++ cause).toList.head? ≠ some 'r' := by
  have hfirst : "cannot create ".toList.head? = some 'c' := by decide
  rw [head?_append (head?_append (head?_append hfirst _) _) _]
  decide

/-- A request that failed says so in a text that does not begin as that of a rejection does. -/
def FailsOtherwise {α : Type} (out : Except Report α × Machine) : Prop :=
  ∀ report, out.1 = .error report →
    ∃ text, report.failure = some text ∧ text.toList.head? ≠ some 'r'

theorem FailsOtherwise.ne_rejection {α : Type} {out : Except Report α × Machine}
    (h : FailsOtherwise out) (notices : List String) (n : Nat) :
    out.1 ≠ .error (rejection notices n) := by
  intro hout
  obtain ⟨text, htext, hhead⟩ := h _ hout
  obtain rfl := Option.some.inj htext
  have hfirst : "recipe rejected: ".toList.head? = some 'r' := by decide
  exact hhead (head?_append (head?_append hfirst _) _)

theorem failsOtherwise_of_ok {α : Type} {a : α} : FailsOtherwise (.ok a, m) := nofun

theorem failsOtherwise_failed {α : Type} {notices : List String} {text : String}
    (h : text.toList.head? ≠ some 'r') :
    FailsOtherwise ((.error (.failed notices text), m) : Except Report α × Machine) := by
  rintro report ⟨⟩
  exact ⟨text, rfl, h⟩

theorem failsOtherwise_ofCall {ε α : Type} {message : ε → String}
    (h : ∀ e, (message e).toList.head? ≠ some 'r') (x : Disk.Call ε α) (m : Machine) :
    FailsOtherwise ((ofCall message x).outcome m) := by
  rw [outcome_ofCall]
  cases (Disk.outcome x m.disk).1 with
  | ok a => exact failsOtherwise_of_ok
  | error e => exact failsOtherwise_failed (h e)

theorem FailsOtherwise.bind {α β : Type} {x : Job α} {f : α → Job β}
    (hx : FailsOtherwise (x.outcome m))
    (hf : ∀ a m', x.outcome m = (.ok a, m') → FailsOtherwise ((f a).outcome m')) :
    FailsOtherwise ((x >>= f).outcome m) := by
  rcases hout : x.outcome m with ⟨report | a, m'⟩
  · rw [outcome_bind_of_error hout]
    rintro _ ⟨⟩
    exact hx report (by rw [hout])
  · rw [outcome_bind_of_ok hout]
    exact hf a m' hout

theorem makeDirectory_failsOtherwise (p : Path) (m : Machine) :
    FailsOtherwise ((makeDirectory p).outcome m) := by
  unfold makeDirectory
  refine failsOtherwise_ofCall (fun e => ?_) _ m
  exact head?_cannotCreate p.text e.text

theorem enroll_failsOtherwise (place : Place) (game : Game) (m : Machine) :
    FailsOtherwise ((enroll place game).outcome m) := by
  have hmessage (e : LibraryError) : e.message.toList.head? ≠ some 'r' := by
    cases e with
    | io p e => exact head?_cannotCreate p.text e.text
    | database => decide
  refine (failsOtherwise_ofCall hmessage _ m).bind fun _ m' _ => ?_
  rw [outcome_bind_of_ok (outcome_get m')]
  exact failsOtherwise_ofCall hmessage _ m'

/-- No report on a run says that the recipe is rejected, unless the run was. -/
theorem conclude_failsOtherwise {result : RunResult} (h : ∀ v, result ≠ .rejected v)
    (place : Place) (game : Game) (s : Session) (m : Machine) :
    FailsOtherwise ((conclude place game s result).outcome m) := by
  cases result with
  | rejected v => exact absurd rfl (h v)
  | failed e errors => exact failsOtherwise_failed (by simp [String.toList_append])
  | abandoned n =>
    have hfirst : ("install abandoned after " ++ toString n ++
        " step(s); completed steps were not undone").toList.head? ≠ some 'r' := by
      simp [String.toList_append]
    exact failsOtherwise_failed hfirst
  | succeeded steps =>
    unfold conclude
    have hentered := enroll_failsOtherwise place game m
    rcases henroll : (enroll place game).outcome m with ⟨report | u, m'⟩
    · rw [henroll] at hentered
      rw [outcome_withNotices_of_error (outcome_bind_of_error henroll)]
      rintro _ ⟨⟩
      exact hentered report rfl
    · rw [outcome_withNotices_of_ok ((outcome_bind_of_ok henroll).trans (outcome_pure _ _))]
      exact failsOtherwise_of_ok

/-- A valid recipe is not rejected by the check that is made when it is run. -/
theorem Place.attempt_ne_rejected (hvalid : r.findings = []) (place : Place) (m : Machine)
    (v : Validation) : (place.attempt r m).1.1 ≠ .rejected v := by
  have haccount := install_account_of_valid hvalid (place.host r.game) (place.contextOn m) m
  exact fun h => ((haccount.rejected_iff v).mp h).2 hvalid

theorem Place.carryOut_failsOtherwise (hvalid : r.findings = []) (place : Place) (m : Machine) :
    FailsOtherwise ((place.carryOut r).outcome m) := by
  refine (makeDirectory_failsOtherwise _ m).bind fun _ m₁ _ => ?_
  refine (makeDirectory_failsOtherwise _ m₁).bind fun _ m₂ _ => ?_
  rw [outcome_bind_of_ok (outcome_get m₂), outcome_bind_of_ok (outcome_lift _ m₂)]
  exact conclude_failsOtherwise (place.attempt_ne_rejected hvalid m₂) _ _ _ _

/-! ## Calls -/

/-- It is known where a valid recipe goes. -/
theorem ofGame_of_valid (hvalid : r.findings = []) (settings : Settings) (gameDir : Option Path)
    (journal : Bool) : ∃ place, Place.ofGame settings gameDir journal r.game = .ok place := by
  have hv : r.validate = .valid := by
    have hisValid := r.validate_isValid.mpr hvalid
    generalize r.validate = v at hisValid
    cases v with
    | valid => rfl
    | invalid | aborted => cases hisValid
  have hslug := (Recipe.game_of_valid hv).2
  unfold Place.ofGame Settings.gameDir Settings.gameCache
  rw [Settings.slugDir_eq_ok hslug, Settings.slugDir_eq_ok hslug]
  cases gameDir <;> exact ⟨_, rfl⟩

/-- A call with settings and a valid recipe passes. -/
theorem passes_of_valid {c : InstallCall} {settings : Settings}
    (loaded : ((loadSettings c.settings).outcome m).1 = .ok settings)
    (opened : ((openRecipe c.recipe).outcome m).1 = .ok (.start r)) (hvalid : r.findings = []) :
    ∃ place, Passes c m place r := by
  obtain ⟨place, hplace⟩ := ofGame_of_valid hvalid settings c.gameDir c.journal
  obtain ⟨rfl, -⟩ := ofGame_ok hplace
  exact ⟨place, (reads_loadSettings _).outcome_eq loaded, (reads_openRecipe _).outcome_eq opened,
    hvalid, hplace⟩

/-- A call that passes does not reject its recipe. -/
theorem Passes.ne_rejection {c : InstallCall} {place : Place} (h : Passes c m place r)
    (notices : List String) (n : Nat) : (c.job.outcome m).1 ≠ .error (rejection notices n) := by
  rw [h.outcome_job]
  exact (place.carryOut_failsOtherwise h.valid m).ne_rejection notices n

/-- A recipe that has been read is rejected for what is found in it, and for nothing else. -/
theorem rejects_iff {c : InstallCall} {settings : Settings} {notices : List String} {n : Nat}
    (loaded : ((loadSettings c.settings).outcome m).1 = .ok settings)
    (opened : ((openRecipe c.recipe).outcome m).1 = .ok (.start r)) :
    (c.job.outcome m).1 = .error (rejection notices n) ↔
      r.findings ≠ [] ∧ noticesOf r.findings = notices ∧ r.findings.length = n := by
  by_cases hf : r.findings = []
  · obtain ⟨place, hpasses⟩ := passes_of_valid loaded opened hf
    exact iff_of_false (hpasses.ne_rejection notices n) fun h => h.1 hf
  · have hrefused : Refused c m (rejected ⟨r, r.findings⟩) := .invalid loaded opened hf
    have hrejected : rejected ⟨r, r.findings⟩ =
        rejection (noticesOf r.findings) r.findings.length := rfl
    rw [hrefused.outcome_job, hrejected, Except.error.injEq, rejection_inj, and_iff_right hf]

theorem complains_iff {notices : List String} {n : Nat}
    (opened : ((openRecipe p).outcome m).1 = .ok (.start r)) :
    ((validate p).outcome m).1 = .error (complaint notices n) ↔
      r.findings ≠ [] ∧ noticesOf r.findings = notices ∧ r.findings.length = n := by
  rw [outcome_validate opened]
  by_cases hf : r.findings = []
  · rw [if_pos hf]
    exact iff_of_false nofun fun h => h.1 hf
  · rw [if_neg hf, Except.error.injEq, complaint_inj, and_iff_right hf]

theorem approves_iff (opened : ((openRecipe p).outcome m).1 = .ok (.start r)) :
    (∃ report, ((validate p).outcome m).1 = .ok report) ↔ r.findings = [] := by
  rw [outcome_validate opened]
  by_cases hf : r.findings = []
  · rw [if_pos hf]
    exact iff_of_true ⟨_, rfl⟩ hf
  · rw [if_neg hf]
    exact iff_of_false nofun hf

/-! ## The account -/

/-- What a call on the machine `m` has to do with validating its recipe. -/
structure RejectionAccount (c : InstallCall) (m : Machine) : Prop where
  /-- When the settings can be loaded and the recipe can be read, the call rejects the recipe with as
      many errors as a validate request counts, and shows the same lines. -/
  rejected_iff : ∀ settings s, ((loadSettings c.settings).outcome m).1 = .ok settings →
    ((openRecipe c.recipe).outcome m).1 = .ok s → ∀ notices n,
      (c.job.outcome m).1 = .error (rejection notices n) ↔
        ((validate c.recipe).outcome m).1 = .error (complaint notices n)
  /-- The recipe is found valid when it is not rejected. -/
  valid_iff : ∀ settings s, ((loadSettings c.settings).outcome m).1 = .ok settings →
    ((openRecipe c.recipe).outcome m).1 = .ok s →
      ((∃ report, ((validate c.recipe).outcome m).1 = .ok report) ↔
        ∀ notices n, (c.job.outcome m).1 ≠ .error (rejection notices n))
  /-- In that case it is known where the recipe goes, and it is installed there. -/
  installed : ∀ settings s, ((loadSettings c.settings).outcome m).1 = .ok settings →
    ((openRecipe c.recipe).outcome m).1 = .ok s →
      (∃ report, ((validate c.recipe).outcome m).1 = .ok report) →
        ∃ place, Passes c m place s.recipe ∧
          c.job.outcome m = (place.carryOut s.recipe).outcome m
  /-- A call with which something is wrong in the settings or the recipe changes nothing. -/
  refused : ∀ report, Refused c m report → c.job.outcome m = (.error report, m)
  /-- A call that rejects the recipe changes nothing. -/
  rejected : ∀ notices n, (c.job.outcome m).1 = .error (rejection notices n) →
    (c.job.outcome m).2 = m
  /-- A call that changes anything had the settings and a valid recipe, and knew where that goes. -/
  changed : (c.job.outcome m).2 ≠ m → ∃ place r, Passes c m place r
  /-- Once the directories have been made, the recipe is not rejected any more. -/
  started : ∀ place r m₁, Starts c m place r m₁ →
    (∀ v, (place.attempt r m₁).1.1 ≠ .rejected v) ∧
      ∀ notices n, (c.job.outcome m).1 ≠ .error (rejection notices n)

/-- An install request and a validate request judge a recipe alike, and a call that gets no further
    than that does nothing. -/
theorem install_rejects (c : InstallCall) (m : Machine) : RejectionAccount c m := by
  have hopened {s : Session} (h : ((openRecipe c.recipe).outcome m).1 = .ok s) :
      ((openRecipe c.recipe).outcome m).1 = .ok (.start s.recipe) := by
    rw [← (openRecipe_ok ((reads_openRecipe _).outcome_eq h)).1, h]
  exact {
    rejected_iff := fun settings s loaded opened notices n =>
      (rejects_iff loaded (hopened opened)).trans (complains_iff (hopened opened)).symm
    valid_iff := fun settings s loaded opened => by
      rw [approves_iff (hopened opened)]
      simp [rejects_iff loaded (hopened opened)]
    installed := fun settings s loaded opened happroves => by
      have hf := (approves_iff (hopened opened)).mp happroves
      obtain ⟨place, hpasses⟩ := passes_of_valid loaded (hopened opened) hf
      exact ⟨place, hpasses, hpasses.outcome_job⟩
    refused := fun report h => h.outcome_job
    rejected := fun notices n hout => by
      obtain ⟨report, hrefused⟩ | ⟨place, r, hpasses⟩ := refused_or_passes c m
      · rw [hrefused.outcome_job]
      · exact absurd hout (hpasses.ne_rejection notices n)
    changed := fun hchanged => by
      obtain ⟨report, hrefused⟩ | hpasses := refused_or_passes c m
      · exact absurd (by rw [hrefused.outcome_job]) hchanged
      · exact hpasses
    started := fun place r m₁ h =>
      ⟨place.attempt_ne_rejected h.valid m₁, h.passes.ne_rejection⟩ }

end GameInstaller.Cli
