import GameInstaller.Install.Rehearsal
import GameInstaller.Proofs.Install.Sessions

/-!
# Checking steps before they run

Validation and a run look at steps in loops of their own.  Validation passes over commands that are
not in the table and looks at all other steps; a run stops at the first thing that goes wrong and may
never come to a step that does not fit its command.  Both still name the same step: before the step
that stops a run every step has an operation, so validation has nothing to report before it either.

## Key results

- `checkSteps_eq_ok_iff` / `checkSteps_eq_error_iff`: what validation reports of steps
- `RunAccount.scripting_error`: the step of a scripting error, and the steps before it
- `run_agrees_with_check`: a run and validation agree on the shapes of steps
-/

namespace GameInstaller

variable {σ : Type}

/-! ## Steps and the command table -/

namespace Step

/-- The command of the step is in the table. -/
def Known (s : Step) : Prop := (Command.ofName? s.command).isSome = true

/-- The error of a step whose command is not in the table. -/
def unknownError (s : Step) : ScriptingError :=
  (ScriptingError.unknownCommand s.command).atStep s.index s.command

/-- Validation has nothing to say of the step: its command is not in the table, or its parameters
    have the shape of the command. -/
def Fits (s : Step) : Prop := s.Known → ∃ o, s.operation = .ok o

theorem operation_of_unknown {s : Step} (hs : ¬ s.Known) :
    s.operation = .error (.scripting s.unknownError) := by
  have hname : Command.ofName? s.command = none := by simpa [Known] using hs
  simp only [operation, Command.resolve, hname, unknownError]

theorem operation_of_name {s : Step} {command : Command}
    (hname : Command.ofName? s.command = some command) :
    s.operation = (command.operation s.params).mapError fun e =>
      .scripting (e.atStep s.index s.command) := by
  simp only [operation, Command.resolve, hname]

/-- A step has an operation or a scripting error. -/
theorem operation_cases (s : Step) :
    (∃ o, s.operation = .ok o) ∨ ∃ e, s.operation = .error (.scripting e) := by
  cases hname : Command.ofName? s.command with
  | none => exact .inr ⟨_, operation_of_unknown (by simp [Known, hname])⟩
  | some command =>
    rw [operation_of_name hname]
    cases command.operation s.params with
    | ok o => exact .inl ⟨o, rfl⟩
    | error e => exact .inr ⟨_, rfl⟩

theorem fits_of_operation {s : Step} {o : Operation} (ho : s.operation = .ok o) : s.Fits :=
  fun _ => ⟨o, ho⟩

end Step

/-! ## Validation -/

namespace Recipe

theorem checkSteps_cons (s : Step) (rest : List Step) :
    checkSteps (s :: rest) = match Command.ofName? s.command with
      | none => checkSteps rest
      | some command => match command.operation s.params with
        | .ok _ => checkSteps rest
        | .error e => .error (e.atStep s.index s.command) := rfl

theorem checkSteps_cons_of_fits {s : Step} (hs : s.Fits) (rest : List Step) :
    checkSteps (s :: rest) = checkSteps rest := by
  rw [checkSteps_cons]
  cases hname : Command.ofName? s.command with
  | none => rfl
  | some command =>
    obtain ⟨o, ho⟩ := hs (by simp [Step.Known, hname])
    rw [Step.operation_of_name hname] at ho
    cases hc : command.operation s.params with
    | ok o => simp only [hc]
    | error e =>
      rw [hc] at ho
      cases ho

theorem checkSteps_cons_of_error {s : Step} {e : ScriptingError} (hs : s.Known)
    (ho : s.operation = .error (.scripting e)) (rest : List Step) :
    checkSteps (s :: rest) = .error e := by
  obtain ⟨command, hname⟩ := Option.isSome_iff_exists.mp hs
  rw [Step.operation_of_name hname] at ho
  rw [checkSteps_cons, hname]
  cases hc : command.operation s.params with
  | ok o =>
    rw [hc] at ho
    cases ho
  | error e' =>
    rw [hc] at ho
    cases ho
    simp only [hc]

/-- Steps that fit may stand in front. -/
theorem checkSteps_append_of_fits {before : List Step} (hb : ∀ s ∈ before, s.Fits)
    (rest : List Step) : checkSteps (before ++ rest) = checkSteps rest := by
  induction before with
  | nil => rfl
  | cons s before ih =>
    rw [List.cons_append, checkSteps_cons_of_fits (hb s List.mem_cons_self)]
    exact ih fun t ht => hb t (List.mem_cons_of_mem _ ht)

/-- A step that does not fit is known and has an error. -/
theorem exists_error_of_not_fits {s : Step} (hs : ¬ s.Fits) :
    s.Known ∧ ∃ e, s.operation = .error (.scripting e) := by
  obtain ⟨hk, hno⟩ := Classical.not_imp.mp hs
  exact ⟨hk, s.operation_cases.resolve_left hno⟩

/-- Validation reports the first step that does not fit. -/
theorem checkSteps_eq_error_iff {steps : List Step} {e : ScriptingError} :
    checkSteps steps = .error e ↔
      ∃ before step rest, steps = before ++ step :: rest ∧ (∀ s ∈ before, s.Fits) ∧
        step.Known ∧ step.operation = .error (.scripting e) := by
  constructor
  · intro he
    induction steps with
    | nil => cases he
    | cons s rest ih =>
      by_cases hs : s.Fits
      · rw [checkSteps_cons_of_fits hs] at he
        obtain ⟨before, step, rest', rfl, hb, hk, ho⟩ := ih he
        exact ⟨s :: before, step, rest', rfl, List.forall_mem_cons.mpr ⟨hs, hb⟩, hk, ho⟩
      · obtain ⟨hk, e', ho⟩ := exists_error_of_not_fits hs
        rw [checkSteps_cons_of_error hk ho] at he
        cases he
        exact ⟨[], s, rest, rfl, by simp, hk, ho⟩
  · rintro ⟨before, step, rest, rfl, hb, hk, ho⟩
    rw [checkSteps_append_of_fits hb, checkSteps_cons_of_error hk ho]

/-- Validation has nothing to report when all steps fit. -/
theorem checkSteps_eq_ok_iff {steps : List Step} :
    checkSteps steps = .ok () ↔ ∀ s ∈ steps, s.Fits := by
  induction steps with
  | nil => simp [checkSteps]
  | cons s rest ih =>
    by_cases hs : s.Fits
    · rw [checkSteps_cons_of_fits hs, ih, List.forall_mem_cons, and_iff_right hs]
    · obtain ⟨hk, e, ho⟩ := exists_error_of_not_fits hs
      rw [checkSteps_cons_of_error hk ho]
      exact ⟨nofun, fun hall => absurd (hall s List.mem_cons_self) hs⟩

/-- A recipe is valid when its metadata is in order and its steps fit. -/
theorem checkSteps_of_valid {r : Recipe} (hv : r.validate = .valid) :
    r.findings = [] ∧ checkSteps r.steps = .ok () := by
  have hf : r.findings = [] := r.validate_isValid.mp (by rw [hv]; rfl)
  refine ⟨hf, ?_⟩
  cases hc : checkSteps r.steps with
  | ok u => rfl
  | error e => simp [findings, hc] at hf

end Recipe

/-! ## Runs -/

/-- A step without an operation does nothing. -/
theorem Step.execute_of_error {h : Host σ} {c : Context} {g : Game} {s : Step} {e : InstallError}
    (ho : s.operation = .error e) : s.execute h c g = pure (.error e) := by
  unfold Step.execute
  rw [ho]

/-- An operation never fails with a scripting error. -/
theorem Step.operation_of_execute {h : Host σ} {c : Context} {g : Game} {s : Step} {t : σ}
    {e : ScriptingError} (he : ((s.execute h c g).run t).1 = .error (.scripting e)) :
    s.operation = .error (.scripting e) := by
  rcases s.operation_cases with ⟨o, ho⟩ | ⟨e', ho⟩
  · rw [Step.execute_run_of_operation ho] at he
    cases hr : ((o.apply h c g).run t).1 <;> (rw [hr] at he; cases he)
  · rw [Step.execute_of_error ho] at he
    cases he
    exact ho

section Runs

variable {h : Host σ} {c : Context} {g : Game} {steps : List Step} {errors : Errors} {s s₁ : σ}
  {log : List Attempt} {out : (RunResult × Errors) × σ}

/-- A step that passes has an operation. -/
theorem Attempts.operation_of_passes (hl : Attempts h c g s log s₁) {a : Attempt} (ha : a ∈ log)
    (hp : a.Passes) : ∃ o, a.step.operation = .ok o := by
  refine a.step.operation_cases.resolve_right fun ⟨e, ho⟩ => ?_
  -- The error of a step without an operation is fatal.
  obtain ⟨u, hu⟩ := hl.outcome_eq ha
  rw [Step.execute_of_error ho] at hu
  cases hp _ (Attempt.error?_eq_some_iff.mpr hu.symm)

/-- A scripting error of a run is that of a step which has no operation, and every step before that
    one has one. -/
theorem RunAccount.scripting_error (ha : RunAccount h c g steps errors s log s₁ out)
    {e : ScriptingError} (he : .scripting e ∈ failures log) :
    ∃ before step rest, steps = before ++ step :: rest ∧
      (∀ s ∈ before, ∃ o, s.operation = .ok o) ∧ step.operation = .error (.scripting e) := by
  obtain ⟨a, hlog, hae⟩ := List.mem_filterMap.mp he
  obtain ⟨front, rfl, hpass⟩ := ha.last_of_fatal hlog hae rfl
  obtain ⟨rest, hrest⟩ := ha.authored
  refine ⟨front.map (·.step), a.step, rest, by simp [← hrest], ?_, ?_⟩
  · intro step hstep
    obtain ⟨b, hb, rfl⟩ := List.mem_map.mp hstep
    exact ha.attempts.operation_of_passes (List.mem_append_left _ hb) (hpass b hb)
  · obtain ⟨u, hu⟩ := ha.attempts.outcome_eq hlog
    exact Step.operation_of_execute (hu.trans (Attempt.error?_eq_some_iff.mp hae))

/-- The error that a run fails with is one that it recorded. -/
theorem RunAccount.mem_failures_of_failed (ha : RunAccount h c g steps errors s log s₁ out)
    {e : InstallError} {es : Errors} (hr : out.1.1 = .failed e es) : e ∈ failures log :=
  List.mem_of_getLast? ((ha.failed_iff e es).mp hr).1

/-- When validation has nothing to report of the steps, the scripting errors of a run are those of
    commands that are not in the table. -/
theorem RunAccount.unknown_of_checked (ha : RunAccount h c g steps errors s log s₁ out)
    (hc : Recipe.checkSteps steps = .ok ()) {e : ScriptingError}
    (he : .scripting e ∈ failures log) : ∃ step ∈ steps, ¬ step.Known ∧ e = step.unknownError := by
  obtain ⟨before, step, rest, rfl, -, ho⟩ := ha.scripting_error he
  refine ⟨step, by simp, ?_⟩
  have hk : ¬ step.Known := by
    intro hk
    obtain ⟨o, hok⟩ := Recipe.checkSteps_eq_ok_iff.mp hc step (by simp) hk
    rw [hok] at ho
    cases ho
  rw [Step.operation_of_unknown hk] at ho
  cases ho
  exact ⟨hk, rfl⟩

end Runs

/-- An install of a valid recipe has the result of its run, and no errors but those of its run. -/
theorem Session.install_of_run {r : Recipe} (hf : r.findings = []) {h : Host σ} {c : Context}
    {s s' : σ} {result : RunResult} {errors : Errors}
    (hr : (GameInstaller.run h c r.game r.steps []).run s = ((result, errors), s')) :
    (((start r).install h c).run s).1.1 = result ∧
      ∀ e ∈ (((start r).install h c).run s).1.2.errors, e ∈ errors := by
  rw [install_of_valid hf, run_bind_of hr]
  cases result with
  | abandoned k => exact ⟨rfl, nofun⟩
  | succeeded n => exact ⟨rfl, fun _ he => he⟩
  | failed e es => exact ⟨rfl, fun _ he => he⟩
  | rejected v => exact ⟨rfl, fun _ he => he⟩

/-- Validation and runs agree on the shapes of steps.  The scripting error that a run fails with at
    a known command is the one that validation reports.  When validation has nothing to report of
    the steps, the scripting errors of every run are those of commands that are not in the table, and
    so are those of every install of a valid recipe. -/
theorem run_agrees_with_check (r : Recipe) (h : Host σ) (c : Context) (g : Game) (errors : Errors)
    (s : σ) :
    (∀ e es, ((run h c g r.steps errors).run s).1.1 = .failed (.scripting e) es →
      ∃ before step rest, r.steps = before ++ step :: rest ∧
        e.step = some step.index ∧ e.command = some step.command ∧
        (step.Known → Recipe.checkSteps r.steps = .error e) ∧
        (¬ step.Known → e = step.unknownError)) ∧
    (Recipe.checkSteps r.steps = .ok () →
      ∃ new, ((run h c g r.steps errors).run s).1.2 = errors ++ new ∧
        ∀ e, (.scripting e ∈ new ∨
            ∃ es, ((run h c g r.steps errors).run s).1.1 = .failed (.scripting e) es) →
          ∃ step ∈ r.steps, ¬ step.Known ∧ e = step.unknownError) ∧
    (r.validate = .valid → ∀ session : Session, session.recipe = r →
      (∀ v, ((session.install h c).run s).1.1 ≠ .rejected v) ∧
        ∀ e, (.scripting e ∈ ((session.install h c).run s).1.2.errors ∨
            ∃ es, ((session.install h c).run s).1.1 = .failed (.scripting e) es) →
          ∃ step ∈ r.steps, ¬ step.Known ∧ e = step.unknownError) := by
  -- What is said of a run is read off its account.
  have account (g : Game) (errors : Errors) : ∃ log s₁,
      RunAccount h c g r.steps errors s log s₁ ((run h c g r.steps errors).run s) := by
    obtain ⟨log, s₁, hl, he⟩ := exists_ending h c g 0 errors r.steps
      ((h.opening c g r.steps.length).run s).2
    exact ⟨log, s₁, .of_ending rfl hl he⟩
  refine ⟨fun e es hfail => ?_, fun hc => ?_, ?_⟩
  · obtain ⟨log, s₁, ha⟩ := account g errors
    obtain ⟨before, step, rest, hsplit, hb, ho⟩ :=
      ha.scripting_error (ha.mem_failures_of_failed hfail)
    obtain ⟨hindex, hcommand, -⟩ := Step.operation_error ho
    refine ⟨before, step, rest, hsplit, hindex, hcommand, fun hk => ?_, fun hk => ?_⟩
    · exact Recipe.checkSteps_eq_error_iff.mpr ⟨before, step, rest, hsplit, fun b hbm =>
        Step.fits_of_operation (hb b hbm).choose_spec, hk, ho⟩
    · rw [Step.operation_of_unknown hk] at ho
      cases ho
      rfl
  · obtain ⟨log, s₁, ha⟩ := account g errors
    refine ⟨failures log, ha.collected, fun e he => ?_⟩
    refine ha.unknown_of_checked hc ?_
    rcases he with hnew | ⟨es, hfail⟩
    · exact hnew
    · exact ha.mem_failures_of_failed hfail
  · rintro hv session rfl
    obtain ⟨hf, hc⟩ := Recipe.checkSteps_of_valid hv
    obtain ⟨log, s₁, ha⟩ := account session.recipe.game []
    have hi := install_account_of_valid hf h c s
    rcases hr : (run h c session.recipe.game session.recipe.steps []).run s with ⟨⟨result, new⟩, s'⟩
    rw [hr] at ha
    -- An install starts afresh, and of a valid recipe it is a run.
    obtain ⟨hresult, herrors⟩ := Session.install_of_run hf hr
    rw [session.install_eq_start]
    refine ⟨fun v hrej => absurd hf ((hi.rejected_iff v).mp hrej).2, fun e he => ?_⟩
    refine ha.unknown_of_checked hc ?_
    rcases he with hmem | ⟨es, hfail⟩
    · exact (show new = failures log from ha.collected) ▸ herrors _ hmem
    · exact ha.mem_failures_of_failed (hresult ▸ hfail)

/-- A run that meets parameters of another shape, and an install of a valid recipe that meets a
    command that is not in the table. -/
theorem run_agrees_with_check_rehearsed :
    let h := Rehearsal.host .remembered .remembered (.standIn "linux" none) false
    let c := Context.ofGameDir ⟨"/games/baz"⟩ none
    let recipe (steps : List Step) : Recipe :=
      ⟨[("runner", .string "linux"), ("name", .string "Baz"), ("game_slug", .string "baz")], steps⟩
    let data : Step := ⟨0, "mkdir", .string "data"⟩
    let shapeless : Step := ⟨1, "move", .string "data"⟩
    let unknown : Step := ⟨1, "teleport", .null⟩
    let p : Rehearsal :=
      ⟨.fresh ⟨[]⟩ ⟨0, 0⟩, ⟨[], [], [], none, false⟩, ⟨⟨"linux", true, none⟩, none, []⟩, []⟩
    (∃ e es, ((run h c (recipe []).game [data, shapeless] []).run p).1.1 =
        .failed (.scripting e) es ∧ shapeless.Known ∧
        Recipe.checkSteps [data, shapeless] = .error e) ∧
      (recipe [data, unknown]).validate = .valid ∧
      ∃ e es, (((Session.start (recipe [data, unknown])).install h c).run p).1.1 =
        .failed (.scripting e) es ∧ ∃ step ∈ [data, unknown], ¬ step.Known ∧ e = step.unknownError := by
  intro h c recipe data shapeless unknown p
  have hshape := (run_agrees_with_check (recipe [data, shapeless]) h c (recipe []).game [] p).1
  have hinstall := (run_agrees_with_check (recipe [data, unknown]) h c (recipe []).game [] p).2.2
  have hvalid : (recipe [data, unknown]).validate = .valid := by decide +kernel
  refine ⟨⟨_, _, rfl, rfl, ?_⟩, hvalid, _, _, rfl, ?_⟩
  · obtain ⟨before, step, rest, hsplit, -, hcommand, hknown, -⟩ := hshape _ _ rfl
    refine hknown ?_
    have : step.command = "move" := (Option.some.inj hcommand).symm
    rw [Step.Known, this]
    rfl
  · exact (hinstall hvalid (Session.start (recipe [data, unknown])) rfl).2 _ (.inr ⟨_, rfl⟩)

end GameInstaller
