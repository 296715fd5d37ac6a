import GameInstaller.Proofs.Install.Attempts
import GameInstaller.Proofs.Install.Recording
import Mathlib.Data.List.Induction

/-!
# Calls of a session

A session is validated, run, installed and reset in any order.  Its errors are those that its calls
since the last fresh start produced, each call as if it were the only one; an install makes a fresh
start, so that nothing before it has any influence.

## Key results

- `run_errors`: the errors of a run come after those that were there
- `after_errors`: the errors of a session, after any calls
- `session_account`: the same, and what an install leaves behind
-/

namespace GameInstaller

variable {σ : Type}

/-! ## Errors that were there before a run -/

/-- A result when errors were there before the run. -/
def RunResult.withEarlier (earlier : Errors) : RunResult → RunResult
  | failed e errors => failed e (earlier ++ errors)
  | result => result

theorem RunResult.closing_withEarlier (earlier : Errors) (result : RunResult) (g : Game)
    (runId : String) (seconds : Decimal.Binary64) :
    (result.withEarlier earlier).closing g runId seconds = result.closing g runId seconds := by
  cases result <;> rfl

/-- Steps run the same whatever errors were there before. -/
theorem runSteps_errors (h : Host σ) (c : Context) (g : Game) (n : Nat) (earlier errors : Errors)
    (steps : List Step) :
    runSteps h c g n (earlier ++ errors) steps =
      (do let (result, errors) ← runSteps h c g n errors steps
          pure (result.withEarlier earlier, earlier ++ errors)) := by
  induction steps generalizing n errors with
  | nil => simp [runSteps, RunResult.withEarlier]
  | cons step rest ih =>
    simp only [runSteps, bind_assoc]
    refine bind_congr fun cancelled => ?_
    cases cancelled with
    | true => simp [RunResult.withEarlier]
    | false =>
      simp only [Bool.false_eq_true, ↓reduceIte, bind_assoc]
      refine bind_congr fun outcome => ?_
      cases outcome with
      | ok => exact ih (n + 1) errors
      | error e =>
        dsimp only
        split
        · simp [RunResult.withEarlier]
        · rw [List.append_assoc]
          exact ih (n + 1) (errors ++ [e])

/-- The errors of a run come after those that were there, and these have no influence. -/
theorem run_errors (h : Host σ) (c : Context) (g : Game) (steps : List Step) (earlier : Errors) :
    run h c g steps earlier =
      (do let (result, errors) ← run h c g steps []
          pure (result.withEarlier earlier, earlier ++ errors)) := by
  have hsteps := runSteps_errors h c g 0 earlier [] steps
  rw [List.append_nil] at hsteps
  simp only [run_eq, hsteps, bind_assoc, pure_bind]
  refine bind_congr fun opening => bind_congr fun out => ?_
  simp only [Host.closing, RunResult.closing_withEarlier]

/-! ## What validation finds -/

namespace Recipe

/-- What is wrong with a recipe: its metadata, and then the first step that does not fit its
    command. -/
def findings (r : Recipe) : Errors :=
  r.metadataErrors.map .validation ++
    match checkSteps r.steps with
    | .ok _ => []
    | .error e => [.scripting e]

theorem validate_errors (r : Recipe) : r.validate.errors r.metadataErrors = r.findings := by
  unfold validate findings
  cases checkSteps r.steps with
  | error e => rfl
  | ok _ =>
    dsimp only
    split <;> simp [Validation.errors]

/-- A recipe is valid when nothing is wrong with it. -/
theorem validate_isValid (r : Recipe) : r.validate.isValid = true ↔ r.findings = [] := by
  unfold validate findings
  cases checkSteps r.steps with
  | error e => simp [Validation.isValid]
  | ok _ => by_cases hm : r.metadataErrors = [] <;> simp [Validation.isValid, hm]

end Recipe

/-! ## Calls -/

/-- A call of a session.  Each call has a host of its own, and finds it in any state. -/
inductive SessionCall : Type 1 where
  | validate
  | run {σ : Type} (h : Host σ) (c : Context) (s : σ)
  | install {σ : Type} (h : Host σ) (c : Context) (s : σ)
  | reset

namespace SessionCall

/-- The session after a call. -/
def apply (session : Session) : SessionCall → Session
  | validate => session.validate.2
  | run h c s => ((session.run h c).run s).1.2
  | install h c s => ((session.install h c).run s).1.2
  | reset => session.reset

/-- Whether a call starts afresh. -/
def isFresh : SessionCall → Bool
  | install .. | reset => true
  | validate | run .. => false

/-- The errors that a call produces, on its own.  An install that is called off takes back what it
    produced. -/
def produced (r : Recipe) : SessionCall → Errors
  | validate => r.findings
  | run h c s => ((GameInstaller.run h c r.game r.steps []).run s).1.2
  | install h c s =>
    if r.findings = [] then
      match ((GameInstaller.run h c r.game r.steps []).run s).1 with
      | (.abandoned _, _) => []
      | (_, errors) => errors
    else r.findings
  | reset => []

/-- The calls from the last fresh start on. -/
def recent : List SessionCall → List SessionCall
  | [] => []
  | call :: rest => if rest.any isFresh then recent rest else call :: rest

theorem recent_append_singleton (calls : List SessionCall) (call : SessionCall) :
    recent (calls ++ [call]) = if call.isFresh then [call] else recent calls ++ [call] := by
  induction calls with
  | nil => cases call.isFresh <;> simp [recent]
  | cons first rest ih =>
    rw [List.cons_append, recent, ih]
    cases hcall : call.isFresh with
    | true => simp [hcall]
    | false =>
      cases hrest : rest.any isFresh with
      | true => simp [recent, hcall, hrest]
      | false => simp [recent, hcall, hrest]

end SessionCall

namespace Session

/-- The session after calls. -/
def after (session : Session) (calls : List SessionCall) : Session :=
  calls.foldl SessionCall.apply session

theorem validate_run (session : Session) :
    session.validate = (session.recipe.validate,
      ⟨session.recipe, session.errors ++ session.recipe.findings⟩) := by
  rw [← session.recipe.validate_errors]
  rfl

/-- An install finds nothing of what was before it. -/
theorem install_eq_start (session : Session) (h : Host σ) (c : Context) :
    session.install h c = (start session.recipe).install h c := rfl

/-- An install of a recipe that is not valid makes no call. -/
theorem install_of_findings {r : Recipe} (hf : r.findings ≠ []) (h : Host σ) (c : Context) :
    (start r).install h c = pure (.rejected r.validate, ⟨r, r.findings⟩) := by
  have hv : ¬ r.validate.isValid = true := by rwa [Recipe.validate_isValid]
  rw [install, validate_run]
  exact if_neg hv

/-- An install of a valid recipe is a run. -/
theorem install_of_valid {r : Recipe} (hf : r.findings = []) (h : Host σ) (c : Context) :
    (start r).install h c = (do
      let (result, errors) ← GameInstaller.run h c r.game r.steps []
      match result with
      | .abandoned _ => pure (result, start r)
      | _ => pure (result, ⟨r, errors⟩)) := by
  have hv : r.validate.isValid = true := by rwa [Recipe.validate_isValid]
  rw [install, validate_run]
  refine (if_pos hv).trans ?_
  have hstart : (start r).reset.recipe.findings = [] := hf
  rw [run, bind_assoc, hstart]
  refine bind_congr fun (result, errors) => ?_
  cases result <;> rfl

/-- What a call does to a session. -/
theorem apply_eq (session : Session) (call : SessionCall) :
    call.apply session = ⟨session.recipe,
      if call.isFresh then call.produced session.recipe
      else session.errors ++ call.produced session.recipe⟩ := by
  cases call with
  | validate => exact congrArg Prod.snd session.validate_run
  | reset => rfl
  | run h c s =>
    rcases hr : (GameInstaller.run h c session.recipe.game session.recipe.steps []).run s
      with ⟨⟨result, errors⟩, s'⟩
    simp only [SessionCall.apply, run]
    rw [run_errors, bind_assoc, run_bind_of hr]
    simp only [SessionCall.produced, SessionCall.isFresh, hr]
    rfl
  | install h c s =>
    simp only [SessionCall.apply, SessionCall.isFresh, SessionCall.produced, if_true]
    rw [install_eq_start]
    by_cases hf : session.recipe.findings = []
    · rcases hr : (GameInstaller.run h c session.recipe.game session.recipe.steps []).run s
        with ⟨⟨result, errors⟩, s'⟩
      rw [install_of_valid hf, run_bind_of hr, if_pos hf]
      cases result <;> rfl
    · rw [install_of_findings hf, if_neg hf]
      rfl

theorem after_append_singleton (session : Session) (calls : List SessionCall)
    (call : SessionCall) : session.after (calls ++ [call]) = call.apply (session.after calls) := by
  simp [after, List.foldl_append]

/-- The errors of a session are those that its calls since the last fresh start produced. -/
theorem after_errors (r : Recipe) (calls : List SessionCall) :
    (start r).after calls = ⟨r, (SessionCall.recent calls).flatMap (SessionCall.produced r)⟩ := by
  induction calls using List.reverseRecOn with
  | nil => rfl
  | append_singleton calls call ih =>
    -- The last call starts afresh, or adds to what the calls before it left.
    rw [after_append_singleton, ih, apply_eq, SessionCall.recent_append_singleton]
    split <;> simp

end Session

/-! ## What an install leaves behind -/

section Runs

variable {h : Host σ} {c : Context} {g : Game} {steps : List Step} {errors : Errors} {s s₁ : σ}
  {log : List Attempt} {out : (RunResult × Errors) × σ}

/-- A run that comes to its end met nothing but targets that were there already. -/
theorem RunAccount.errors_of_succeeded (ha : RunAccount h c g steps errors s log s₁ out) {n : Nat}
    (hr : out.1.1 = .succeeded n) {e : InstallError} (he : e ∈ failures log) :
    e.severity = .advisory ∧ ∃ x : ExecutionError, e = .execution x ∧ x.kind = .alreadyExists := by
  obtain ⟨a, hlog, hae⟩ := List.mem_filterMap.mp he
  have hadvisory := ha.passes_of_not_failed (by simp [hr]) a hlog e hae
  exact ⟨hadvisory, (ha.attempts.error_of_mem hlog hae).2.2 hadvisory⟩

/-- A run that fails does so at its last error, the only fatal one. -/
theorem RunAccount.errors_of_failed (ha : RunAccount h c g steps errors s log s₁ out)
    {e : InstallError} {es : Errors} (hr : out.1.1 = .failed e es) :
    es = out.1.2 ∧ e.severity = .fatal ∧
      ∃ front, failures log = front ++ [e] ∧ ∀ x ∈ front, x.severity = .advisory := by
  obtain ⟨hlast, hfatal, hes⟩ := (ha.failed_iff e es).mp hr
  obtain ⟨front, hfront⟩ := List.getLast?_eq_some_iff.mp hlast
  have hall := ha.advisory
  rw [hfront, List.dropLast_concat] at hall
  exact ⟨hes, hfatal, front, hfront, hall⟩

end Runs

/-- What an install comes to that starts in the state `s` and gives `out`. -/
structure InstallAccount (r : Recipe) (h : Host σ) (c : Context) (s : σ)
    (out : (RunResult × Session) × σ) : Prop where
  recipe : out.1.2.recipe = r
  rejected_iff : ∀ v, out.1.1 = .rejected v ↔ v = r.validate ∧ r.findings ≠ []
  rejected : ∀ v, out.1.1 = .rejected v → out.1.2.errors = r.findings ∧ out.2 = s
  /-- A host that writes down its calls writes down none. -/
  unasked : ∀ v, out.1.1 = .rejected v → ∀ asked,
    ((Session.start r).install h.recorded c).run (s, asked) = (out.1, (s, asked))
  succeeded : ∀ n, out.1.1 = .succeeded n → ∀ e ∈ out.1.2.errors,
    e.severity = .advisory ∧ ∃ x : ExecutionError, e = .execution x ∧ x.kind = .alreadyExists
  failed : ∀ e es, out.1.1 = .failed e es → es = out.1.2.errors ∧ e.severity = .fatal ∧
    ∃ front, out.1.2.errors = front ++ [e] ∧ ∀ x ∈ front, x.severity = .advisory
  abandoned : ∀ k, out.1.1 = .abandoned k → out.1.2.errors = []

/-- What an install of a recipe that is not valid comes to. -/
theorem install_account_of_findings {r : Recipe} (hf : r.findings ≠ []) (h : Host σ) (c : Context)
    (s : σ) : InstallAccount r h c s (((Session.start r).install h c).run s) := by
  have hinstall (τ : Type) (h : Host τ) := Session.install_of_findings hf h c
  rw [hinstall]
  exact {
    recipe := rfl
    rejected_iff := fun v => ⟨fun hv => ⟨(RunResult.rejected.inj hv).symm, hf⟩, fun hv => hv.1 ▸ rfl⟩
    rejected := fun _ _ => ⟨rfl, rfl⟩
    unasked := fun _ _ _ => by rw [hinstall]; rfl
    succeeded := nofun
    failed := nofun
    abandoned := nofun }

/-- What an install of a valid recipe comes to. -/
theorem install_account_of_valid {r : Recipe} (hf : r.findings = []) (h : Host σ) (c : Context)
    (s : σ) : InstallAccount r h c s (((Session.start r).install h c).run s) := by
  -- A session that starts afresh gives its run no errors, so all errors are those of the run.
  obtain ⟨log, s₁, hl, he⟩ := exists_ending h c r.game 0 [] r.steps
    ((h.opening c r.game r.steps.length).run s).2
  have ha := RunAccount.of_ending rfl hl he
  rcases hr : (run h c r.game r.steps []).run s with ⟨⟨result, errors⟩, s'⟩
  rw [hr] at ha
  obtain rfl : errors = failures log := ha.collected
  rw [Session.install_of_valid hf, run_bind_of hr]
  cases result with
  | succeeded n =>
    exact {
      recipe := rfl
      rejected_iff := fun v => ⟨nofun, fun hv => absurd hf hv.2⟩
      rejected := nofun
      unasked := nofun
      succeeded := fun _ _ _ he => ha.errors_of_succeeded rfl he
      failed := nofun
      abandoned := nofun }
  | failed e es =>
    exact {
      recipe := rfl
      rejected_iff := fun v => ⟨nofun, fun hv => absurd hf hv.2⟩
      rejected := nofun
      unasked := nofun
      succeeded := nofun
      failed := fun _ _ hes => ha.errors_of_failed hes
      abandoned := nofun }
  | abandoned k =>
    exact {
      recipe := rfl
      rejected_iff := fun v => ⟨nofun, fun hv => absurd hf hv.2⟩
      rejected := nofun
      unasked := nofun
      succeeded := nofun
      failed := nofun
      abandoned := fun _ _ => rfl }
  | rejected v =>
    -- A run does not reject anything.
    have := ha.succeeded_of nofun nofun
    cases this.1

/-- After any calls the errors of a session are those that its calls since the last fresh start
    produced, and an install comes to what it would come to without these calls. -/
theorem session_account (r : Recipe) (calls : List SessionCall) :
    let session := (Session.start r).after calls
    session.recipe = r ∧
      session.errors = (SessionCall.recent calls).flatMap (SessionCall.produced r) ∧
      ∀ {σ : Type} (h : Host σ) (c : Context) (s : σ),
        session.install h c = (Session.start r).install h c ∧
          InstallAccount r h c s ((session.install h c).run s) := by
  intro session
  have hsession : session = ⟨r, (SessionCall.recent calls).flatMap (SessionCall.produced r)⟩ :=
    Session.after_errors r calls
  refine ⟨congrArg Session.recipe hsession, congrArg Session.errors hsession, fun {σ} h c s => ?_⟩
  -- An install resets the session first.
  have hstart : session.install h c = (Session.start r).install h c := by
    rw [session.install_eq_start, hsession]
  refine ⟨hstart, ?_⟩
  rw [hstart]
  -- What validation finds decides whether anything is run.
  by_cases hf : r.findings = []
  · exact install_account_of_valid hf h c s
  · exact install_account_of_findings hf h c s

end GameInstaller
