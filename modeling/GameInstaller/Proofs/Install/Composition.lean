import GameInstaller.Install.Rehearsal
import GameInstaller.Proofs.Install.Views

/-!
# Runs in parts

A run never looks ahead and never undoes anything, so a list of steps may be cut anywhere: running
it is running the first part and then, if that came to its end, the second.

## Key results

- `runSteps_append`: the cut, for steps alone and on any host
- `runThen_related`: the cut for whole runs, as far as a view shows them
- `run_composes`: the cut for whole runs without a journal, with the calls that they make, and what
  a run leaves that did not come to its end
-/

namespace GameInstaller

variable {σ κ α β : Type}

/-! ## Cutting a list of steps -/

/-- A result when `m` steps were done before. -/
def RunResult.after (m : Nat) : RunResult → RunResult
  | succeeded n => succeeded (m + n)
  | abandoned n => abandoned (m + n)
  | failed e errors => failed e errors
  | rejected v => rejected v

section Cut

variable (h : Host σ) (c : Context) (g : Game)

/-- The number of steps done before only counts. -/
theorem runSteps_add (m n : Nat) (errors : Errors) (steps : List Step) :
    runSteps h c g (m + n) errors steps =
      (do let (result, errors) ← runSteps h c g n errors steps
          pure (result.after m, errors)) := by
  induction steps generalizing n errors with
  | nil => simp [runSteps, RunResult.after]
  | cons step rest ih =>
    simp only [runSteps, bind_assoc]
    refine bind_congr fun cancelled => ?_
    cases cancelled with
    | true => simp [RunResult.after]
    | false =>
      simp only [Bool.false_eq_true, ↓reduceIte, bind_assoc]
      refine bind_congr fun outcome => ?_
      cases outcome with
      | ok => exact ih (n + 1) errors
      | error e =>
        dsimp only
        split
        · simp [RunResult.after]
        · exact ih (n + 1) (errors ++ [e])

/-- Go on with further steps when all steps so far were done. -/
def goOn (rest : List Step) : RunResult × Errors → StateM σ (RunResult × Errors)
  | (.succeeded n, errors) => runSteps h c g n errors rest
  | out => pure out

/-- Steps may be run in two parts. -/
theorem runSteps_append (n : Nat) (errors : Errors) (xs ys : List Step) :
    runSteps h c g n errors (xs ++ ys) = runSteps h c g n errors xs >>= goOn h c g ys := by
  induction xs generalizing n errors with
  | nil => simp [runSteps, goOn]
  | cons step rest ih =>
    simp only [List.cons_append, runSteps, bind_assoc]
    refine bind_congr fun cancelled => ?_
    cases cancelled with
    | true => simp [goOn]
    | false =>
      simp only [Bool.false_eq_true, ↓reduceIte, bind_assoc]
      refine bind_congr fun outcome => ?_
      cases outcome with
      | ok => exact ih (n + 1) errors
      | error e =>
        dsimp only
        split
        · simp [goOn]
        · exact ih (n + 1) (errors ++ [e])

/-- Run one list of steps and then, if all of them were done, another one. -/
def runThen (xs ys : List Step) (errors : Errors) : StateM σ (RunResult × Errors) := do
  match ← run h c g xs errors with
  | (.succeeded m, errors) =>
    let (result, errors) ← run h c g ys errors
    pure (result.after m, errors)
  | out => pure out

end Cut

/-! ## Cutting a run -/

section Runs

variable {h : Host σ} {view : σ → κ} {c : Context} {g : Game}

/-- A run in two parts looks like its steps in two parts. -/
theorem runThen_related (hv : h.Respects view) (hlog : ∀ e, Silent view (h.log c g e))
    (xs ys : List Step) (errors : Errors) :
    Related (Agree view) (runThen h c g xs ys errors) (runSteps h c g 0 errors (xs ++ ys)) := by
  rw [runSteps_append]
  refine (run_related_runSteps hv hlog xs errors).bind fun (result, collected) => ?_
  -- Only a run that did all its steps is followed by the other one.
  cases result with
  | succeeded m =>
    simp only [goOn]
    rw [← Nat.add_zero m, runSteps_add]
    refine (run_related_runSteps hv hlog ys collected).bind fun (result, collected') => ?_
    rw [Nat.add_zero]
    exact .pure _
  | failed e es => exact .pure _
  | abandoned k => exact .pure _
  | rejected v => exact .pure _

/-- Without a journal the opening of a run does not hang on the number of its steps. -/
theorem Host.opening_of_none (h : Host σ) (g : Game) (hc : c.journalDir = none) (m n : Nat) :
    h.opening c g m = h.opening c g n := by
  simp only [Host.opening, Host.log, hc]

/-- Attempts that pass and are all there is to a run make it succeed. -/
theorem run_of_attempts {steps : List Step} {errors : Errors} {log : List Attempt}
    {s s₀ s₁ : σ} {start : Nat} {runId : String}
    (ho : (h.opening c g steps.length).run s = ((start, runId), s₀))
    (hl : Attempts h c g s₀ log s₁) (hp : ∀ a ∈ log, a.Passes)
    (hs : log.map (·.step) = steps) :
    (run h c g steps errors).run s = ((.succeeded log.length, errors ++ failures log),
      ((h.closing c g start runId (.succeeded log.length)).run s₁).2) := by
  refine run_run h c g steps errors ho ?_
  have := runSteps_attempts 0 errors [] hl hp
  rw [List.append_nil, hs, Nat.zero_add] at this
  exact this

/-- A run that is called off after `k` steps leaves what its first `k` steps leave and one more look
    at the flag. -/
theorem run_take_of_abandoned (hv : h.Respects view) (hc : c.journalDir = none)
    {steps : List Step} {errors : Errors} {s : σ} {k : Nat}
    (hk : ((run h c g steps errors).run s).1.1 = .abandoned k) :
    ((run h c g (steps.take k) errors).run s).1 =
        (.succeeded k, ((run h c g steps errors).run s).1.2) ∧
      view ((run h c g steps errors).run s).2 =
        view (h.isCancelled.run ((run h c g (steps.take k) errors).run s).2).2 := by
  have hlog := h.log_silent_of_none view g hc
  rcases ho : (h.opening c g steps.length).run s with ⟨⟨start, runId⟩, s₀⟩
  obtain ⟨log, s₁, hl, he⟩ := exists_ending h c g 0 errors steps s₀
  rcases hr : (runSteps h c g 0 errors steps).run s₀ with ⟨⟨result, collected⟩, s₂⟩
  rw [hr] at he
  have hrun := run_run h c g steps errors ho hr
  rw [hrun] at hk ⊢
  obtain rfl : result = .abandoned k := hk
  cases he with
  | abandoned next rest _ authored passes flag =>
    -- The steps that were attempted are the first ones, and all of them passed.
    have htake : steps.take (0 + log.length) = log.map (·.step) := by
      rw [← authored, Nat.zero_add]
      exact List.take_left' (by simp)
    have ho' := ho
    rw [h.opening_of_none g hc _ (log.map (·.step)).length] at ho'
    rw [htake, run_of_attempts ho' hl passes rfl, Nat.zero_add]
    refine ⟨rfl, ?_⟩
    -- Both states come from `s₁`, one by a look at the flag.
    have hflag : view s₂ = view (h.isCancelled.run s₁).2 := by rw [flag]
    rw [Host.closing_silent hv hlog, hflag]
    exact (hv.flag _ _ (Host.closing_silent hv hlog start runId _ s₁).symm).2

/-- A run that fails at its step `k` is the run of its first `k + 1` steps, and the `k` steps before
    that one were done. -/
theorem run_take_of_failed (hc : c.journalDir = none) {steps : List Step} {errors : Errors} {s : σ}
    {e : InstallError} {es : Errors} (hf : ((run h c g steps errors).run s).1.1 = .failed e es) :
    ∃ k < steps.length, ((run h c g (steps.take k) errors).run s).1.1 = .succeeded k ∧
      (run h c g (steps.take (k + 1)) errors).run s = (run h c g steps errors).run s := by
  rcases ho : (h.opening c g steps.length).run s with ⟨⟨start, runId⟩, s₀⟩
  obtain ⟨log, s₁, hl, he⟩ := exists_ending h c g 0 errors steps s₀
  rcases hr : (runSteps h c g 0 errors steps).run s₀ with ⟨⟨result, collected⟩, s₂⟩
  rw [hr] at he
  have hrun := run_run h c g steps errors ho hr
  rw [hrun] at hf ⊢
  obtain rfl : result = .failed e es := hf
  cases he with
  | failed before last _ rest split authored passes error fatal =>
    subst split
    have ho' (n : Nat) := h.opening_of_none g hc steps.length n ▸ ho
    obtain ⟨t, u, hbefore, flag, perform⟩ := hl.of_append_singleton
    have hsteps : steps = before.map (·.step) ++ last.step :: rest := by simp [← authored]
    -- The failing step is the one after those that passed.
    refine ⟨before.length, by simp [hsteps], ?_, ?_⟩
    · have htake : steps.take before.length = before.map (·.step) := by
        rw [hsteps]
        exact List.take_left' (by simp)
      rw [htake, run_of_attempts (ho' _) hbefore passes rfl]
    · have htake : steps.take (before.length + 1) = before.map (·.step) ++ [last.step] := by
        have happ := List.append_cons (before.map (·.step)) last.step rest
        rw [hsteps, happ]
        exact List.take_left' (by simp)
      have hsteps' : (runSteps h c g 0 errors (before.map (·.step) ++ [last.step])).run s₀ =
          ((.failed e (errors ++ failures (before ++ [last])),
            errors ++ failures (before ++ [last])), s₁) := by
        rw [runSteps_attempts _ _ _ hbefore passes, runSteps_of_fatal _ _ _ flag perform error fatal]
        simp [failures_cons, error]
      rw [htake, run_run h c g _ errors (ho' _) hsteps']

/-- Running steps is running some of them and then, if these came to their end, the others: the
    same result, errors, states of the collaborators and calls.  A run that is called off leaves
    what its done steps leave, but for the look at the flag that called it off, and a run that fails
    leaves what its steps leave up to the one that failed. -/
theorem run_composes (hv : h.Respects view) (hc : c.journalDir = none) (errors : Errors)
    (p : σ × List Request) :
    (∀ xs ys,
      ((run h.recorded c g (xs ++ ys) errors).run p).1 =
          ((runThen h.recorded c g xs ys errors).run p).1 ∧
        withRecord view ((run h.recorded c g (xs ++ ys) errors).run p).2 =
          withRecord view ((runThen h.recorded c g xs ys errors).run p).2) ∧
    (∀ steps k, ((run h.recorded c g steps errors).run p).1.1 = .abandoned k →
      let part := (run h.recorded c g (steps.take k) errors).run p
      part.1 = (.succeeded k, ((run h.recorded c g steps errors).run p).1.2) ∧
        withRecord view ((run h.recorded c g steps errors).run p).2 =
          withRecord view (h.recorded.isCancelled.run part.2).2 ∧
        (Silent view h.isCancelled →
          withRecord view ((run h.recorded c g steps errors).run p).2 = withRecord view part.2)) ∧
    (∀ steps e es, ((run h.recorded c g steps errors).run p).1.1 = .failed e es →
      ∃ k < steps.length,
        ((run h.recorded c g (steps.take k) errors).run p).1.1 = .succeeded k ∧
        (run h.recorded c g (steps.take (k + 1)) errors).run p =
          (run h.recorded c g steps errors).run p) := by
  have hv' := h.recorded_respects hv
  have hlog := h.recorded.log_silent_of_none (withRecord view) g hc
  refine ⟨fun xs ys => ?_, fun steps k hk => ?_, fun steps e es => run_take_of_failed hc⟩
  -- Both are compared with the steps alone, without opening and closing.
  · have hwhole := run_related_runSteps hv' hlog (xs ++ ys) errors
    exact hwhole.of_common (runThen_related hv' hlog xs ys errors) p p rfl
  · obtain ⟨hout, hstate⟩ := run_take_of_abandoned hv' hc hk
    refine ⟨hout, hstate, fun hflag => hstate.trans ?_⟩
    exact Prod.ext (hflag _) rfl

/-- A run that was called off before it began, one whose first step names no command, and one that
    meets its directory for the second time. -/
theorem run_composes_rehearsed :
    let h := Rehearsal.host .remembered .remembered (.standIn "linux" none) true
    let c := Context.ofGameDir ⟨"/games/baz"⟩ none
    let g : Game := ⟨"baz", "Baz", "linux"⟩
    let data (i : Nat) : Step := ⟨i, "mkdir", .string "data"⟩
    let unknown : Step := ⟨0, "unpack", .null⟩
    let e : InstallError := .scripting ((ScriptingError.unknownCommand "unpack").atStep 0 "unpack")
    let memory (cancelled : Bool) : Memory := ⟨[], [], [], none, cancelled⟩
    let p (cancelled : Bool) : Rehearsal × List Request :=
      (⟨.fresh ⟨[]⟩ ⟨0, 0⟩, memory cancelled, ⟨⟨"linux", true, none⟩, none, []⟩, []⟩, [])
    (h.Respects id ∧ c.journalDir = none) ∧
      ((run h.recorded c g ([data 0] ++ [data 1]) []).run (p false)).1 =
        ((runThen h.recorded c g [data 0] [data 1] []).run (p false)).1 ∧
      (((run h.recorded c g [data 0] []).run (p true)).1.1 = .abandoned 0 ∧
        ((run h.recorded c g [] []).run (p true)).1.1 = .succeeded 0) ∧
      ((run h.recorded c g [unknown, data 1] []).run (p false)).1.1 = .failed e [e] ∧
        ∃ k < 2, (run h.recorded c g ([unknown, data 1].take (k + 1)) []).run (p false) =
          (run h.recorded c g [unknown, data 1] []).run (p false) := by
  intro h c g data unknown e memory p
  have hv : h.Respects id := Host.respects_id (fun _ => rfl) (fun _ => rfl)
  have hc : c.journalDir = none := rfl
  have habandoned : ((run h.recorded c g [data 0] []).run (p true)).1.1 = .abandoned 0 := rfl
  have hfailed : ((run h.recorded c g [unknown, data 1] []).run (p false)).1.1 = .failed e [e] := rfl
  obtain ⟨hcut, -, hfail⟩ := run_composes hv hc (g := g) [] (p false)
  obtain ⟨-, htake, -⟩ := run_composes hv hc (g := g) [] (p true)
  obtain ⟨hpart, -, -⟩ := htake [data 0] 0 habandoned
  obtain ⟨k, hk, -, hwhole⟩ := hfail [unknown, data 1] e [e] hfailed
  exact ⟨⟨hv, hc⟩, (hcut [data 0] [data 1]).1, ⟨habandoned, congrArg Prod.fst hpart⟩, hfailed, k, hk,
    hwhole⟩

end Runs

end GameInstaller
