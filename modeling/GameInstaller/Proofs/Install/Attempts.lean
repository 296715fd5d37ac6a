import GameInstaller.Install.Session
import GameInstaller.Proofs.Actions

/-!
# What a run attempts

A run takes up its steps one after the other: before each one the user may call it off, a fatal
error ends it, and every other outcome leads on to the next step.  Here the steps that a run did
take up are written down as a list of attempts, and the result, the recorded errors and the state
of the host are read off that list.

## Key results

- `runSteps_attempts`: attempts without a fatal error can be cut off the front of a run
- `exists_ending`: every run ends in one of three ways, after a list of attempts
- `RunAccount.of_ending`: how the steps end settles the whole run
- `run_account`: result, errors and state of a run, in terms of its attempts
-/

namespace GameInstaller

open Decimal (Binary64)

variable {σ : Type}

/-! ## Attempts -/

/-- A step that was taken up, and what came of it. -/
structure Attempt where
  step : Step
  outcome : Except InstallError Unit

namespace Attempt

/-- The error of an attempt that failed. -/
def error? (a : Attempt) : Option InstallError :=
  match a.outcome with
  | .ok _ => none
  | .error e => some e

theorem error?_eq_some_iff {a : Attempt} {e : InstallError} :
    a.error? = some e ↔ a.outcome = .error e := by
  unfold error?
  cases a.outcome <;> simp

/-- Whether the run goes on after the attempt. -/
def Passes (a : Attempt) : Prop := ∀ e, a.error? = some e → e.severity = .advisory

end Attempt

/-- The errors of attempts, in order. -/
def failures (log : List Attempt) : Errors := log.filterMap Attempt.error?

@[simp] theorem failures_nil : failures [] = [] := rfl

theorem failures_cons (a : Attempt) (log : List Attempt) :
    failures (a :: log) = a.error?.toList ++ failures log := by
  cases h : a.error? with
  | none => simp [failures, h]
  | some e => simp [failures, h]

@[simp] theorem failures_append (log log' : List Attempt) :
    failures (log ++ log') = failures log ++ failures log' :=
  List.filterMap_append

/-- The attempts lead from one state to another: each time the flag is found down, and the step is
    performed with this outcome. -/
inductive Attempts (h : Host σ) (c : Context) (g : Game) : σ → List Attempt → σ → Prop
  | nil (s : σ) : Attempts h c g s [] s
  | cons {s s₁ s₂ s₃ : σ} {a : Attempt} {log : List Attempt}
      (flag : h.isCancelled.run s = (false, s₁))
      (perform : (a.step.perform h c g).run s₁ = (a.outcome, s₂))
      (rest : Attempts h c g s₂ log s₃) :
      Attempts h c g s (a :: log) s₃

namespace Attempts

variable {h : Host σ} {c : Context} {g : Game}

/-- Attempts followed by one more. -/
theorem of_append_singleton {s s₂ : σ} {log : List Attempt} {a : Attempt}
    (hl : Attempts h c g s (log ++ [a]) s₂) :
    ∃ s₁ t, Attempts h c g s log s₁ ∧ h.isCancelled.run s₁ = (false, t) ∧
      (a.step.perform h c g).run t = (a.outcome, s₂) := by
  induction log generalizing s with
  | nil =>
    cases hl with
    | cons flag perform rest =>
      cases rest
      exact ⟨s, _, .nil s, flag, perform⟩
  | cons b log ih =>
    cases hl with
    | cons flag perform rest =>
      obtain ⟨s₁, t, hlog, flag', perform'⟩ := ih rest
      exact ⟨s₁, t, .cons flag perform hlog, flag', perform'⟩

end Attempts

/-! ## Steps of a run -/

section Steps

variable {h : Host σ} {c : Context} {g : Game} {s s₁ s₂ : σ} (n : Nat) (errors : Errors)
  (rest : List Step)

/-- A run that is called off takes up no further step. -/
theorem runSteps_of_cancelled (step : Step) (hf : h.isCancelled.run s = (true, s₁)) :
    (runSteps h c g n errors (step :: rest)).run s = ((.abandoned n, errors), s₁) := by
  rw [runSteps, run_bind_of hf]
  rfl

/-- A step without a fatal error leads on to the next one. -/
theorem runSteps_of_passes {a : Attempt} (hf : h.isCancelled.run s = (false, s₁))
    (hp : (a.step.perform h c g).run s₁ = (a.outcome, s₂)) (ha : a.Passes) :
    (runSteps h c g n errors (a.step :: rest)).run s =
      (runSteps h c g (n + 1) (errors ++ a.error?.toList) rest).run s₂ := by
  rw [runSteps, run_bind_of hf]
  simp only [Bool.false_eq_true, ↓reduceIte]
  rw [run_bind_of hp]
  cases ho : a.outcome with
  | ok u => simp [Attempt.error?, ho]
  | error e =>
    have he : a.error? = some e := Attempt.error?_eq_some_iff.mpr ho
    -- An error that passes is recorded, and the run goes on.
    have hs : e.severity ≠ .fatal := by simp [ha e he]
    simp only [he, Option.toList_some, if_neg hs]

/-- A fatal error ends the run. -/
theorem runSteps_of_fatal {a : Attempt} {e : InstallError}
    (hf : h.isCancelled.run s = (false, s₁))
    (hp : (a.step.perform h c g).run s₁ = (a.outcome, s₂)) (he : a.error? = some e)
    (hs : e.severity = .fatal) :
    (runSteps h c g n errors (a.step :: rest)).run s =
      ((.failed e (errors ++ [e]), errors ++ [e]), s₂) := by
  have ho : a.outcome = .error e := Attempt.error?_eq_some_iff.mp he
  rw [runSteps, run_bind_of hf]
  simp only [Bool.false_eq_true, ↓reduceIte]
  rw [run_bind_of (hp.trans (by rw [ho]))]
  simp only [if_pos hs]
  rfl

/-- Attempts without a fatal error can be cut off the front of a run. -/
theorem runSteps_attempts {log : List Attempt} (hl : Attempts h c g s log s₁)
    (hp : ∀ a ∈ log, a.Passes) :
    (runSteps h c g n errors (log.map (·.step) ++ rest)).run s =
      (runSteps h c g (n + log.length) (errors ++ failures log) rest).run s₁ := by
  induction hl generalizing n errors with
  | nil => simp
  | @cons s t u v a log flag perform _ ih =>
    have ha : a.Passes := hp a List.mem_cons_self
    have hlog : ∀ b ∈ log, b.Passes := fun b hb => hp b (List.mem_cons_of_mem _ hb)
    rw [List.map_cons, List.cons_append, runSteps_of_passes _ _ _ flag perform ha, ih _ _ hlog,
      failures_cons, List.length_cons, List.append_assoc, Nat.add_right_comm, Nat.add_assoc]

end Steps

/-! ## How runs end -/

/-- How a run of steps ends that has attempted `log` and come to the state `s₁`; the run started
    with `n` steps done and with the errors `errors`. -/
inductive Ending (h : Host σ) (n : Nat) (errors : Errors) (steps : List Step)
    (log : List Attempt) (s₁ : σ) : (RunResult × Errors) × σ → Prop
  /-- All steps were attempted, none with a fatal error. -/
  | succeeded (all : log.map (·.step) = steps) (passes : ∀ a ∈ log, a.Passes) :
      Ending h n errors steps log s₁
        ((.succeeded (n + log.length), errors ++ failures log), s₁)
  /-- The flag was found up before the next step. -/
  | abandoned (next : Step) (rest : List Step) (s₂ : σ)
      (authored : log.map (·.step) ++ next :: rest = steps) (passes : ∀ a ∈ log, a.Passes)
      (flag : h.isCancelled.run s₁ = (true, s₂)) :
      Ending h n errors steps log s₁
        ((.abandoned (n + log.length), errors ++ failures log), s₂)
  /-- The last attempt met a fatal error. -/
  | failed (before : List Attempt) (last : Attempt) (e : InstallError) (rest : List Step)
      (split : log = before ++ [last]) (authored : log.map (·.step) ++ rest = steps)
      (passes : ∀ a ∈ before, a.Passes) (error : last.error? = some e)
      (fatal : e.severity = .fatal) :
      Ending h n errors steps log s₁
        ((.failed e (errors ++ failures log), errors ++ failures log), s₁)

/-- A run whose first step passes ends as the run of the other steps does. -/
theorem Ending.cons {h : Host σ} {n : Nat} {errors : Errors} {steps : List Step}
    {log : List Attempt} {s₁ : σ} {out : (RunResult × Errors) × σ} {a : Attempt} (ha : a.Passes)
    (he : Ending h (n + 1) (errors ++ a.error?.toList) steps log s₁ out) :
    Ending h n errors (a.step :: steps) (a :: log) s₁ out := by
  have hn : n + 1 + log.length = n + (a :: log).length := by simp only [List.length_cons]; omega
  have hes : errors ++ a.error?.toList ++ failures log = errors ++ failures (a :: log) := by
    rw [failures_cons, List.append_assoc]
  have hpass {l : List Attempt} (hl : ∀ b ∈ l, b.Passes) : ∀ b ∈ a :: l, b.Passes :=
    List.forall_mem_cons.mpr ⟨ha, hl⟩
  cases he with
  | succeeded all passes =>
    rw [hn, hes]
    exact .succeeded (by rw [List.map_cons, all]) (hpass passes)
  | abandoned next rest s₂ authored passes flag =>
    rw [hn, hes]
    exact .abandoned next rest s₂ (by rw [← authored]; rfl) (hpass passes) flag
  | failed before last e rest split authored passes error fatal =>
    rw [hes]
    exact .failed (a :: before) last e rest (by rw [split]; rfl) (by rw [← authored]; rfl)
      (hpass passes) error fatal

/-- What was attempted fixes the run: other steps in the place of those that were not attempted
    make no difference. -/
theorem Ending.runSteps_eq {h : Host σ} {c : Context} {g : Game} {n : Nat} {errors : Errors}
    {steps : List Step} {log : List Attempt} {s s₁ : σ} {out : (RunResult × Errors) × σ}
    (hl : Attempts h c g s log s₁) (he : Ending h n errors steps log s₁ out) (rest : List Step)
    (hr : log.length + rest.length = steps.length) :
    (runSteps h c g n errors (log.map (·.step) ++ rest)).run s = out := by
  cases he with
  | succeeded all passes =>
    have : rest = [] := by
      rw [← all, List.length_map] at hr
      exact List.eq_nil_of_length_eq_zero (by omega)
    rw [runSteps_attempts _ _ _ hl passes, this]
    rfl
  | abandoned next others s₂ authored passes flag =>
    rw [runSteps_attempts _ _ _ hl passes]
    cases rest with
    | nil =>
      rw [← authored] at hr
      simp at hr
    | cons step rest => exact runSteps_of_cancelled _ _ _ _ flag
  | failed before last e others split authored passes error fatal =>
    subst split
    -- The attempts before the last one pass, so they can be cut off the front.
    obtain ⟨t, u, hbefore, flag, perform⟩ := hl.of_append_singleton
    rw [List.map_append, List.append_assoc, runSteps_attempts _ _ _ hbefore passes]
    rw [List.map_singleton, List.singleton_append,
      runSteps_of_fatal _ _ _ flag perform error fatal]
    simp [failures_cons, error]

/-- Every run of steps ends, after some attempts. -/
theorem exists_ending (h : Host σ) (c : Context) (g : Game) (n : Nat) (errors : Errors)
    (steps : List Step) (s : σ) :
    ∃ log s₁, Attempts h c g s log s₁ ∧
      Ending h n errors steps log s₁ ((runSteps h c g n errors steps).run s) := by
  -- It is enough to find attempts and an ending of them: these fix what the run gives.
  suffices ∃ log s₁ out, Attempts h c g s log s₁ ∧ Ending h n errors steps log s₁ out by
    obtain ⟨log, s₁, out, hl, he⟩ := this
    obtain ⟨rest, hrest⟩ : ∃ rest, log.map (·.step) ++ rest = steps := by
      cases he with
      | succeeded all => exact ⟨[], by rw [List.append_nil, all]⟩
      | abandoned next rest _ authored => exact ⟨next :: rest, authored⟩
      | failed _ _ _ rest _ authored => exact ⟨rest, authored⟩
    have heq := he.runSteps_eq hl rest (by rw [← hrest]; simp)
    rw [hrest] at heq
    exact ⟨log, s₁, hl, heq ▸ he⟩
  induction steps generalizing n errors s with
  | nil => exact ⟨[], s, _, .nil s, .succeeded rfl (by simp)⟩
  | cons step rest ih =>
    rcases hf : h.isCancelled.run s with ⟨cancelled, t⟩
    cases cancelled with
    | true => exact ⟨[], s, _, .nil s, .abandoned step rest t rfl (by simp) hf⟩
    | false =>
      rcases hp : (step.perform h c g).run t with ⟨outcome, u⟩
      -- Only a step that passes leads on to the others.
      by_cases ha : (Attempt.mk step outcome).Passes
      · obtain ⟨log, s₁, out, hl, he⟩ := ih (n + 1) (errors ++ _) u
        exact ⟨⟨step, outcome⟩ :: log, s₁, out, .cons hf hp hl, he.cons ha⟩
      · -- A step that does not pass is the last one.
        simp only [Attempt.Passes, Classical.not_forall] at ha
        obtain ⟨e, he, hs⟩ := ha
        have hfatal : e.severity = .fatal := by
          cases hsev : e.severity with
          | advisory => exact absurd hsev hs
          | fatal => rfl
        exact ⟨[⟨step, outcome⟩], u, _, .cons hf hp (.nil u),
          .failed [] _ e rest rfl rfl (by simp) he hfatal⟩

/-! ## Errors of steps -/

/-- A step that is an operation does what the operation does; errors are told to be of the step. -/
theorem Step.execute_run_of_operation {h : Host σ} {c : Context} {g : Game} {step : Step}
    {o : Operation} (ho : step.operation = .ok o) (s : σ) :
    (step.execute h c g).run s =
      (((o.apply h c g).run s).1.mapError fun e => .execution (e.atStep step.index step.command),
        ((o.apply h c g).run s).2) := by
  unfold Step.execute
  rw [ho]
  rfl

/-- Errors of an operation that does not come about belong to their step and are fatal. -/
theorem Step.operation_error {s : Step} {e : InstallError} (he : s.operation = .error e) :
    e.step = some s.index ∧ e.command = some s.command ∧ e.severity = .fatal := by
  unfold Step.operation at he
  split at he
  · cases he
    exact ⟨rfl, rfl, rfl⟩
  · rename_i command _
    cases ho : command.operation s.params with
    | ok o =>
      rw [ho] at he
      cases he
    | error e' =>
      rw [ho] at he
      cases he
      exact ⟨rfl, rfl, rfl⟩

/-- An error of a step belongs to the step, and is advisory only when something was there
    already. -/
theorem Step.execute_error {h : Host σ} {c : Context} {g : Game} {s : Step} {t : σ}
    {e : InstallError} (he : ((s.execute h c g).run t).1 = .error e) :
    e.step = some s.index ∧ e.command = some s.command ∧
      (e.severity = .advisory → ∃ x : ExecutionError, e = .execution x ∧ x.kind = .alreadyExists) := by
  cases ho : s.operation with
  | error e' =>
    unfold Step.execute at he
    rw [ho] at he
    obtain rfl : e' = e := Except.error.inj he
    obtain ⟨hstep, hcommand, hfatal⟩ := Step.operation_error ho
    exact ⟨hstep, hcommand, fun ha => by simp [hfatal] at ha⟩
  | ok operation =>
    rw [Step.execute_run_of_operation ho] at he
    cases hr : ((operation.apply h c g).run t).1 with
    | ok v =>
      rw [hr] at he
      cases he
    | error x =>
      rw [hr] at he
      obtain rfl : .execution (x.atStep s.index s.command) = e := Except.error.inj he
      refine ⟨rfl, rfl, fun hs => ⟨_, rfl, ?_⟩⟩
      simp only [InstallError.severity, ExecutionError.severity] at hs
      split at hs
      · assumption
      · cases hs

/-- A step with its journal events has the outcome of the step. -/
theorem Step.perform_outcome (h : Host σ) (c : Context) (g : Game) (s : Step) (t : σ) :
    ∃ u, ((s.perform h c g).run t).1 = ((s.execute h c g).run u).1 := by
  rcases hlog : (h.log c g (.stepStarted g.journalName s.index s.command)).run t with ⟨_, t₁⟩
  rcases hclock : h.clock.run t₁ with ⟨start, t₂⟩
  rcases hexec : (s.execute h c g).run t₂ with ⟨r, t₃⟩
  refine ⟨t₂, ?_⟩
  rw [Step.perform, run_bind_of hlog, run_bind_of hclock, run_bind_of hexec, hexec]
  cases r with
  | ok u => rfl
  | error e => rfl

/-- Attempts have the outcomes that their steps give. -/
theorem Attempts.outcome_eq {h : Host σ} {c : Context} {g : Game} {s s₁ : σ}
    {log : List Attempt} (hl : Attempts h c g s log s₁) {a : Attempt} (ha : a ∈ log) :
    ∃ u, ((a.step.execute h c g).run u).1 = a.outcome := by
  induction hl with
  | nil => simp at ha
  | cons _ perform _ ih =>
    rcases List.mem_cons.mp ha with rfl | ha
    · obtain ⟨u, hu⟩ := Step.perform_outcome h c g a.step _
      exact ⟨u, by rw [← hu, perform]⟩
    · exact ih ha

/-- What can be said of every error of an attempt. -/
theorem Attempts.error_of_mem {h : Host σ} {c : Context} {g : Game} {s s₁ : σ}
    {log : List Attempt} (hl : Attempts h c g s log s₁) {a : Attempt} (ha : a ∈ log)
    {e : InstallError} (he : a.error? = some e) :
    e.step = some a.step.index ∧ e.command = some a.step.command ∧
      (e.severity = .advisory → ∃ x : ExecutionError, e = .execution x ∧ x.kind = .alreadyExists) := by
  obtain ⟨u, hu⟩ := hl.outcome_eq ha
  exact Step.execute_error (hu.trans (Attempt.error?_eq_some_iff.mp he))

/-! ## Opening and closing a run -/

/-- What a run does before its steps: it reads the clock, takes a name and opens the journal. -/
def Host.opening (h : Host σ) (c : Context) (g : Game) (steps : Nat) : StateM σ (Nat × String) := do
  let start ← h.clock
  let runId ← h.newRunId
  h.log c g (.installStarted g.journalName runId steps version)
  pure (start, runId)

/-- What a run does after its steps: it reads the clock and closes the journal. -/
def Host.closing (h : Host σ) (c : Context) (g : Game) (start : Nat) (runId : String)
    (result : RunResult) : StateM σ Unit := do
  let now ← h.clock
  match result.closing g runId (Binary64.seconds (now - start)) with
  | some e => h.log c g e
  | none => pure ()

/-- A run is its opening, its steps and its closing. -/
theorem run_eq (h : Host σ) (c : Context) (g : Game) (steps : List Step) (errors : Errors) :
    run h c g steps errors = (do
      let (start, runId) ← h.opening c g steps.length
      let (result, errors) ← runSteps h c g 0 errors steps
      h.closing c g start runId result
      pure (result, errors)) := by
  simp only [run, Host.opening, Host.closing, bind_assoc, pure_bind]
  refine bind_congr fun start => bind_congr fun runId => bind_congr fun _ => bind_congr fun r =>
    bind_congr fun now => ?_
  cases r.1.closing g runId (Binary64.seconds (now - start)) <;> simp

/-- The outcome of a run is that of its steps, and the closing of the run comes last. -/
theorem run_run (h : Host σ) (c : Context) (g : Game) (steps : List Step) (errors : Errors)
    {s s₀ s₁ : σ} {start : Nat} {runId : String} {result : RunResult} {collected : Errors}
    (ho : (h.opening c g steps.length).run s = ((start, runId), s₀))
    (hr : (runSteps h c g 0 errors steps).run s₀ = ((result, collected), s₁)) :
    (run h c g steps errors).run s =
      ((result, collected), ((h.closing c g start runId result).run s₁).2) := by
  rw [run_eq, run_bind_of ho, run_bind_of hr]
  exact run_bind_of rfl

/-! ## The account of a run -/

/-- What the run of `steps` from the state `s` comes to: it makes the attempts `log`, which lead to
    the state `s₁`, and gives `out`. -/
structure RunAccount (h : Host σ) (c : Context) (g : Game) (steps : List Step) (errors : Errors)
    (s : σ) (log : List Attempt) (s₁ : σ) (out : (RunResult × Errors) × σ) : Prop where
  attempts : Attempts h c g ((h.opening c g steps.length).run s).2 log s₁
  /-- Steps are attempted in their order, from the first one on. -/
  authored : log.map (·.step) <+: steps
  /-- Only the last attempt may meet a fatal error. -/
  passes : ∀ a ∈ log.dropLast, a.Passes
  /-- Every failed attempt adds one error, which belongs to its step. -/
  collected : out.1.2 = errors ++ failures log
  located : ∀ a ∈ log, ∀ e, a.error? = some e →
    e.step = some a.step.index ∧ e.command = some a.step.command
  advisory : ∀ e ∈ (failures log).dropLast, e.severity = .advisory
  failed_iff : ∀ e es, out.1.1 = .failed e es ↔
    (failures log).getLast? = some e ∧ e.severity = .fatal ∧ es = out.1.2
  abandoned_iff : ∀ k, out.1.1 = .abandoned k ↔
    k < steps.length ∧ log.map (·.step) = steps.take k ∧ (∀ a ∈ log, a.Passes) ∧
      (h.isCancelled.run s₁).1 = true
  succeeded_of : (∀ e es, out.1.1 ≠ .failed e es) → (∀ k, out.1.1 ≠ .abandoned k) →
    out.1.1 = .succeeded steps.length ∧ log.map (·.step) = steps
  /-- Nothing is done between the last attempt and the closing of the run but to look at the
      flag. -/
  closed :
    let (start, runId) := ((h.opening c g steps.length).run s).1
    let s₂ := match out.1.1 with
      | .abandoned _ => (h.isCancelled.run s₁).2
      | _ => s₁
    out.2 = ((h.closing c g start runId out.1.1).run s₂).2
  /-- Other steps in the place of those that were not attempted make no difference. -/
  unattempted : ∀ rest, log.length + rest.length = steps.length →
    (run h c g (log.map (·.step) ++ rest) errors).run s = out

/-- Attempts of which only the last may meet a fatal error have errors of which only the last may
    be fatal. -/
private theorem advisory_of_passes {log : List Attempt} (hp : ∀ a ∈ log.dropLast, a.Passes) :
    ∀ e ∈ (failures log).dropLast, e.severity = .advisory := by
  rcases List.eq_nil_or_concat log with rfl | ⟨before, last, rfl⟩
  · simp
  · rw [List.concat_eq_append, List.dropLast_concat] at hp
    have hb : ∀ e ∈ failures before, e.severity = .advisory := by
      intro e he
      obtain ⟨a, ha, hae⟩ := List.mem_filterMap.mp he
      exact hp a ha e hae
    intro e he
    rw [List.concat_eq_append, failures_append, failures_cons] at he
    -- Without an error of its own the last attempt leaves the errors before it.
    cases hl : last.error? with
    | none =>
      simp only [hl, Option.toList_none, failures_nil, List.append_nil] at he
      exact hb e (List.dropLast_subset _ he)
    | some x =>
      simp only [hl, Option.toList_some, failures_nil, List.append_nil, List.dropLast_concat] at he
      exact hb e he

/-- The last error of attempts that all pass is not fatal. -/
private theorem not_fatal_of_passes {log : List Attempt} (hp : ∀ a ∈ log, a.Passes)
    {e : InstallError} (he : (failures log).getLast? = some e) : e.severity ≠ .fatal := by
  obtain ⟨a, ha, hae⟩ := List.mem_filterMap.mp (List.mem_of_getLast? he)
  rw [hp a ha e hae]
  decide

namespace Ending

variable {h : Host σ} {n : Nat} {errors : Errors} {steps : List Step} {log : List Attempt}
  {s₁ : σ} {out : (RunResult × Errors) × σ}

theorem isPrefix (he : Ending h n errors steps log s₁ out) : log.map (·.step) <+: steps := by
  cases he with
  | succeeded all => exact ⟨[], by rw [List.append_nil, all]⟩
  | abandoned next rest _ authored => exact ⟨next :: rest, authored⟩
  | failed _ _ _ rest _ authored => exact ⟨rest, authored⟩

theorem passes_dropLast (he : Ending h n errors steps log s₁ out) :
    ∀ a ∈ log.dropLast, a.Passes := by
  cases he with
  | succeeded _ passes => exact fun a ha => passes a (List.dropLast_subset _ ha)
  | abandoned _ _ _ _ passes => exact fun a ha => passes a (List.dropLast_subset _ ha)
  | failed before last e rest split _ passes => rwa [split, List.dropLast_concat]

theorem collected_eq (he : Ending h n errors steps log s₁ out) :
    out.1.2 = errors ++ failures log := by
  cases he <;> rfl

theorem failed_iff (he : Ending h n errors steps log s₁ out) (e : InstallError) (es : Errors) :
    out.1.1 = .failed e es ↔
      (failures log).getLast? = some e ∧ e.severity = .fatal ∧ es = out.1.2 := by
  cases he with
  | succeeded _ passes =>
    refine ⟨nofun, fun ⟨hlast, hfatal, _⟩ => absurd hfatal (not_fatal_of_passes passes hlast)⟩
  | abandoned _ _ _ _ passes =>
    refine ⟨nofun, fun ⟨hlast, hfatal, _⟩ => absurd hfatal (not_fatal_of_passes passes hlast)⟩
  | failed before last x rest split _ _ error fatal =>
    have hlast : (failures log).getLast? = some x := by
      simp [split, failures_cons, error]
    simp only [RunResult.failed.injEq, hlast, Option.some.injEq]
    constructor
    · rintro ⟨rfl, rfl⟩
      exact ⟨rfl, fatal, rfl⟩
    · rintro ⟨rfl, _, rfl⟩
      exact ⟨rfl, rfl⟩

theorem abandoned_iff (he : Ending h n errors steps log s₁ out) (k : Nat) :
    out.1.1 = .abandoned (n + k) ↔
      k < steps.length ∧ log.map (·.step) = steps.take k ∧ (∀ a ∈ log, a.Passes) ∧
        (h.isCancelled.run s₁).1 = true := by
  cases he with
  | succeeded all _ =>
    refine ⟨nofun, fun ⟨hk, htake, _⟩ => ?_⟩
    -- All steps were attempted, so none is left to be called off before.
    have := congrArg List.length (all.symm.trans htake)
    rw [List.length_take] at this
    omega
  | abandoned next rest s₂ authored passes flag =>
    have hlen : steps.length = log.length + (rest.length + 1) := by simp [← authored]
    simp only [RunResult.abandoned.injEq, Nat.add_left_cancel_iff]
    constructor
    · rintro rfl
      refine ⟨by omega, ?_, passes, by rw [flag]⟩
      rw [← authored]
      exact (List.take_left' (by simp)).symm
    · rintro ⟨hk, htake, _⟩
      have := congrArg List.length htake
      rw [List.length_map, List.length_take] at this
      omega
  | failed before last e rest split _ _ error fatal =>
    refine ⟨nofun, fun ⟨_, _, hpass, _⟩ => ?_⟩
    -- The attempt that met the fatal error does not pass.
    have := hpass last (by simp [split]) e error
    simp [fatal] at this

theorem succeeded_of (he : Ending h n errors steps log s₁ out)
    (hf : ∀ e es, out.1.1 ≠ .failed e es) (ha : ∀ k, out.1.1 ≠ .abandoned k) :
    out.1.1 = .succeeded (n + steps.length) ∧ log.map (·.step) = steps := by
  cases he with
  | succeeded all _ => exact ⟨by rw [← all, List.length_map], all⟩
  | abandoned => exact absurd rfl (ha _)
  | failed => exact absurd rfl (hf _ _)

/-- After the last attempt the flag may be looked at once more. -/
theorem state_eq (he : Ending h n errors steps log s₁ out) :
    out.2 = match out.1.1 with
      | .abandoned _ => (h.isCancelled.run s₁).2
      | _ => s₁ := by
  cases he with
  | succeeded => rfl
  | abandoned next rest s₂ _ _ flag => rw [flag]
  | failed => rfl

end Ending

/-- How the steps of a run end settles the whole run. -/
theorem RunAccount.of_ending {h : Host σ} {c : Context} {g : Game} {steps : List Step}
    {errors : Errors} {s s₀ s₁ : σ} {start : Nat} {runId : String} {log : List Attempt}
    (ho : (h.opening c g steps.length).run s = ((start, runId), s₀))
    (hl : Attempts h c g s₀ log s₁)
    (he : Ending h 0 errors steps log s₁ ((runSteps h c g 0 errors steps).run s₀)) :
    RunAccount h c g steps errors s log s₁ ((run h c g steps errors).run s) := by
  rcases hr : (runSteps h c g 0 errors steps).run s₀ with ⟨⟨result, collected⟩, s₂⟩
  rw [hr] at he
  rw [run_run h c g steps errors ho hr]
  exact {
    attempts := by rw [ho]; exact hl
    authored := he.isPrefix
    passes := he.passes_dropLast
    collected := he.collected_eq
    located := fun a ha e hae => ⟨(hl.error_of_mem ha hae).1, (hl.error_of_mem ha hae).2.1⟩
    advisory := advisory_of_passes he.passes_dropLast
    failed_iff := he.failed_iff
    abandoned_iff := fun k => by simpa using he.abandoned_iff k
    succeeded_of := fun hf ha => by simpa using he.succeeded_of hf ha
    closed := by
      rw [ho]
      exact congrArg (fun t => ((h.closing c g start runId result).run t).2) he.state_eq
    unattempted := fun rest hrest => by
      -- The opening tells how many steps there are, and nothing else about them.
      have hlen : (log.map (·.step) ++ rest).length = steps.length := by simpa using hrest
      exact run_run h c g _ errors (hlen ▸ ho) (he.runSteps_eq hl rest hrest) }

section Account

variable {h : Host σ} {c : Context} {g : Game} {steps : List Step} {errors : Errors} {s s₁ : σ}
  {log : List Attempt} {out : (RunResult × Errors) × σ}

/-- An attempt with a fatal error is the last one of its run. -/
theorem RunAccount.last_of_fatal (ha : RunAccount h c g steps errors s log s₁ out) {a : Attempt}
    (hlog : a ∈ log) {e : InstallError} (he : a.error? = some e) (hfatal : e.severity = .fatal) :
    ∃ before, log = before ++ [a] ∧ ∀ b ∈ before, b.Passes := by
  have hp := ha.passes
  rcases List.eq_nil_or_concat log with rfl | ⟨before, last, rfl⟩
  · simp at hlog
  rw [List.concat_eq_append] at hlog hp ⊢
  rw [List.dropLast_concat] at hp
  rcases List.mem_append.mp hlog with hbefore | hlast
  · rw [hp a hbefore e he] at hfatal
    cases hfatal
  · obtain rfl := List.mem_singleton.mp hlast
    exact ⟨before, rfl, hp⟩

/-- The attempts of a run that did not fail all passed. -/
theorem RunAccount.passes_of_not_failed (ha : RunAccount h c g steps errors s log s₁ out)
    (hout : ∀ e es, out.1.1 ≠ .failed e es) : ∀ a ∈ log, a.Passes := by
  intro a hlog e he
  cases hsev : e.severity with
  | advisory => rfl
  | fatal =>
    -- A fatal error would be the last one, and so the result of the run.
    obtain ⟨before, rfl, -⟩ := ha.last_of_fatal hlog he hsev
    have hlast : (failures (before ++ [a])).getLast? = some e := by
      simp [failures_cons, he]
    exact absurd ((ha.failed_iff e _).mpr ⟨hlast, hsev, rfl⟩) (hout e _)

end Account

/-- A run makes attempts from its first step on, records their errors, and ends at the first fatal
    error, when it is called off, or after its last step. -/
theorem run_account (h : Host σ) (c : Context) (g : Game) (steps : List Step) (errors : Errors)
    (s : σ) :
    ∃ log s₁, RunAccount h c g steps errors s log s₁ ((run h c g steps errors).run s) := by
  obtain ⟨log, s₁, hl, he⟩ := exists_ending h c g 0 errors steps
    ((h.opening c g steps.length).run s).2
  exact ⟨log, s₁, .of_ending rfl hl he⟩

end GameInstaller
