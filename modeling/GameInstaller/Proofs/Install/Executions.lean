import GameInstaller.Proofs.Install.Attempts

/-!
# Where a run executes its steps

A run that has attempted some steps without a fatal error, and finds the flag down, executes the step
after them.  The state in which it does so is fixed by the state in which the run started
(`Executes.unique`), so that statements on a step of a run can be put as statements on that state.

## Key results

- `RunAccount.executes`: the attempts of a run are executions
- `Executes.of_lt`: before a step is executed all steps before it were, and passed
- `Executes.failed`: a fatal error ends the run
-/

namespace GameInstaller

open Decimal (Binary64)

variable {σ : Type}

/-! ## A step and its events -/

/-- What comes before a step: the event that it starts, and a reading of the clock. -/
def Host.starting (h : Host σ) (c : Context) (g : Game) (s : Step) : StateM σ Nat := do
  h.log c g (.stepStarted g.journalName s.index s.command)
  h.clock

/-- What comes after a step: the event of how it ended. -/
def Host.finishing (h : Host σ) (c : Context) (g : Game) (s : Step) (start : Nat) :
    Except InstallError Unit → StateM σ Unit
  | .ok () => do
    let now ← h.clock
    h.log c g (.stepCompleted g.journalName s.index s.command (Binary64.seconds (now - start)))
  | .error e =>
    h.log c g (.stepFailed g.journalName s.index s.command e.display (e.severity = .fatal))

/-- A step with its events is the step between what comes before it and what comes after it. -/
theorem Step.perform_eq (h : Host σ) (c : Context) (g : Game) (s : Step) :
    s.perform h c g = (do
      let start ← h.starting c g s
      let outcome ← s.execute h c g
      h.finishing c g s start outcome
      pure outcome) := by
  simp only [Step.perform, Host.starting, bind_assoc]
  refine bind_congr fun _ => bind_congr fun start => bind_congr fun outcome => ?_
  cases outcome with
  | ok => simp only [Host.finishing, bind_assoc]
  | error e => rfl

/-- A step with its events, when the state in which it is executed is known. -/
theorem Step.perform_run {h : Host σ} {c : Context} {g : Game} {s : Step} {u t : σ} {start : Nat}
    (hs : (h.starting c g s).run u = (start, t)) :
    (s.perform h c g).run u = (((s.execute h c g).run t).1,
      ((h.finishing c g s start ((s.execute h c g).run t).1).run
        ((s.execute h c g).run t).2).2) := by
  rw [s.perform_eq, run_bind_of hs]
  exact run_bind_of rfl

/-! ## Chains of attempts -/

namespace Attempts

variable {h : Host σ} {c : Context} {g : Game} {s s₁ s₂ : σ} {log log' : List Attempt}

theorem snoc {u : σ} {a : Attempt} (hl : Attempts h c g s log s₁)
    (flag : h.isCancelled.run s₁ = (false, u))
    (perform : (a.step.perform h c g).run u = (a.outcome, s₂)) :
    Attempts h c g s (log ++ [a]) s₂ := by
  induction hl with
  | nil => exact .cons flag perform (.nil _)
  | cons flag' perform' _ ih => exact .cons flag' perform' (ih flag)

/-- Attempts can be cut in two. -/
theorem of_append (hl : Attempts h c g s (log ++ log') s₂) :
    ∃ t, Attempts h c g s log t ∧ Attempts h c g t log' s₂ := by
  induction log generalizing s with
  | nil => exact ⟨s, .nil s, hl⟩
  | cons a log ih =>
    cases hl with
    | cons flag perform rest =>
      obtain ⟨t, hlog, hlog'⟩ := ih rest
      exact ⟨t, .cons flag perform hlog, hlog'⟩

/-- What becomes of steps is fixed by the state in which they start. -/
theorem unique (hl : Attempts h c g s log s₁) (hl' : Attempts h c g s log' s₂)
    (hsteps : log.map (·.step) = log'.map (·.step)) : log = log' ∧ s₁ = s₂ := by
  induction hl generalizing log' with
  | nil =>
    obtain rfl : log' = [] := by simpa using hsteps.symm
    cases hl'
    exact ⟨rfl, rfl⟩
  | @cons s t u v a log flag perform rest ih =>
    cases hl' with
    | nil => cases hsteps
    | @cons _ t' u' _ b log' flag' perform' rest' =>
      obtain ⟨hstep, hrest⟩ := List.cons.inj hsteps
      obtain ⟨step, outcome⟩ := a
      obtain ⟨step', outcome'⟩ := b
      obtain rfl : step = step' := hstep
      obtain rfl : t = t' := congrArg Prod.snd (flag.symm.trans flag')
      -- The same step in the same state has the same outcome.
      obtain ⟨rfl, rfl⟩ : outcome = outcome' ∧ u = u' :=
        Prod.mk.inj (perform.symm.trans perform')
      obtain ⟨rfl, rfl⟩ := ih rest' hrest
      exact ⟨rfl, rfl⟩

end Attempts

/-! ## Executions -/

/-- The run of `steps` from the state `s` executes the step at position `k` in the state `t`: the
    steps before it were attempted and passed, and the flag was found down. -/
inductive Executes (h : Host σ) (c : Context) (g : Game) (steps : List Step) (s : σ) :
    Nat → Step → σ → Prop
  | intro {log : List Attempt} {step : Step} {rest : List Step} {s₁ u t : σ} {start : Nat}
      (authored : log.map (·.step) ++ step :: rest = steps)
      (attempts : Attempts h c g ((h.opening c g steps.length).run s).2 log s₁)
      (passes : ∀ a ∈ log, a.Passes) (flag : h.isCancelled.run s₁ = (false, u))
      (starting : (h.starting c g step).run u = (start, t)) :
      Executes h c g steps s log.length step t

section Executions

variable {h : Host σ} {c : Context} {g : Game} {steps : List Step} {s t t' : σ} {k k' : Nat}
  {step step' : Step}

/-- The step that is executed is the one at that position. -/
theorem Executes.getElem? (he : Executes h c g steps s k step t) : steps[k]? = some step := by
  cases he with
  | @intro log step rest _ _ _ _ authored => simp [← authored]

/-- A run executes a step only once. -/
theorem Executes.unique (he : Executes h c g steps s k step t)
    (he' : Executes h c g steps s k step' t') : step = step' ∧ t = t' := by
  obtain rfl : step = step' := Option.some.inj (he.getElem?.symm.trans he'.getElem?)
  refine ⟨rfl, ?_⟩
  generalize hk : k = k₁ at he'
  cases he with
  | @intro log _ rest s₁ u _ start authored attempts _ flag starting =>
    cases he' with
    | @intro log' _ rest' s₁' u' _ start' authored' attempts' _ flag' starting' =>
      have hsteps : log.map (·.step) = log'.map (·.step) :=
        (List.append_inj (authored.trans authored'.symm) (by simpa using hk)).1
      obtain ⟨-, rfl⟩ := attempts.unique attempts' hsteps
      obtain ⟨-, rfl⟩ := Prod.mk.inj (flag.symm.trans flag')
      exact congrArg Prod.snd (starting.symm.trans starting')

/-- An attempt is an execution when the attempts before it passed, and the attempts after it go on
    from where that and its events left the state. -/
theorem Attempts.around {before after : List Attempt} {a : Attempt} {s₁ : σ}
    (hl : Attempts h c g ((h.opening c g steps.length).run s).2 (before ++ a :: after) s₁)
    (hsteps : (before ++ a :: after).map (·.step) <+: steps) (hp : ∀ b ∈ before, b.Passes) :
    ∃ start t u v, Executes h c g steps s before.length a.step t ∧
      (a.step.execute h c g).run t = (a.outcome, u) ∧
      ((h.finishing c g a.step start a.outcome).run u).2 = v ∧
      Attempts h c g ((h.opening c g steps.length).run s).2 (before ++ [a]) v ∧
      Attempts h c g v after s₁ := by
  obtain ⟨s₂, hbefore, hrest⟩ := hl.of_append
  cases hrest with
  | @cons _ u v _ _ _ flag perform rest =>
    rcases hs : (h.starting c g a.step).run u with ⟨start, t⟩
    have hstep := perform
    rw [Step.perform_run hs] at hstep
    obtain ⟨houtcome, hfinish⟩ := Prod.mk.inj hstep
    rw [houtcome] at hfinish
    obtain ⟨others, hothers⟩ := hsteps
    have hauthored : before.map (·.step) ++ a.step :: (after.map (·.step) ++ others) = steps := by
      simpa using hothers
    exact ⟨start, t, _, v, .intro hauthored hbefore hp flag hs, Prod.ext houtcome rfl, hfinish,
      hbefore.snoc flag perform, rest⟩

/-- An attempt is an execution when the attempts before it passed. -/
theorem Attempts.executes {log before after : List Attempt} {a : Attempt} {s₁ : σ}
    (hl : Attempts h c g ((h.opening c g steps.length).run s).2 log s₁)
    (hlog : log = before ++ a :: after) (hsteps : log.map (·.step) <+: steps)
    (hp : ∀ b ∈ before, b.Passes) :
    ∃ t, Executes h c g steps s before.length a.step t ∧
      ((a.step.execute h c g).run t).1 = a.outcome := by
  subst hlog
  obtain ⟨_, t, _, _, hexecutes, hexecute, -⟩ := hl.around hsteps hp
  exact ⟨t, hexecutes, by rw [hexecute]⟩

/-- The attempts of a run are executions. -/
theorem RunAccount.executes {errors : Errors} {log before after : List Attempt} {a : Attempt}
    {s₁ : σ} {out : (RunResult × Errors) × σ}
    (ha : RunAccount h c g steps errors s log s₁ out) (hlog : log = before ++ a :: after) :
    ∃ t, Executes h c g steps s before.length a.step t ∧
      ((a.step.execute h c g).run t).1 = a.outcome := by
  refine ha.attempts.executes hlog ha.authored fun b hb => ha.passes b ?_
  rw [hlog, List.dropLast_append_of_ne_nil (by simp)]
  exact List.mem_append_left _ hb

/-- Before a step is executed every step before it was, and passed. -/
theorem Executes.of_lt (he : Executes h c g steps s k' step' t') (hk : k < k') :
    ∃ (a : Attempt) (t : σ), Executes h c g steps s k a.step t ∧
      ((a.step.execute h c g).run t).1 = a.outcome ∧ a.Passes := by
  cases he with
  | @intro log _ rest _ _ _ _ authored attempts passes =>
    obtain ⟨before, a, after, rfl, rfl⟩ : ∃ before a after, log = before ++ a :: after ∧
        before.length = k :=
      ⟨log.take k, log[k], log.drop (k + 1), by simp, List.length_take_of_le (Nat.le_of_lt hk)⟩
    obtain ⟨t, ht, hout⟩ := attempts.executes rfl ⟨_, authored⟩
      fun b hb => passes b (List.mem_append_left _ hb)
    exact ⟨a, t, ht, hout, passes a (by simp)⟩

/-- A run that came to its end executed every step, and every step passed. -/
theorem RunAccount.executes_of_succeeded {errors : Errors} {log : List Attempt} {s₁ : σ}
    {out : (RunResult × Errors) × σ} {n : Nat}
    (ha : RunAccount h c g steps errors s log s₁ out) (hout : out.1.1 = .succeeded n)
    (hk : k < steps.length) :
    ∃ (a : Attempt) (t : σ), Executes h c g steps s k a.step t ∧
      ((a.step.execute h c g).run t).1 = a.outcome ∧ a.Passes := by
  have hpass := ha.passes_of_not_failed (by simp [hout])
  obtain ⟨-, hall⟩ := ha.succeeded_of (by simp [hout]) (by simp [hout])
  rw [← hall, List.length_map] at hk
  have hsplit : log = log.take k ++ log[k] :: log.drop (k + 1) := by simp
  obtain ⟨t, ht, htout⟩ := ha.executes hsplit
  rw [List.length_take_of_le (Nat.le_of_lt hk)] at ht
  exact ⟨log[k], t, ht, htout, hpass _ (List.getElem_mem hk)⟩

/-- A step that meets a fatal error ends the run, with this error as the result. -/
theorem Executes.failed {e : InstallError} (errors : Errors)
    (he : Executes h c g steps s k step t) (hout : ((step.execute h c g).run t).1 = .error e)
    (hfatal : e.severity = .fatal) :
    ∃ log s₁, RunAccount h c g steps errors s log s₁ ((run h c g steps errors).run s) ∧
      log.length = k + 1 ∧ ∃ es, ((run h c g steps errors).run s).1.1 = .failed e es := by
  cases he with
  | @intro log _ rest s₁ u _ start authored attempts passes flag starting =>
    have hperform := Step.perform_run starting
    rw [hout] at hperform
    let last : Attempt := ⟨step, .error e⟩
    have hattempts := attempts.snoc (a := last) flag hperform
    have hending := @Ending.failed _ h 0 errors steps (log ++ [last])
      ((h.finishing c g step start (.error e)).run ((step.execute h c g).run t).2).2
      log last e rest rfl (by simpa [last] using authored) passes rfl hfatal
    -- What was attempted fixes the run.
    have hsteps := hending.runSteps_eq hattempts rest (by simp [← authored]; omega)
    rw [List.map_append, List.map_singleton, List.append_assoc, List.singleton_append,
      authored] at hsteps
    rw [← hsteps] at hending
    have hrun := RunAccount.of_ending rfl hattempts hending
    refine ⟨_, _, hrun, by simp, _, (hrun.failed_iff e _).mpr ⟨?_, hfatal, rfl⟩⟩
    simp [last, failures_cons, Attempt.error?]

end Executions

end GameInstaller
