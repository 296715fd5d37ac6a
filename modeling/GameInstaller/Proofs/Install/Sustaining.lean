import GameInstaller.Proofs.Install.Executions
import Mathlib.Data.List.Induction

/-!
# What is kept along a run

A property of states is kept along a run when its events, its clock and its flag keep it and every
step does that is executed and passes.  A step with a fatal error ends the run, so that nothing need
be known of what it leaves.

* `Host.Unconcerned`   what a run does beside its steps keeps a property
* `Sustained`          and every executed step that passes keeps it

## Key results

- `Sustained.attempts`: the property is kept from any point of a run on, as long as steps pass
- `Sustained.executes`: the property holds whenever a step is executed
-/

namespace GameInstaller

variable {σ : Type}

/-! ## Beside the steps -/

/-- A property of states that everything keeps that a run does besides its steps. -/
structure Host.Unconcerned (h : Host σ) (c : Context) (g : Game) (P : σ → Prop) : Prop where
  log : ∀ t e, P t → P ((h.log c g e).run t).2
  clock : ∀ t, P t → P (h.clock.run t).2
  isCancelled : ∀ t, P t → P (h.isCancelled.run t).2
  newRunId : ∀ t, P t → P (h.newRunId.run t).2

namespace Host.Unconcerned

variable {h : Host σ} {c : Context} {g : Game} {P : σ → Prop} {t : σ}

theorem opening (hP : h.Unconcerned c g P) (steps : Nat) (ht : P t) :
    P ((h.opening c g steps).run t).2 :=
  hP.log _ _ (hP.newRunId _ (hP.clock _ ht))

theorem starting (hP : h.Unconcerned c g P) (step : Step) (ht : P t) :
    P ((h.starting c g step).run t).2 :=
  hP.clock _ (hP.log _ _ ht)

theorem finishing (hP : h.Unconcerned c g P) (step : Step) (start : Nat)
    (outcome : Except InstallError Unit) (ht : P t) :
    P ((h.finishing c g step start outcome).run t).2 := by
  cases outcome with
  | ok => exact hP.log _ _ (hP.clock _ ht)
  | error e => exact hP.log _ _ ht

theorem closing (hP : h.Unconcerned c g P) (start : Nat) (runId : String) (result : RunResult)
    (ht : P t) : P ((h.closing c g start runId result).run t).2 := by
  have hclock := hP.clock _ ht
  cases result with
  | succeeded | abandoned => exact hP.log _ _ hclock
  | failed | rejected => exact hclock

/-- What holds after the last attempt of a run holds at its end. -/
theorem ending (hP : h.Unconcerned c g P) {steps : List Step} {errors : Errors} {s s₁ : σ}
    {log : List Attempt} {out : (RunResult × Errors) × σ}
    (ha : RunAccount h c g steps errors s log s₁ out) (hs₁ : P s₁) : P out.2 := by
  have hclosed := ha.closed
  dsimp only at hclosed
  rw [hclosed]
  refine hP.closing _ _ _ ?_
  split
  · exact hP.isCancelled _ hs₁
  · exact hs₁

end Host.Unconcerned

/-! ## Steps that pass -/

/-- A property that also every executed step keeps that passes. -/
structure Sustained (h : Host σ) (c : Context) (g : Game) (steps : List Step) (s : σ)
    (P : σ → Prop) : Prop extends h.Unconcerned c g P where
  execute : ∀ k step t, Executes h c g steps s k step t → P t →
    (∀ e, ((step.execute h c g).run t).1 = .error e → e.severity = .advisory) →
    P ((step.execute h c g).run t).2

section Sustained

variable {h : Host σ} {c : Context} {g : Game} {steps : List Step} {s t : σ} {P : σ → Prop}

theorem Attempts.append {s₁ : σ} {log log' : List Attempt} (hl : Attempts h c g s log s₁)
    (hl' : Attempts h c g s₁ log' t) : Attempts h c g s (log ++ log') t := by
  induction hl with
  | nil => exact hl'
  | cons flag perform _ ih => exact .cons flag perform (ih hl')

/-- What holds before a step with its events holds when the step is executed. -/
theorem Host.Unconcerned.executed (hP : h.Unconcerned c g P) {s₁ u : σ} {step : Step} {start : Nat}
    (hs₁ : P s₁) (flag : h.isCancelled.run s₁ = (false, u))
    (starting : (h.starting c g step).run u = (start, t)) : P t := by
  have hu := hP.isCancelled _ hs₁
  rw [flag] at hu
  have ht := hP.starting step hu
  rwa [starting] at ht

/-- What holds after some attempts holds after more of them that pass. -/
theorem Sustained.attempts (hP : Sustained h c g steps s P) {before log : List Attempt} {s₁ : σ}
    (hbefore : Attempts h c g ((h.opening c g steps.length).run s).2 before s₁) (hs₁ : P s₁)
    (hl : Attempts h c g s₁ log t) (hsteps : (before ++ log).map (·.step) <+: steps)
    (hp : ∀ a ∈ before ++ log, a.Passes) : P t := by
  -- By induction from the right: what is kept after the attempts so far is kept by one more.
  induction log using List.reverseRecOn generalizing t with
  | nil =>
    cases hl
    exact hs₁
  | append_singleton log a ih =>
    rw [← List.append_assoc] at hsteps hp
    rw [List.map_append, List.map_singleton] at hsteps
    obtain ⟨s₂, u, hlog, flag, perform⟩ := hl.of_append_singleton
    have hpass : ∀ b ∈ before ++ log, b.Passes := fun b hb => hp b (List.mem_append_left _ hb)
    have hs₂ := ih hlog ((List.prefix_append _ _).trans hsteps) hpass
    rcases hstart : (h.starting c g a.step).run u with ⟨start, v⟩
    have hv := hP.executed hs₂ flag hstart
    obtain ⟨rest, hrest⟩ := hsteps
    rw [List.append_assoc, List.singleton_append] at hrest
    rw [Step.perform_run hstart] at perform
    obtain ⟨houtcome, rfl⟩ := Prod.mk.inj perform
    have hexecutes := Executes.intro hrest (hbefore.append hlog) hpass flag hstart
    refine hP.finishing a.step start _ (hP.execute _ _ _ hexecutes hv fun e he => ?_)
    exact hp a (by simp) e (Attempt.error?_eq_some_iff.mpr (houtcome.symm.trans he))

/-- What holds at first holds whenever a step is executed. -/
theorem Sustained.executes (hP : Sustained h c g steps s P) (hs : P s) {k : Nat} {step : Step}
    (he : Executes h c g steps s k step t) : P t := by
  cases he with
  | intro authored attempts passes flag starting =>
    exact hP.executed (hP.attempts (.nil _) (hP.opening _ hs) attempts ⟨_, authored⟩ passes) flag
      starting

end Sustained

end GameInstaller
