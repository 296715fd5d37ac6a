import GameInstaller.Proofs.Install.Attempts
import GameInstaller.Proofs.Install.Recording

/-!
# What is seen of a run

A run also reads a clock, takes a name and may keep a journal.  Where a view of the host's state
shows nothing of these, it shows the same of the run as of its steps alone.

## Key results

- `Host.Respects`: a host whose collaborators see and change only what a view shows
- `recorded_respects`: the calls that are made may be shown as well
- `run_related_runSteps`: opening and closing a run is not seen
-/

namespace GameInstaller

variable {σ κ α β : Type}

/-! ## Actions that are not seen -/

section Unseen

variable {view : σ → κ}

/-- An action that is not seen may stand in front of another one. -/
theorem Related.skip {x : StateM σ α} {f : α → StateM σ β} {y : StateM σ β}
    (hx : Silent view x) (hf : ∀ a, Related (Agree view) (f a) y) :
    Related (Agree view) (x >>= f) y :=
  .skip_left hx.unseen hf

/-- An action that cannot be told apart from another one hangs only on what is seen. -/
theorem Related.self {x y : StateM σ α} (hxy : Related (Agree view) x y) :
    Related (Agree view) x x := by
  intro s t hR
  obtain ⟨ha, hs⟩ := hxy s t hR
  obtain ⟨ha', ht⟩ := hxy t t rfl
  exact ⟨ha.trans ha'.symm, hs.trans ht.symm⟩

/-- Actions that are compared with the same action. -/
theorem Related.of_common {x y z : StateM σ α} (hxz : Related (Agree view) x z)
    (hyz : Related (Agree view) y z) : Related (Agree view) x y := by
  intro s t hR
  obtain ⟨ha, hs⟩ := hxz s t hR
  obtain ⟨ha', ht⟩ := hyz t t rfl
  exact ⟨ha.trans ha'.symm, hs.trans ht.symm⟩

/-- With everything in view an action is like itself. -/
theorem Related.refl (x : StateM σ α) : Related (Agree id) x x := by
  intro s t hR
  obtain rfl : s = t := hR
  exact ⟨rfl, rfl⟩

theorem Silent.pure (a : α) : Silent view (Pure.pure a : StateM σ α) := fun _ => rfl

theorem Silent.bind {x : StateM σ α} {f : α → StateM σ β} (hx : Silent view x)
    (hf : ∀ a, Silent view (f a)) : Silent view (x >>= f) := by
  intro s
  rcases hxs : x.run s with ⟨a, s'⟩
  have hs' : view s' = view s := by
    have := hx s
    rwa [hxs] at this
  rw [run_bind_of hxs, hf a s', hs']

end Unseen

/-! ## Hosts -/

theorem Runner.Matches.refl (r : Runner σ) : r.Matches (Agree id) r where
  name := rfl
  isInstalled := .refl _
  install := .refl _

/-- What the collaborators of a host answer, and what the view shows after their calls, hangs only
    on what it showed before.  So does the flag, which anybody may change at any moment: what is
    planned for it is a part of the state.  Clock and run names do not show. -/
structure Host.Respects (h : Host σ) (view : σ → κ) : Prop where
  calls : h.Matches (Agree view) h
  flag : Related (Agree view) h.isCancelled h.isCancelled
  clock : Silent view h.clock
  newRunId : Silent view h.newRunId

/-- With everything in view a host is like itself. -/
theorem Host.Matches.refl (h : Host σ) : h.Matches (Agree id) h where
  movePath _ _ := .refl _
  copyTree _ _ := .refl _
  createDir _ := .refl _
  extract _ _ _ := .refl _
  openFile _ := .refl _
  runner := .refl _
  dependency := by
    cases h.dependency with
    | none => exact .none
    | some d => exact .some (.refl d)
  saveEntry _ _ := .refl _
  spawn _ := .refl _

/-- A view that shows everything, of a host whose clock and run names do not change its state. -/
theorem Host.respects_id {h : Host σ} (hclock : Silent id h.clock)
    (hname : Silent id h.newRunId) : h.Respects id where
  calls := .refl h
  flag := .refl _
  clock := hclock
  newRunId := hname

/-- A state with its record, as a view of the state shows it. -/
def withRecord (view : σ → κ) (p : σ × List Request) : κ × List Request := (view p.1, p.2)

/-- The calls that are made may be shown as well. -/
theorem Host.recorded_respects {h : Host σ} {view : σ → κ} (hv : h.Respects view) :
    h.recorded.Respects (withRecord view) where
  calls := by
    -- To keep the record the same is to show it.
    have heq : RecordedAlike Eq (Agree view) = Agree (withRecord view) := by
      funext p q
      simp [RecordedAlike, Agree, withRecord]
    exact heq ▸ Host.recorded_matches (fun q hK => by rw [hK]) hv.calls
  flag p q hpq := by
    obtain ⟨hstate, hcalls⟩ := Prod.ext_iff.mp hpq
    obtain ⟨ha, hstate'⟩ := hv.flag p.1 q.1 hstate
    exact ⟨ha, Prod.ext hstate' hcalls⟩
  clock p := congrArg (·, p.2) (hv.clock p.1)
  newRunId p := congrArg (·, p.2) (hv.newRunId p.1)

/-! ## Runs -/

section Runs

variable {h : Host σ} {view : σ → κ} {c : Context} {g : Game}

/-- A context without a journal leaves no trace of it. -/
theorem Host.log_silent_of_none (h : Host σ) (view : σ → κ) (g : Game)
    (hc : c.journalDir = none) (e : Journal.Event) : Silent view (h.log c g e) := by
  unfold Host.log
  rw [hc]
  exact .pure ()

/-- The events of a step are not seen. -/
theorem Step.perform_related_execute (hv : h.Respects view)
    (hlog : ∀ e, Silent view (h.log c g e)) (s : Step) :
    Related (Agree view) (s.perform h c g) (s.execute h c g) := by
  rw [← bind_pure (s.execute h c g)]
  unfold Step.perform
  -- Events and readings of the clock stand around the step and do not show.
  refine .skip (hlog _) fun _ => .skip hv.clock fun start => ?_
  refine (Step.execute_related hv.calls c g s).bind fun outcome => ?_
  cases outcome with
  | ok => exact .skip hv.clock fun _ => .skip (hlog _) fun _ => .pure _
  | error e => exact .skip (hlog _) fun _ => .pure _

/-- Steps hang only on what is seen. -/
theorem runSteps_related (hv : h.Respects view) (hlog : ∀ e, Silent view (h.log c g e))
    (n : Nat) (errors : Errors) (steps : List Step) :
    Related (Agree view) (runSteps h c g n errors steps) (runSteps h c g n errors steps) := by
  induction steps generalizing n errors with
  | nil => exact .pure _
  | cons step rest ih =>
    refine hv.flag.bind fun cancelled => ?_
    cases cancelled with
    | true => exact .pure _
    | false =>
      refine (Step.perform_related_execute hv hlog step).self.bind fun outcome => ?_
      cases outcome with
      | ok => exact ih _ _
      | error e =>
        dsimp only
        split
        · exact .pure _
        · exact ih _ _

theorem Host.opening_silent (hv : h.Respects view) (hlog : ∀ e, Silent view (h.log c g e))
    (steps : Nat) : Silent view (h.opening c g steps) :=
  hv.clock.bind fun _ => hv.newRunId.bind fun _ => (hlog _).bind fun _ => .pure _

theorem Host.closing_silent (hv : h.Respects view) (hlog : ∀ e, Silent view (h.log c g e))
    (start : Nat) (runId : String) (result : RunResult) :
    Silent view (h.closing c g start runId result) := by
  refine hv.clock.bind fun now => ?_
  split
  · exact hlog _
  · exact .pure ()

/-- Opening and closing a run is not seen. -/
theorem run_related_runSteps (hv : h.Respects view) (hlog : ∀ e, Silent view (h.log c g e))
    (steps : List Step) (errors : Errors) :
    Related (Agree view) (run h c g steps errors) (runSteps h c g 0 errors steps) := by
  rw [run_eq, ← bind_pure (runSteps h c g 0 errors steps)]
  refine .skip (Host.opening_silent hv hlog _) fun (start, runId) => ?_
  refine (runSteps_related hv hlog _ _ _).bind fun (result, collected) => ?_
  exact .skip (Host.closing_silent hv hlog start runId result) fun _ => .pure _

end Runs

end GameInstaller
