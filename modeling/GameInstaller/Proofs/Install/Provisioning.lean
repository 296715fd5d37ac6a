import GameInstaller.Install.Rehearsal
import GameInstaller.Proofs.Command.Binding
import GameInstaller.Proofs.Install.Sustaining
import GameInstaller.Proofs.Install.Tracing
import GameInstaller.Proofs.Install.Validity

/-!
# Runners that are installed along a run

A step that checks what a game depends on installs its runner when that is missing, and before it
what the runner needs.  Later steps find what was installed, so that however many such steps a run
has, each of the two is installed at most once.  The installations are written down as they are
asked for, with what came of them.

* `Host.audited`    a host whose installations are written down
* `Host.Present`    a runner is there
* `Host.Reliable`   what is installed is there, and what is there stays
* `Provision`       the installations so far, while none has failed
* `Breakdown`       the installations up to the one that failed

## Key results

- `checkDepends_audited`: what one check asks for
- `installs_each_once`: the installations of a whole run
-/

namespace GameInstaller

variable {σ : Type}

/-! ## Installations that are written down -/

/-- The part that a runner has in an install. -/
inductive Role where
  /-- What the runner needs first. -/
  | dependency
  | main
  deriving DecidableEq, Repr

/-- An installation that was asked for, and what came of it. -/
structure Installation where
  role : Role
  outcome : Except RunnerError Unit

/-- An action that leaves the installations alone. -/
def unaudited {α : Type} (x : StateM σ α) : StateM (σ × List Installation) α :=
  onPart Prod.fst (fun s p => (s, p.2)) x

/-- A runner whose installations are written down. -/
def Runner.audited (r : Runner σ) (role : Role) : Runner (σ × List Installation) where
  name := r.name
  isInstalled := unaudited r.isInstalled
  install := fun p =>
    let (outcome, s) := r.install.run p.1
    (outcome, s, p.2 ++ [⟨role, outcome⟩])

/-- A host whose installations are written down. -/
def Host.audited (h : Host σ) : Host (σ × List Installation) where
  movePath src dst := unaudited (h.movePath src dst)
  copyTree src dst := unaudited (h.copyTree src dst)
  createDir p := unaudited (h.createDir p)
  extract archive dst format := unaudited (h.extract archive dst format)
  openFile p := unaudited (h.openFile p)
  runner := h.runner.audited .main
  dependency := h.dependency.map (·.audited .dependency)
  saveEntry id entry := unaudited (h.saveEntry id entry)
  spawn l := unaudited (h.spawn l)
  isCancelled := unaudited h.isCancelled
  append dir game e := unaudited (h.append dir game e)
  newRunId := unaudited h.newRunId
  clock := unaudited h.clock

/-- The runner in a role. -/
def Host.runner? (h : Host σ) : Role → Option (Runner σ)
  | .dependency => h.dependency
  | .main => some h.runner

theorem unaudited_run {α : Type} (x : StateM σ α) (p : σ × List Installation) :
    (unaudited x).run p = ((x.run p.1).1, (x.run p.1).2, p.2) := rfl

theorem Runner.audited_install_run (r : Runner σ) (role : Role) (p : σ × List Installation) :
    (r.audited role).install.run p =
      ((r.install.run p.1).1, (r.install.run p.1).2, p.2 ++ [⟨role, (r.install.run p.1).1⟩]) := rfl

/-- Writing installations down does not disturb. -/
theorem Host.audited_matches (h : Host σ) : h.audited.MatchesAll (fun p s => p.1 = s) h :=
  have hkept {α : Type} (x : StateM σ α) : Related (fun p s => p.1 = s) (unaudited x) x := by
    rintro p _ rfl
    exact ⟨rfl, rfl⟩
  have hrunner (r : Runner σ) (role : Role) :
      (r.audited role).Matches (fun p s => p.1 = s) r :=
    ⟨rfl, hkept _, by rintro p _ rfl; exact ⟨rfl, rfl⟩⟩
  { movePath := fun _ _ => hkept _
    copyTree := fun _ _ => hkept _
    createDir := fun _ => hkept _
    extract := fun _ _ _ => hkept _
    openFile := fun _ => hkept _
    runner := hrunner _ _
    dependency := by
      simp only [Host.audited]
      cases h.dependency with
      | none => exact .none
      | some d => exact .some (hrunner d _)
    saveEntry := fun _ _ => hkept _
    spawn := fun _ => hkept _
    isCancelled := hkept _
    append := fun _ _ _ => hkept _
    newRunId := hkept _
    clock := hkept _ }

/-- Other operations than the check ask for no installation. -/
theorem Operation.apply_audited (h : Host σ) (c : Context) (g : Game) {o : Operation}
    (ho : o ≠ .checkDepends) (p : σ × List Installation) :
    (o.apply h.audited c g).run p = (unaudited (o.apply h c g)).run p := by
  have hkept {α : Type} (x : StateM σ α) :
      Related (fun q s => q.1 = s ∧ q.2 = p.2) (unaudited x) x := by
    rintro q _ ⟨rfl, hq⟩
    exact ⟨rfl, rfl, hq⟩
  have hmatches : o.Matches (fun q s => q.1 = s ∧ q.2 = p.2) h.audited h c g := by
    cases o with
    | checkDepends => exact absurd rfl ho
    | extract => exact fun _ _ => hkept _
    | writeConfig => exact fun _ _ _ _ => hkept _
    | move | copy | mkdir | execute | checksum => exact hkept _
  obtain ⟨h₁, h₂, h₃⟩ := Operation.apply_related hmatches p p.1 ⟨rfl, rfl⟩
  exact Prod.ext h₁ (Prod.ext h₂ h₃)

/-! ## Steps that check -/

/-- The steps that check what the game depends on are those of this command. -/
theorem Step.operation_eq_checkDepends_iff {step : Step} {o : Operation}
    (ho : step.operation = .ok o) :
    o = .checkDepends ↔ step.command = Command.checkDepends.name := by
  obtain ⟨c, hc, hbind⟩ : ∃ c, Command.ofName? step.command = some c ∧ c.bind step.params = .ok o := by
    unfold Step.operation Command.resolve at ho
    cases hc : Command.ofName? step.command with
    | none => simp [hc] at ho
    | some c =>
      simp only [hc, mapError_eq_ok, Command.operation] at ho
      exact ⟨c, rfl, ho⟩
  have hcommand := Command.command_of_bind hbind
  rw [← Command.ofName?_eq_some_iff, hc, Option.some.injEq, ← hcommand]
  cases o <;> simp [Operation.command]

/-! ## Runners that stay -/

/-- The runner in a role is there, if there is one in that role. -/
def Host.Present (h : Host σ) (role : Role) (s : σ) : Prop :=
  ∀ r, h.runner? role = some r → (r.isInstalled.run s).1 = true

/-- An action takes away no runner that is there. -/
def Host.Retains {α : Type} (h : Host σ) (x : StateM σ α) : Prop :=
  ∀ role s, h.Present role s → h.Present role (x.run s).2

/-- What is installed is there, and neither the runners nor what a run does beside its steps take
    away what is there. -/
structure Host.Reliable (h : Host σ) : Prop where
  installs : ∀ role r s, h.runner? role = some r → (r.install.run s).1 = .ok () →
    (r.isInstalled.run (r.install.run s).2).1 = true
  asking : ∀ role r, h.runner? role = some r → h.Retains r.isInstalled
  installing : ∀ role r, h.runner? role = some r → h.Retains r.install
  isCancelled : h.Retains h.isCancelled
  append : ∀ dir game e, h.Retains (h.append dir game e)
  newRunId : h.Retains h.newRunId
  clock : h.Retains h.clock

/-- The installations `p.2` led from the state `s` to the state `p.1`, and none of them failed. -/
structure Provision (h : Host σ) (s : σ) (p : σ × List Installation) : Prop where
  retained : ∀ role, h.Present role s → h.Present role p.1
  succeeded : ∀ i ∈ p.2, i.outcome = .ok ()
  missing : ∀ i ∈ p.2, ¬ h.Present i.role s
  present : ∀ i ∈ p.2, h.Present i.role p.1
  ordered : (p.2.map (·.role)).Sublist [.dependency, .main]
  /-- The runner is not installed before what it needs is there. -/
  first : (∃ i ∈ p.2, i.role = .main) → h.Present .dependency p.1

/-- From the state `s` on these installations were asked for, and the last one, of the runner `r`,
    failed for the reason `e`. -/
structure Breakdown (h : Host σ) (s : σ) (installs : List Installation) (r : Runner σ)
    (e : RunnerError) : Prop where
  last : ∃ before role, installs = before ++ [⟨role, .error e⟩] ∧ h.runner? role = some r ∧
    ∀ i ∈ before, i.outcome = .ok ()
  missing : ∀ i ∈ installs, ¬ h.Present i.role s
  ordered : (installs.map (·.role)).Sublist [.dependency, .main]

/-- The error of a runner that could not be installed. -/
def Runner.installError (r : Runner σ) (e : RunnerError) : ExecutionError :=
  .new .runner (s!"cannot install runner '{r.name}': " ++ e.message)

/-- A runner that could not be installed ends the run. -/
theorem Runner.severity_installError (r : Runner σ) (e : RunnerError) (step : Step) :
    (InstallError.execution ((r.installError e).atStep step.index step.command)).severity = .fatal :=
  rfl

/-- What comes of looking after runners: what is wanted of them holds, or one of them could not be
    installed. -/
inductive Secured (h : Host σ) (s : σ) (wanted : σ → Prop) :
    Applied × σ × List Installation → Prop
  | there {t : σ} {installs : List Installation} (provision : Provision h s (t, installs))
      (holds : wanted t) : Secured h s wanted (.ok (), t, installs)
  | broken {t : σ} {installs : List Installation} {r : Runner σ} {e : RunnerError}
      (breakdown : Breakdown h s installs r e) :
      Secured h s wanted (.error (r.installError e), t, installs)

namespace Provision

variable {h : Host σ} {s t : σ} {installs : List Installation}

/-- No installation has been asked for at first. -/
theorem start (h : Host σ) (s : σ) : Provision h s (s, []) where
  retained _ hr := hr
  succeeded _ hi := by cases hi
  missing _ hi := by cases hi
  present _ hi := by cases hi
  ordered := List.nil_sublist _
  first := fun ⟨_, hi, _⟩ => by cases hi

/-- What takes away no runner leaves the installations as they are. -/
theorem retain (hp : Provision h s (t, installs)) {u : σ}
    (hu : ∀ role, h.Present role t → h.Present role u) : Provision h s (u, installs) where
  retained role hr := hu role (hp.retained role hr)
  succeeded := hp.succeeded
  missing := hp.missing
  present i hi := hu _ (hp.present i hi)
  ordered := hp.ordered
  first hm := hu _ (hp.first hm)

/-- The installation of a runner that is missing comes after those before it. -/
theorem ordered_snoc (hp : Provision h s (t, installs)) {role : Role} (hmissing : ¬ h.Present role t)
    (hmain : role = .main → h.Present .dependency t) (outcome : Except RunnerError Unit) :
    ((installs ++ [Installation.mk role outcome]).map (·.role)).Sublist [.dependency, .main] := by
  have hother : ∀ i ∈ installs, i.role ≠ role := fun i hi heq => hmissing (heq ▸ hp.present i hi)
  rw [List.map_append, List.map_singleton]
  cases role with
  | dependency =>
    -- The runner was not installed either, since what it needs was not there.
    have hnil : installs = [] := by
      refine List.eq_nil_iff_forall_not_mem.mpr fun i hi => ?_
      cases hrole : i.role with
      | dependency => exact hother i hi hrole
      | main => exact hmissing (hp.first ⟨i, hi, hrole⟩)
    simp [hnil]
  | main =>
    have hroles : (installs.map (·.role)).Sublist [.dependency] := by
      have hnot : (installs.map (·.role)).filter (· ≠ .main) = installs.map (·.role) :=
        List.filter_eq_self.mpr (by simpa using hother)
      have hleft := hp.ordered.filter (· ≠ .main)
      rwa [hnot] at hleft
    exact hroles.append_right [.main]

variable {r : Runner σ} {role : Role}

/-- A runner that is missing now was missing at first. -/
theorem missing_snoc (hp : Provision h s (t, installs)) (hmissing : ¬ h.Present role t)
    (outcome : Except RunnerError Unit) :
    ∀ i ∈ installs ++ [Installation.mk role outcome], ¬ h.Present i.role s := by
  intro i hi hs
  rcases List.mem_append.mp hi with hi | hi
  · exact hp.missing i hi hs
  · obtain rfl := List.mem_singleton.mp hi
    exact hmissing (hp.retained role hs)

/-- One more runner was installed. -/
theorem snoc (hp : Provision h s (t, installs)) (hmissing : ¬ h.Present role t)
    (hmain : role = .main → h.Present .dependency t) {u : σ}
    (hkeep : ∀ other, h.Present other t → h.Present other u) (hnow : h.Present role u) :
    Provision h s (u, installs ++ [⟨role, .ok ()⟩]) where
  retained other ho := hkeep other (hp.retained other ho)
  succeeded i hi := by
    rcases List.mem_append.mp hi with hi | hi
    · exact hp.succeeded i hi
    · obtain rfl := List.mem_singleton.mp hi
      rfl
  missing := hp.missing_snoc hmissing _
  present i hi := by
    rcases List.mem_append.mp hi with hi | hi
    · exact hkeep _ (hp.present i hi)
    · obtain rfl := List.mem_singleton.mp hi
      exact hnow
  ordered := hp.ordered_snoc hmissing hmain _
  first := by
    rintro ⟨i, hi, hmain'⟩
    rcases List.mem_append.mp hi with hi | hi
    · exact hkeep _ (hp.first ⟨i, hi, hmain'⟩)
    · obtain rfl := List.mem_singleton.mp hi
      exact hkeep _ (hmain hmain')

/-- One more runner could not be installed. -/
theorem breakdown (hp : Provision h s (t, installs)) (hmissing : ¬ h.Present role t)
    (hmain : role = .main → h.Present .dependency t) (hrole : h.runner? role = some r)
    (e : RunnerError) : Breakdown h s (installs ++ [⟨role, .error e⟩]) r e where
  last := ⟨installs, role, rfl, hrole, hp.succeeded⟩
  missing := hp.missing_snoc hmissing _
  ordered := hp.ordered_snoc hmissing hmain _

/-- A runner that is missing is installed, or the failure to do so is reported. -/
theorem ensureInstalled (hp : Provision h s (t, installs)) (hr : h.Reliable)
    (hrole : h.runner? role = some r) (hmain : role = .main → h.Present .dependency t) :
    Secured h s (fun u => h.Present role u ∧ ∀ other, h.Present other t → h.Present other u)
      ((ensureInstalled (r.audited role)).run (t, installs)) := by
  unfold GameInstaller.ensureInstalled
  rcases hask : r.isInstalled.run t with ⟨there, u⟩
  have hask' : (r.audited role).isInstalled.run (t, installs) = (there, u, installs) := by
    change (unaudited r.isInstalled).run (t, installs) = _
    rw [unaudited_run, hask]
  have hu : ∀ other, h.Present other t → h.Present other u := fun other ho => by
    have := hr.asking role r hrole other t ho
    rwa [hask] at this
  have hpresent : h.Present role t ↔ there = true := by
    unfold Host.Present
    simp [hrole, hask]
  rw [run_bind_of hask']
  cases there with
  | true => exact .there (hp.retain hu) ⟨hu role (hpresent.mpr rfl), hu⟩
  | false =>
    have hmissing : ¬ h.Present role t := by simp [hpresent]
    rcases hinstall : r.install.run u with ⟨outcome, v⟩
    have hinstall' := r.audited_install_run role (u, installs)
    rw [hinstall] at hinstall'
    have hv : ∀ other, h.Present other u → h.Present other v := fun other ho => by
      have := hr.installing role r hrole other u ho
      rwa [hinstall] at this
    simp only [Bool.false_eq_true, ↓reduceIte]
    rw [run_bind_of hinstall']
    cases outcome with
    | error e => exact .broken (hp.breakdown hmissing hmain hrole e)
    | ok =>
      have hnow : h.Present role v := fun r' hr' => by
        obtain rfl := Option.some.inj (hrole.symm.trans hr')
        have := hr.installs role r u hrole
        rw [hinstall] at this
        exact this rfl
      have hkeep : ∀ other, h.Present other t → h.Present other v :=
        fun other ho => hv other (hu other ho)
      exact .there (hp.snoc hmissing hmain hkeep hnow) ⟨hnow, hkeep⟩

end Provision

/-- A check of a host whose runner needs nothing. -/
theorem Host.checkDepends_of_none {h : Host σ} (hd : h.dependency = none) :
    h.checkDepends = ensureInstalled h.runner := by
  unfold checkDepends
  rw [hd]

/-- A check goes on to the runner when what that needs is there. -/
theorem Host.checkDepends_run_of_some {h : Host σ} {d : Runner σ} (hd : h.dependency = some d)
    {s t : σ} {first : Applied} (hrun : (ensureInstalled d).run s = (first, t)) :
    h.checkDepends.run s = match first with
      | .ok () => (ensureInstalled h.runner).run t
      | .error e => (.error e, t) := by
  unfold checkDepends
  rw [hd]
  dsimp only
  rw [run_bind_of hrun]
  cases first <;> rfl

/-- A check installs what is missing of the two runners, what the runner needs before the runner, and
    fails as soon as one installation fails. -/
theorem checkDepends_audited {h : Host σ} (hr : h.Reliable) {s t : σ}
    {installs : List Installation} (hp : Provision h s (t, installs)) :
    Secured h s (fun u => ∀ role, h.Present role u) (h.audited.checkDepends.run (t, installs)) := by
  have hmain {t : σ} {installs : List Installation} (hp : Provision h s (t, installs))
      (hd : h.Present .dependency t) : Secured h s (fun u => ∀ role, h.Present role u)
        ((ensureInstalled (h.runner.audited .main)).run (t, installs)) := by
    have hrole : h.runner? .main = some h.runner := rfl
    have hsecured := hp.ensureInstalled hr hrole fun _ => hd
    generalize (GameInstaller.ensureInstalled (h.runner.audited .main)).run (t, installs) = out
      at hsecured ⊢
    cases hsecured with
    | broken hbreak => exact .broken hbreak
    | there hprovision hholds =>
      refine .there hprovision fun role => ?_
      cases role with
      | dependency => exact hholds.2 _ hd
      | main => exact hholds.1
  -- What the runner needs comes first; without it the runner is not looked for.
  cases hd : h.dependency with
  | none =>
    have hd' : h.audited.dependency = none := by simp [Host.audited, hd]
    rw [Host.checkDepends_of_none hd']
    exact hmain hp fun r hr' => by cases hd.symm.trans hr'
  | some d =>
    have hd' : h.audited.dependency = some (d.audited .dependency) := by simp [Host.audited, hd]
    have hrole : h.runner? .dependency = some d := hd
    have hsecured := hp.ensureInstalled hr hrole nofun
    rcases hrun : (ensureInstalled (d.audited .dependency)).run (t, installs) with ⟨first, p⟩
    rw [Host.checkDepends_run_of_some hd' hrun]
    rw [hrun] at hsecured
    cases hsecured with
    | broken hbreak => exact .broken hbreak
    | there hprovision hholds => exact hmain hprovision hholds.1

/-! ## Runs -/

section Runs

variable {h : Host σ} {c : Context} {g : Game} {steps : List Step} {errors : Errors} {s : σ}

theorem Host.log_audited (h : Host σ) (c : Context) (g : Game) (e : Journal.Event)
    (p : σ × List Installation) :
    ((h.audited.log c g e).run p).2 = (((h.log c g e).run p.1).2, p.2) := by
  unfold Host.log
  cases c.journalDir <;> rfl

theorem Host.Reliable.log (hr : h.Reliable) (e : Journal.Event) : h.Retains (h.log c g e) := by
  intro role t ht
  unfold Host.log
  cases c.journalDir with
  | none => exact ht
  | some dir => exact hr.append dir _ e role t ht

/-- What a run does beside its steps concerns neither the runners nor their installations. -/
theorem Host.Reliable.unconcerned (hr : h.Reliable) {P : σ × List Installation → Prop}
    (hP : ∀ t u installs, P (t, installs) → (∀ role, h.Present role t → h.Present role u) →
      P (u, installs)) : h.audited.Unconcerned c g P where
  log p e hp := by
    rw [h.log_audited]
    exact hP _ _ _ hp fun role => hr.log e role _
  clock p hp := hP _ _ _ hp fun role => hr.clock role _
  isCancelled p hp := hP _ _ _ hp fun role => hr.isCancelled role _
  newRunId p hp := hP _ _ _ hp fun role => hr.newRunId role _

/-- A step that checks what the game depends on fails as the check does, at its place. -/
theorem Step.execute_run_of_checkDepends {h : Host σ} {step : Step}
    (ho : step.operation = .ok .checkDepends) (t : σ) :
    (step.execute h c g).run t =
      ((h.checkDepends.run t).1.mapError fun e => .execution (e.atStep step.index step.command),
        (h.checkDepends.run t).2) :=
  Step.execute_run_of_operation ho t

/-- Other steps than the check ask for no installation. -/
theorem Step.execute_audited {step : Step} (ho : step.operation ≠ .ok .checkDepends)
    (p : σ × List Installation) :
    (step.execute h.audited c g).run p = (unaudited (step.execute h c g)).run p := by
  cases hop : step.operation with
  | error e =>
    unfold Step.execute unaudited
    rw [hop]
    rfl
  | ok o =>
    have hne : o ≠ .checkDepends := fun heq => ho (by rw [hop, heq])
    rw [Step.execute_run_of_operation hop, Operation.apply_audited h c g hne, unaudited_run,
      unaudited_run, Step.execute_run_of_operation hop]

/-- The executed steps that do not check what the game depends on take away no runner. -/
def LeavesRunners (h : Host σ) (c : Context) (g : Game) (steps : List Step) (s : σ) : Prop :=
  ∀ k step t, Executes h.audited c g steps (s, []) k step t →
    step.command ≠ Command.checkDepends.name →
    ∀ role, h.Present role t.1 → h.Present role ((step.execute h c g).run t.1).2

variable (hr : h.Reliable) (hsteps : LeavesRunners h c g steps s)

include hr hsteps

/-- What an executed step makes of the installations so far. -/
theorem Step.secured {k : Nat} {step : Step} {t : σ × List Installation}
    (he : Executes h.audited c g steps (s, []) k step t) (hp : Provision h s t) :
    (step.operation = .ok .checkDepends ∧ Secured h s (fun u => ∀ role, h.Present role u)
      (h.audited.checkDepends.run t)) ∨
    (step.operation ≠ .ok .checkDepends ∧
      (∀ role, h.Present role t.1 → h.Present role ((step.execute h.audited c g).run t).2.1) ∧
      Provision h s ((step.execute h.audited c g).run t).2) := by
  by_cases ho : step.operation = .ok .checkDepends
  · exact .inl ⟨ho, checkDepends_audited hr hp⟩
  · have hkeep : ∀ role, h.Present role t.1 → h.Present role ((step.execute h c g).run t.1).2 := by
      cases hop : step.operation with
      | ok o =>
        refine hsteps k step t he fun hc => ?_
        have := (Step.operation_eq_checkDepends_iff hop).mpr hc
        exact ho (by rw [hop, this])
      | error e =>
        intro role ht
        unfold Step.execute
        rwa [hop]
    refine .inr ⟨ho, ?_⟩
    rw [Step.execute_audited ho, unaudited_run]
    exact ⟨hkeep, hp.retain hkeep⟩

/-- An executed step that passes leaves what was there, and both runners if it checks them. -/
theorem Step.provision_of_passes {k : Nat} {step : Step} {t : σ × List Installation}
    (he : Executes h.audited c g steps (s, []) k step t) (hp : Provision h s t)
    (hpass : ∀ e, ((step.execute h.audited c g).run t).1 = .error e → e.severity = .advisory) :
    let after := ((step.execute h.audited c g).run t).2
    Provision h s after ∧ (∀ role, h.Present role t.1 → h.Present role after.1) ∧
      (step.command = Command.checkDepends.name → ∀ role, h.Present role after.1) := by
  rcases Step.secured hr hsteps he hp with ⟨ho, hsecured⟩ | ⟨ho, hkeep, hprovision⟩
  · rw [Step.execute_run_of_checkDepends ho] at hpass ⊢
    generalize h.audited.checkDepends.run t = secured at hsecured hpass ⊢
    cases hsecured with
    | there hprovision hholds => exact ⟨hprovision, fun role _ => hholds role, fun _ => hholds⟩
    | broken =>
      have hpassed := hpass _ rfl
      rw [Runner.severity_installError] at hpassed
      cases hpassed
  · refine ⟨hprovision, hkeep, fun hcommand => ?_⟩
    cases hop : step.operation with
    | ok o => exact absurd ((Step.operation_eq_checkDepends_iff hop).mpr hcommand ▸ hop) ho
    | error e =>
      -- A check with other parameters than it takes does not pass.
      have hpassed := hpass e (by unfold Step.execute; rw [hop]; rfl)
      rw [(Step.operation_error hop).2.2] at hpassed
      cases hpassed

/-- As long as steps pass no installation fails, and both runners stay when they are there. -/
theorem provision_sustained (both : Prop) : Sustained h.audited c g steps (s, []) fun p =>
    Provision h s p ∧ (both → ∀ role, h.Present role p.1) where
  toUnconcerned := hr.unconcerned fun t u installs hp hu =>
    ⟨hp.1.retain hu, fun hb role => hu role (hp.2 hb role)⟩
  execute k step t he hp hpass := by
    obtain ⟨hprovision, hkeep, -⟩ := Step.provision_of_passes hr hsteps he hp.1 hpass
    exact ⟨hprovision, fun hb role => hkeep role (hp.2 hb role)⟩

/-- The installations of a run: none failed, or the last one did and ended the run at the step that
    asked for it. -/
theorem provision_or_breakdown {log : List Attempt} {s₁ : σ × List Installation}
    {out : (RunResult × Errors) × σ × List Installation}
    (ha : RunAccount h.audited c g steps errors (s, []) log s₁ out) :
    Provision h s out.2 ∨ ∃ (before : List Attempt) (step : Step) (r : Runner σ) (e : RunnerError),
      let failure := InstallError.execution ((r.installError e).atStep step.index step.command)
      step.operation = .ok .checkDepends ∧ log = before ++ [⟨step, .error failure⟩] ∧
      out.1.1 = .failed failure out.1.2 ∧ Breakdown h s out.2.2 r e := by
  have hP := provision_sustained hr hsteps False
  by_cases hfailed : ∃ e es, out.1.1 = .failed e es
  · obtain ⟨e, es, hout⟩ := hfailed
    obtain ⟨before, last, rfl, herror, -, hpass⟩ := ha.last_of_failed hout
    -- The last attempt starts where none has failed yet.
    obtain ⟨start, t, u, v, hexecutes, hexecute, rfl, -, hrest⟩ := ha.attempts.around ha.authored hpass
    cases hrest
    have ht := (hP.executes ⟨.start h s, nofun⟩ hexecutes).1
    rcases Step.secured hr hsteps hexecutes ht with ⟨ho, hsecured⟩ | ⟨-, -, hprovision⟩
    · rw [Step.execute_run_of_checkDepends ho] at hexecute
      generalize h.audited.checkDepends.run t = secured at hsecured hexecute
      obtain ⟨houtcome, rfl⟩ := Prod.mk.inj hexecute
      rw [Attempt.error?_eq_some_iff, ← houtcome] at herror
      cases hsecured with
      | there => cases herror
      | @broken u installs r x hbreak =>
        cases herror
        have hinstalls : h.audited.Unconcerned c g fun p => p.2 = installs :=
          hr.unconcerned fun _ _ _ hp _ => hp
        have hend : out.2.2 = installs :=
          hinstalls.ending ha (hinstalls.finishing last.step start _ rfl)
        have hes := ((ha.failed_iff _ _).mp hout).2.2
        refine .inr ⟨before, last.step, r, x, ho, ?_, hes ▸ hout, hend ▸ hbreak⟩
        rw [show last = ⟨last.step, last.outcome⟩ from rfl, ← houtcome]
        rfl
    · rw [hexecute] at hprovision
      exact .inl (hP.toUnconcerned.ending ha (hP.finishing _ start _ ⟨hprovision, nofun⟩)).1
  · have hpass := ha.passes_of_not_failed fun e es he => hfailed ⟨e, es, he⟩
    have hs₁ := hP.attempts (.nil _) (hP.opening _ ⟨.start h s, nofun⟩) ha.attempts ha.authored hpass
    exact .inl (hP.toUnconcerned.ending ha hs₁).1

/-- A run that came to its end leaves both runners there if it had a step that checks them. -/
theorem present_of_succeeded {log : List Attempt} {s₁ : σ × List Installation}
    {out : (RunResult × Errors) × σ × List Installation}
    (ha : RunAccount h.audited c g steps errors (s, []) log s₁ out) {n : Nat}
    (hout : out.1.1 = .succeeded n) {step : Step} (hmem : step ∈ steps)
    (hcommand : step.command = Command.checkDepends.name) (role : Role) : h.Present role out.2.1 := by
  have hP := provision_sustained hr hsteps False
  have hpass := ha.passes_of_not_failed (by simp [hout])
  obtain ⟨-, hall⟩ := ha.succeeded_of (by simp [hout]) (by simp [hout])
  rw [← hall] at hmem
  obtain ⟨a, hlog, rfl⟩ := List.mem_map.mp hmem
  obtain ⟨before, after, rfl⟩ := List.append_of_mem hlog
  obtain ⟨start, t, u, v, hexecutes, hexecute, rfl, hbefore, hrest⟩ :=
    ha.attempts.around ha.authored fun b hb => hpass b (List.mem_append_left _ hb)
  have ht := (hP.executes ⟨.start h s, nofun⟩ hexecutes).1
  obtain ⟨hprovision, -, hboth⟩ := Step.provision_of_passes hr hsteps hexecutes ht fun e he =>
    hpass a (by simp) e (Attempt.error?_eq_some_iff.mpr (by rwa [hexecute] at he))
  rw [hexecute] at hprovision hboth
  -- The step makes sure of both runners, and the steps after it keep them.
  have hP' := provision_sustained hr hsteps True
  have hthere := hP'.finishing a.step start a.outcome ⟨hprovision, fun _ => hboth hcommand⟩
  have hs₁ := hP'.attempts hbefore hthere hrest (by simpa using ha.authored) (by simpa using hpass)
  exact (hP'.toUnconcerned.ending ha hs₁).2 trivial role

end Runs

/-- The installations of a run.  However many of its steps check what the game depends on, each of
    the two runners is installed at most once, only if it was missing, and what the runner needs
    before the runner.  An installation that fails is the last one; it ends the run at its step,
    with the name of the runner.  After a run that came to its end and had such a step both are
    there. -/
theorem installs_each_once (h : Host σ) (hr : h.Reliable) (c : Context) (g : Game)
    (steps : List Step) (errors : Errors) (s : σ) (hsteps : LeavesRunners h c g steps s) :
    let out := (run h.audited c g steps errors).run (s, [])
    let installs := out.2.2
    (run h c g steps errors).run s = (out.1, out.2.1) ∧
    (installs.map (·.role)).Sublist [.dependency, .main] ∧
    (∀ i ∈ installs, ¬ h.Present i.role s) ∧
    (∀ i ∈ installs.dropLast, i.outcome = .ok ()) ∧
    (∀ i ∈ installs, ∀ e, i.outcome = .error e → ∃ r log s₁ before step,
      let failure := InstallError.execution ⟨s!"cannot install runner '{r.name}': " ++ e.message,
        .runner, some step.index, some step.command⟩
      h.runner? i.role = some r ∧ RunAccount h.audited c g steps errors (s, []) log s₁ out ∧
      log = before ++ [⟨step, .error failure⟩] ∧ step.command = Command.checkDepends.name ∧
      out.1.1 = .failed failure out.1.2) ∧
    (∀ n, out.1.1 = .succeeded n → (∃ step ∈ steps, step.command = Command.checkDepends.name) →
      ∀ role, h.Present role out.2.1) := by
  intro out installs
  obtain ⟨log, s₁, ha⟩ := run_account h.audited c g steps errors (s, [])
  obtain ⟨hresult, hstate⟩ := run_related (h.audited_matches.matchesFor c g) steps errors (s, []) s rfl
  refine ⟨Prod.ext hresult.symm hstate.symm, ?_⟩
  have hsucceeded : ∀ n, out.1.1 = .succeeded n →
      (∃ step ∈ steps, step.command = Command.checkDepends.name) → ∀ role, h.Present role out.2.1 :=
    fun n hn ⟨step, hmem, hcommand⟩ role =>
      present_of_succeeded hr hsteps ha hn hmem hcommand role
  rcases provision_or_breakdown hr hsteps ha with hp | ⟨before, step, r, e, ho, hlog, hfailed, hb⟩
  · refine ⟨hp.ordered, hp.missing, fun i hi => hp.succeeded i (List.dropLast_subset _ hi), ?_,
      hsucceeded⟩
    intro i hi e he
    cases (hp.succeeded i hi).symm.trans he
  · obtain ⟨installed, role, hinstalls, hrole, hok⟩ := hb.last
    refine ⟨hb.ordered, hb.missing, ?_, ?_, hsucceeded⟩
    · change ∀ i ∈ out.2.2.dropLast, _
      rwa [hinstalls, List.dropLast_concat]
    · intro i hi x hx
      change i ∈ out.2.2 at hi
      rw [hinstalls] at hi
      rcases List.mem_append.mp hi with hi | hi
      · cases (hok i hi).symm.trans hx
      · obtain rfl := List.mem_singleton.mp hi
        cases hx
        exact ⟨r, log, s₁, before, step, hrole, ha, hlog,
          (Step.operation_eq_checkDepends_iff ho).mp rfl, hfailed⟩

/-! ## Stand-ins -/

/-- Whether a stand-in is there is told by the stand-ins alone. -/
theorem Rehearsal.present_iff {files : FilesChoice} {store : StoreChoice} {name needed : String}
    {heedful : Bool} {role : Role} {s : Rehearsal} :
    (Rehearsal.host files store (.standIn name (some needed)) heedful).Present role s ↔
      match role with
      | .dependency => s.troupe.dependency.all (·.installed) = true
      | .main => s.troupe.main.installed = true := by
  unfold Host.Present Host.runner?
  cases role with
  | dependency =>
    exact ⟨fun h => h _ rfl, fun h r hr => by obtain rfl := Option.some.inj hr; exact h⟩
  | main => exact ⟨fun h => h _ rfl, fun h r hr => by obtain rfl := Option.some.inj hr; exact h⟩

/-- What leaves the stand-ins alone takes none of them away. -/
theorem Rehearsal.retains_of_silent {α : Type} {files : FilesChoice} {store : StoreChoice}
    {name needed : String} {heedful : Bool} {x : StateM Rehearsal α} (hx : Silent (·.troupe) x) :
    (Rehearsal.host files store (.standIn name (some needed)) heedful).Retains x := by
  intro role s hs
  rw [present_iff] at hs ⊢
  have hsame : (x.run s).2.troupe = s.troupe := hx s
  rwa [hsame]

/-- A stand-in is there when it was there before it was installed, or when installing it
    succeeded. -/
theorem Troupe.installed_tryInstall {x : StandIn}
    (hx : x.installed = true ∨ (Troupe.tryInstall x).1 = .ok ()) :
    (Troupe.tryInstall x).2.installed = true := by
  unfold Troupe.tryInstall at hx ⊢
  cases ht : x.trouble with
  | none => rfl
  | some trouble =>
    rw [ht] at hx
    exact hx.resolve_right nofun

/-- Installing what the runner needs is nothing to the runner. -/
theorem Troupe.neededRunner_install (name : String) (t : Troupe) :
    let out := (Troupe.neededRunner name).install.run t
    out.2.main = t.main ∧ (t.dependency.all (·.installed) = true ∨ out.1 = .ok () →
      out.2.dependency.all (·.installed) = true) := by
  obtain ⟨main, dependency, installs⟩ := t
  cases dependency with
  | none => exact ⟨rfl, fun _ => rfl⟩
  | some x => exact ⟨rfl, fun hx => Troupe.installed_tryInstall hx⟩

/-- Stand-ins are there once they were told to be. -/
theorem Rehearsal.reliable (files : FilesChoice) (store : StoreChoice) (name needed : String)
    (heedful : Bool) :
    (Rehearsal.host files store (.standIn name (some needed)) heedful).Reliable where
  installs role r s hr hok := by
    cases role with
    | main =>
      obtain rfl := Option.some.inj hr
      exact Troupe.installed_tryInstall (.inr hok)
    | dependency =>
      obtain rfl := Option.some.inj hr
      exact (Troupe.neededRunner_install needed s.troupe).2 (.inr hok)
  asking role r hr := by
    cases role with
    | main | dependency =>
      obtain rfl := Option.some.inj hr
      exact retains_of_silent fun _ => rfl
  installing role r hr other s hs := by
    rw [present_iff] at hs ⊢
    cases role with
    | main =>
      obtain rfl := Option.some.inj hr
      cases other with
      | main => exact Troupe.installed_tryInstall (.inl hs)
      | dependency => exact hs
    | dependency =>
      obtain rfl := Option.some.inj hr
      obtain ⟨hmain, hneeded⟩ := Troupe.neededRunner_install needed s.troupe
      cases other with
      | main => exact (congrArg (·.installed) hmain).trans hs
      | dependency => exact hneeded (.inl hs)
  isCancelled := retains_of_silent fun _ => rfl
  append dir game e := retains_of_silent fun _ => rfl
  newRunId := retains_of_silent fun _ => rfl
  clock := retains_of_silent fun _ => rfl

/-- Two checks with a directory made between them install a runner and what it needs once each. -/
theorem installs_each_once_winesteam :
    let h := Rehearsal.host .remembered .remembered (.standIn "winesteam" (some "wine")) false
    let c := Context.ofGameDir ⟨"/g"⟩ none
    let g : Game := ⟨"baz", "Baz", "winesteam"⟩
    let check (i : Nat) : Step := ⟨i, "check_depends", .null⟩
    let steps := [check 0, ⟨1, "mkdir", .string "data"⟩, check 2]
    let s : Rehearsal := ⟨⟨⟨[], [], false⟩, ⟨[]⟩, default⟩, ⟨[], [], [], none, false⟩,
      ⟨⟨"winesteam", false, none⟩, some ⟨"wine", false, none⟩, []⟩, []⟩
    let out := (run h.audited c g steps []).run (s, [])
    h.Reliable ∧ LeavesRunners h c g steps s ∧ out.1.1 = .succeeded 3 ∧
      out.2.2.map (·.role) = [.dependency, .main] ∧ (∀ i ∈ out.2.2, ¬ h.Present i.role s) ∧
      ∀ role, h.Present role out.2.1 := by
  intro h c g check steps s
  have hr : h.Reliable := Rehearsal.reliable _ _ _ _ _
  have hsteps : LeavesRunners h c g steps s := by
    intro k step t he hstep role ht
    have hk := he.getElem?
    rcases k with _ | _ | _ | k
    · cases hk; exact absurd rfl hstep
    · cases hk
      exact Rehearsal.retains_of_silent (fun _ => rfl) role _ ht
    · cases hk; exact absurd rfl hstep
    · cases hk
  have hall := installs_each_once h hr c g steps [] s hsteps
  have hrun : let out := (run h.audited c g steps []).run (s, [])
      out.1.1 = .succeeded 3 ∧ out.2.2.map (·.role) = [.dependency, .main] := by decide +kernel
  dsimp only at hall hrun ⊢
  -- What the run comes to is known, so it need not be looked into any further.
  generalize (run h.audited c g steps []).run (s, []) = out at hall hrun ⊢
  obtain ⟨-, -, hmissing, -, -, hboth⟩ := hall
  exact ⟨hr, hsteps, hrun.1, hrun.2, hmissing, hboth 3 hrun.1 ⟨check 0, List.mem_cons_self, rfl⟩⟩

end GameInstaller
