import GameInstaller.Proofs.Install.Executions
import GameInstaller.Proofs.Install.Recording
import Mathlib.Data.List.Forall2
import Mathlib.Data.List.Induction

/-!
# The events of a run

A run tells its journal how it goes: an event for its start, two for each step that it attempts, and
one for its end unless it fails.  What it tells agrees with its result and with the errors that it
records.

* `RunTrace`   events that tell of a run
* `Tracks`     a property of the events so far and the state, kept along a run

## Key results

- `RunAccount.traced`: a property that is kept along a run holds of a trace of the run at its end
- `run_appends`: the events that a host is asked to append are a trace of the run
-/

namespace GameInstaller

open Decimal (Binary64)
open Journal (Event)

variable {σ : Type}

/-! ## Traces -/

/-- What is told of a step that failed. -/
structure FailureReport where
  step : Option Nat
  command : Option String
  error : String
  fatal : Bool

/-- The failure that an event tells of. -/
def Journal.Event.report? : Event → Option FailureReport
  | stepFailed _ step command error fatal => some ⟨step, command, error, fatal⟩
  | _ => none

/-- What is to be told of an error. -/
def InstallError.report (e : InstallError) : FailureReport :=
  ⟨e.step, e.command, e.display, e.severity = .fatal⟩

/-- The events of an attempt: that the step started, and how it ended. -/
inductive AttemptTrace (g : Game) : Attempt → List Event → Prop
  | completed (step : Step) (seconds : Binary64) :
      AttemptTrace g ⟨step, .ok ()⟩
        [.stepStarted g.journalName step.index step.command,
          .stepCompleted g.journalName step.index step.command seconds]
  | failed (step : Step) (e : InstallError) :
      AttemptTrace g ⟨step, .error e⟩
        [.stepStarted g.journalName step.index step.command,
          .stepFailed g.journalName step.index step.command e.display (e.severity = .fatal)]

/-- The event that ends a run with this result; there is none for a failure. -/
inductive ClosingTrace (g : Game) (runId : String) : RunResult → List Event → Prop
  | succeeded (n : Nat) (seconds : Binary64) :
      ClosingTrace g runId (.succeeded n) [.installCompleted g.journalName runId n seconds]
  | abandoned (n : Nat) :
      ClosingTrace g runId (.abandoned n) [.installAbandoned g.journalName runId n]
  | failed (e : InstallError) (errors : Errors) : ClosingTrace g runId (.failed e errors) []

/-- The events tell of a run of `steps` that attempted `log`, had the errors `errors` before it and
    came to `out`. -/
structure RunTrace (g : Game) (steps : List Step) (errors : Errors) (log : List Attempt)
    (out : RunResult × Errors) (events : List Event) : Prop where
  /-- First comes the start of the run, then every attempt in order, and then the end of the run
      under the name that it started with. -/
  shape : ∃ runId traces closing, List.Forall₂ (AttemptTrace g) log traces ∧
    ClosingTrace g runId out.1 closing ∧
    events = .installStarted g.journalName runId steps.length version ::
      (traces.flatten ++ closing)
  count : ∀ n, out.1 = .succeeded n ∨ out.1 = .abandoned n → n = log.length
  completed_iff : (∃ e ∈ events, e.kind = "install_completed") ↔ ∃ n, out.1 = .succeeded n
  abandoned_iff : (∃ e ∈ events, e.kind = "install_abandoned") ↔ ∃ n, out.1 = .abandoned n
  /-- Of a run that failed the last event tells of a fatal error, and no other event does. -/
  failed : ∀ e es, out.1 = .failed e es → ∃ front last, events = front ++ [last] ∧
    last.report? = some e.report ∧ e.report.fatal = true ∧
    ∀ event ∈ front, ∀ r, event.report? = some r → r.fatal = false
  /-- The failures that are told of are the errors that the run recorded. -/
  reports : ∃ new, out.2 = errors ++ new ∧
    events.filterMap Event.report? = new.map InstallError.report

section Traces

variable {g : Game} {log : List Attempt} {traces : List (List Event)}

/-- An attempt tells of its error. -/
theorem AttemptTrace.reports {a : Attempt} {events : List Event} (ha : AttemptTrace g a events)
    (hlocated : ∀ e, a.error? = some e →
      e.step = some a.step.index ∧ e.command = some a.step.command) :
    events.filterMap Event.report? = a.error?.toList.map InstallError.report := by
  cases ha with
  | completed => rfl
  | failed step e =>
    obtain ⟨hstep, hcommand⟩ := hlocated e rfl
    change [FailureReport.mk _ _ _ _] = [e.report]
    rw [InstallError.report, hstep, hcommand]

/-- The last event of an attempt that failed tells of its error. -/
theorem AttemptTrace.of_error {a : Attempt} {events : List Event} {e : InstallError}
    (ha : AttemptTrace g a events) (he : a.error? = some e) :
    events = [.stepStarted g.journalName a.step.index a.step.command,
      .stepFailed g.journalName a.step.index a.step.command e.display (e.severity = .fatal)] := by
  cases ha with
  | completed => cases he
  | failed step e' =>
    cases he
    rfl

/-- Attempts tell of their errors, in order. -/
theorem reports_flatten (ht : List.Forall₂ (AttemptTrace g) log traces)
    (hlocated : ∀ a ∈ log, ∀ e, a.error? = some e →
      e.step = some a.step.index ∧ e.command = some a.step.command) :
    traces.flatten.filterMap Event.report? = (failures log).map InstallError.report := by
  induction ht with
  | nil => rfl
  | cons ha _ ih =>
    rw [List.forall_mem_cons] at hlocated
    rw [List.flatten_cons, List.filterMap_append, ha.reports hlocated.1, ih hlocated.2,
      failures_cons, List.map_append]

/-- Attempts that pass tell of no fatal error. -/
theorem not_fatal_of_passes_of_mem_flatten (ht : List.Forall₂ (AttemptTrace g) log traces)
    (hlocated : ∀ a ∈ log, ∀ e, a.error? = some e →
      e.step = some a.step.index ∧ e.command = some a.step.command)
    (hp : ∀ a ∈ log, a.Passes) {event : Event} (hevent : event ∈ traces.flatten)
    {r : FailureReport} (hr : event.report? = some r) : r.fatal = false := by
  have hmem := List.mem_filterMap.mpr ⟨event, hevent, hr⟩
  rw [reports_flatten ht hlocated] at hmem
  obtain ⟨e, he, rfl⟩ := List.mem_map.mp hmem
  obtain ⟨a, ha, hae⟩ := List.mem_filterMap.mp he
  simp [InstallError.report, hp a ha e hae]

/-- Attempts tell neither of the start of their run nor of its end. -/
theorem kind_of_mem_flatten (ht : List.Forall₂ (AttemptTrace g) log traces) {e : Event}
    (he : e ∈ traces.flatten) : e.kind ∈ ["step_started", "step_completed", "step_failed"] := by
  induction ht with
  | nil => simp at he
  | cons ha _ ih =>
    rw [List.flatten_cons, List.mem_append] at he
    rcases he with he | he
    · cases ha with
      | completed | failed =>
        obtain rfl | rfl := by simpa using he
        all_goals simp [Event.kind]
    · exact ih he

/-- Events of other kinds than those of starting a run and of its steps are among those of closing
    it. -/
theorem exists_kind_iff (ht : List.Forall₂ (AttemptTrace g) log traces) {opening : Event}
    {closing : List Event} (hopening : opening.kind = "install_started") {kind : String}
    (hfirst : kind ≠ "install_started")
    (hsteps : kind ∉ ["step_started", "step_completed", "step_failed"]) :
    (∃ e ∈ opening :: (traces.flatten ++ closing), e.kind = kind) ↔
      ∃ e ∈ closing, e.kind = kind := by
  constructor
  · rintro ⟨e, he, rfl⟩
    rcases List.mem_cons.mp he with rfl | he
    · exact absurd hopening hfirst
    rcases List.mem_append.mp he with he | he
    · exact absurd (kind_of_mem_flatten ht he) hsteps
    · exact ⟨e, he, rfl⟩
  · rintro ⟨e, he, hk⟩
    exact ⟨e, List.mem_cons_of_mem _ (List.mem_append_right _ he), hk⟩

/-- What is told last of attempts is told of the last one. -/
theorem forall₂_concat {α β : Type} {R : α → β → Prop} {l : List α} {a : α} {us : List β}
    (h : List.Forall₂ R (l ++ [a]) us) : ∃ front u, us = front ++ [u] ∧ List.Forall₂ R l front ∧
      R a u := by
  have hrev := List.forall₂_reverse_iff.mpr h
  rw [List.reverse_append, List.reverse_singleton, List.singleton_append] at hrev
  obtain ⟨u, front, hu, hfront, heq⟩ := List.forall₂_cons_left_iff.mp hrev
  refine ⟨front.reverse, u, ?_, ?_, hu⟩
  · rw [← List.reverse_cons, ← heq, List.reverse_reverse]
  · rwa [← List.forall₂_reverse_iff, List.reverse_reverse]

theorem ClosingTrace.completed_iff {runId : String} {result : RunResult} {closing : List Event}
    (hc : ClosingTrace g runId result closing) :
    (∃ e ∈ closing, e.kind = "install_completed") ↔ ∃ n, result = .succeeded n := by
  cases hc <;> simp [Event.kind]

theorem ClosingTrace.abandoned_iff {runId : String} {result : RunResult} {closing : List Event}
    (hc : ClosingTrace g runId result closing) :
    (∃ e ∈ closing, e.kind = "install_abandoned") ↔ ∃ n, result = .abandoned n := by
  cases hc <;> simp [Event.kind]

theorem ClosingTrace.reports {runId : String} {result : RunResult} {closing : List Event}
    (hc : ClosingTrace g runId result closing) : closing.filterMap Event.report? = [] := by
  cases hc <;> rfl

end Traces

/-! ## What is kept along a run -/

/-- A property of the events so far and the state that holds when the run has been opened, and that
    everything keeps which comes after. -/
structure Tracks (h : Host σ) (c : Context) (g : Game) (steps : List Step) (s : σ)
    (Q : List Event → σ → Prop) : Prop where
  opening : Q [.installStarted g.journalName ((h.opening c g steps.length).run s).1.2 steps.length
    version] ((h.opening c g steps.length).run s).2
  log : ∀ events t e, Q events t → Q (events ++ [e]) ((h.log c g e).run t).2
  clock : ∀ events t, Q events t → Q events (h.clock.run t).2
  isCancelled : ∀ events t, Q events t → Q events (h.isCancelled.run t).2
  execute : ∀ events k step t, Executes h c g steps s k step t → Q events t →
    Q events ((step.execute h c g).run t).2

namespace Tracks

variable {h : Host σ} {c : Context} {g : Game} {steps : List Step} {s t : σ}
  {Q : List Event → σ → Prop} {events : List Event}

theorem starting (hQ : Tracks h c g steps s Q) (step : Step) (he : Q events t) :
    Q (events ++ [.stepStarted g.journalName step.index step.command])
      ((h.starting c g step).run t).2 :=
  hQ.clock _ _ (hQ.log _ _ _ he)

theorem finishing (hQ : Tracks h c g steps s Q) (step : Step) (start : Nat)
    (outcome : Except InstallError Unit) (he : Q events t) :
    ∃ e, AttemptTrace g ⟨step, outcome⟩
        [.stepStarted g.journalName step.index step.command, e] ∧
      Q (events ++ [e]) ((h.finishing c g step start outcome).run t).2 := by
  cases outcome with
  | ok => exact ⟨_, .completed step _, hQ.log _ _ _ (hQ.clock _ _ he)⟩
  | error e => exact ⟨_, .failed step e, hQ.log _ _ _ he⟩

theorem closing (hQ : Tracks h c g steps s Q) {result : RunResult} (hr : ∀ v, result ≠ .rejected v)
    (start : Nat) (runId : String) (he : Q events t) :
    ∃ closing, ClosingTrace g runId result closing ∧
      Q (events ++ closing) ((h.closing c g start runId result).run t).2 := by
  have hclock := hQ.clock _ _ he
  cases result with
  | succeeded n => exact ⟨_, .succeeded n _, hQ.log _ _ _ hclock⟩
  | abandoned n => exact ⟨_, .abandoned n, hQ.log _ _ _ hclock⟩
  | failed e errors => exact ⟨[], .failed e errors, by rwa [List.append_nil]⟩
  | rejected v => exact absurd rfl (hr v)

/-- Attempts add their events. -/
theorem attempts (hQ : Tracks h c g steps s Q) {log : List Attempt}
    (hl : Attempts h c g ((h.opening c g steps.length).run s).2 log t)
    (hsteps : log.map (·.step) <+: steps) (hp : ∀ a ∈ log.dropLast, a.Passes) :
    ∃ traces, List.Forall₂ (AttemptTrace g) log traces ∧
      Q (.installStarted g.journalName ((h.opening c g steps.length).run s).1.2 steps.length
        version :: traces.flatten) t := by
  -- By induction from the right: what is kept after the attempts so far is kept by one more.
  induction log using List.reverseRecOn generalizing t with
  | nil =>
    cases hl
    exact ⟨[], .nil, hQ.opening⟩
  | append_singleton log a ih =>
    rw [List.dropLast_concat] at hp
    rw [List.map_append, List.map_singleton] at hsteps
    obtain ⟨s₁, u, hlog, flag, perform⟩ := hl.of_append_singleton
    obtain ⟨traces, htraces, hs₁⟩ := ih hlog ((List.prefix_append _ _).trans hsteps)
      fun b hb => hp b (List.dropLast_subset _ hb)
    -- The attempt is the execution of its step, between the events of its start and of its end.
    have hu := hQ.isCancelled _ _ hs₁
    rw [flag] at hu
    have hstarting := hQ.starting a.step hu
    rcases hs : (h.starting c g a.step).run u with ⟨start, v⟩
    rw [hs] at hstarting
    obtain ⟨rest, hrest⟩ := hsteps
    rw [List.append_assoc, List.singleton_append] at hrest
    have hexecute := hQ.execute _ _ _ _ (.intro hrest hlog hp flag hs) hstarting
    rw [Step.perform_run hs] at perform
    obtain ⟨houtcome, rfl⟩ := Prod.mk.inj perform
    rw [houtcome]
    obtain ⟨e, htrace, hfinishing⟩ := hQ.finishing a.step start a.outcome hexecute
    exact ⟨traces ++ [_], List.rel_append htraces (.cons htrace .nil), by simpa using hfinishing⟩

end Tracks

section Account

variable {h : Host σ} {c : Context} {g : Game} {steps : List Step} {errors : Errors} {s s₁ : σ}
  {log : List Attempt} {out : (RunResult × Errors) × σ} {Q : List Event → σ → Prop}

/-- A run that failed did so at its last attempt. -/
theorem RunAccount.last_of_failed (ha : RunAccount h c g steps errors s log s₁ out)
    {e : InstallError} {es : Errors} (hr : out.1.1 = .failed e es) :
    ∃ before last, log = before ++ [last] ∧ last.error? = some e ∧ e.severity = .fatal ∧
      ∀ a ∈ before, a.Passes := by
  obtain ⟨hlast, hfatal, -⟩ := (ha.failed_iff e es).mp hr
  obtain ⟨last, hlog, herror⟩ := List.mem_filterMap.mp (List.mem_of_getLast? hlast)
  obtain ⟨before, hsplit, hp⟩ := ha.last_of_fatal hlog herror hfatal
  exact ⟨before, last, hsplit, herror, hfatal, hp⟩

/-- A run comes to its end, is called off, or fails. -/
theorem RunAccount.not_rejected (ha : RunAccount h c g steps errors s log s₁ out) (v : Validation) :
    out.1.1 ≠ .rejected v := by
  intro hr
  obtain ⟨hsucceeded, -⟩ := ha.succeeded_of (by simp [hr]) (by simp [hr])
  rw [hr] at hsucceeded
  cases hsucceeded

theorem RunAccount.count (ha : RunAccount h c g steps errors s log s₁ out) {n : Nat}
    (hr : out.1.1 = .succeeded n ∨ out.1.1 = .abandoned n) : n = log.length := by
  rcases hr with hr | hr
  · obtain ⟨hsucceeded, hall⟩ := ha.succeeded_of (by simp [hr]) (by simp [hr])
    rw [hr] at hsucceeded
    rw [RunResult.succeeded.inj hsucceeded, ← hall, List.length_map]
  · obtain ⟨hlt, htake, -⟩ := (ha.abandoned_iff n).mp hr
    have hlen := congrArg List.length htake
    rw [List.length_map, List.length_take] at hlen
    omega

/-- What is told of the attempts of a run makes a trace of it, with what is told of its end. -/
theorem RunAccount.runTrace (ha : RunAccount h c g steps errors s log s₁ out) {runId : String}
    {traces : List (List Event)} {closing : List Event}
    (ht : List.Forall₂ (AttemptTrace g) log traces)
    (hclosing : ClosingTrace g runId out.1.1 closing) :
    RunTrace g steps errors log out.1
      (.installStarted g.journalName runId steps.length version :: (traces.flatten ++ closing)) :=
  { shape := ⟨runId, traces, closing, ht, hclosing, rfl⟩
    count := fun n hr => ha.count hr
    completed_iff := (exists_kind_iff ht rfl (by decide) (by decide)).trans hclosing.completed_iff
    abandoned_iff := (exists_kind_iff ht rfl (by decide) (by decide)).trans hclosing.abandoned_iff
    failed := fun e es hr => by
      -- The last event is that of the last attempt, since a failed run is not closed.
      obtain ⟨before, last, rfl, herror, hfatal, hp⟩ := ha.last_of_failed hr
      obtain ⟨front, u, rfl, hfront, hu⟩ := forall₂_concat ht
      rw [hr] at hclosing
      cases hclosing
      have hlast := ha.located last (by simp) e herror
      rw [hu.of_error herror]
      refine ⟨.installStarted g.journalName runId steps.length version :: (front.flatten ++
        [.stepStarted g.journalName last.step.index last.step.command]),
        .stepFailed g.journalName last.step.index last.step.command e.display
          (e.severity = .fatal), by simp, ?_, by simpa [InstallError.report] using hfatal, ?_⟩
      · rw [Event.report?, InstallError.report, hlast.1, hlast.2]
      · intro event hevent r hr
        rcases List.mem_cons.mp hevent with rfl | hevent
        · cases hr
        rcases List.mem_append.mp hevent with hevent | hevent
        · exact not_fatal_of_passes_of_mem_flatten hfront
            (fun a ha' => ha.located a (List.mem_append_left _ ha')) hp hevent hr
        · obtain rfl := List.mem_singleton.mp hevent
          cases hr
    reports := ⟨failures log, ha.collected, by
      rw [List.filterMap_cons, List.filterMap_append, hclosing.reports, List.append_nil]
      exact reports_flatten ht ha.located⟩ }

/-- A property that is kept along a run holds of a trace of the run at its end. -/
theorem RunAccount.traced (ha : RunAccount h c g steps errors s log s₁ out)
    (hQ : Tracks h c g steps s Q) :
    ∃ events, RunTrace g steps errors log out.1 events ∧ Q events out.2 := by
  obtain ⟨traces, htraces, hs₁⟩ := hQ.attempts ha.attempts ha.authored ha.passes
  rcases hopening : ((h.opening c g steps.length).run s).1 with ⟨start, runId⟩
  rw [hopening] at hs₁
  have hclosed := ha.closed
  rw [hopening] at hclosed
  obtain ⟨closing, hclosing, hend⟩ : ∃ closing, ClosingTrace g runId out.1.1 closing ∧
      Q ((.installStarted g.journalName runId steps.length version :: traces.flatten) ++ closing)
        out.2 := by
    rw [hclosed]
    refine hQ.closing ha.not_rejected start runId ?_
    -- The flag is looked at once more before a run ends that is called off.
    split
    · exact hQ.isCancelled _ _ hs₁
    · exact hs₁
  exact ⟨_, ha.runTrace htraces hclosing, hend⟩

end Account

/-! ## What a host is asked to append -/

/-- The events that are appended. -/
def appendsOf : List Request → List (Path × String × Event) :=
  List.filterMap fun
    | .append dir game e => some (dir, game, e)
    | _ => none

@[simp] theorem appendsOf_append (asked asked' : List Request) :
    appendsOf (asked ++ asked') = appendsOf asked ++ appendsOf asked' :=
  List.filterMap_append

/-- A state with its record, and the state, when these events were appended. -/
def Appended (asked : List (Path × String × Event)) (p : σ × List Request) (s : σ) : Prop :=
  p.1 = s ∧ appendsOf p.2 = asked

theorem noted_appended {α : Type} {asked : List (Path × String × Event)} {q : Request}
    (hq : appendsOf [q] = []) (x : StateM σ α) : Related (Appended asked) (noted q x) x := by
  rintro p s ⟨rfl, hasked⟩
  exact ⟨rfl, rfl, by rw [noted_run, appendsOf_append, hq, List.append_nil, hasked]⟩

/-- The collaborators of steps append no events. -/
theorem Host.recorded_appended (h : Host σ) (asked : List (Path × String × Event)) :
    h.recorded.Matches (Appended asked) h where
  movePath _ _ := noted_appended rfl _
  copyTree _ _ := noted_appended rfl _
  createDir _ := noted_appended rfl _
  extract _ _ _ := noted_appended rfl _
  openFile _ := noted_appended rfl _
  runner := ⟨rfl, noted_appended rfl _, noted_appended rfl _⟩
  dependency := by
    simp only [Host.recorded]
    cases h.dependency with
    | none => exact .none
    | some d => exact .some ⟨rfl, noted_appended rfl _, noted_appended rfl _⟩
  saveEntry _ _ := noted_appended rfl _
  spawn _ := noted_appended rfl _

/-- The events that a host is asked to append are a trace of the run, in the journal of the game. -/
theorem run_appends (h : Host σ) {c : Context} {dir : Path} (hc : c.journalDir = some dir) (g : Game)
    (steps : List Step) (errors : Errors) (s : σ) :
    let out := (run h.recorded c g steps errors).run (s, [])
    ∃ log s₁ events, RunAccount h.recorded c g steps errors (s, []) log s₁ out ∧
      RunTrace g steps errors log out.1 events ∧
      appendsOf out.2.2 = events.map fun e => (dir, g.journalName, e) := by
  intro out
  obtain ⟨log, s₁, hl, he⟩ := exists_ending h.recorded c g 0 errors steps
    ((h.recorded.opening c g steps.length).run (s, [])).2
  have ha : RunAccount h.recorded c g steps errors (s, []) log s₁ out := .of_ending rfl hl he
  -- The record follows the events one by one, and nothing else adds an append to it.
  have hlog (p : σ × List Request) (e : Event) : appendsOf ((h.recorded.log c g e).run p).2.2 =
      appendsOf p.2 ++ [(dir, g.journalName, e)] := by
    unfold Host.log
    rw [hc]
    exact appendsOf_append _ _
  have hQ : Tracks h.recorded c g steps (s, []) fun events p =>
      appendsOf p.2 = events.map fun e => (dir, g.journalName, e) := {
    opening := hlog _ _
    log := fun events p e hp => by rw [hlog, hp, List.map_append]; rfl
    clock := fun _ _ hp => hp
    isCancelled := fun _ _ hp => hp
    execute := fun events _ step p _ hp =>
      (Step.execute_related (h.recorded_appended _) c g step p p.1 ⟨rfl, hp⟩).2.2 }
  obtain ⟨events, htrace, hevents⟩ := ha.traced hQ
  exact ⟨log, s₁, events, ha, htrace, hevents⟩

end GameInstaller
