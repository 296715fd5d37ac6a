import GameInstaller.Proofs.Disk.Gaining

/-!
# The calls of a copy

A copy is the run of its calls, one after the other: each copies a file, or it makes a directory and
finds what is to be copied next.

* `visit` what one call does before it goes on
* `Runs`  the calls of a copy, one after the other, and how many they are

## Key results

- `visit_gains`, `visit_next`, `exists_of_visit`: what a call makes, and which calls come of it
- `Runs.unique`: there is one way in which calls run
- `copyInto_runs`: a copy is the run of its calls
-/

namespace GameInstaller.Disk

variable {d d' d₁ : Disk} {w l : Location} {src dst : Path}

/-! ## Calls -/

/-- What a call of a copy does before it goes on: it copies a file, or it makes a directory.  What is
    listed by then is to be copied next. -/
def visit (src dst : Path) : Fs (List (Path × Path)) := do
  if (← get).isDir src then
    about dst (createDirAll dst)
    let r ← about src (find .follow src)
    let names := (← get).children r.location
    pure (names.map fun name => (src.child name, dst.child name))
  else
    copyOne src dst
    pure []

/-- The calls of a copy that are pending run to their end, or to the first that fails: how many there
    are, those among them that come up on the way, and what comes of them. -/
inductive Runs : List (Path × Path) → Disk → Nat → Except Fault Unit × Disk → Prop
  | done (d : Disk) : Runs [] d 0 (.ok (), d)
  | failed {src dst : Path} {rest : List (Path × Path)} {d d' : Disk} {f : Fault}
      (h : outcome (visit src dst) d = (.error f, d')) : Runs ((src, dst) :: rest) d 1 (.error f, d')
  | next {src dst : Path} {more rest : List (Path × Path)} {d d₁ : Disk} {n : Nat}
      {out : Except Fault Unit × Disk} (h : outcome (visit src dst) d = (.ok more, d₁))
      (hrest : Runs (more ++ rest) d₁ n out) : Runs ((src, dst) :: rest) d (n + 1) out

theorem outcome_visit_file (hdir : d.isDir src = false) (dst : Path) :
    outcome (visit src dst) d =
      ((outcome (copyOne src dst) d).1.map fun _ => [], (outcome (copyOne src dst) d).2) := by
  unfold visit
  rw [outcome_bind_of_ok (outcome_get d), if_neg (by simp [hdir])]
  rcases hcopy : outcome (copyOne src dst) d with ⟨f | u, d₁⟩
  · rw [outcome_bind_of_error hcopy]
    rfl
  · rw [outcome_bind_of_ok hcopy]
    rfl

theorem outcome_visit_dir (hdir : d.isDir src = true) (dst : Path) :
    outcome (visit src dst) d = match outcome (about dst (createDirAll dst)) d with
      | (.ok _, d₁) => (.ok ((d₁.namesIn src).map fun name => (src.child name, dst.child name)), d₁)
      | (.error f, d₁) => (.error f, d₁) := by
  have hadds := about_createDirAll_addsDirs dst d
  unfold visit
  rw [outcome_bind_of_ok (outcome_get d), if_pos hdir]
  rcases hmade : outcome (about dst (createDirAll dst)) d with ⟨f | u, d₁⟩
  · rw [outcome_bind_of_error hmade]
  · rw [hmade] at hadds
    rw [outcome_bind_of_ok hmade, outcome_names (hadds.extending.isDir hdir) fun names =>
      pure (names.map fun name => (src.child name, dst.child name))]
    rfl

/-- When the target was made, the names in the source are to be copied next. -/
theorem outcome_visit_of_dirAt (hdir : DirAt d src l)
    (hmade : outcome (createDirAll dst) d = (.ok (), d₁)) :
    outcome (visit src dst) d =
      (.ok ((d₁.children l).map fun name => (src.child name, dst.child name)), d₁) := by
  have hadds := createDirAll_addsDirs dst d
  rw [hmade] at hadds
  have hnames := (hdir.extends hadds.extending).namesIn_eq
  rw [outcome_visit_dir (isDir_iff.mpr ⟨l, hdir⟩), outcome_about_eq_ok.mpr hmade]
  dsimp only
  rw [hnames]

/-- A call that succeeds has copied a file, or made a directory. -/
theorem visit_ok {more : List (Path × Path)} (h : outcome (visit src dst) d = (.ok more, d')) :
    (d.isDir src = false ∧ outcome (copyOne src dst) d = (.ok (), d') ∧ more = []) ∨
      (d.isDir src = true ∧ outcome (createDirAll dst) d = (.ok (), d') ∧
        more = (d'.namesIn src).map fun name => (src.child name, dst.child name)) := by
  cases hdir : d.isDir src with
  | false =>
    rw [outcome_visit_file hdir] at h
    rcases hcopy : outcome (copyOne src dst) d with ⟨f | u, d₁⟩
    · rw [hcopy] at h
      cases h
    · rw [hcopy] at h
      cases h
      exact .inl ⟨rfl, rfl, rfl⟩
  | true =>
    rw [outcome_visit_dir hdir] at h
    rcases hmade : outcome (about dst (createDirAll dst)) d with ⟨f | u, d₁⟩
    · rw [hmade] at h
      cases h
    · rw [hmade] at h
      cases h
      exact .inr ⟨rfl, outcome_about_eq_ok.mp hmade, rfl⟩

/-- A call makes what is on the way to the target, and nothing else. -/
theorem visit_gains (w : Location) (src dst : Path) :
    Leads (GainsFrom w (OnWay w dst)) (visit src dst) := by
  intro d
  cases hdir : d.isDir src with
  | false =>
    rw [outcome_visit_file hdir]
    exact copyOne_gains w src dst d
  | true =>
    have hgains := (createDirAll_gains w dst).about dst d
    rw [outcome_visit_dir hdir]
    split
    all_goals
      rename_i hmade
      rwa [hmade] at hgains

/-- Everything stays where it is. -/
theorem visit_refills (src dst : Path) : Leads Refills (visit src dst) := by
  intro d
  cases hdir : d.isDir src with
  | false =>
    rw [outcome_visit_file hdir]
    exact Leads.copyOne (fun q _ d => (mkdir_addsDirs q d).refills)
      (fun change mode => (update_adds dst change mode).refills)
      (fun mode => (chmod_adds dst mode).refills) d
  | true =>
    have hadds := about_createDirAll_addsDirs dst d
    rw [outcome_visit_dir hdir]
    split
    all_goals
      rename_i hmade
      rw [hmade] at hadds
      exact hadds.refills

/-- What is to be copied next are the entries of the source. -/
theorem visit_next (h : PlainTree d) {more : List (Path × Path)}
    (hvisit : outcome (visit src dst) d = (.ok more, d')) :
    ∀ c ∈ more, d.isDir src = true ∧ ∃ name, Path.IsProper name ∧
      c = (src.child name, dst.child name) ∧
        (d'.find? (place d.working src ++ [name])).isSome := by
  intro c hc
  have hgains := visit_gains d.working src dst d h rfl
  have hrefills := visit_refills src dst d
  rw [hvisit] at hgains hrefills
  rcases visit_ok hvisit with ⟨-, -, rfl⟩ | ⟨hdir, -, rfl⟩
  · cases hc
  · obtain ⟨name, hname, rfl⟩ := List.mem_map.mp hc
    have hdir' := hgains.tree.dirAt (hrefills.extending.isDir hdir)
    rw [hdir'.namesIn_eq, mem_children_iff, hgains.working] at hname
    have hproper := hgains.tree.proper_of_mem_children (mem_children_iff.mpr hname)
    exact ⟨hdir, name, hproper, rfl, hname⟩

/-- Each entry of the source is to be copied next. -/
theorem mem_of_visit (h : PlainTree d) {more : List (Path × Path)}
    (hvisit : outcome (visit src dst) d = (.ok more, d')) {name : String}
    (hname : (d'.find? (place d.working src ++ [name])).isSome) :
    (src.child name, dst.child name) ∈ more := by
  have hgains := visit_gains d.working src dst d h rfl
  have hrefills := visit_refills src dst d
  rw [hvisit] at hgains hrefills
  rcases visit_ok hvisit with ⟨-, hcopy, -⟩ | ⟨hdir, -, rfl⟩
  · -- There is no entry in a file.
    obtain ⟨n, hn⟩ := Option.isSome_iff_exists.mp hname
    obtain ⟨l, hfile⟩ := fileAt_of_copyOne hcopy
    have hdir := hgains.tree.front (List.cons_ne_nil name []) hn
    exact absurd (hgains.working ▸ hdir) (hgains.tree.not_dir_of_fileAt hfile)
  · have hdir' := hgains.tree.dirAt (hrefills.extending.isDir hdir)
    rw [hgains.working] at hdir'
    rw [← mem_children_iff, ← hdir'.namesIn_eq] at hname
    exact List.mem_map_of_mem hname

/-- What is in the source is in that of a call that comes next. -/
theorem exists_of_visit (h : PlainTree d) {more : List (Path × Path)}
    (hvisit : outcome (visit src dst) d = (.ok more, d')) {name : String} {rest : Location}
    (hthere : (d'.find? (place d.working src ++ name :: rest)).isSome) :
    ∃ c ∈ more, place d.working c.1 = place d.working src ++ [name] := by
  have hgains := visit_gains d.working src dst d h rfl
  rw [hvisit] at hgains
  rw [List.append_cons] at hthere
  have hname := hgains.tree.isSome_front hthere
  have hproper := hgains.tree.proper_of_mem_children (mem_children_iff.mpr hname)
  exact ⟨_, mem_of_visit h hvisit hname, place_child hproper⟩

/-! ## Runs -/

namespace Runs

variable {calls calls' rest : List (Path × Path)} {n n' : Nat} {out out' : Except Fault Unit × Disk}

/-- There is one way in which calls run. -/
theorem unique (h : Runs calls d n out) (h' : Runs calls d n' out') : n = n' ∧ out = out' := by
  -- What a call gives on a disk is one outcome, so the second run takes the same step each time.
  induction h generalizing n' out' with
  | done d =>
    cases h'
    exact ⟨rfl, rfl⟩
  | failed hvisit =>
    cases h' with
    | failed hvisit' =>
      cases hvisit.symm.trans hvisit'
      exact ⟨rfl, rfl⟩
    | next hvisit' hrest' => cases hvisit.symm.trans hvisit'
  | next hvisit hrest ih =>
    cases h' with
    | failed hvisit' => cases hvisit.symm.trans hvisit'
    | next hvisit' hrest' =>
      cases hvisit.symm.trans hvisit'
      obtain ⟨rfl, rfl⟩ := ih hrest'
      exact ⟨rfl, rfl⟩

/-- Calls that fail do so whatever comes after them. -/
theorem append_error {f : Fault} (h : Runs calls d n (.error f, d')) (rest : List (Path × Path)) :
    Runs (calls ++ rest) d n (.error f, d') := by
  generalize hout : (Except.error f, d') = out at h
  induction h with
  | done d => cases hout
  | failed hvisit => exact .failed hvisit
  | next hvisit _ ih =>
    exact .next hvisit (List.append_assoc _ _ rest ▸ ih hout)

/-- Calls that run to their end are followed by the others. -/
theorem append {u : Unit} (h : Runs calls d n (.ok u, d₁)) (h' : Runs rest d₁ n' out) :
    Runs (calls ++ rest) d (n + n') out := by
  generalize hout : (Except.ok u, d₁) = out₁ at h
  induction h with
  | done d =>
    cases hout
    rwa [Nat.zero_add]
  | failed hvisit => cases hout
  | @next _ _ _ _ _ _ n _ hvisit _ ih =>
    rw [Nat.add_right_comm]
    exact .next hvisit (List.append_assoc _ _ rest ▸ ih hout)

/-- Calls leave a tree. -/
theorem tree (h : Runs calls d n out) (hd : PlainTree d) :
    PlainTree out.2 ∧ out.2.working = d.working := by
  induction h with
  | done d => exact ⟨hd, rfl⟩
  | @failed src dst _ d d' f hvisit =>
    have hgains := visit_gains d.working src dst d hd rfl
    rw [hvisit] at hgains
    exact ⟨hgains.tree, hgains.working⟩
  | @next src dst _ _ d d₁ _ _ hvisit _ ih =>
    have hgains := visit_gains d.working src dst d hd rfl
    rw [hvisit] at hgains
    rw [← hgains.working]
    exact ih hgains.tree

/-- What copies one after the other each comes to their calls. -/
theorem forM {f : Path × Path → Fs PUnit} (hd : PlainTree d)
    (hf : ∀ c ∈ calls, ∀ d, PlainTree d → ∃ n, Runs [c] d n (outcome (f c) d)) :
    ∃ n, Runs calls d n (outcome (calls.forM f) d) := by
  induction calls generalizing d with
  | nil => exact ⟨0, .done d⟩
  | cons c rest ih =>
    obtain ⟨hc, hrest⟩ := List.forall_mem_cons.mp hf
    obtain ⟨n, hrun⟩ := hc d hd
    rw [outcome_forM_cons]
    rcases hout : outcome (f c) d with ⟨e | u, d₁⟩
    · rw [hout] at hrun
      rw [outcome_bind_of_error hout]
      exact ⟨n, hrun.append_error rest⟩
    · rw [hout] at hrun
      rw [outcome_bind_of_ok hout]
      obtain ⟨n', hrun'⟩ := ih (hrun.tree hd).1 hrest
      exact ⟨n + n', hrun.append hrun'⟩

end Runs

/-! ## The depth of a copy -/

/-- A copy makes its first call, and then copies what that found. -/
theorem outcome_copyInto_succ (depth : Nat) (src dst : Path) (d : Disk) :
    outcome (copyInto (depth + 1) src dst) d =
      outcome (visit src dst >>= fun more => more.forM fun c => copyInto depth c.1 c.2) d := by
  rw [outcome_bind]
  cases hdir : d.isDir src with
  | false =>
    rw [outcome_copyInto_file hdir, outcome_visit_file hdir]
    rcases outcome (copyOne src dst) d with ⟨f | u, d₁⟩
    · rfl
    · rfl
  | true =>
    rw [outcome_copyInto_dir hdir, outcome_visit_dir hdir]
    rcases outcome (about dst (createDirAll dst)) d with ⟨f | u, d₁⟩
    · rfl
    · simp only [List.forM_eq_forM, List.forM_map]

/-- A depth that is not used up before the source is too long for a path. -/
def Deep (depth : Nat) (src : Path) : Prop :=
  0 < depth ∧ (src.text ≠ "" → pathLimit < depth + src.text.utf8ByteSize)

theorem deep_pathLimit (src : Path) : Deep pathLimit src := by
  refine ⟨by decide, fun hne => Nat.lt_add_of_pos_right (Nat.pos_of_ne_zero fun hzero => hne ?_)⟩
  exact String.utf8ByteSize_eq_zero_iff.mp hzero

theorem utf8ByteSize_child (p : Path) {name : String} (hname : Path.IsName name) :
    p.text.utf8ByteSize < (p.child name).text.utf8ByteSize := by
  obtain ⟨rest, hrest⟩ := p.child_text hname
  have hne : rest ≠ "" := by
    rintro rfl
    have hsegments := p.segments_child hname
    rw [hrest, String.append_empty] at hsegments
    simp at hsegments
  rw [hrest, String.utf8ByteSize_append]
  exact Nat.lt_add_of_pos_right (Nat.pos_of_ne_zero fun hzero =>
    hne (String.utf8ByteSize_eq_zero_iff.mp hzero))

/-- Paths that are followed are not too long. -/
theorem text_of_resolve {final : Final} {p : Path} {r : Resolved} (hr : d.resolve final p = .ok r) :
    p.text ≠ "" ∧ p.text.utf8ByteSize < pathLimit := by
  unfold resolve at hr
  split at hr
  · cases hr
  split at hr
  · cases hr
  split at hr
  · cases hr
  · simp_all

theorem Deep.child {depth : Nat} {name : String} (h : Deep (depth + 1) src)
    (hdir : d.isDir src = true) (hname : Path.IsName name) : Deep depth (src.child name) := by
  obtain ⟨l, r, hr, -⟩ := isDir_iff.mp hdir
  obtain ⟨hne, hlen⟩ := text_of_resolve hr
  have hlong := h.2 hne
  have hlonger := utf8ByteSize_child src hname
  exact ⟨by omega, fun _ => by omega⟩

/-- A copy is the run of its calls. -/
theorem copyInto_runs {depth : Nat} (h : PlainTree d) (hdepth : Deep depth src) :
    ∃ n, Runs [(src, dst)] d n (outcome (copyInto depth src dst) d) := by
  induction depth generalizing src dst d with
  | zero => exact absurd hdepth.1 (Nat.lt_irrefl 0)
  | succ depth ih =>
    have hgains := visit_gains d.working src dst d h rfl
    rw [outcome_copyInto_succ]
    rcases hvisit : outcome (visit src dst) d with ⟨f | more, d₁⟩
    · rw [outcome_bind_of_error hvisit]
      exact ⟨1, .failed hvisit⟩
    · rw [hvisit] at hgains
      rw [outcome_bind_of_ok hvisit]
      have hmore : ∀ c ∈ more, ∀ d, PlainTree d →
          ∃ n, Runs [c] d n (outcome (copyInto depth c.1 c.2) d) := by
        intro c hc d' hd'
        -- The path of a directory that is listed is short enough to leave some depth.
        obtain ⟨hdir, name, hname, rfl, -⟩ := visit_next h hvisit c hc
        exact ih hd' (hdepth.child hdir hname.toIsName)
      obtain ⟨n, hrun⟩ := Runs.forM hgains.tree hmore
      refine ⟨n + 1, .next hvisit ?_⟩
      rwa [List.append_nil]

end GameInstaller.Disk
