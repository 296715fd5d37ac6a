import GameInstaller.Proofs.Disk.Visiting
import Mathlib.Data.List.Perm.Subperm

/-!
# How far a copy descends

A copy lists a directory when it has made the target of it.  As long as nothing is made inside the
source, there is one call for each entry of the source at most.  A directory that is copied into
itself is listed with the copy in it, again and again, and the copy never succeeds.

* `entriesBelow`  how many entries there are in a directory, at any depth
* `Pending`       a call that copies something in the source to its place in the target

## Key results

- `visit_pending`: the calls that come of a call are about the entries below it
- `runs_of_pending`: calls run to their end, one for each entry at most
- `Runs.not_ok_of_inside`: a directory is not copied into itself
- `copyRecursive_descends`: how many calls a copy has
- `exists_descent_unbounded`: an empty directory is copied into itself in more calls than one
-/

namespace GameInstaller.Disk

variable {d d' d₁ : Disk} {w l : Location} {src dst : Path}

/-! ## Entries inside a directory -/

/-- The locations that are inside one, at any depth. -/
def within (ks : List Location) (l : Location) : List Location :=
  ks.filter fun k => l <+: k ∧ k ≠ l

/-- How many entries there are inside a location, at any depth. -/
def entriesBelow (d : Disk) (l : Location) : Nat := (within d.keys l).length

theorem mem_within {ks : List Location} {k : Location} :
    k ∈ within ks l ↔ k ∈ ks ∧ l <+: k ∧ k ≠ l := by
  simp [within]

/-- The entries in a directory and what is inside them are all inside the directory, once each. -/
theorem length_within_children {ks : List Location} (h : ks.Nodup) (l : Location) :
    ((ks.filterMap (nameIn l)).flatMap fun name => (l ++ [name]) :: within ks (l ++ [name])).length ≤
      (within ks l).length := by
  have hnames := nodup_names h l
  have hstart {name : String} {k : Location}
      (hk : k ∈ (l ++ [name]) :: within ks (l ++ [name])) : l ++ [name] <+: k := by
    rcases List.mem_cons.mp hk with rfl | hk
    · exact List.prefix_rfl
    · exact (mem_within.mp hk).2.1
  refine (List.Nodup.subperm ?_ fun k hk => ?_).length_le
  · refine List.nodup_flatMap.mpr ⟨fun name _ => ?_, hnames.imp fun {name name'} hne => ?_⟩
    · exact List.nodup_cons.mpr ⟨fun hk => (mem_within.mp hk).2.2 rfl, h.filter _⟩
    · -- Two names lead to different locations of one length.
      intro k hk hk'
      have hsame := List.IsPrefix.eq_of_length
        (List.prefix_of_prefix_length_le (hstart hk) (hstart hk') (by simp)) (by simp)
      exact hne (by simpa using hsame)
  · obtain ⟨name, hname, hk⟩ := List.mem_flatMap.mp hk
    obtain ⟨rest, rfl⟩ := hstart hk
    refine mem_within.mpr ⟨?_, ⟨[name] ++ rest, by simp⟩, by simp⟩
    rcases List.mem_cons.mp hk with hk | hk
    · obtain ⟨k', hk', hname'⟩ := List.mem_filterMap.mp hname
      rwa [hk, ← nameIn_eq_some_iff.mp hname']
    · exact (mem_within.mp hk).1

/-! ## Copies that make nothing in the source -/

section Pending

variable {S T : Location} {rest : List (Path × Path)}

/-- Counterparts of entries of the source that are themselves in the source are there already. -/
def Settled (S T : Location) (d : Disk) : Prop :=
  ∀ j, (d.find? (S ++ j)).isSome → S <+: T ++ j → (d.find? (T ++ j)).isSome

/-- A call that copies something in the source to its counterpart in the target, on a way that makes
    nothing in the source. -/
structure Pending (S T : Location) (d : Disk) (c : Path × Path) : Prop where
  inside : ∃ i, place d.working c.1 = S ++ i ∧ place d.working c.2 = T ++ i
  way : ∀ l, OnWay d.working c.2 l → S <+: l → (d.find? l).isSome

/-- How many calls there are, and entries in their sources. -/
def weight (d : Disk) (calls : List (Path × Path)) : Nat :=
  (calls.flatMap fun c =>
    place d.working c.1 :: within d.keys (place d.working c.1)).length

@[simp] theorem weight_nil (d : Disk) : weight d [] = 0 := rfl

theorem weight_cons (d : Disk) (c : Path × Path) (calls : List (Path × Path)) :
    weight d (c :: calls) = 1 + entriesBelow d (place d.working c.1) + weight d calls := by
  rw [weight, List.flatMap_cons, List.length_append, List.length_cons, Nat.add_comm _ 1]
  rfl

theorem weight_append (d : Disk) (calls calls' : List (Path × Path)) :
    weight d (calls ++ calls') = weight d calls + weight d calls' := by
  rw [weight, List.flatMap_append, List.length_append]
  rfl

namespace Gains

variable (h : Gains (fun l => ¬ S <+: l) d d')

include h

/-- What is inside the source is what was there. -/
theorem isSome_iff (hl : S <+: l) : (d'.find? l).isSome ↔ (d.find? l).isSome := by
  refine ⟨fun hsome => ?_, h.isSome⟩
  by_contra hnone
  exact h.of_new (Option.not_isSome_iff_eq_none.mp hnone) hsome hl

theorem within_eq (hl : S <+: l) : within d'.keys l = within d.keys l := by
  obtain ⟨new, hnew, hall⟩ := h.keys
  have hnone : new.filter (fun k => l <+: k ∧ k ≠ l) = [] := by
    refine List.filter_eq_nil_iff.mpr fun k hk => ?_
    have hout : ¬ l <+: k := fun hlk => (hall k hk).1 (hl.trans hlk)
    simp [hout]
  rw [within, hnew, List.filter_append, hnone, List.append_nil]
  rfl

theorem settled (hs : Settled S T d) : Settled S T d' := fun j hj hT =>
  h.isSome (hs j ((h.isSome_iff (List.prefix_append S j)).mp hj) hT)

theorem pending {c : Path × Path} (hc : Pending S T d c) : Pending S T d' c := by
  obtain ⟨hinside, hway⟩ := hc
  rw [← h.working] at hinside hway
  exact ⟨hinside, fun l hl hS => h.isSome (hway l hl hS)⟩

theorem weight_eq (hrest : ∀ c ∈ rest, Pending S T d c) : weight d' rest = weight d rest := by
  refine congrArg List.length (List.flatMap_congr fun c hc => ?_)
  obtain ⟨i, hi, -⟩ := (hrest c hc).inside
  rw [h.working, h.within_eq (hi ▸ List.prefix_append S i)]

end Gains

/-- Calls are pending after one of them was made, and there are fewer entries in their sources. -/
theorem visit_pending {r : Except Fault (List (Path × Path))} (h : PlainTree d)
    (hs : Settled S T d) (hcalls : ∀ c ∈ (src, dst) :: rest, Pending S T d c)
    (hvisit : outcome (visit src dst) d = (r, d')) :
    Gains (fun l => ¬ S <+: l) d d' ∧ ∀ more, r = .ok more →
      (∀ c ∈ more ++ rest, Pending S T d' c) ∧
        weight d' (more ++ rest) < weight d ((src, dst) :: rest) := by
  obtain ⟨⟨⟨i, hsrc, hdst⟩, hway⟩, hrest⟩ := List.forall_mem_cons.mp hcalls
  have hmade := visit_gains d.working src dst d h rfl
  rw [hvisit] at hmade
  have hgains : Gains (fun l => ¬ S <+: l) d d' := hmade.mono fun l hl hnone hS => by
    have hthere := hway l hl hS
    rw [hnone] at hthere
    cases hthere
  refine ⟨hgains, ?_⟩
  rintro more rfl
  have hnext := visit_next h hvisit
  constructor
  · intro c hc
    rcases List.mem_append.mp hc with hc | hc
    · obtain ⟨-, name, hname, rfl, hthere⟩ := hnext c hc
      refine ⟨⟨i ++ [name], ?_, ?_⟩, fun l hl hS => ?_⟩
      · rw [hgains.working, place_child hname, hsrc, List.append_assoc]
      · rw [hgains.working, place_child hname, hdst, List.append_assoc]
      · rw [hgains.working, onWay_child hname] at hl
        rcases hl with hl | rfl
        · exact hgains.isSome (hway l hl hS)
        · -- The new end of the way is the counterpart of the entry.
          rw [hdst, List.append_assoc] at hS ⊢
          rw [hsrc, List.append_assoc] at hthere
          exact hgains.settled hs _ hthere hS
    · exact hgains.pending (hrest c hc)
  · have hless : weight d' more ≤ entriesBelow d (place d.working src) := by
      rcases visit_ok hvisit with ⟨-, -, rfl⟩ | ⟨hdir, -, rfl⟩
      · exact Nat.zero_le _
      · have hnames : d'.namesIn src = d'.keys.filterMap (nameIn (place d.working src)) := by
          have hrefills := visit_refills src dst d
          rw [hvisit] at hrefills
          rw [(hgains.tree.dirAt (hrefills.extending.isDir hdir)).namesIn_eq, hgains.working,
            children_eq]
        rw [entriesBelow, ← hgains.within_eq (hsrc ▸ List.prefix_append S i), hnames, weight,
          List.flatMap_map]
        refine le_of_eq_of_le (congrArg List.length (List.flatMap_congr fun name hname => ?_))
          (length_within_children hgains.tree.distinct (place d.working src))
        rw [← children_eq] at hname
        rw [place_child (hgains.tree.proper_of_mem_children hname), hgains.working]
    rw [weight_append, hgains.weight_eq hrest, weight_cons]
    dsimp only
    omega

/-- Calls run to their end, and they are no more than there are entries in their sources. -/
theorem runs_of_pending {calls : List (Path × Path)} (h : PlainTree d) (hs : Settled S T d)
    (hcalls : ∀ c ∈ calls, Pending S T d c) : ∃ n ≤ weight d calls, ∃ out, Runs calls d n out := by
  -- The weight of the pending calls falls with each call, whatever the length of paths.
  induction hw : weight d calls using Nat.strongRecOn generalizing calls d with
  | _ total ih =>
    cases calls with
    | nil => exact ⟨0, Nat.zero_le _, _, .done d⟩
    | cons c rest =>
      obtain ⟨src, dst⟩ := c
      rcases hvisit : outcome (visit src dst) d with ⟨f | more, d₁⟩
      · rw [weight_cons] at hw
        exact ⟨1, by omega, _, .failed hvisit⟩
      · obtain ⟨hgains, hmore⟩ := visit_pending h hs hcalls hvisit
        obtain ⟨hpending, hless⟩ := hmore more rfl
        obtain ⟨n, hn, out, hrun⟩ :=
          ih _ (hw ▸ hless) hgains.tree (hgains.settled hs) hpending rfl
        exact ⟨n + 1, by omega, out, .next hvisit hrun⟩

end Pending

/-! ## A directory that is copied into itself -/

theorem Refills.dir (h : Refills d d') (hl : d.find? l = some .dir) : d'.find? l = some .dir := by
  obtain ⟨n, hn, hshape⟩ := h.keeps l _ hl
  cases n with
  | dir => exact hn
  | file _ _ _ | link _ => cases hshape

/-- A call that copies a directory into itself comes again, about a directory in it. -/
theorem visit_inside {more : List (Path × Path)} {r : Location} (h : PlainTree d)
    (hdir : d.find? (place d.working src) = some .dir)
    (hdst : place d.working dst = place d.working src ++ r) (hr : r ≠ [])
    (hvisit : outcome (visit src dst) d = (.ok more, d')) :
    ∃ c ∈ more, ∃ r', d'.find? (place d.working c.1) = some .dir ∧
      place d.working c.2 = place d.working c.1 ++ r' ∧ r' ≠ [] := by
  have hgains := visit_gains d.working src dst d h rfl
  have hrefills := visit_refills src dst d
  rw [hvisit] at hgains hrefills
  rcases visit_ok hvisit with ⟨-, hcopy, -⟩ | ⟨-, hmade, -⟩
  · -- Directories are not copied as files.
    obtain ⟨l, hfile⟩ := fileAt_of_copyOne hcopy
    have hdir' := hrefills.dir hdir
    exact absurd (hgains.working ▸ hdir') (hgains.tree.not_dir_of_fileAt hfile)
  · obtain ⟨name, rest, rfl⟩ := List.exists_cons_of_ne_nil hr
    have hthere := h.createDirAll_ok hmade
    have hstep : d'.find? (place d.working src ++ [name]) = some .dir := by
      rw [hdst] at hthere
      by_cases hrest : rest = []
      · rwa [hrest] at hthere
      · exact hgains.tree.front hrest (by rwa [List.append_assoc])
    have hproper := hgains.tree.proper_of_some hstep name (by simp)
    have hnext := mem_of_visit h hvisit (Option.isSome_of_eq_some hstep)
    refine ⟨_, hnext, rest ++ [name], ?_, ?_, by simp⟩
    · rwa [place_child hproper]
    · rw [place_child hproper, place_child hproper, hdst]
      simp

/-- Calls among which a directory is copied into itself do not succeed. -/
theorem Runs.not_ok_of_inside {calls : List (Path × Path)} {n : Nat}
    {out : Except Fault Unit × Disk} (hrun : Runs calls d n out) (h : PlainTree d) {c : Path × Path}
    (hc : c ∈ calls) {r : Location} (hdir : d.find? (place d.working c.1) = some .dir)
    (hdst : place d.working c.2 = place d.working c.1 ++ r) (hr : r ≠ []) : out.1 ≠ .ok () := by
  -- The call that copies a directory into itself is pending until it is made, and then another is.
  induction hrun generalizing c r with
  | done d => cases hc
  | failed hvisit => nofun
  | @next src dst more rest d d₁ n out hvisit _ ih =>
    have hgains := visit_gains d.working src dst d h rfl
    have hrefills := visit_refills src dst d
    rw [hvisit] at hgains hrefills
    rcases List.mem_cons.mp hc with rfl | hc
    · obtain ⟨c', hc', r', hdir', hdst', hr'⟩ := visit_inside h hdir hdst hr hvisit
      rw [← hgains.working] at hdir' hdst'
      exact ih hgains.tree (List.mem_append_left _ hc') hdir' hdst' hr'
    · rw [← hgains.working] at hdir hdst
      exact ih hgains.tree (List.mem_append_right _ hc) (hrefills.dir hdir) hdst hr

/-! ## How many calls a copy has -/

/-- How far a copy descends on a disk, from the place `S` of the source and the place `T` of the target. -/
structure DescentAccount (src target : Path) (d : Disk) (S T : Location) : Prop where
  /-- The copy is the run of its calls. -/
  runs : ∃ n, Runs [(src, target)] d n (outcome (copyRecursive src target) d)
  /-- Where it makes nothing in the source, there is one call for each entry of it at most. -/
  bounded : (∀ l, OnWay d.working target l → S <+: l → (d.find? l).isSome) → Settled S T d →
    ∃ n ≤ 1 + entriesBelow d S, Runs [(src, target)] d n (outcome (copyRecursive src target) d)
  /-- A directory is not copied into itself, however deep the copy may go. -/
  inside : d.find? S = some .dir → ∀ r, T = S ++ r → r ≠ [] →
    ∀ n out, Runs [(src, target)] d n out → out.1 ≠ .ok ()

/-- A copy on a tree has as many calls as the source has entries, unless it makes some there; and
    a directory that is copied into itself is not copied to the end. -/
theorem copyRecursive_descends (src target : Path) {d : Disk} (h : PlainTree d) :
    DescentAccount src target d (place d.working src) (place d.working target) := by
  obtain ⟨n, hrun⟩ := copyInto_runs h (deep_pathLimit src)
  exact {
    runs := ⟨n, hrun⟩
    bounded := fun hway hs => by
      have hpending : Pending (place d.working src) (place d.working target) d (src, target) :=
        ⟨⟨[], (List.append_nil _).symm, (List.append_nil _).symm⟩, hway⟩
      obtain ⟨n', hn', out, hrun'⟩ := runs_of_pending h hs (List.forall_mem_singleton.mpr hpending)
      obtain ⟨rfl, rfl⟩ := hrun'.unique hrun
      rw [weight_cons, weight_nil] at hn'
      exact ⟨n', hn', hrun⟩
    inside := fun hdir r hT hr n' out hrun' =>
      hrun'.not_ok_of_inside h (List.mem_singleton_self _) hdir hT hr }

/-- A directory with a file is copied beside itself in two calls at most. -/
theorem copyRecursive_descends_beside : ∃ d : Disk, PlainTree d ∧
    ∃ n ≤ 2, Runs [(⟨"/a"⟩, ⟨"/b"⟩)] d n (outcome (copyRecursive ⟨"/a"⟩ ⟨"/b"⟩) d) := by
  let d : Disk := ⟨[(["a"], .dir), (["a", "f"], .file "x".toUTF8 0o644 none)], [], false⟩
  have htree : PlainTree d := .of_entries (by decide) (by decide) rfl
  have haccount := copyRecursive_descends ⟨"/a"⟩ ⟨"/b"⟩ htree
  have hsrc : place d.working ⟨"/a"⟩ = ["a"] := by decide
  have hdst : place d.working ⟨"/b"⟩ = ["b"] := by decide
  have hway : ∀ l ∈ (segments "/b").inits.map (placeFrom (origin d.working ⟨"/b"⟩)),
      place d.working ⟨"/a"⟩ <+: l → (d.find? l).isSome := by decide
  refine ⟨d, htree, haccount.bounded ?_ ?_⟩
  · exact fun l hl => hway l (onWay_iff.mp hl)
  · intro j _ hT
    rw [hsrc, hdst] at hT
    exact absurd hT (by simp [List.cons_prefix_cons])

/-- A directory that is empty is copied into itself in more calls than one. -/
theorem exists_descent_unbounded : ∃ (d : Disk) (src target : Path), PlainTree d ∧
    (∀ n out, Runs [(src, target)] d n out → 1 + entriesBelow d (place d.working src) < n) ∧
      (outcome (copyRecursive src target) d).1 ≠ .ok () := by
  let d : Disk := ⟨[(["s"], .dir)], [], false⟩
  let d₁ : Disk := d.set ["s", "t"] .dir
  have htree : PlainTree d := .of_entries (by decide) (by decide) rfl
  have hresolve : d.resolve .entry ⟨"/s/t"⟩ = .ok ⟨["s", "t"], none, false, false⟩ := by
    rw [resolve_absolute d .entry ["s", "t"] (by decide)]
    simp (disch := decide) [walk_cons, walkAt, d, find?, lookup]
    rfl
  have hsrc : d.resolve .follow ⟨"/s"⟩ = .ok ⟨["s"], some .dir, false, false⟩ := by
    rw [resolve_absolute d .follow ["s"] (by decide)]
    simp (disch := decide) [walk_cons, walkAt, d, find?, lookup]
    rfl
  have hmade : outcome (createDirAll ⟨"/s/t"⟩) d = (.ok (), d₁) := by
    have hclimb : outcome (climb 5 ⟨"/s/t"⟩ []) d = (.ok [], d₁) := by
      rw [outcome_climb (by decide), outcome_mkdir_of_none hresolve rfl]
    rw [createDirAll, if_neg (by decide)]
    exact outcome_bind_of_ok hclimb
  have hvisit : outcome (visit ⟨"/s"⟩ ⟨"/s/t"⟩) d = (.ok [(⟨"/s/t"⟩, ⟨"/s/t/t"⟩)], d₁) :=
    outcome_visit_of_dirAt ⟨_, hsrc, rfl, rfl⟩ hmade
  have hruns := copyRecursive_descends ⟨"/s"⟩ ⟨"/s/t"⟩ htree
  refine ⟨d, ⟨"/s"⟩, ⟨"/s/t"⟩, htree, fun n out hrun => ?_, ?_⟩
  · cases hrun with
    | failed hvisit' => cases hvisit.symm.trans hvisit'
    | next hvisit' hrest =>
      cases hvisit.symm.trans hvisit'
      have hbelow : entriesBelow d (place d.working ⟨"/s"⟩) = 0 := by decide
      rw [hbelow]
      cases hrest with
      | failed => omega
      | next => omega
  · obtain ⟨n, hrun⟩ := hruns.runs
    exact hruns.inside (by decide) ["t"] (by decide) (by decide) n _ hrun

end GameInstaller.Disk
