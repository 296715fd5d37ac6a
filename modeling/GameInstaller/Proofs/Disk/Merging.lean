import GameInstaller.Proofs.Disk.Copying
import GameInstaller.Proofs.Disk.Descending
import GameInstaller.Proofs.Disk.Duplicating

/-!
# What a copy merges

A copy on a tree, where no file has two names, puts a copy of each entry of the source in its place
in the target, and leaves the other entries as they are.  What else it makes are directories on the
way to the target; one that it makes in the source on that way is copied as well.

* `Mirrors`  a place in the target has a counterpart in the source
* `Merge`    what has been merged while calls are pending

## Key results

- `Merge.visit`: a call goes on with the merge
- `copyTree_merges`: what a copy that succeeds leaves
- `exists_merge_stray`: a copy may leave what has no counterpart in the source
-/

namespace GameInstaller.Disk

variable {d d' d₀ : Disk} {src dst : Path} {l S T : Location}

/-! ## The merge -/

/-- A place in the target with a counterpart in the source. -/
def Mirrors (d : Disk) (S T l : Location) : Prop := ∃ j, l = T ++ j ∧ (d.find? (S ++ j)).isSome

namespace Apart

variable (h : Apart S T)

include h

theorem settled (d : Disk) : Settled S T d := fun j _ hS => absurd hS (h.outside j)

theorem not_mirrors (d : Disk) (i : Location) : ¬ Mirrors d S T (S ++ i) := by
  rintro ⟨j, hsame, -⟩
  exact h.ne i j hsame

end Apart

/-- What has been merged while calls are pending: an entry of the source has its copy, or it is in the
    source of one of the calls. -/
structure Merge (d₀ : Disk) (S T : Location) (target : Path) (calls : List (Path × Path))
    (d : Disk) : Prop where
  gains : Gains (fun l => ¬ S <+: l) d₀ d
  oneNamed : OneNamed d
  pending : ∀ c ∈ calls, Pending S T d c
  ways : ∀ c ∈ calls, ∀ l, OnWay d₀.working c.2 l → Mirrors d₀ S T l ∨ OnWay d₀.working target l
  merged : ∀ j n, d₀.find? (S ++ j) = some n →
    (∃ n', d.find? (T ++ j) = some n' ∧ Copied n n') ∨
      ∃ c ∈ calls, ∃ i, place d₀.working c.1 = S ++ i ∧ i <+: j
  kept : ∀ l n, d₀.find? l = some n → ¬ Mirrors d₀ S T l → d.find? l = some n
  added : ∀ l, d₀.find? l = none → (d.find? l).isSome →
    Mirrors d₀ S T l ∨ (OnWay d₀.working target l ∧ d.find? l = some .dir)

namespace Merge

variable {target : Path} {calls more rest : List (Path × Path)} {n : Nat}

/-- The source is what it was. -/
theorem source (h : Merge d₀ S T target calls d) (hapart : Apart S T) (j : Location) :
    d.find? (S ++ j) = d₀.find? (S ++ j) := by
  cases hn : d₀.find? (S ++ j) with
  | some n => exact h.kept _ n hn (hapart.not_mirrors d₀ j)
  | none =>
    have hnone := (h.gains.isSome_iff (List.prefix_append S j)).not
    rw [hn] at hnone
    exact Option.not_isSome_iff_eq_none.mp (hnone.mpr (by simp))

/-- A call copies an entry of the source to its counterpart. -/
theorem call (h : Merge d₀ S T target ((src, dst) :: rest) d) (hapart : Apart S T)
    (hvisit : outcome (visit src dst) d = (.ok more, d')) :
    ∃ i, place d₀.working src = S ++ i ∧ place d₀.working dst = T ++ i ∧
      Visited d d' (S ++ i) (T ++ i) := by
  obtain ⟨i, hsrc, hdst⟩ := (h.pending _ List.mem_cons_self).inside
  have hvisited := visit_copies h.gains.tree h.oneNamed (by rw [hsrc, hdst]; exact hapart.ne i i)
    hvisit
  rw [hsrc, hdst] at hvisited
  rw [h.gains.working] at hsrc hdst
  exact ⟨i, hsrc, hdst, hvisited⟩

/-- A call goes on with the merge. -/
theorem visit (h : Merge d₀ S T target ((src, dst) :: rest) d) (hapart : Apart S T)
    (hvisit : outcome (visit src dst) d = (.ok more, d')) :
    Merge d₀ S T target (more ++ rest) d' := by
  obtain ⟨hgains, hmore⟩ := visit_pending h.gains.tree (hapart.settled d) h.pending hvisit
  obtain ⟨hpending, -⟩ := hmore more rfl
  obtain ⟨i, hsrc, hdst, hvisited⟩ := h.call hapart hvisit
  obtain ⟨m, m', hm, hm', hcopied⟩ := hvisited.copied
  have hall := h.gains.trans hgains
  have hself : Mirrors d₀ S T (T ++ i) := ⟨i, rfl, by rw [← h.source hapart, hm]; rfl⟩
  have hways := h.ways _ List.mem_cons_self
  exact {
    gains := hall
    oneNamed := hvisited.oneNamed
    pending := hpending
    ways := fun c hc l hl => by
      rcases List.mem_append.mp hc with hc | hc
      · obtain ⟨-, name, hname, rfl, hthere⟩ := visit_next h.gains.tree hvisit c hc
        rw [onWay_child hname] at hl
        rcases hl with hl | rfl
        · exact hways l hl
        · rw [h.gains.working, hsrc, List.append_assoc] at hthere
          refine .inl ⟨i ++ [name], by rw [hdst, List.append_assoc], ?_⟩
          exact (hall.isSome_iff (List.prefix_append S _)).mp hthere
      · exact h.ways c (List.mem_cons_of_mem _ hc) l hl
    merged := fun j n hn => by
      by_cases hj : j = i
      · -- The entry is the one that the call has copied.
        subst hj
        rw [h.source hapart, hn] at hm
        obtain rfl := Option.some.inj hm
        exact .inl ⟨m', hm', hcopied⟩
      rcases h.merged j n hn with ⟨n', hn', hcopied'⟩ | ⟨c, hc, k, hk, hkj⟩
      · exact .inl ⟨n', hvisited.find?_eq (by simpa using hj) hn', hcopied'⟩
      rcases List.mem_cons.mp hc with rfl | hc
      · -- The entry is inside the source of the call, and so in that of one that comes of it.
        obtain rfl : i = k := List.append_cancel_left (hsrc.symm.trans hk)
        obtain ⟨t, rfl⟩ := hkj
        obtain ⟨name, t, rfl⟩ := List.exists_cons_of_ne_nil (show t ≠ [] by simpa using hj)
        have hthere := hall.isSome (Option.isSome_of_eq_some hn)
        rw [← List.append_assoc, ← hsrc, ← h.gains.working] at hthere
        obtain ⟨c, hc, hplace⟩ := exists_of_visit h.gains.tree hvisit hthere
        refine .inr ⟨c, List.mem_append_left _ hc, i ++ [name], ?_, by simp⟩
        rw [← h.gains.working, hplace, h.gains.working, hsrc, List.append_assoc]
      · exact .inr ⟨c, List.mem_append_right _ hc, k, hk, hkj⟩
    kept := fun l n hn hl => by
      have hne : l ≠ T ++ i := fun hsame => hl (hsame ▸ hself)
      exact hvisited.find?_eq hne (h.kept l n hn hl)
    added := fun l hnone hsome => by
      by_cases hl : l = T ++ i
      · exact .inl (hl ▸ hself)
      rcases hvisited.elsewhere l hl with hsame | ⟨hnone', hdir⟩
      · rw [hsame] at hsome ⊢
        exact h.added l hnone hsome
      · -- What the call has made is on its way, which is that to the target and on in it.
        have hmade := visit_gains d.working src dst d h.gains.tree rfl
        rw [hvisit, h.gains.working] at hmade
        exact (hways l (hmade.of_new hnone' hsome)).imp_right fun hl => ⟨hl, hdir⟩ }

/-- Calls that run to their end complete the merge. -/
theorem runs (h : Merge d₀ S T target calls d) (hapart : Apart S T)
    (hrun : Runs calls d n (.ok (), d')) : Merge d₀ S T target [] d' := by
  generalize hout : (Except.ok (), d') = out at hrun
  induction hrun with
  | done d =>
    cases hout
    exact h
  | failed => cases hout
  | next hvisit _ ih => exact ih (h.visit hapart hvisit) hout

end Merge

/-! ## Copies that succeed -/

/-- A copy of what is there is the run of its calls. -/
theorem copyTree_runs (h : PlainTree d) (hthere : d.pathExists src = true) (dst : Path) :
    ∃ n, Runs [(src, d.copyTarget src dst)] d n (outcome (copyTree src dst) d) := by
  rw [outcome_copyTree_of_exists hthere]
  exact copyInto_runs h (deep_pathLimit src)

/-- What a copy from the place `S` to the target, at the place `T`, leaves of a disk `d` as `d'`. -/
structure MergeAccount (d d' : Disk) (S T : Location) (target : Path) : Prop where
  /-- Files in the source are in the target, with their content and their permission bits. -/
  files : ∀ j c m shared, d.find? (S ++ j) = some (.file c m shared) →
    ∃ shared', d'.find? (T ++ j) = some (.file c m shared')
  /-- Directories in the source are directories in the target. -/
  dirs : ∀ j, d.find? (S ++ j) = some .dir → d'.find? (T ++ j) = some .dir
  /-- The source is what it was, and nothing is new in it. -/
  source : ∀ j, d'.find? (S ++ j) = d.find? (S ++ j)
  /-- What else was there is what it was, in the target as well. -/
  kept : ∀ l n, d.find? l = some n → ¬ Mirrors d S T l → d'.find? l = some n
  /-- What else is new are directories on the way to the target. -/
  added : ∀ l, d.find? l = none → (d'.find? l).isSome →
    Mirrors d S T l ∨ (OnWay d.working target l ∧ d'.find? l = some .dir)

/-- A copy that succeeds on a tree merges the source into a target apart from it, if its path passes
    no place in the source that is not there. -/
theorem copyTree_merges {src dst : Path} (h : PlainTree d) (hone : OneNamed d)
    (hapart : Apart (place d.working src) (place d.working (d.copyTarget src dst)))
    (hway : ∀ l, OnWay d.working (d.copyTarget src dst) l → place d.working src <+: l →
      (d.find? l).isSome)
    (hok : outcome (copyTree src dst) d = (.ok (), d')) :
    MergeAccount d d' (place d.working src) (place d.working (d.copyTarget src dst))
      (d.copyTarget src dst) := by
  have hthere : d.pathExists src = true := by
    by_contra hnone
    rw [outcome_copyTree_of_not_exists (by simpa using hnone)] at hok
    cases hok
  obtain ⟨n, hrun⟩ := copyTree_runs h hthere dst
  rw [hok] at hrun
  have hself : place d.working src = place d.working src ++ [] := (List.append_nil _).symm
  have hstart : Merge d (place d.working src) (place d.working (d.copyTarget src dst))
      (d.copyTarget src dst) [(src, d.copyTarget src dst)] d := {
    gains := .refl h
    oneNamed := hone
    pending := List.forall_mem_singleton.mpr ⟨⟨[], hself, (List.append_nil _).symm⟩, hway⟩
    ways := List.forall_mem_singleton.mpr fun l hl => .inr hl
    merged := fun j n _ => .inr ⟨_, List.mem_singleton_self _, [], hself, List.nil_prefix⟩
    kept := fun l n hn _ => hn
    added := fun l hnone hsome => by
      rw [hnone] at hsome
      cases hsome }
  have hend := hstart.runs hapart hrun
  have hmerged (j : Location) (n : Node) (hn : d.find? (place d.working src ++ j) = some n) :
      ∃ n', d'.find? (place d.working (d.copyTarget src dst) ++ j) = some n' ∧ Copied n n' :=
    (hend.merged j n hn).resolve_right fun ⟨_, hc, _⟩ => absurd hc List.not_mem_nil
  exact {
    files := fun j c m shared hj => by
      obtain ⟨n', hn', hcopied⟩ := hmerged j _ hj
      cases hcopied with
      | file => exact ⟨_, hn'⟩
    dirs := fun j hj => by
      obtain ⟨n', hn', hcopied⟩ := hmerged j _ hj
      cases hcopied with
      | dir => exact hn'
    source := hend.source hapart
    kept := hend.kept
    added := hend.added }

/-- A directory is merged into another one, which has another file in it. -/
theorem copyTree_merges_beside : ∃ d d' : Disk, PlainTree d ∧ OneNamed d ∧
    outcome (copyTree ⟨"/a"⟩ ⟨"/b"⟩) d = (.ok (), d') ∧ MergeAccount d d' ["a"] ["b"] ⟨"/b"⟩ := by
  let d : Disk := ⟨[(["a"], .dir), (["a", "f"], .file "x".toUTF8 0o644 none), (["b"], .dir),
    (["b", "g"], .file "y".toUTF8 0o644 none)], [], false⟩
  have htree : PlainTree d := .of_entries (by decide) (by decide) rfl
  have hsrc : d.resolve .follow ⟨"/a"⟩ = .ok ⟨["a"], some .dir, false, false⟩ := by
    rw [resolve_absolute _ _ ["a"] (by decide)]
    simp (disch := decide) [walk_cons, walkAt, d, find?, lookup]
    rfl
  have hdst : d.resolve .follow ⟨"/b"⟩ = .ok ⟨["b"], some .dir, false, false⟩ := by
    rw [resolve_absolute _ _ ["b"] (by decide)]
    simp (disch := decide) [walk_cons, walkAt, d, find?, lookup]
    rfl
  have hfile : d.resolve .follow ⟨"/a/f"⟩ =
      .ok ⟨["a", "f"], some (.file "x".toUTF8 0o644 none), false, false⟩ := by
    rw [resolve_absolute _ _ ["a", "f"] (by decide)]
    simp (disch := decide) [walk_cons, walkAt, d, find?, lookup]
    rfl
  have hnone : d.resolve .follow ⟨"/b/f"⟩ = .ok ⟨["b", "f"], none, false, false⟩ := by
    rw [resolve_absolute _ _ ["b", "f"] (by decide)]
    simp (disch := decide) [walk_cons, walkAt, d, find?, lookup]
    rfl
  have hcopied : FileAt d ⟨"/a/f"⟩ ["a", "f"] := ⟨_, _, _, _, hfile, rfl, rfl⟩
  obtain ⟨d', hcopy⟩ := exists_outcome_copyFile hcopied hnone rfl rfl
  have htarget : d.copyTarget ⟨"/a"⟩ ⟨"/b"⟩ = ⟨"/b"⟩ := by
    simp [copyTarget, isFile, stat, hsrc, Node.isFile]
  have hok : outcome (copyTree ⟨"/a"⟩ ⟨"/b"⟩) d = (.ok (), d') := by
    have hone : outcome (copyOne ⟨"/a/f"⟩ ⟨"/b/f"⟩) d = (.ok (), d') := by
      rw [copyOne, outcome_bind_of_ok (outcome_makeParent_of_resolve hnone), outcome_about_eq_ok]
      exact hcopy
    have hvisit := outcome_visit_of_dirAt ⟨_, hsrc, rfl, rfl⟩
      (outcome_createDirAll_of_isDir hdst rfl)
    have hvisit' := outcome_visit_file hcopied.not_isDir ⟨"/b/f"⟩
    rw [hone] at hvisit'
    have hthere : d.pathExists ⟨"/a"⟩ = true := by simp [pathExists, stat, hsrc]
    obtain ⟨n, hrun⟩ := copyTree_runs htree hthere ⟨"/b"⟩
    rw [htarget] at hrun
    exact (hrun.unique (.next hvisit (.next hvisit' (.done d')))).2
  have hmerges := copyTree_merges htree (.of_entries (by simp [d])) ?_ ?_ hok
  · rw [htarget] at hmerges
    exact ⟨d, d', htree, .of_entries (by simp [d]), hok, hmerges⟩
  · rw [htarget]
    exact ⟨by decide, by decide⟩
  · rw [htarget]
    have hway : ∀ l ∈ (segments "/b").inits.map (placeFrom (origin d.working ⟨"/b"⟩)),
        place d.working ⟨"/a"⟩ <+: l → (d.find? l).isSome := by decide
    exact fun l hl => hway l (onWay_iff.mp hl)

/-! ## A directory that is made in the source -/

namespace Stray

/-- A disk with a directory. -/
def disk : Disk := ⟨[(["a"], .dir)], [], false⟩

/-- A path out of that directory, by way of a directory in it that is missing. -/
def target : Path := ⟨"/a/new/../../b"⟩

/-- The disk when the missing directory was made. -/
def entered : Disk := disk.set ["a", "new"] .dir

/-- The disk when the target was made. -/
def made : Disk := entered.set ["b"] .dir

/-- The disk when the directory in the source was copied. -/
def left : Disk := made.set ["b", "new"] .dir

theorem resolve_target : disk.resolve .entry target = .error (.system .noEntry) := by
  rw [resolve_absolute _ _ ["a", "new", "..", "..", "b"] (by decide)]
  simp (disch := decide) [walk_cons, walkAt, disk, find?, lookup]
  rfl

theorem resolve_up_up : disk.resolve .entry ⟨"/a/new/../.."⟩ = .error (.system .noEntry) := by
  rw [resolve_absolute _ _ ["a", "new", "..", ".."] (by decide)]
  simp (disch := decide) [walk_cons, walkAt, disk, find?, lookup]
  rfl

theorem resolve_up : disk.resolve .entry ⟨"/a/new/.."⟩ = .error (.system .noEntry) := by
  rw [resolve_absolute _ _ ["a", "new", ".."] (by decide)]
  simp (disch := decide) [walk_cons, walkAt, disk, find?, lookup]
  rfl

theorem resolve_new : disk.resolve .entry ⟨"/a/new"⟩ = .ok ⟨["a", "new"], none, false, false⟩ := by
  rw [resolve_absolute _ _ ["a", "new"] (by decide)]
  simp (disch := decide) [walk_cons, walkAt, disk, find?, lookup]
  rfl

theorem resolve_up_entered (final : Final) :
    entered.resolve final ⟨"/a/new/.."⟩ = .ok ⟨["a"], some .dir, false, true⟩ := by
  rw [resolve_absolute _ _ ["a", "new", ".."] (by decide)]
  simp (disch := decide) [walk, walk_cons, walkAt, entered, disk, find?]
  rfl

theorem resolve_up_up_entered (final : Final) :
    entered.resolve final ⟨"/a/new/../.."⟩ = .ok ⟨[], some .dir, false, true⟩ := by
  rw [resolve_absolute _ _ ["a", "new", "..", ".."] (by decide)]
  simp (disch := decide) [walk, walk_cons, walkAt, entered, disk, find?]
  rfl

theorem resolve_target_entered :
    entered.resolve .entry target = .ok ⟨["b"], none, false, false⟩ := by
  rw [resolve_absolute _ _ ["a", "new", "..", "..", "b"] (by decide)]
  simp (disch := decide) [walk, walk_cons, walkAt, entered, disk, find?]
  rfl

/-- The target is made when the directory on the way to it was. -/
theorem outcome_createDirAll : outcome (createDirAll target) disk = (.ok (), made) := by
  have hmissing : (IoError.system .noEntry).kind = .notFound := rfl
  have hthere : (IoError.system .fileExists).kind = .alreadyExists := rfl
  have hparent : Path.parent? target = some ⟨"/a/new/../.."⟩ := by decide
  have hparent' : Path.parent? ⟨"/a/new/../.."⟩ = some ⟨"/a/new/.."⟩ := by decide
  have hparent'' : Path.parent? ⟨"/a/new/.."⟩ = some ⟨"/a/new"⟩ := by decide
  have hclimb : outcome (climb 15 target []) disk =
      (.ok [⟨"/a/new/.."⟩, ⟨"/a/new/../.."⟩, target], entered) := by
    rw [outcome_climb (by decide) 14, outcome_mkdir_of_error resolve_target]
    simp only [hmissing, ↓reduceIte, hparent]
    rw [outcome_climb (by decide) 13, outcome_mkdir_of_error resolve_up_up]
    simp only [hmissing, ↓reduceIte, hparent']
    rw [outcome_climb (by decide) 12, outcome_mkdir_of_error resolve_up]
    simp only [hmissing, ↓reduceIte, hparent'']
    rw [outcome_climb (by decide) 11, outcome_mkdir_of_none resolve_new rfl]
    rfl
  have hup := outcome_mkdir_of_some (resolve_up_entered .entry) rfl
  have hup' := outcome_mkdir_of_some (resolve_up_up_entered .entry) rfl
  have htarget := outcome_mkdir_of_none resolve_target_entered rfl
  have hmkdirs : outcome (mkdirs [⟨"/a/new/.."⟩, ⟨"/a/new/../.."⟩, target]) entered =
      (.ok (), made) := by
    simp [outcome_mkdirs_cons, hup, hup', htarget, hthere, isDir, stat, resolve_up_entered,
      resolve_up_up_entered, Node.isDir]
    rfl
  have hlen : target.text.length + 1 = 15 := by decide
  rw [createDirAll, if_neg (by decide), hlen, outcome_bind_of_ok hclimb, hmkdirs]

theorem resolve_source : disk.resolve .follow ⟨"/a"⟩ = .ok ⟨["a"], some .dir, false, false⟩ := by
  rw [resolve_absolute _ _ ["a"] (by decide)]
  simp (disch := decide) [walk_cons, walkAt, disk, find?, lookup]
  rfl

theorem resolve_new_made :
    made.resolve .follow ⟨"/a/new"⟩ = .ok ⟨["a", "new"], some .dir, false, false⟩ := by
  rw [resolve_absolute _ _ ["a", "new"] (by decide)]
  simp (disch := decide) [walk_cons, walkAt, made, entered, disk, find?]
  rfl

theorem resolve_stray_made : made.resolve .entry (target.child "new") =
    .ok ⟨["b", "new"], none, false, false⟩ := by
  rw [resolve_absolute _ _ ["a", "new", "..", "..", "b", "new"] (by decide)]
  simp (disch := decide) [walk, walk_cons, walkAt, made, entered, disk, find?]
  rfl

/-- The copy comes by the directory that was made, and copies it. -/
theorem runs : Runs [(⟨"/a"⟩, target)] disk 2 (.ok (), left) := by
  have hvisit := outcome_visit_of_dirAt ⟨_, resolve_source, rfl, rfl⟩ outcome_createDirAll
  have hmade : outcome (createDirAll (target.child "new")) made = (.ok (), left) := by
    have hclimb : outcome (climb 19 (target.child "new") []) made = (.ok [], left) := by
      rw [outcome_climb (by decide) 18, outcome_mkdir_of_none resolve_stray_made rfl]
      rfl
    have hlen : (target.child "new").text.length + 1 = 19 := by decide
    rw [createDirAll, if_neg (by decide), hlen]
    exact outcome_bind_of_ok hclimb
  have hvisit' := outcome_visit_of_dirAt ⟨_, resolve_new_made, rfl, rfl⟩ hmade
  exact .next hvisit (.next hvisit' (.done left))

end Stray

/-- Copying a directory apart from it may leave something new in it, and a copy of that which is
    neither on the way to the target nor has a counterpart. -/
theorem exists_merge_stray : ∃ (d d' : Disk) (src dst : Path), PlainTree d ∧ OneNamed d ∧
    Apart (place d.working src) (place d.working (d.copyTarget src dst)) ∧
    outcome (copyTree src dst) d = (.ok (), d') ∧
    (∃ j, d'.find? (place d.working src ++ j) ≠ d.find? (place d.working src ++ j)) ∧
    ∃ l, d.find? l = none ∧ (d'.find? l).isSome ∧
      ¬ Mirrors d (place d.working src) (place d.working (d.copyTarget src dst)) l ∧
      ¬ OnWay d.working (d.copyTarget src dst) l := by
  open Stray in
  have htree : PlainTree disk := .of_entries (by decide) (by decide) rfl
  have htarget : disk.copyTarget ⟨"/a"⟩ target = target := by
    simp [copyTarget, isFile, stat, resolve_source, Node.isFile]
  have hthere : disk.pathExists ⟨"/a"⟩ = true := by
    simp [pathExists, stat, resolve_source]
  obtain ⟨n, hrun⟩ := copyTree_runs htree hthere target
  rw [htarget] at hrun
  obtain ⟨-, hout⟩ := hrun.unique runs
  refine ⟨disk, left, ⟨"/a"⟩, target, htree, .of_entries (by simp [disk]), ?_⟩
  rw [htarget]
  refine ⟨⟨by decide, by decide⟩, hout, ⟨["new"], by decide⟩, ["b", "new"], rfl, rfl, ?_, by decide⟩
  rintro ⟨j, hj, hsome⟩
  obtain rfl : ["new"] = j := List.append_cancel_left (show ["b"] ++ ["new"] = ["b"] ++ j from hj)
  exact absurd hsome (by decide)

end GameInstaller.Disk
