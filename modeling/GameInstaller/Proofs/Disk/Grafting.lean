import GameInstaller.Proofs.Disk.Copying
import GameInstaller.Proofs.Disk.Relocating
import GameInstaller.Proofs.Disk.Visiting

/-!
# Trees that are copied to a free place

Where nothing is at the target and no link is in the source, a copy puts a tree like the source there
and changes nothing else.  It succeeds exactly if the names in the source fit behind the paths to which
they are added.

* `FitsUnder`  all names in the source fit behind the paths of source and target
* `Grafting`   what has been copied of a directory while names in it are pending
* `Decides`    a call succeeds under a condition and fails otherwise

## Key results

- `copyOne_grafts`: a file can be copied to a free place
- `Grafting.next`: what copying another name in the directory adds
- `copyInto_decides`: when a copy to a free place succeeds, and what it leaves
-/

namespace GameInstaller.Disk

variable {d d' e e' : Disk} {p src dst : Path} {k l S T : Location} {name : String}

/-! ## Trees like others -/

/-- A node that is like another one, and no second name of a file. -/
def Node.alone : Node → Node
  | file c m _ => file c m none
  | n => n

@[simp] theorem Node.alone_alone (n : Node) : n.alone.alone = n.alone := by cases n <;> rfl

/-- A tree like the one at the place `S` is at the place `T`, and what is not at or beneath this place
    is as it was. -/
structure Grafted (d d' : Disk) (S T : Location) : Prop where
  tree : Tree d'
  working : d'.working = d.working
  copied : ∀ j, d'.find? (T ++ j) = (d.find? (S ++ j)).map Node.alone
  kept : ∀ l, ¬ T <+: l → d'.find? l = d.find? l

/-- What was there is there still, if nothing was at the place. -/
theorem Grafted.keeps (h : Grafted d d' S T) (htree : Tree d) (hfree : d.find? T = none) :
    ∀ l n, d.find? l = some n → d'.find? l = some n := by
  intro l n hl
  rw [h.kept l, hl]
  rintro ⟨j, rfl⟩
  rw [htree.none_of_front hfree] at hl
  cases hl

theorem Grafted.extending (h : Grafted d d' S T) (htree : Tree d) (hfree : d.find? T = none) :
    Extends d d' := .of_find? h.working (h.keeps htree hfree)

/-! ## What is to be copied -/

theorem Reaches.dirAt {slash : Bool} (h : Reaches d p l slash) (hdir : d.find? l = some .dir) :
    DirAt d p l := ⟨_, h .follow, rfl, hdir⟩

/-- A tree without links is to be copied to a place where nothing is. -/
structure Ready (d : Disk) (src dst : Path) (S T : Location) : Prop where
  tree : Tree d
  source : ∃ slash, Reaches d src S slash
  target : ∃ slash, Reaches d dst T slash ∧ (d.find? S = some .dir ∨ slash = false)
  there : (d.find? S).isSome
  free : d.find? T = none
  apart : Apart S T
  links : ∀ j target, d.find? (S ++ j) ≠ some (.link target)

/-- All names in the source fit behind the paths of the source and the target. -/
def FitsUnder (d : Disk) (src dst : Path) (S : Location) : Prop :=
  ∀ front name, (d.find? (S ++ (front ++ [name]))).isSome →
    Fits (src.descend front) name ∧ Fits (dst.descend front) name

/-- A name fits behind both paths, and so do all names beneath it. -/
structure FitsChild (d : Disk) (src dst : Path) (S : Location) (name : String) : Prop where
  source : Fits src name
  target : Fits dst name
  beneath : FitsUnder d (src.child name) (dst.child name) (S ++ [name])

theorem fitsUnder_iff (h : Tree d) :
    FitsUnder d src dst S ↔ ∀ name, (d.find? (S ++ [name])).isSome → FitsChild d src dst S name := by
  constructor
  · intro hfits name hname
    obtain ⟨hsrc, hdst⟩ := hfits [] name hname
    refine ⟨hsrc, hdst, fun front name' hname' => ?_⟩
    rw [List.append_assoc] at hname'
    exact hfits (name :: front) name' hname'
  · intro hall front name hname
    cases front with
    | nil => exact ⟨(hall name hname).source, (hall name hname).target⟩
    | cons first rest =>
      rw [List.cons_append, List.append_cons] at hname
      exact (hall first (h.isSome_front hname)).beneath rest name hname

theorem FitsUnder.congr (hsame : ∀ j, e.find? (S ++ j) = d.find? (S ++ j))
    (h : FitsUnder d src dst S) : FitsUnder e src dst S := by
  intro front name hname
  rw [hsame] at hname
  exact h front name hname

/-- A call succeeds under a condition, and leaves a disk of this kind; otherwise it fails. -/
def Decides (c : Prop) (P : Disk → Prop) (out : Except Fault Unit × Disk) : Prop :=
  (c ∧ ∃ d', out = (.ok (), d') ∧ P d') ∨ (¬ c ∧ ∃ f d', out = (.error f, d'))

namespace Decides

variable {c c' : Prop} {P P' : Disk → Prop} {out : Except Fault Unit × Disk}

theorem of_ok (h : Decides c P (.ok (), d')) : c ∧ P d' := by
  rcases h with ⟨hc, d₁, hout, hP⟩ | ⟨-, f, d₁, hout⟩
  · cases hout
    exact ⟨hc, hP⟩
  · cases hout

theorem imp (h : Decides c P out) (hc : c ↔ c') (hP : ∀ d', P d' → P' d') : Decides c' P' out := by
  rcases h with ⟨hyes, d', hout, hd'⟩ | ⟨hno, hout⟩
  · exact .inl ⟨hc.mp hyes, d', hout, hP d' hd'⟩
  · exact .inr ⟨fun hyes => hno (hc.mpr hyes), hout⟩

end Decides

/-! ## Files -/

/-- A file is written to at a path that leads somewhere. -/
theorem exists_resolve_of_copyFile (h : outcome (copyFile src dst) d = (.ok (), d')) :
    ∃ r, d.resolve .follow dst = .ok r := by
  rcases copyFile_cases src dst d with ⟨e, hfailed⟩ | ⟨l, s, c, m, shared, hs, -, hn⟩
  · rw [hfailed] at h
    cases h
  · rw [outcome_copyFile_of_file hs hn] at h
    obtain ⟨⟨⟩, d₁, hupdate, -⟩ := outcome_bind_eq_ok.mp h
    cases hr : d.resolve .follow dst with
    | ok r => exact ⟨r, rfl⟩
    | error e =>
      rw [outcome_update_of_error hr] at hupdate
      cases hupdate

/-- A file that is copied to a path that leads to nothing is a new file where the path ends. -/
theorem copyOne_missing {t : Resolved} (ht : d.resolve .entry dst = .ok t)
    (hmissing : d.pathExists dst = false) (h : outcome (copyOne src dst) d = (.ok (), d')) :
    ∃ k, FileAt d src k ∧
      ∃ l c m, l ≠ [] ∧ d.find? l = none ∧ d' = d.set l (.file c m none) := by
  rw [copyOne, outcome_bind_of_ok (outcome_makeParent_of_resolve ht), outcome_about_eq_ok] at h
  rcases copyFile_cases src dst d with ⟨e, hfailed⟩ | ⟨k, hsrc⟩
  · rw [hfailed] at h
    cases h
  obtain ⟨s, c, m, shared, hs, -, hfile⟩ := id hsrc
  have hcopy := h
  rw [outcome_copyFile_of_file hs hfile] at h
  obtain ⟨⟨⟩, d₁, hupdate, -⟩ := outcome_bind_eq_ok.mp h
  rcases update_cases dst (fun _ => ByteArray.empty) m d with ⟨e, hfailed⟩ |
    ⟨r, _, _, _, hr, hn, -⟩ | ⟨r, hr, hn, hslash, -⟩
  · rw [hfailed] at hupdate
    cases hupdate
  · simp [pathExists, stat, hr, hn] at hmissing
  · obtain ⟨-, hne, hfind⟩ := resolve_entry d _ hr (by simp [hn])
    rw [outcome_copyFile_new hs hfile hr hn hslash] at hcopy
    cases hcopy
    exact ⟨k, hsrc, r.location, c, m, hne, hfind.trans hn, rfl⟩

/-- Something put at a free place is there, and nothing else changed. -/
theorem Ready.grafted_set (h : Ready d src dst S T) {n : Node} (hn : d.find? S = some n)
    (hbeneath : ∀ j ≠ [], d.find? (S ++ j) = none) : Grafted d (d.set T n.alone) S T where
  tree := by
    obtain ⟨slash, htarget, -⟩ := h.target
    exact h.tree.set (h.tree.resolve_proper (htarget .entry)) h.free
      (h.tree.resolve_ok (htarget .entry)).2 _
  working := rfl
  copied j := by
    have hT : T ≠ [] := by
      intro hnil
      have hfree := h.free
      rw [hnil, find?_nil] at hfree
      cases hfree
    by_cases hj : j = []
    · rw [hj, List.append_nil, List.append_nil, find?_set, if_neg hT, if_pos rfl, hn]
      rfl
    · rw [find?_set_of_ne _ (by simp [hj]), h.tree.none_of_front h.free, hbeneath j hj]
      rfl
  kept l hl := by
    refine find?_set_of_ne _ (fun hsame => hl ?_) _
    rw [hsame]

/-- A file can be copied to a free place. -/
theorem copyOne_grafts (h : Ready d src dst S T) {c : ByteArray} {m : Nat} {shared : Option Nat}
    (hfile : d.find? S = some (.file c m shared)) :
    ∃ d', outcome (copyOne src dst) d = (.ok (), d') ∧ Grafted d d' S T := by
  obtain ⟨slash, hsource⟩ := h.source
  obtain ⟨slash', htarget, hdir | rfl⟩ := h.target
  · rw [hfile] at hdir
    cases hdir
  have hgrafted := h.grafted_set hfile fun j hj => by
    by_contra hsome
    obtain ⟨n, hn⟩ := Option.ne_none_iff_exists'.mp hsome
    have hdir := h.tree.front hj hn
    rw [hfile] at hdir
    cases hdir
  refine ⟨_, ?_, hgrafted⟩
  rw [copyOne, outcome_bind_of_ok (outcome_makeParent_of_resolve (htarget .follow)),
    outcome_about_eq_ok]
  exact outcome_copyFile_new (hsource .follow) hfile (htarget .follow) h.free rfl

/-! ## Copies make no links -/

instance : IsPreorder Disk AddsNoLink where
  refl _ := .refl
  trans _ _ _ := .trans

theorem chmod_addsNoLink (p : Path) (mode : Nat) : Leads AddsNoLink (chmod p mode) := by
  intro d
  rcases chmod_cases p mode d with hsame | ⟨r, c, m, shared, hr, hn, hout⟩
  · rw [hsame]
    exact .refl
  · obtain ⟨-, hne, hfind⟩ := resolve_entry d _ hr (by simp [hn])
    rw [hout]
    exact .of_outline (outline_setContent d hne (hfind.trans hn) _ _)

/-- A copy leads through links, and makes none. -/
theorem copyInto_addsNoLink (depth : Nat) (src dst : Path) :
    Leads AddsNoLink (copyInto depth src dst) :=
  .copyInto (fun q d => (mkdir_addsDirs q d).addsNoLink)
    (fun p change mode d => update_addsNoLink p change mode d) chmod_addsNoLink depth src dst

/-! ## Names that do not fit -/

/-- Where a name does not fit behind both paths, it is not copied. -/
theorem copyInto_unfit (hsrc : DirAt d src S) (hdst : DirAt d dst T) (hname : Path.IsProper name)
    (hunfit : ¬ (Fits src name ∧ Fits dst name)) (depth : Nat) :
    ∃ f d', outcome (copyInto depth (src.child name) (dst.child name)) d = (.error f, d') := by
  rcases hout : outcome (copyInto depth (src.child name) (dst.child name)) d with ⟨f | u, d'⟩
  · exact ⟨f, d', rfl⟩
  -- A copy that succeeds led both paths to something, and so both names were accepted.
  refine absurd ?_ hunfit
  cases depth with
  | zero => cases hout
  | succ depth =>
    cases hdir : d.isDir (src.child name) with
    | true =>
      obtain ⟨l, r, hr, -, -⟩ := isDir_iff.mp hdir
      refine ⟨?_, ?_⟩
      · by_contra hfits
        obtain ⟨e, -, -, he⟩ := hsrc.resolve_unfit hname hfits
        rw [he] at hr
        cases hr
      · by_contra hfits
        obtain ⟨e, he⟩ := outcome_createDirAll_of_unfit hdst hname hfits
        rw [outcome_copyInto_dir hdir, outcome_about, he] at hout
        cases hout
    | false =>
      rw [outcome_copyInto_file hdir] at hout
      have hspreads := copyOne_spreads (src.child name) (dst.child name) d
      rw [hout] at hspreads
      refine ⟨?_, ?_⟩
      · by_contra hfits
        obtain ⟨e, -, -, he⟩ := (hsrc.extends hspreads.extending).resolve_unfit hname hfits
        obtain ⟨l, r, c, m, shared, hr, -, -⟩ := fileAt_of_copyOne hout
        rw [he] at hr
        cases hr
      · by_contra hfits
        obtain ⟨⟨⟩, d₁, hparent, hcopy⟩ := outcome_bind_eq_ok.mp hout
        have hadds := makeParent_addsDirs (dst.child name) d
        rw [hparent] at hadds
        rw [outcome_about_eq_ok] at hcopy
        obtain ⟨r, hr⟩ := exists_resolve_of_copyFile hcopy
        obtain ⟨e, -, -, he⟩ := (hdst.extends hadds.extending).resolve_unfit hname hfits
        rw [he] at hr
        cases hr

/-! ## Directories -/

/-- What has been copied of a directory on the disk `d` while these names in it are pending. -/
structure Grafting (d : Disk) (S T : Location) (pending : List String) (e : Disk) : Prop where
  tree : Tree e
  extending : Extends (d.set T .dir) e
  copied : ∀ name ∉ pending, ∀ j, e.find? (T ++ name :: j) = (d.find? (S ++ name :: j)).map Node.alone
  free : ∀ name ∈ pending, e.find? (T ++ [name]) = none
  kept : ∀ l, ¬ T <+: l → e.find? l = d.find? l

namespace Grafting

variable {pending : List String}

theorem source (h : Grafting d S T pending e) (hapart : Apart S T) (j : Location) :
    e.find? (S ++ j) = d.find? (S ++ j) := h.kept _ (hapart.symm.outside j)

/-- Another name was copied. -/
theorem next (h : Grafting d S T (name :: pending) e) (hapart : Apart S T)
    (hnodup : (name :: pending).Nodup) (hname : Grafted e e' (S ++ [name]) (T ++ [name])) :
    Grafting d S T pending e' := by
  have hfree := h.free name List.mem_cons_self
  -- What is under another name is beside what was copied.
  have hbeside {other : String} (hne : other ≠ name) (j : Location) :
      e'.find? (T ++ other :: j) = e.find? (T ++ other :: j) := by
    refine hname.kept _ fun hprefix => hne ?_
    rw [List.prefix_append_right_inj, List.cons_prefix_cons] at hprefix
    exact hprefix.1.symm
  exact {
    tree := hname.tree
    extending := h.extending.trans (hname.extending h.tree hfree)
    copied := fun other hother j => by
      by_cases hsame : other = name
      · subst hsame
        have hcopied := hname.copied j
        rw [List.append_assoc, List.append_assoc, h.source hapart] at hcopied
        exact hcopied
      · rw [hbeside hsame, h.copied other (by simp [hsame, hother])]
    free := fun other hother => by
      have hne : other ≠ name := fun hsame => (List.nodup_cons.mp hnodup).1 (hsame ▸ hother)
      rw [hbeside hne, h.free other (List.mem_cons_of_mem _ hother)]
    kept := fun l hl => by
      rw [hname.kept l fun hprefix => hl ((List.prefix_append T [name]).trans hprefix), h.kept l hl] }

/-- A directory of which nothing is pending was copied. -/
theorem grafted (h : Grafting d S T [] e) (hdir : d.find? S = some .dir) : Grafted d e S T where
  tree := h.tree
  working := h.extending.working
  copied j := by
    cases j with
    | nil =>
      have hmade : (d.set T .dir).find? T = some .dir := by
        rw [find?_set]
        split
        · rfl
        · exact if_pos rfl
      rw [find?_eq_dir_iff_outline] at hmade
      rw [List.append_nil, List.append_nil, hdir]
      exact (find?_eq_dir_iff_outline e T).mpr (h.extending.keeps T _ hmade)
    | cons name j => exact h.copied name List.not_mem_nil j
  kept := h.kept

end Grafting

/-- What is copied of a directory is ready to be copied. -/
theorem Ready.child {pending : List String} (h : Ready d src dst S T)
    (hg : Grafting d S T (name :: pending) e) (hsrc : DirAt e src S) (hdst : DirAt e dst T)
    (hthere : (d.find? (S ++ [name])).isSome) (hname : Path.IsProper name) (hfits : Fits src name)
    (hfits' : Fits dst name) :
    Ready e (src.child name) (dst.child name) (S ++ [name]) (T ++ [name]) := by
  have hsource := hg.source h.apart
  have hfree := hg.free name List.mem_cons_self
  have hlinks (j : Location) (target : String) : e.find? (S ++ [name] ++ j) ≠ some (.link target) := by
    rw [List.append_assoc, hsource]
    exact h.links _ target
  exact {
    tree := hg.tree
    source := ⟨false, hsrc.resolve_child hname hfits fun target => by simpa using hlinks [] target⟩
    target := ⟨false, hdst.resolve_child hname hfits' (by simp [hfree]), .inr rfl⟩
    there := by rwa [hsource]
    free := hfree
    apart := h.apart.append _ _
    links := hlinks }

/-- When the target was made, all names in the source are pending. -/
theorem Ready.grafting (h : Ready d src dst S T) :
    Grafting d S T ((d.set T .dir).children S) (d.set T .dir) := by
  obtain ⟨slash, htarget, -⟩ := h.target
  have hkept (l : Location) (hl : ¬ T <+: l) : (d.set T .dir).find? l = d.find? l := by
    refine find?_set_of_ne _ (fun hsame => hl ?_) _
    rw [hsame]
  have hbeneath (name : String) (j : Location) : (d.set T .dir).find? (T ++ name :: j) = none := by
    rw [find?_set_of_ne _ (by simp), h.tree.none_of_front h.free]
  exact {
    tree := h.tree.set (h.tree.resolve_proper (htarget .entry)) h.free
      (h.tree.resolve_ok (htarget .entry)).2 _
    extending := .refl
    copied := fun name hname j => by
      rw [mem_children_iff, hkept _ (h.apart.symm.outside _), Option.not_isSome_iff_eq_none] at hname
      rw [hbeneath, List.append_cons, h.tree.none_of_front hname]
      rfl
    free := fun name _ => hbeneath name []
    kept := hkept }

/-- No directory is made where something else is. -/
theorem outcome_createDirAll_of_some {t : Resolved} (ht : d.resolve .entry p = .ok t)
    (hdots : t.dots = false) (hn : t.node.isSome) (hdir : d.isDir p = false) :
    ∃ e, outcome (createDirAll p) d = (.error e, d) := by
  have htop := isTop_of_resolve ht hdots
  have hexists : (IoError.system .fileExists).kind = .alreadyExists := rfl
  refine ⟨.system .fileExists, ?_⟩
  unfold createDirAll
  rw [if_neg (by simp [htop]), outcome_bind, outcome_climb htop, outcome_mkdir_of_some ht hn]
  simp [hexists, hdir]

/-- A directory is made at a free place. -/
theorem Ready.outcome_createDirAll (h : Ready d src dst S T) :
    outcome (createDirAll dst) d = (.ok (), d.set T .dir) := by
  obtain ⟨slash, htarget, -⟩ := h.target
  have htop := isTop_of_resolve (htarget .entry) rfl
  have hmkdir := outcome_mkdir_of_none (htarget .entry) (by simp [h.free])
  have hclimb : outcome (climb (dst.text.length + 1) dst []) d = (.ok [], d.set T .dir) := by
    rw [outcome_climb htop, hmkdir]
  unfold Disk.createDirAll
  rw [if_neg (by simp [htop]), outcome_bind_of_ok hclimb]
  rfl

/-- When the target was made, both paths lead to directories. -/
theorem Ready.dirs (h : Ready d src dst S T) (hdir : d.find? S = some .dir) :
    DirAt (d.set T .dir) src S ∧ DirAt (d.set T .dir) dst T := by
  obtain ⟨slash, hsource⟩ := h.source
  obtain ⟨slash', htarget, -⟩ := h.target
  have hmade := resolve_set_node .dir (htarget .follow) h.free trivial
  exact ⟨(hsource.dirAt hdir).extends (.set h.free .dir), _, hmade, rfl, rfl⟩

/-- The names in a directory are copied one after the other. -/
theorem forM_decides {depth : Nat} (h : Ready d src dst S T) (hdir : d.find? S = some .dir)
    (hcopy : ∀ e name, Path.IsProper name →
      Ready e (src.child name) (dst.child name) (S ++ [name]) (T ++ [name]) →
        Decides (FitsUnder e (src.child name) (dst.child name) (S ++ [name]))
          (Grafted e · (S ++ [name]) (T ++ [name]))
          (outcome (copyInto depth (src.child name) (dst.child name)) e))
    {pending : List String} (hnodup : pending.Nodup)
    (hthere : ∀ name ∈ pending, (d.find? (S ++ [name])).isSome) (hg : Grafting d S T pending e) :
    Decides (∀ name ∈ pending, FitsChild d src dst S name) (Grafting d S T [])
      (outcome (pending.forM fun name => copyInto depth (src.child name) (dst.child name)) e) := by
  -- `Grafting` says what is there of the names that are not pending any more.
  induction pending generalizing e with
  | nil => exact .inl ⟨fun _ hname => absurd hname List.not_mem_nil, e, rfl, hg⟩
  | cons name rest ih =>
    obtain ⟨hname, hrest⟩ := List.forall_mem_cons.mp hthere
    obtain ⟨hsrc, hdst⟩ := h.dirs hdir
    replace hsrc := hsrc.extends hg.extending
    replace hdst := hdst.extends hg.extending
    have hproper := h.tree.proper_of_mem_children (mem_children_iff.mpr hname)
    rw [outcome_forM_cons]
    by_cases hfits : Fits src name ∧ Fits dst name
    · have hchild := hcopy e name hproper (h.child hg hsrc hdst hname hproper hfits.1 hfits.2)
      rcases hchild with ⟨hbeneath, e', hout, hgrafted⟩ | ⟨hbeneath, f, e', hout⟩
      · rw [outcome_bind_of_ok hout]
        refine (ih (List.nodup_cons.mp hnodup).2 hrest (hg.next h.apart hnodup hgrafted)).imp ?_
          fun _ => id
        rw [List.forall_mem_cons]
        refine (and_iff_right ⟨hfits.1, hfits.2, hbeneath.congr fun j => ?_⟩).symm
        rw [List.append_assoc, hg.source h.apart]
      · rw [outcome_bind_of_error hout]
        refine .inr ⟨fun hall => hbeneath ?_, f, e', rfl⟩
        refine (hall name List.mem_cons_self).beneath.congr fun j => ?_
        rw [List.append_assoc, hg.source h.apart]
    · obtain ⟨f, e', hout⟩ := copyInto_unfit hsrc hdst hproper hfits depth
      rw [outcome_bind_of_error hout]
      exact .inr ⟨fun hall => hfits ⟨(hall name List.mem_cons_self).source,
        (hall name List.mem_cons_self).target⟩, f, e', rfl⟩

/-- A copy to a free place succeeds exactly if all names fit, and then a tree like the source is there. -/
theorem copyInto_decides {depth : Nat} (h : Ready d src dst S T) (hdepth : Deep depth src) :
    Decides (FitsUnder d src dst S) (Grafted d · S T) (outcome (copyInto depth src dst) d) := by
  -- The depth is never used up, since every level makes the path of the source longer.
  induction depth generalizing d src dst S T with
  | zero => exact absurd hdepth.1 (Nat.lt_irrefl 0)
  | succ depth ih =>
    obtain ⟨n, hn⟩ := Option.isSome_iff_exists.mp h.there
    obtain ⟨slash, hsource⟩ := h.source
    cases n with
    | link target => exact absurd hn (by simpa using h.links [] target)
    | file c m shared =>
      have hfile : FileAt d src S := ⟨_, c, m, shared, hsource .follow, rfl, hn⟩
      obtain ⟨d', hout, hgrafted⟩ := copyOne_grafts h hn
      rw [outcome_copyInto_file hfile.not_isDir]
      refine .inl ⟨fun front name hname => ?_, d', hout, hgrafted⟩
      -- There is nothing beneath a file.
      obtain ⟨n, hname⟩ := Option.isSome_iff_exists.mp hname
      have hdir := h.tree.front (by simp) hname
      rw [hn] at hdir
      cases hdir
    | dir =>
      have hsrc := hsource.dirAt hn
      have hisDir := isDir_iff.mpr ⟨S, hsrc⟩
      have hg := h.grafting
      have hmem (name : String) : name ∈ (d.set T .dir).children S ↔
          (d.find? (S ++ [name])).isSome := by
        rw [mem_children_iff, hg.source h.apart]
      rw [outcome_copyInto_dir hisDir, outcome_about_eq_ok.mpr h.outcome_createDirAll]
      dsimp only
      rw [(h.dirs hn).1.namesIn_eq]
      refine (forM_decides h hn (fun e name hname hready => ih hready ?_)
        (hg.tree.nodup_children S) (fun name hname => (hmem name).mp hname) hg).imp ?_ ?_
      · exact hdepth.child hisDir hname.toIsName
      · rw [fitsUnder_iff h.tree]
        simp only [hmem]
      · exact fun e he => he.grafted hn

end GameInstaller.Disk
