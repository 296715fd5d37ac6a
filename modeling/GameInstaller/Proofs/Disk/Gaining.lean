import GameInstaller.Proofs.Disk.Trees

/-!
# What is made on a tree

Making a directory makes places that its path passes, writing to a file makes the place of its path,
and the tree stays one.

* `Gains W`     entries were added at places of the kind `W`, and nowhere else

## Key results

- `createDirAll_gains`, `copyOne_gains`: what is made is on the way of the path
- `PlainTree.createDirAll_ok`: a directory that was made is there
-/

namespace GameInstaller.Disk

variable {w l : Location} {p q : Path} {d d' d₁ d₂ : Disk}

/-! ## Additions at places -/

/-- Entries were added at locations of this kind, where nothing was, and the disk still is a tree. -/
structure Gains (W : Location → Prop) (d d' : Disk) : Prop where
  working : d'.working = d.working
  keys : ∃ new, d'.keys = d.keys ++ new ∧ ∀ l ∈ new, W l ∧ d.find? l = none
  tree : PlainTree d'

namespace Gains

variable {W : Location → Prop}

theorem refl (h : PlainTree d) : Gains W d d :=
  ⟨rfl, ⟨[], (List.append_nil _).symm, by simp⟩, h⟩

theorem isSome (h : Gains W d d') (hl : (d.find? l).isSome) : (d'.find? l).isSome := by
  obtain ⟨new, hnew, -⟩ := h.keys
  rw [isSome_find?_iff] at hl ⊢
  rw [hnew]
  exact hl.imp_right (List.mem_append_left _)

theorem trans (h : Gains W d d₁) (h' : Gains W d₁ d₂) : Gains W d d₂ where
  working := h'.working.trans h.working
  keys := by
    obtain ⟨new, hnew, hall⟩ := h.keys
    obtain ⟨new', hnew', hall'⟩ := h'.keys
    refine ⟨new ++ new', by rw [hnew', hnew, List.append_assoc], fun l hl => ?_⟩
    rcases List.mem_append.mp hl with hl | hl
    · exact hall l hl
    · -- What was not there in between was not there before.
      obtain ⟨hW, hnone⟩ := hall' l hl
      refine ⟨hW, Option.not_isSome_iff_eq_none.mp fun hsome => ?_⟩
      have hthere := h.isSome hsome
      rw [hnone] at hthere
      cases hthere
  tree := h'.tree

theorem mono {W' : Location → Prop} (h : Gains W d d')
    (hW : ∀ l, W l → d.find? l = none → W' l) : Gains W' d d' where
  working := h.working
  keys := by
    obtain ⟨new, hnew, hall⟩ := h.keys
    refine ⟨new, hnew, fun l hl => ?_⟩
    obtain ⟨hl, hnone⟩ := hall l hl
    exact ⟨hW l hl hnone, hnone⟩
  tree := h.tree

/-- What is new is where something may be added. -/
theorem of_new (h : Gains W d d') (hnone : d.find? l = none) (hsome : (d'.find? l).isSome) : W l := by
  obtain ⟨new, hnew, hall⟩ := h.keys
  rcases isSome_find?_iff.mp hsome with rfl | hmem
  · rw [find?_nil] at hnone
    cases hnone
  · rw [hnew, List.mem_append] at hmem
    exact (hall l (hmem.resolve_left (not_mem_keys hnone))).1

end Gains

/-- On a tree, entries are added at locations of this kind; paths start from the directory `w`. -/
def GainsFrom (w : Location) (W : Location → Prop) (d d' : Disk) : Prop :=
  PlainTree d → d.working = w → Gains W d d'

instance (w : Location) (W : Location → Prop) : IsPreorder Disk (GainsFrom w W) where
  refl _ h _ := .refl h
  trans _ _ _ h h' htree hw :=
    have hmid := h htree hw
    hmid.trans (h' hmid.tree (hmid.working.trans hw))

variable {W : Location → Prop}

namespace PlainTree

/-- Where a path leads to nothing, something may be put. -/
theorem gains_set (h : PlainTree d) {final : Final} {r : Resolved}
    (hr : d.resolve final p = .ok r) (hn : r.node = none) (hW : W (place d.working p)) {n : Node}
    (hlink : ∀ target, n ≠ .link target) : Gains W d (d.set r.location n) := by
  obtain ⟨hplace, hfind, hparent⟩ := h.resolve_ok hr
  have hnone := hfind.trans hn
  have hproper : Proper r.location := by
    rw [hplace]
    exact (h.proper_of_some h.working).place p
  have hne : r.location ≠ [] := by
    intro hnil
    rw [hnil, find?_nil] at hnone
    cases hnone
  refine ⟨rfl, ⟨[r.location], keys_set hne hnone n, ?_⟩, h.set hproper hnone hparent hlink⟩
  rw [List.forall_mem_singleton]
  exact ⟨hplace ▸ hW, hnone⟩

/-- Where a path leads to a file, it may get another content. -/
theorem gains_setContent (h : PlainTree d) {r : Resolved} {c : ByteArray} {m : Nat}
    {shared : Option Nat} (hr : d.resolve .follow p = .ok r)
    (hn : r.node = some (.file c m shared)) (content : ByteArray) (mode : Nat) :
    Gains W d (d.setContent r.location content mode shared) := by
  obtain ⟨-, hne, hfind⟩ := resolve_entry d _ hr (by simp [hn])
  have hfile := hfind.trans hn
  refine ⟨by cases shared <;> rfl, ⟨[], ?_, by simp⟩, h.setContent hne hfile content mode⟩
  rw [keys_setContent hne hfile, List.append_nil]

end PlainTree

/-- A directory is made at the place of its path. -/
theorem mkdir_gains (h : W (place w p)) : Leads (GainsFrom w W) (mkdir p) := by
  intro d htree hw
  subst hw
  rcases mkdir_cases p d with ⟨e, hout⟩ | ⟨r, hr, hn, hout⟩
  · rw [hout]
    exact .refl htree
  · rw [hout]
    exact htree.gains_set hr hn h (by simp)

/-- A file is made at the place of its path. -/
theorem update_gains (h : W (place w p)) (change : ByteArray → ByteArray) (mode : Nat) :
    Leads (GainsFrom w W) (update p change mode) := by
  intro d htree hw
  subst hw
  rcases update_cases p change mode d with ⟨e, hout⟩ | ⟨r, c, m, shared, hr, hn, hout⟩ |
    ⟨r, hr, hn, -, hout⟩
  · rw [hout]
    exact .refl htree
  · rw [hout]
    exact htree.gains_setContent hr hn _ _
  · rw [hout]
    exact htree.gains_set hr hn h (by simp)

theorem chmod_gains (w : Location) (W : Location → Prop) (p : Path) (mode : Nat) :
    Leads (GainsFrom w W) (chmod p mode) := by
  intro d htree hw
  rcases chmod_cases p mode d with hsame | ⟨r, c, m, shared, hr, hn, hout⟩
  · rw [hsame]
    exact .refl htree
  · rw [hout]
    exact htree.gains_setContent hr hn _ _

/-- Making a directory with its parents makes directories on the way of the path. -/
theorem createDirAll_gains (w : Location) (p : Path) :
    Leads (GainsFrom w (OnWay w p)) (createDirAll p) :=
  .createDirAll fun q hq => mkdir_gains (hq.onWay (onWay_place w q))

theorem makeParent_gains (w : Location) (p : Path) :
    Leads (GainsFrom w (OnWay w p)) (makeParent p) :=
  .makeParent fun q hq => mkdir_gains (hq.onWay (onWay_place w q))

theorem copyFile_gains (w : Location) (src dst : Path) :
    Leads (GainsFrom w (OnWay w dst)) (copyFile src dst) :=
  .copyFile (update_gains (onWay_place w dst)) (chmod_gains w _ dst)

/-- Copying a file makes directories, and the file, on the way to the target. -/
theorem copyOne_gains (w : Location) (src dst : Path) :
    Leads (GainsFrom w (OnWay w dst)) (copyOne src dst) :=
  (makeParent_gains w dst).bind fun _ => (copyFile_gains w src dst).about src

/-! ## Directories that were made -/

theorem mkdir_ok (h : PlainTree d) {u : Unit} (hok : outcome (mkdir p) d = (.ok u, d')) :
    d'.find? (place d.working p) = some .dir := by
  rcases mkdir_cases p d with ⟨e, hout⟩ | ⟨r, hr, -, hout⟩
  · rw [hout] at hok
    cases hok
  · rw [hout] at hok
    cases hok
    rw [← (h.resolve_ok hr).1, find?_set]
    split
    · rfl
    · exact if_pos rfl

theorem mkdir_tree (h : PlainTree d) (p : Path) :
    PlainTree (outcome (mkdir p) d).2 ∧ (outcome (mkdir p) d).2.working = d.working :=
  have hgains := mkdir_gains (W := fun _ => True) (w := d.working) (p := p) trivial d h rfl
  ⟨hgains.tree, hgains.working⟩

/-- Directories that were to be made are there. -/
theorem mkdirs_ok {todo : List Path} (h : PlainTree d)
    (hok : outcome (mkdirs todo) d = (.ok (), d')) :
    ∀ q ∈ todo, d'.find? (place d.working q) = some .dir := by
  induction todo generalizing d with
  | nil => exact fun _ hq => absurd hq List.not_mem_nil
  | cons p rest ih =>
    obtain ⟨htree, hworking⟩ := mkdir_tree h p
    rw [outcome_mkdirs_cons] at hok
    -- Whether it was made or was there, the first one is a directory now, and remains one.
    obtain ⟨d₁, htree₁, hworking₁, hdir, hrest⟩ : ∃ d₁, PlainTree d₁ ∧ d₁.working = d.working ∧
        d₁.find? (place d.working p) = some .dir ∧ outcome (mkdirs rest) d₁ = (.ok (), d') := by
      rcases hmkdir : outcome (mkdir p) d with ⟨e | u, d₁⟩
      · rw [hmkdir] at hok htree hworking
        dsimp only at hok hworking
        split at hok
        · rename_i hthere
          have hdir := htree.find?_of_isDir (Bool.and_eq_true_iff.mp hthere).2
          exact ⟨d₁, htree, hworking, hworking ▸ hdir, hok⟩
        · cases hok
      · rw [hmkdir] at hok htree hworking
        exact ⟨d₁, htree, hworking, mkdir_ok h hmkdir, hok⟩
    have hkeeps := (mkdirs_building rest).keeps d₁ _ hdir
    rw [hrest] at hkeeps
    have hall := ih htree₁ hrest
    rw [hworking₁] at hall
    exact List.forall_mem_cons.mpr ⟨hkeeps, hall⟩

theorem climb_subset {fuel : Nat} {todo todo' : List Path}
    (hok : outcome (climb fuel p todo) d = (.ok todo', d')) : ∀ q ∈ todo, q ∈ todo' := by
  induction fuel generalizing p todo d with
  | zero =>
    cases hok
    exact fun _ => id
  | succ fuel ih =>
    cases htop : isTop p with
    | true =>
      rw [climb, if_pos htop] at hok
      cases hok
      exact fun _ => id
    | false =>
      rw [outcome_climb htop] at hok
      rcases hmkdir : outcome (mkdir p) d with ⟨e | u, d₁⟩
      · rw [hmkdir] at hok
        dsimp only at hok
        split at hok
        · cases hparent : p.parent? with
          | none =>
            rw [hparent] at hok
            cases hok
            exact fun _ => List.mem_cons_of_mem _
          | some parent =>
            rw [hparent] at hok
            exact fun q hq => ih hok q (List.mem_cons_of_mem _ hq)
        · split at hok
          · cases hok
            exact fun _ => id
          · cases hok
      · rw [hmkdir] at hok
        cases hok
        exact fun _ => id

/-- After a climb the path is left to make, or it is a directory. -/
theorem climb_ok (h : PlainTree d) (htop : isTop p = false) {fuel : Nat} {todo todo' : List Path}
    (hok : outcome (climb (fuel + 1) p todo) d = (.ok todo', d')) :
    p ∈ todo' ∨ d'.find? (place d.working p) = some .dir := by
  obtain ⟨htree, hworking⟩ := mkdir_tree h p
  rw [outcome_climb htop] at hok
  rcases hmkdir : outcome (mkdir p) d with ⟨e | u, d₁⟩
  · rw [hmkdir] at hok htree hworking
    dsimp only at hok hworking
    split at hok
    · cases hparent : p.parent? with
      | none =>
        rw [hparent] at hok
        cases hok
        exact .inl List.mem_cons_self
      | some parent =>
        rw [hparent] at hok
        exact .inl (climb_subset hok p List.mem_cons_self)
    · split at hok
      · rename_i hthere
        cases hok
        have hdir := htree.find?_of_isDir (Bool.and_eq_true_iff.mp hthere).2
        exact .inr (hworking ▸ hdir)
      · cases hok
  · rw [hmkdir] at hok
    cases hok
    exact .inr (mkdir_ok h hmkdir)

/-- A directory that was made is there. -/
theorem PlainTree.createDirAll_ok (h : PlainTree d)
    (hok : outcome (createDirAll p) d = (.ok (), d')) :
    d'.find? (place d.working p) = some .dir := by
  unfold createDirAll at hok
  cases htop : isTop p with
  | true =>
    rw [htop] at hok
    cases hok
    rw [place_of_isTop htop]
    exact h.find?_origin p
  | false =>
    rw [if_neg (by simp [htop])] at hok
    obtain ⟨todo, d₁, hclimb, hmkdirs⟩ := outcome_bind_eq_ok.mp hok
    have hgains : Gains (OnWay d.working p) d d₁ := by
      have hleads : Leads (GainsFrom d.working (OnWay d.working p)) (climb (p.text.length + 1) p []) :=
        .climb (fun q hq => mkdir_gains (hq.onWay (onWay_place _ q))) _ .self _
      have := hleads d h rfl
      rwa [hclimb] at this
    -- The directory is left for the way down, or it was there when the climb ended.
    rcases climb_ok h htop hclimb with hp | hdir
    · have hall := mkdirs_ok hgains.tree hmkdirs p hp
      rwa [hgains.working] at hall
    · have hkeeps := (mkdirs_building todo).keeps d₁ _ hdir
      rwa [hmkdirs] at hkeeps

end GameInstaller.Disk
