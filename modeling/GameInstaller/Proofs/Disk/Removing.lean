import GameInstaller.Proofs.Disk.Relocating

/-!
# What a removal takes away

A removal takes entries away and changes nothing else.  A directory is emptied first and then taken
away by its path, which must not lead through what was in it.

* `Loses`    entries were taken away, and that is all
* `Cleared`  a place was cleared, with all that was beneath it

## Key results

- `resolve_lose`: where paths lead when entries were taken away
- `removePath_loses`: a removal only takes away
- `removePath_clears`: a removal clears a place
-/

namespace GameInstaller.Disk

variable {d d' d₁ d₂ : Disk} {p : Path} {l S : Location}

/-! ## Disks that lost entries -/

/-- Entries of `d` are missing on `d₁` and `d₂`, the same ones on both. -/
def LoseAlike (d d₁ d₂ : Disk) : Prop := ∀ l n, d.find? l = some n →
  (d₁.find? l = some n ∧ d₂.find? l = some n) ∨ (d₁.find? l = none ∧ d₂.find? l = none)

/-- A walk that comes to nothing. -/
theorem walkAt_none (d₁ d₂ : Disk) (final : Final) (links : Nat) (cur : Location) (slash : Bool) (name : String)
    (rest : List String) : walkAt d₂ final links cur slash name rest none =
      walkAt d₁ final links cur slash name rest none ∧
    ∀ r, walkAt d₁ final links cur slash name rest none = .ok r → r.node = none := by
  cases rest with
  | nil =>
    refine ⟨rfl, fun r hr => ?_⟩
    cases hr
    rfl
  | cons name rest => exact ⟨rfl, nofun⟩

/-- A walk that led to something does the same on all disks that lost the same entries: it leads there
    still, or to nothing. -/
theorem walk_lose {final : Final} {links : Nat} {cur : Location} {slash : Bool} {names : List String}
    {r : Resolved} (hlose : LoseAlike d d₁ d₂) (h : walk d final links cur slash names = .ok r)
    (hr : r.node ≠ none) :
    walk d₂ final links cur slash names = walk d₁ final links cur slash names ∧
      ∀ r', walk d₁ final links cur slash names = .ok r' → r'.node ≠ none → r' = r := by
  -- The walks stay together until an entry is missing, and end there.
  have hgone {cur : Location} {name : String} (links : Nat) (slash : Bool) (rest : List String)
      (hdot : name ≠ ".") (hup : name ≠ "..") (hlen : ¬ maxName < name.utf8ByteSize)
      (h₁ : d₁.find? (cur ++ [name]) = none) (h₂ : d₂.find? (cur ++ [name]) = none) :
      walk d₂ final links cur slash (name :: rest) = walk d₁ final links cur slash (name :: rest) ∧
        ∀ r', walk d₁ final links cur slash (name :: rest) = .ok r' → r'.node ≠ none → r' = r := by
    rw [walk_cons _ _ hdot hup hlen, walk_cons _ _ hdot hup hlen, h₁, h₂]
    obtain ⟨hsame, hnone⟩ := walkAt_none d₁ d₂ final links cur slash name rest
    exact ⟨hsame, fun r' hr' hn => absurd (hnone r' hr') hn⟩
  fun_induction walk d final links cur slash names with
  | case1 =>
    cases h
    rw [walk, walk]
    exact ⟨rfl, fun r' hr' _ => (Except.ok.inj hr').symm⟩
  | case2 _ _ _ _ ih | case3 _ _ _ _ _ ih =>
    rw [walk, walk]
    simpa using ih h
  | case4 | case6 | case10 | case12 => cases h
  | case5 =>
    cases h
    exact absurd rfl hr
  | case7 _ _ _ _ rest hdot hup hlen here hhere hrest
  | case9 _ _ _ _ rest hdot hup hlen here _ _ _ hhere hrest
  | case11 _ _ _ _ rest hdot hup hlen here _ hhere hrest =>
    rcases hlose _ _ hhere with ⟨h₁, h₂⟩ | ⟨h₁, h₂⟩
    · cases h
      rw [walk_cons _ _ hdot hup hlen, walk_cons _ _ hdot hup hlen, h₁, h₂]
      clear hgone
      simp_all [walkAt, here]
    · exact hgone _ _ _ hdot hup hlen h₁ h₂
  | case8 _ _ _ _ rest hdot hup hlen here hhere hrest ih =>
    rcases hlose _ _ hhere with ⟨h₁, h₂⟩ | ⟨h₁, h₂⟩
    · rw [walk_cons _ _ hdot hup hlen, walk_cons _ _ hdot hup hlen, h₁, h₂]
      simpa [walkAt, hrest] using ih h
    · exact hgone _ _ _ hdot hup hlen h₁ h₂
  | case13 _ _ _ rest hdot hup hlen here target hhere hrest links ih =>
    rcases hlose _ _ hhere with ⟨h₁, h₂⟩ | ⟨h₁, h₂⟩
    · rw [walk_cons _ _ hdot hup hlen, walk_cons _ _ hdot hup hlen, h₁, h₂]
      simpa [walkAt, hrest] using ih h
    · exact hgone _ _ _ hdot hup hlen h₁ h₂

theorem resolve_lose {final : Final} {r : Resolved} (hlose : LoseAlike d d₁ d₂)
    (hworking : d₁.working = d.working ∧ d₂.working = d.working) (h : d.resolve final p = .ok r)
    (hr : r.node ≠ none) : d₂.resolve final p = d₁.resolve final p ∧
      ∀ r', d₁.resolve final p = .ok r' → r'.node ≠ none → r' = r := by
  rcases resolve_cases p with ⟨e, -, -, he⟩ | hwalk
  · rw [he] at h
    cases h
  · rw [hwalk, mapError_eq_ok] at h
    obtain ⟨hsame, hthere⟩ := walk_lose hlose h hr
    rw [hwalk, hwalk, hworking.1, hworking.2, hsame]
    exact ⟨rfl, fun r' hr' => hthere r' (mapError_eq_ok.mp hr')⟩

/-! ## What is taken away -/

theorem lookup_filter_keys (keep : Location → Bool) (entries : List (Location × Node)) :
    lookup l (entries.filter fun e => keep e.1) = if keep l then lookup l entries else none := by
  induction entries with
  | nil => simp [lookup]
  | cons entry rest ih =>
    obtain ⟨k, n⟩ := entry
    by_cases hk : k = l
    · subst hk
      cases hkeep : keep k <;> simp_all [lookup]
    · cases hkeep : keep k <;> simp_all [lookup]

/-- A directory that is emptied stays, and what was beneath it is gone. -/
theorem find?_eraseUnder (d : Disk) (S l : Location) :
    (d.eraseUnder S).find? l = if S <+: l ∧ l ≠ S then none else d.find? l := by
  -- The root has no entry of its own.
  by_cases hl : l = []
  · subst hl
    have hroot : ¬ (S <+: [] ∧ [] ≠ S) := fun ⟨hS, hne⟩ => hne (List.prefix_nil.mp hS).symm
    rw [if_neg hroot, find?_nil, find?_nil]
  · have hfilter := lookup_filter_keys (l := l) (fun k => !(S.isPrefixOf k && k ≠ S)) d.entries
    rw [find?, find?, if_neg hl, if_neg hl, ← ite_not]
    refine hfilter.trans (if_congr ?_ rfl rfl)
    rw [← List.isPrefixOf_iff_prefix]
    cases S.isPrefixOf l <;> simp

/-- Emptying a directory takes away the same from a disk and from one to which something was added. -/
theorem loseAlike_eraseUnder (hkeeps : ∀ l n, d.find? l = some n → d'.find? l = some n)
    (S : Location) : LoseAlike d (d.eraseUnder S) (d'.eraseUnder S) := by
  intro l n hl
  rw [find?_eraseUnder, find?_eraseUnder, hl, hkeeps l n hl]
  split
  · exact .inr ⟨rfl, rfl⟩
  · exact .inl ⟨rfl, rfl⟩

/-- A place was cleared, with all that was beneath it. -/
def Cleared (d d' : Disk) (S : Location) : Prop :=
  ∀ l, d'.find? l = if S <+: l then none else d.find? l

/-- Entries were taken away, and that is all. -/
def Loses (d d' : Disk) : Prop := ∀ l n, d'.find? l = some n → d.find? l = some n

instance : IsPreorder Disk Loses where
  refl _ _ _ h := h
  trans _ _ _ h h' l n hl := h l n (h' l n hl)

theorem loses_erase (d : Disk) (S : Location) : Loses d (d.erase S) := by
  intro l n hl
  rw [find?_erase] at hl
  split at hl
  · subst l
    rw [find?_nil, hl]
  split at hl
  · cases hl
  · exact hl

theorem loses_eraseUnder (d : Disk) (S : Location) : Loses d (d.eraseUnder S) := by
  intro l n hl
  rw [find?_eraseUnder] at hl
  split at hl
  · cases hl
  · exact hl

/-- Taking away a directory fails, or takes away what is at the path. -/
theorem rmdir_cases (p : Path) (d : Disk) :
    (∃ e, outcome (rmdir p) d = (.error e, d)) ∨
      ∃ r, d.resolve .entry p = .ok r ∧ r.node = some .dir ∧ r.dots = false ∧
        outcome (rmdir p) d = (.ok (), d.erase r.location) := by
  unfold rmdir
  rw [outcome_bind, outcome_find]
  cases hr : d.resolve .entry p with
  | error e => exact .inl ⟨e, rfl⟩
  | ok r =>
    dsimp only
    split
    · exact .inl ⟨_, rfl⟩
    · rename_i hdir
      split
      · exact .inl ⟨_, rfl⟩
      split
      · exact .inl ⟨_, rfl⟩
      rename_i hdots
      rw [outcome_bind_of_ok (outcome_get d)]
      split
      · exact .inl ⟨_, rfl⟩
      · exact .inr ⟨r, rfl, hdir, by simpa using hdots, rfl⟩
    · exact .inl ⟨_, rfl⟩

/-- A directory in which nothing is can be taken away by a path that does not end in dots. -/
theorem outcome_rmdir {r : Resolved} (hr : d.resolve .entry p = .ok r) (hdots : r.dots = false)
    (hdir : r.node = some .dir) (hempty : d.children r.location = []) :
    outcome (rmdir p) d = (.ok (), d.erase r.location) := by
  obtain ⟨hne, -⟩ := node_of_resolve hr hdots
  unfold rmdir
  rw [outcome_bind, outcome_find, hr]
  dsimp only
  rw [hdir]
  dsimp only
  rw [if_neg (by simpa using hne), if_neg (by simp [hdots]), outcome_bind_of_ok (outcome_get d),
    if_neg (by simp [hempty])]
  rfl

theorem rmdir_loses (p : Path) : Leads Loses (rmdir p) := by
  intro d
  rcases rmdir_cases p d with ⟨e, hout⟩ | ⟨r, -, -, -, hout⟩
  · rw [hout]
    exact refl_of Loses d
  · rw [hout]
    exact loses_erase d _

theorem unlink_loses (p : Path) : Leads Loses (unlink p) := by
  intro d
  rcases unlink_cases p d with ⟨e, -, hout⟩ | ⟨r, n, -, -, -, -, hout⟩
  · rw [hout]
    exact refl_of Loses d
  · rw [hout]
    exact loses_erase d _

/-- A removal only takes away. -/
theorem removePath_loses (p : Path) : Leads Loses (removePath p) := by
  refine (Leads.of_quiet .get).bind fun d => ?_
  split
  · refine Leads.about p ((Leads.of_quiet (.find _ _)).bind fun r => ?_)
    split
    · exact .of_quiet (.fail _)
    · exact unlink_loses p
    · exact .of_quiet (.fail _)
    · exact Leads.bind (fun d => loses_eraseUnder d _) fun _ => rmdir_loses p
  · exact (unlink_loses p).about p

/-! ## Removals by paths -/

/-- What is no directory is removed by its name. -/
theorem outcome_removePath_of_not_isDir (hdir : d.isDir p = false) :
    outcome (removePath p) d = outcome (about p (unlink p)) d := by
  unfold removePath
  rw [outcome_bind_of_ok (outcome_get d), if_neg (by simp [hdir])]

/-- A removal that succeeds takes away the entry that the path names, if this leads to no directory. -/
theorem removePath_erases {s : Resolved} (hs : d.resolve .entry p = .ok s)
    (hdir : d.isDir p = false) (h : outcome (removePath p) d = (.ok (), d')) :
    d' = d.erase s.location := by
  rw [outcome_removePath_of_not_isDir hdir, outcome_about_eq_ok] at h
  rcases unlink_cases p d with ⟨e, -, hfailed⟩ | ⟨r, n, hr, -, -, -, herased⟩
  · rw [hfailed] at h
    cases h
  · obtain rfl := Except.ok.inj (hs.symm.trans hr)
    rw [herased] at h
    exact (Prod.mk.inj h).2.symm

/-- A file is removed, and nothing else. -/
theorem outcome_removePath_file (h : Reaches d p S false) {c : ByteArray} {m : Nat}
    {shared : Option Nat} (hfile : d.find? S = some (.file c m shared)) :
    outcome (removePath p) d = (.ok (), d.erase S) := by
  have hdir : d.isDir p = false := by simp [isDir, stat, h .follow, hfile, Node.isDir]
  rw [outcome_removePath_of_not_isDir hdir, outcome_about_eq_ok]
  unfold unlink
  rw [outcome_bind, outcome_find, h .entry, hfile]
  rfl

/-- A directory is removed by emptying it and taking it away then. -/
theorem outcome_removePath_dir {slash : Bool} (h : Reaches d p S slash)
    (hdir : d.find? S = some .dir) :
    outcome (removePath p) d = outcome (about p (rmdir p)) (d.eraseUnder S) := by
  have hisDir : d.isDir p = true := by simp [isDir, stat, h .follow, hdir, Node.isDir]
  unfold removePath
  rw [outcome_bind_of_ok (outcome_get d), if_pos hisDir, outcome_about, outcome_about]
  unfold removeDirAll
  rw [outcome_bind, outcome_find, h .keep, hdir]
  dsimp only
  rw [outcome_bind_of_ok (outcome_modify _ d)]

/-- A removal clears a place that holds a file, or a directory whose path does not lead through what is
    in it. -/
theorem removePath_clears {slash : Bool} (htree : Tree d) (hS : S ≠ []) (h : Reaches d p S slash)
    (hnode : (slash = false ∧ ∃ c m shared, d.find? S = some (.file c m shared)) ∨
      (d.find? S = some .dir ∧ EntryAt (d.eraseUnder S) p S)) :
    ∃ d', outcome (removePath p) d = (.ok (), d') ∧ Cleared d d' S := by
  rcases hnode with ⟨rfl, c, m, shared, hfile⟩ | ⟨hdir, r, hr, rfl, hdots⟩
  · refine ⟨_, outcome_removePath_file h hfile, fun l => ?_⟩
    by_cases hl : S <+: l
    · -- Nothing is beneath a file.
      obtain ⟨j, rfl⟩ := hl
      rw [if_pos (List.prefix_append S j), find?_erase, if_neg (by simp [hS])]
      by_cases hj : j = []
      · rw [if_pos (by simp [hj])]
      · rw [if_neg (by simp [hj]), htree.none_beneath (by simp [hfile]) hj]
    · have hne : l ≠ S := fun hsame => hl (hsame ▸ List.prefix_rfl)
      rw [if_neg hl, find?_erase, if_neg hne]
      split
      · subst l
        exact (find?_nil d).symm
      · rfl
  · -- Once it is emptied, the path still names the directory, and nothing is left in it.
    have hnode : r.node = some .dir := by
      rw [← (node_of_resolve hr hdots).2, find?_eraseUnder, if_neg (by simp), hdir]
    have hempty : (d.eraseUnder r.location).children r.location = [] := by
      refine List.eq_nil_iff_forall_not_mem.mpr fun name hname => ?_
      rw [mem_children_iff, find?_eraseUnder, if_pos ⟨List.prefix_append _ _, by simp⟩] at hname
      cases hname
    have hrmdir := outcome_rmdir hr hdots hnode hempty
    refine ⟨_, (outcome_removePath_dir h hdir).trans (outcome_about_eq_ok.mpr hrmdir), fun l => ?_⟩
    rw [find?_erase, find?_eraseUnder]
    by_cases hl : l = []
    · subst hl
      rw [if_pos rfl, if_neg (by simpa using hS), find?_nil]
    · by_cases hself : l = r.location <;> by_cases hprefix : r.location <+: l <;> simp_all

end GameInstaller.Disk
