import GameInstaller.Proofs.Disk.Trees

/-!
# What a renaming changes

A renaming gives everything at a place and beneath it another place, where nothing or an entry with
nothing beneath it was, and changes nothing else.

* `EntryAt`  the place of the entry that a path names; a link is itself the entry
* `Reaches`  a path leads to the entry at a place
* `Renamed`  what a renaming that succeeds did

## Key results

- `find?_relocate_inside`, `find?_relocate_outside`: what another place changes
- `rename_put`, `rename_ok`: the ways in which a renaming succeeds
-/

namespace GameInstaller.Disk

variable {d d' : Disk} {p src dst : Path} {k l S T : Location}

/-! ## Another place for a tree -/

section Entries

variable {entries : List (Location × Node)}

/-- An entry of which everything at a place and beneath it has another place. -/
def moved (S T : Location) (e : Location × Node) : Location × Node :=
  if S.isPrefixOf e.1 then (T ++ e.1.drop S.length, e.2) else e

theorem relocate_entries (d : Disk) (S T : Location) :
    (d.relocate S T).entries = d.entries.map (moved S T) := rfl

theorem moved_inside (T j : Location) (n : Node) : moved S T (S ++ j, n) = (T ++ j, n) := by
  simp [moved]

theorem moved_outside (hk : ¬ S <+: k) (T : Location) (n : Node) : moved S T (k, n) = (k, n) := by
  simp [moved, hk]

theorem lookup_moved_inside (hfree : ∀ e ∈ entries, ¬ T <+: e.1) (j : Location) :
    lookup (T ++ j) (entries.map (moved S T)) = lookup (S ++ j) entries := by
  induction entries with
  | nil => rfl
  | cons entry rest ih =>
    obtain ⟨k, n⟩ := entry
    obtain ⟨hk, hrest⟩ := List.forall_mem_cons.mp hfree
    rw [List.map_cons]
    by_cases hS : S <+: k
    · obtain ⟨i, rfl⟩ := hS
      simp [moved_inside, lookup, ih hrest]
    · have hne : k ≠ S ++ j := fun hsame => hS (hsame ▸ List.prefix_append S j)
      have hne' : k ≠ T ++ j := fun hsame => hk (hsame ▸ List.prefix_append T j)
      simp [moved_outside hS, lookup, hne, hne', ih hrest]

theorem lookup_moved_outside (hT : ¬ T <+: l) :
    lookup l (entries.map (moved S T)) = if S <+: l then none else lookup l entries := by
  induction entries with
  | nil => simp [lookup]
  | cons entry rest ih =>
    obtain ⟨k, n⟩ := entry
    rw [List.map_cons]
    by_cases hS : S <+: k
    · obtain ⟨i, rfl⟩ := hS
      have hne : T ++ i ≠ l := fun hsame => hT (hsame ▸ List.prefix_append T i)
      rw [moved_inside, lookup, if_neg hne, ih]
      by_cases hl : S <+: l
      · rw [if_pos hl, if_pos hl]
      · have hne' : S ++ i ≠ l := fun hsame => hl (hsame ▸ List.prefix_append S i)
        rw [if_neg hl, if_neg hl, lookup, if_neg hne']
    · rw [moved_outside hS, lookup, lookup, ih]
      by_cases hkl : k = l
      · subst hkl
        simp [hS]
      · simp [hkl]

end Entries

/-- What was at a place and beneath it is at the other place, if nothing was there. -/
theorem find?_relocate_inside (hS : S ≠ []) (hT : T ≠ []) (hfree : ∀ j, d.find? (T ++ j) = none)
    (j : Location) : (d.relocate S T).find? (T ++ j) = d.find? (S ++ j) := by
  have hentries : ∀ e ∈ d.entries, ¬ T <+: e.1 := by
    rintro ⟨k, n⟩ hmem ⟨i, rfl⟩
    exact not_mem_of_find? (by simp [hT]) (hfree i) n hmem
  rw [find?, find?, if_neg (by simp [hT]), if_neg (by simp [hS]), relocate_entries,
    lookup_moved_inside hentries]

/-- Nothing is left at the place that was given up, and all else is as it was. -/
theorem find?_relocate_outside (hS : S ≠ []) (hT : ¬ T <+: l) :
    (d.relocate S T).find? l = if S <+: l then none else d.find? l := by
  by_cases hl : l = []
  · subst hl
    simp [hS]
  · rw [find?, find?, if_neg hl, if_neg hl, relocate_entries, lookup_moved_outside hT]

/-! ## Entries that paths name -/

/-- The entry that a path names is at this place; a link is itself the entry. -/
def EntryAt (d : Disk) (p : Path) (l : Location) : Prop :=
  ∃ r, d.resolve .entry p = .ok r ∧ r.location = l ∧ r.dots = false

theorem EntryAt.ne_nil (h : EntryAt d p l) : l ≠ [] := by
  obtain ⟨r, hr, rfl, hdots⟩ := h
  rcases resolve_node d _ hr with ⟨hdots', -⟩ | ⟨-, hne, -⟩
  · rw [hdots] at hdots'
    cases hdots'
  · exact hne

/-- A path leads to the entry at a place, whatever is to happen to links. -/
def Reaches (d : Disk) (p : Path) (l : Location) (slash : Bool) : Prop :=
  ∀ final, d.resolve final p = .ok ⟨l, d.find? l, slash, false⟩

/-- What is at the place is what the path leads to. -/
theorem node_of_resolve {final : Final} {r : Resolved} (hr : d.resolve final p = .ok r)
    (hdots : r.dots = false) : r.location ≠ [] ∧ d.find? r.location = r.node := by
  rcases resolve_node d _ hr with ⟨hdots', -⟩ | ⟨-, hne, hnode⟩
  · rw [hdots] at hdots'
    cases hdots'
  · exact ⟨hne, hnode.symm⟩

/-- A path that names an entry leads there, if it may end at it. -/
theorem reaches_of_entry {n : Option Node} {slash : Bool}
    (h : d.resolve .entry p = .ok ⟨l, n, slash, false⟩) (hends : Ends .follow slash (d.find? l)) :
    Reaches d p l slash := by
  obtain rfl : d.find? l = n := (node_of_resolve h rfl).2
  refine fun final => resolve_final h ?_
  dsimp only
  match d.find? l, hends with
  | none, _ | some .dir, _ => trivial
  | some (.file ..), hends => exact .inl (hends.resolve_right nofun)
  | some (.link _), hends => exact absurd hends (by simp [Ends])

/-- A path that names a directory leads there, and one that names nothing comes there. -/
theorem EntryAt.reaches (h : EntryAt d p l) (hends : ∀ slash, Ends .follow slash (d.find? l)) :
    ∃ slash, Reaches d p l slash := by
  obtain ⟨⟨_, n, slash, _⟩, hr, rfl, rfl⟩ := h
  exact ⟨slash, reaches_of_entry hr (hends slash)⟩

theorem EntryAt.reaches_dir (h : EntryAt d p l) (hdir : d.find? l = some .dir) :
    ∃ slash, Reaches d p l slash := by
  refine h.reaches fun slash => ?_
  rw [hdir]
  trivial

/-- A path to something leads there on every disk where everything is that was there. -/
theorem Reaches.mono {slash : Bool} (h : Reaches d p l slash) (hthere : (d.find? l).isSome)
    (hkeeps : ∀ l n, d.find? l = some n → d'.find? l = some n) (hworking : d'.working = d.working) :
    Reaches d' p l slash := by
  obtain ⟨n, hn⟩ := Option.isSome_iff_exists.mp hthere
  intro final
  rw [resolve_mono hkeeps hworking (h final) (by simp [hn]), hkeeps l n hn, hn]

/-! ## Renamings that succeed -/

/-- What a renaming that succeeded did: nothing if both names are of one file, and else it gave the
    entry the other place, of which an entry with nothing beneath it was taken away. -/
structure Renamed (d d' : Disk) (src dst : Path) (S T : Location) : Prop where
  source : EntryAt d src S
  target : EntryAt d dst T
  there : (d.find? S).isSome
  /-- No slash is behind the names if what is renamed is no directory. -/
  unslashed : d.find? S ≠ some .dir → (∃ n, d.resolve .entry src = .ok ⟨S, n, false, false⟩) ∧
    ∃ n, d.resolve .entry dst = .ok ⟨T, n, false, false⟩
  /-- Nor is one behind the name of a file in the place of which it is put. -/
  file : ∀ c m shared, d.find? T = some (.file c m shared) → FileAt d dst T
  result : (OneFile d S T ∧ d' = d) ∨
    (¬ OneFile d S T ∧ Apart S T ∧ (d.find? T = some .dir → d.children T = []) ∧
      d' = (d.erase T).relocate S T)

theorem sameFile_iff {n m : Node} (hk : d.find? k = some n) (hl : d.find? l = some m) (hne : k ≠ l) :
    sameFile n m = true ↔ OneFile d k l := by
  constructor
  · intro h
    unfold sameFile at h
    split at h
    · obtain rfl := of_decide_eq_true h
      exact .inr ⟨_, _, _, _, _, hk, hl⟩
    · cases h
  · rintro (hsame | ⟨c, mode, c', mode', id, hk', hl'⟩)
    · exact absurd hsame hne
    · obtain rfl := Option.some.inj (hk.symm.trans hk')
      obtain rfl := Option.some.inj (hl.symm.trans hl')
      simp [sameFile]

/-- What comes after a check that was passed. -/
theorem outcome_check_eq_ok {α : Type} {c : Prop} [Decidable c] {e : Errno} {x : Io α} {a : α}
    (h : outcome (if c then fail e else x) d = (.ok a, d')) :
    ¬ c ∧ outcome x d = (.ok a, d') := by
  split at h
  · cases h
  · exact ⟨‹_›, h⟩

/-- The ways in which a node is put from one place to another one, where there may be a node. -/
inductive Put (d : Disk) (n : Node) (S T : Location) : Option Node → Disk → Prop
  | self {m : Option Node} (hsame : S = T) : Put d n S T m d
  | free (hne : S ≠ T) (hapart : Apart S T) : Put d n S T none (d.relocate S T)
  | linked {m : Node} (hne : S ≠ T) (hone : sameFile n m = true) : Put d n S T (some m) d
  | replaced {m : Node} (hne : S ≠ T) (hapart : Apart S T) (hone : ¬ sameFile n m = true)
      (hkind : m.isDir = n.isDir) (hempty : m.isDir = true → d.children T = []) :
      Put d n S T (some m) ((d.erase T).relocate S T)

/-- A renaming that succeeds puts a node from the place that the one path names to the place that the
    other path names. -/
theorem rename_put (h : outcome (rename src dst) d = (.ok (), d')) : ∃ s t n,
    d.resolve .entry src = .ok s ∧ d.resolve .entry dst = .ok t ∧
      (s.dots = false ∧ t.dots = false) ∧ s.node = some n ∧
        (n.isDir = false → s.slash = false ∧ t.slash = false) ∧
          Put d n s.location t.location t.node d' := by
  unfold rename at h
  rw [outcome_bind_of_ok (outcome_get d)] at h
  split at h
  · cases h
  dsimp only at h
  obtain ⟨s, _, hs, h⟩ := outcome_bind_eq_ok.mp h
  obtain ⟨t, _, ht, h⟩ := outcome_bind_eq_ok.mp h
  rw [outcome_find] at hs ht
  obtain ⟨hs', rfl⟩ := Prod.mk.inj hs
  obtain ⟨ht', rfl⟩ := Prod.mk.inj ht
  by_cases hdots : (s.dots || t.dots) = true
  · rw [if_pos hdots] at h
    cases h
  rw [if_neg hdots] at h
  cases hn : s.node with
  | none =>
    rw [hn] at h
    cases h
  | some n =>
    rw [hn] at h
    dsimp only at h
    obtain ⟨hslash, h⟩ := outcome_check_eq_ok h
    obtain ⟨hinto, h⟩ := outcome_check_eq_ok h
    obtain ⟨hout, h⟩ := outcome_check_eq_ok h
    refine ⟨s, t, n, hs', ht', by simpa using hdots, hn, fun hdir => by simpa [hdir] using hslash, ?_⟩
    by_cases hsame : s.location = t.location
    · rw [if_pos hsame] at h
      cases h
      exact .self hsame
    rw [if_neg hsame] at h
    have hapart : Apart s.location t.location :=
      ⟨by simpa [hsame] using hinto, by simpa [hsame] using hout⟩
    cases hm : t.node with
    | none =>
      rw [hm] at h
      cases h
      exact .free hsame hapart
    | some m =>
      rw [hm] at h
      dsimp only at h
      by_cases hone : sameFile n m = true
      · rw [if_pos hone] at h
        cases h
        exact .linked hsame hone
      · rw [if_neg hone] at h
        obtain ⟨hdir, h⟩ := outcome_check_eq_ok h
        obtain ⟨hdir', h⟩ := outcome_check_eq_ok h
        rw [outcome_bind_of_ok (outcome_get d)] at h
        obtain ⟨hempty, h⟩ := outcome_check_eq_ok h
        cases h
        have hkind : m.isDir = n.isDir := by
          revert hdir hdir'
          cases n.isDir <;> cases m.isDir <;> simp
        exact .replaced hsame hapart hone hkind fun hmd => by simpa [hmd] using hempty

section Put

variable {n : Node} {m : Option Node}

/-- Only what is no directory is put where a file is. -/
theorem Put.isDir_of_file (h : Put d n S T m d') (hS : d.find? S = some n) (hT : d.find? T = m)
    {c : ByteArray} {mode : Nat} {shared : Option Nat} (hm : m = some (.file c mode shared)) :
    n.isDir = false := by
  cases h with
  | self hsame =>
    subst hsame
    obtain rfl := Option.some.inj (hS.symm.trans (hT.trans hm))
    rfl
  | free => cases hm
  | linked _ hone =>
    unfold sameFile at hone
    split at hone
    · rfl
    · cases hone
  | replaced _ _ _ hkind =>
    obtain rfl := Option.some.inj hm
    exact hkind.symm

theorem Put.result (h : Put d n S T m d') (hS : d.find? S = some n) (hT : d.find? T = m)
    (hne : T ≠ []) : (OneFile d S T ∧ d' = d) ∨
      (¬ OneFile d S T ∧ Apart S T ∧ (d.find? T = some .dir → d.children T = []) ∧
        d' = (d.erase T).relocate S T) := by
  cases h with
  | self hsame => exact .inl ⟨.inl hsame, rfl⟩
  | free hdiff hapart =>
    -- Where nothing is, nothing is taken away.
    refine .inr ⟨?_, hapart, fun hdir => absurd (hT.symm.trans hdir) nofun, ?_⟩
    · rintro (hone | ⟨_, _, _, _, _, -, hfile⟩)
      · exact hdiff hone
      · cases hT.symm.trans hfile
    · rw [erase_of_none hne hT]
  | linked hdiff hone => exact .inl ⟨(sameFile_iff hS hT hdiff).mp hone, rfl⟩
  | replaced hdiff hapart hone hkind hempty =>
    refine .inr ⟨mt (sameFile_iff hS hT hdiff).mpr hone, hapart, fun hdir => ?_, rfl⟩
    obtain rfl := Option.some.inj (hT.symm.trans hdir)
    exact hempty rfl

end Put

/-- A renaming that succeeds renamed. -/
theorem rename_ok (h : outcome (rename src dst) d = (.ok (), d')) :
    ∃ S T, Renamed d d' src dst S T := by
  obtain ⟨s, t, n, hs, ht, ⟨hsdots, htdots⟩, hn, hslash, hput⟩ := rename_put h
  obtain ⟨S, _, _, _⟩ := s
  obtain ⟨T, m, _, _⟩ := t
  obtain ⟨-, hS⟩ := node_of_resolve hs hsdots
  obtain ⟨hTne, hT⟩ := node_of_resolve ht htdots
  subst hsdots htdots hn
  refine ⟨S, T, {
    source := ⟨_, hs, rfl, rfl⟩
    target := ⟨_, ht, rfl, rfl⟩
    there := Option.isSome_of_eq_some hS
    unslashed := fun hSdir => ?_
    file := fun c mode shared hfile => ?_
    result := hput.result hS hT hTne }⟩
  · have hdir : n.isDir = false := by
      cases n with
      | dir => exact absurd hS hSdir
      | file _ _ _ | link _ => rfl
    obtain ⟨rfl, rfl⟩ := hslash hdir
    exact ⟨⟨_, hs⟩, _, ht⟩
  · -- A file takes the place of files only, and then no slash may stand behind its new name.
    have hm : m = some (.file c mode shared) := hT.symm.trans hfile
    obtain ⟨-, rfl⟩ := hslash (hput.isDir_of_file hS hT hm)
    have hends : Ends .follow false m := by
      rw [hm]
      exact .inl rfl
    exact ⟨_, c, mode, shared, resolve_final ht hends, rfl, hm⟩

/-- Something is given a name that is free, or takes the place of something like it. -/
theorem outcome_rename {s t : Resolved} {n : Node} (hsplit : d.split = false)
    (hs : d.resolve .entry src = .ok s) (ht : d.resolve .entry dst = .ok t)
    (hdots : s.dots = false ∧ t.dots = false) (hn : s.node = some n)
    (hslash : n.isDir = true ∨ (s.slash = false ∧ t.slash = false))
    (hapart : Apart s.location t.location)
    (hplace : ∀ m, t.node = some m → sameFile n m = false ∧ m.isDir = n.isDir ∧
      (m.isDir = true → d.children t.location = [])) :
    outcome (rename src dst) d =
      (.ok (), (d.erase t.location).relocate s.location t.location) := by
  have hne : s.location ≠ t.location := fun hsame => hapart.left (hsame ▸ List.prefix_rfl)
  have hslash' : ¬ (!n.isDir && (s.slash || t.slash)) = true := by
    rcases hslash with hdir | ⟨hs, ht⟩ <;> simp [*]
  unfold rename
  rw [outcome_bind_of_ok (outcome_get d), if_neg (by simp [hsplit]), outcome_bind, outcome_find, hs]
  dsimp only
  rw [outcome_bind, outcome_find, ht]
  dsimp only
  rw [if_neg (by simp [hdots]), hn]
  dsimp only
  rw [if_neg hslash', if_neg (by simp [hapart.left]), if_neg (by simp [hapart.right]), if_neg hne]
  cases hm : t.node with
  | none =>
    obtain ⟨hT, hfind⟩ := node_of_resolve ht hdots.2
    rw [erase_of_none hT (hfind.trans hm)]
    rfl
  | some m =>
    obtain ⟨hsame, hdir, hempty⟩ := hplace m hm
    dsimp only
    rw [if_neg (by simp [hsame]), if_neg (by simp [hdir]), if_neg (by simp [hdir]),
      outcome_bind_of_ok (outcome_get d), if_neg (by simpa using hempty)]
    rfl

namespace Beside

/-- A disk with a directory and a file in it. -/
def disk : Disk := ⟨[(["a"], .dir), (["a", "f"], .file "x".toUTF8 0o644 none)], [], false⟩

theorem tree : Tree disk := .of_entries (by decide) (by decide) rfl

theorem resolve_source (final : Final) :
    disk.resolve final ⟨"/a"⟩ = .ok ⟨["a"], some .dir, false, false⟩ :=
  resolve_root_name (by decide) (by decide) trivial

theorem resolve_target (final : Final) :
    disk.resolve final ⟨"/b"⟩ = .ok ⟨["b"], none, false, false⟩ :=
  resolve_root_name (by decide) (by decide) trivial

/-- The directory is given a name beside it. -/
theorem outcome_rename : outcome (rename ⟨"/a"⟩ ⟨"/b"⟩) disk =
    (.ok (), (disk.erase ["b"]).relocate ["a"] ["b"]) :=
  Disk.outcome_rename rfl (resolve_source .entry) (resolve_target .entry) ⟨rfl, rfl⟩ rfl (.inl rfl)
    ⟨by decide, by decide⟩ nofun

end Beside

/-- Nothing is beneath what is no directory, or one without names. -/
theorem Tree.none_beneath (h : Tree d) (hempty : d.find? T = some .dir → d.children T = [])
    {j : Location} (hj : j ≠ []) : d.find? (T ++ j) = none := by
  by_contra hsome
  obtain ⟨name, rest, rfl⟩ := List.exists_cons_of_ne_nil hj
  obtain ⟨n, hn⟩ := Option.ne_none_iff_exists'.mp hsome
  rw [List.append_cons] at hsome
  have hname := mem_children_iff.mpr (h.isSome_front (Option.isSome_iff_ne_none.mpr hsome))
  rw [hempty (h.front hj hn)] at hname
  cases hname

/-- What a renaming changed. -/
structure Relocated (d d' : Disk) (S T : Location) : Prop where
  arrived : ∀ j, d'.find? (T ++ j) = d.find? (S ++ j)
  gone : ∀ j, d'.find? (S ++ j) = none
  others : ∀ l, ¬ S <+: l → ¬ T <+: l → d'.find? l = d.find? l

/-- On a tree, a renaming does nothing to names of one file, and moves anything else with all that is
    beneath it. -/
theorem Renamed.cases (h : Renamed d d' src dst S T) (htree : Tree d) :
    (OneFile d S T ∧ d' = d) ∨
      (¬ OneFile d S T ∧ (∀ j ≠ [], d.find? (T ++ j) = none) ∧ Relocated d d' S T) := by
  refine h.result.imp_right fun ⟨hone, hapart, hempty, hd⟩ => ⟨hone, ?_⟩
  have hS := h.source.ne_nil
  have hT := h.target.ne_nil
  have hbeneath (j : Location) (hj : j ≠ []) := htree.none_beneath hempty hj
  -- What is at the target is taken away first.
  have herase {l : Location} (hl : l ≠ T) : (d.erase T).find? l = d.find? l := by
    rw [find?_erase, if_neg hl]
    split
    · rename_i hnil
      rw [hnil, find?_nil]
    · rfl
  have hfree (j : Location) : (d.erase T).find? (T ++ j) = none := by
    by_cases hj : j = []
    · rw [hj, List.append_nil, find?_erase, if_neg hT, if_pos rfl]
    · rw [herase (by simp [hj]), hbeneath j hj]
  refine ⟨hbeneath, ?_⟩
  rw [hd]
  exact {
    arrived := fun j => by
      rw [find?_relocate_inside hS hT hfree, herase]
      exact fun hsame => hapart.left (hsame ▸ List.prefix_append S j)
    gone := fun j => by
      rw [find?_relocate_outside hS (hapart.symm.outside j), if_pos (List.prefix_append S j)]
    others := fun l hl hl' => by
      rw [find?_relocate_outside hS hl', if_neg hl, herase]
      rintro rfl
      exact hl' List.prefix_rfl }

end GameInstaller.Disk
