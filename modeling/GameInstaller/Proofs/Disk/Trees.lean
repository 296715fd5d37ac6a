import GameInstaller.Proofs.Disk.Places
import GameInstaller.Proofs.Disk.Refilling
import Mathlib.Data.List.Nodup

/-!
# Trees

On a tree each entry is in a directory.  Where there are no links, a path leads to its place.  The tree
stays one when something is put into a directory, or when a file gets another content.

* `keys d`    the locations of the entries
* `Tree`      a tree of directories, files and links
* `PlainTree` a tree of directories and files

## Key results

- `Tree.of_entries`, `PlainTree.of_entries`: a tree is told by its entries
- `Tree.resolve_ok`: a path leads into a directory
- `PlainTree.resolve_ok`: without links, it leads to its place
- `Tree.set`, `Tree.setContent`: the tree stays one
-/

namespace GameInstaller.Disk

variable {w l cur : Location} {p q : Path} {d d' d₁ d₂ : Disk}

/-! ## Trees -/

/-- The locations of the entries, oldest first. -/
def keys (d : Disk) : List Location := d.entries.map Prod.fst

/-- A tree of directories, files and links: no two entries are at one location, their names lead one
    step down, and each is in a directory, and so is the one that relative paths start from. -/
structure Tree (d : Disk) : Prop where
  distinct : d.keys.Nodup
  proper : ∀ l ∈ d.keys, l ≠ [] ∧ Proper l
  parents : ∀ l n, d.find? l = some n → d.find? l.dropLast = some .dir
  working : d.find? d.working = some .dir

/-- A tree of directories and files, without links: no two entries are at one location, their names
    lead one step down, and each is in a directory, as is the one that relative paths start from. -/
structure PlainTree (d : Disk) : Prop where
  distinct : d.keys.Nodup
  proper : ∀ l ∈ d.keys, l ≠ [] ∧ Proper l
  parents : ∀ l n, d.find? l = some n → d.find? l.dropLast = some .dir
  working : d.find? d.working = some .dir
  links : ∀ l target, d.find? l ≠ some (.link target)

theorem isSome_lookup_iff {entries : List (Location × Node)} :
    (lookup l entries).isSome ↔ l ∈ entries.map Prod.fst := by
  constructor
  · intro hsome
    obtain ⟨n, hn⟩ := Option.isSome_iff_exists.mp hsome
    exact List.mem_map.mpr ⟨_, mem_of_lookup hn, rfl⟩
  · intro hmem
    obtain ⟨⟨k, n⟩, hentry, rfl⟩ := List.mem_map.mp hmem
    exact lookup_isSome_of_mem hentry

theorem isSome_find?_iff : (d.find? l).isSome ↔ l = [] ∨ l ∈ d.keys := by
  by_cases hl : l = []
  · simp [hl]
  · rw [find?, if_neg hl, isSome_lookup_iff, or_iff_right hl]
    rfl

theorem not_mem_keys (h : d.find? l = none) : l ∉ d.keys := by
  intro hmem
  have hsome := isSome_find?_iff.mpr (.inr hmem)
  rw [h] at hsome
  cases hsome

theorem keys_set (hl : l ≠ []) (h : d.find? l = none) (n : Node) :
    (d.set l n).keys = d.keys ++ [l] := by
  have hput (entries : List (Location × Node)) (h : lookup l entries = none) :
      put l n entries = entries ++ [(l, n)] := by
    induction entries with
    | nil => rfl
    | cons entry rest ih =>
      obtain ⟨k, m⟩ := entry
      rw [lookup] at h
      split at h
      · cases h
      · rename_i hk
        rw [put, if_neg hk, ih h]
        rfl
  rw [find?, if_neg hl] at h
  rw [keys, set, hput _ h, List.map_append]
  rfl

theorem children_eq (d : Disk) (l : Location) : d.children l = d.keys.filterMap (nameIn l) := by
  rw [keys, List.filterMap_map]
  rfl

/-- Locations that differ have different names in a directory. -/
theorem nodup_names {ks : List Location} (h : ks.Nodup) (l : Location) :
    (ks.filterMap (nameIn l)).Nodup := by
  refine h.filterMap fun k k' name hk hk' => ?_
  rw [nameIn_eq_some_iff.mp hk, nameIn_eq_some_iff.mp hk']

theorem keys_outline (d : Disk) : d.outline.keys = d.keys := by
  simp [keys, outline, Function.comp_def]

theorem keys_setContent (hl : l ≠ []) {c : ByteArray} {m : Nat} {shared : Option Nat}
    (hfile : d.find? l = some (.file c m shared)) (content : ByteArray) (mode : Nat) :
    (d.setContent l content mode shared).keys = d.keys := by
  rw [← keys_outline, outline_setContent d hl hfile, keys_outline]

namespace Tree

/-- A tree is told by its entries. -/
theorem of_entries (hdistinct : d.keys.Nodup)
    (hall : ∀ e ∈ d.entries, e.1 ≠ [] ∧ Proper e.1 ∧ d.find? e.1.dropLast = some .dir)
    (hworking : d.find? d.working = some .dir) : Tree d where
  distinct := hdistinct
  proper l hl := by
    obtain ⟨e, he, rfl⟩ := List.mem_map.mp hl
    exact ⟨(hall e he).1, (hall e he).2.1⟩
  parents l n hl := by
    rcases isSome_find?_iff.mp (Option.isSome_of_eq_some hl) with rfl | hmem
    · exact find?_nil d
    · obtain ⟨e, he, rfl⟩ := List.mem_map.mp hmem
      exact (hall e he).2.2
  working := hworking

theorem proper_of_some (h : Tree d) {n : Node} (hl : d.find? l = some n) : Proper l := by
  rcases isSome_find?_iff.mp (Option.isSome_of_eq_some hl) with rfl | hmem
  · exact fun _ hmem => absurd hmem List.not_mem_nil
  · exact (h.proper l hmem).2

theorem proper_of_mem_children (h : Tree d) {name : String} (hname : name ∈ d.children l) :
    Path.IsProper name := by
  obtain ⟨n, hn⟩ := Option.isSome_iff_exists.mp (mem_children_iff.mp hname)
  exact h.proper_of_some hn name (by simp)

/-- No name is listed twice. -/
theorem nodup_children (h : Tree d) (l : Location) : (d.children l).Nodup := by
  rw [children_eq]
  exact nodup_names h.distinct l

/-- What is in front of an entry is a directory. -/
theorem front (h : Tree d) {k : Location} {n : Node} (hk : k ≠ [])
    (hl : d.find? (l ++ k) = some n) : d.find? l = some .dir := by
  induction k using List.reverseRecOn generalizing n with
  | nil => exact absurd rfl hk
  | append_singleton k name ih =>
    have hparent := h.parents _ _ hl
    rw [← List.append_assoc, List.dropLast_concat] at hparent
    by_cases hnil : k = []
    · rwa [hnil, List.append_nil] at hparent
    · exact ih hnil hparent

theorem isSome_front (h : Tree d) {k : Location} (hl : (d.find? (l ++ k)).isSome) :
    (d.find? l).isSome := by
  by_cases hk : k = []
  · rwa [hk, List.append_nil] at hl
  · obtain ⟨n, hn⟩ := Option.isSome_iff_exists.mp hl
    exact Option.isSome_of_eq_some (h.front hk hn)

/-- Nothing is where nothing is in front. -/
theorem none_of_front (h : Tree d) (hl : d.find? l = none) (k : Location) :
    d.find? (l ++ k) = none := by
  by_contra hsome
  have hthere := h.isSome_front (Option.isSome_iff_ne_none.mpr hsome)
  rw [hl] at hthere
  cases hthere

/-- A walk leads into a directory. -/
theorem walk_ok (h : Tree d) {final : Final} {links : Nat} {slash : Bool} {names : List String}
    {r : Resolved} (hcur : d.find? cur = some .dir)
    (hr : walk d final links cur slash names = .ok r) :
    d.find? r.location = r.node ∧ d.find? r.location.dropLast = some .dir := by
  fun_induction walk d final links cur slash names with
  | case1 =>
    cases hr
    exact ⟨hcur, h.parents _ _ hcur⟩
  | case2 _ _ _ _ ih => exact ih hcur hr
  | case3 _ _ _ _ _ ih => exact ih (h.parents _ _ hcur) hr
  | case4 | case6 | case10 | case12 => cases hr
  | case5 _ _ _ _ _ _ _ _ here hhere | case7 _ _ _ _ _ _ _ _ here hhere
  | case9 _ _ _ _ _ _ _ _ here _ _ _ hhere | case11 _ _ _ _ _ _ _ _ here _ hhere =>
    cases hr
    exact ⟨hhere, by rwa [List.dropLast_concat]⟩
  | case8 _ _ _ _ _ _ _ _ here hhere _ ih => exact ih hhere hr
  | case13 _ _ _ _ _ _ _ _ target _ _ _ ih =>
    refine ih ?_ hr
    split
    · exact find?_nil d
    · exact hcur

/-- A walk comes to a place whose names lead one step down. -/
theorem walk_proper {final : Final} {links : Nat} {slash : Bool} {names : List String} {r : Resolved}
    (hcur : Proper cur) (hnames : ∀ name ∈ names, name ≠ "." → Path.IsName name)
    (hr : walk d final links cur slash names = .ok r) : Proper r.location := by
  fun_induction walk d final links cur slash names with
  | case1 =>
    cases hr
    exact hcur
  | case2 _ _ _ _ ih => exact ih hcur (List.forall_mem_cons.mp hnames).2 hr
  | case3 _ _ _ _ _ ih =>
    exact ih hcur.dropLast (List.forall_mem_cons.mp hnames).2 hr
  | case4 | case6 | case10 | case12 => cases hr
  | case5 _ _ _ _ _ hdot hup | case7 _ _ _ _ _ hdot hup | case9 _ _ _ _ _ hdot hup
  | case11 _ _ _ _ _ hdot hup =>
    cases hr
    exact hcur.concat ((List.forall_mem_cons.mp hnames).1 hdot) hup
  | case8 _ _ _ _ _ hdot hup _ here _ _ ih =>
    obtain ⟨hname, hrest⟩ := List.forall_mem_cons.mp hnames
    exact ih (hcur.concat (hname hdot) hup) hrest hr
  | case13 _ _ _ _ _ _ _ _ target _ _ _ ih =>
    refine ih ?_ (fun name hmem => ?_) hr
    · split
      · exact fun _ hmem => absurd hmem List.not_mem_nil
      · exact hcur
    · -- The names of the link's target come first.
      rcases List.mem_append.mp hmem with hmem | hmem
      · exact isName_of_mem_segments hmem
      · exact (List.forall_mem_cons.mp hnames).2 name hmem

theorem resolve_proper (h : Tree d) {final : Final} {r : Resolved} (hr : d.resolve final p = .ok r) :
    Proper r.location := by
  rcases resolve_cases p with ⟨e, -, -, he⟩ | hwalk
  · rw [he] at hr
    cases hr
  · rw [hwalk, mapError_eq_ok] at hr
    refine walk_proper ?_ (fun name hname => isName_of_mem_segments hname) hr
    split
    · exact fun _ hmem => absurd hmem List.not_mem_nil
    · exact h.proper_of_some h.working

theorem find?_origin (h : Tree d) (p : Path) : d.find? (origin d.working p) = some .dir := by
  unfold origin
  split
  · exact find?_nil d
  · exact h.working

/-- A path leads into a directory. -/
theorem resolve_ok (h : Tree d) {final : Final} {r : Resolved} (hr : d.resolve final p = .ok r) :
    d.find? r.location = r.node ∧ d.find? r.location.dropLast = some .dir := by
  rcases resolve_cases p with ⟨e, -, -, he⟩ | hwalk
  · rw [he] at hr
    cases hr
  · rw [hwalk, mapError_eq_ok] at hr
    exact h.walk_ok (h.find?_origin p) hr

/-- Something may be put into a directory under a free name. -/
theorem set (h : Tree d) (hproper : Proper l) (hnone : d.find? l = none)
    (hparent : d.find? l.dropLast = some .dir) (n : Node) : Tree (d.set l n) := by
  have hl : l ≠ [] := by
    rintro rfl
    rw [find?_nil] at hnone
    cases hnone
  have hkeys := keys_set hl hnone n
  exact {
    distinct := by
      rw [hkeys, List.nodup_append]
      refine ⟨h.distinct, List.nodup_singleton l, fun k hk k' hk' => ?_⟩
      rw [List.mem_singleton.mp hk']
      rintro rfl
      exact not_mem_keys hnone hk
    proper := fun k hk => by
      rw [hkeys, List.mem_append] at hk
      rcases hk with hk | hk
      · exact h.proper k hk
      · rw [List.mem_singleton.mp hk]
        exact ⟨hl, hproper⟩
    parents := fun k m hk => by
      rw [find?_set] at hk
      split at hk
      · subst k
        exact find?_nil _
      split at hk
      · subst k
        exact find?_set_of_some hnone hparent n
      · exact find?_set_of_some hnone (h.parents k m hk) n
    working := find?_set_of_some hnone h.working n }

/-- A file may get another content. -/
theorem setContent (h : Tree d) (hl : l ≠ []) {c : ByteArray} {m : Nat} {shared : Option Nat}
    (hfile : d.find? l = some (.file c m shared)) (content : ByteArray) (mode : Nat) :
    Tree (d.setContent l content mode shared) := by
  have hkeys := keys_setContent hl hfile content mode
  have houtline := outline_setContent d hl hfile content mode
  have hdir (k : Location) : (d.setContent l content mode shared).find? k = some .dir ↔
      d.find? k = some .dir := by
    rw [find?_eq_dir_iff_outline, houtline, ← find?_eq_dir_iff_outline]
  have hworking : (d.setContent l content mode shared).working = d.working := by
    cases shared <;> rfl
  exact {
    distinct := by rw [hkeys]; exact h.distinct
    proper := by rw [hkeys]; exact h.proper
    parents := fun k n hk => by
      have hsome := isSome_find?_iff.mp (Option.isSome_of_eq_some hk)
      rw [hkeys, ← isSome_find?_iff] at hsome
      obtain ⟨n', hn'⟩ := Option.isSome_iff_exists.mp hsome
      exact (hdir _).mpr (h.parents k n' hn')
    working := by
      rw [hworking, hdir]
      exact h.working }

end Tree

namespace PlainTree

theorem tree (h : PlainTree d) : Tree d := ⟨h.distinct, h.proper, h.parents, h.working⟩

theorem of_tree (h : Tree d) (hlinks : ∀ l target, d.find? l ≠ some (.link target)) : PlainTree d :=
  ⟨h.distinct, h.proper, h.parents, h.working, hlinks⟩

/-- A tree without links is told by its entries. -/
theorem of_entries (hdistinct : d.keys.Nodup)
    (hall : ∀ e ∈ d.entries, e.1 ≠ [] ∧ Proper e.1 ∧ d.find? e.1.dropLast = some .dir ∧
      e.2.isLink = false)
    (hworking : d.find? d.working = some .dir) : PlainTree d := by
  have htree : Tree d := .of_entries hdistinct
    (fun e he => ⟨(hall e he).1, (hall e he).2.1, (hall e he).2.2.1⟩) hworking
  refine .of_tree htree fun l target hl => ?_
  rw [find?] at hl
  split at hl
  · cases hl
  · exact absurd (hall _ (mem_of_lookup hl)).2.2.2 (by simp [Node.isLink])

theorem proper_of_some (h : PlainTree d) {n : Node} (hl : d.find? l = some n) : Proper l :=
  h.tree.proper_of_some hl

theorem proper_of_mem_children (h : PlainTree d) {name : String} (hname : name ∈ d.children l) :
    Path.IsProper name := h.tree.proper_of_mem_children hname

theorem front (h : PlainTree d) {k : Location} {n : Node} (hk : k ≠ [])
    (hl : d.find? (l ++ k) = some n) : d.find? l = some .dir := h.tree.front hk hl

theorem isSome_front (h : PlainTree d) {k : Location} (hl : (d.find? (l ++ k)).isSome) :
    (d.find? l).isSome := h.tree.isSome_front hl

theorem find?_origin (h : PlainTree d) (p : Path) :
    d.find? (origin d.working p) = some .dir := h.tree.find?_origin p

/-- A walk leads to its place. -/
theorem walk_location (h : PlainTree d) {final : Final} {links : Nat} {slash : Bool}
    {names : List String} {r : Resolved} (hr : walk d final links cur slash names = .ok r) :
    r.location = placeFrom cur names := by
  -- The induction is that of the walk; the cases of links do not come up.
  fun_induction walk d final links cur slash names with
  | case1 =>
    cases hr
    rfl
  | case2 _ _ _ _ ih => exact ih hr
  | case3 _ _ _ _ _ ih =>
    rw [placeFrom_cons, stepTo_up]
    exact ih hr
  | case4 | case6 | case10 | case12 => cases hr
  | case5 _ cur _ name rest hdot hup _ here hhere hrest
  | case7 _ cur _ name rest hdot hup _ here hhere hrest
  | case9 _ cur _ name rest hdot hup _ here _ _ _ hhere hrest =>
    cases hr
    obtain rfl : rest = [] := by simp_all
    rw [placeFrom_cons, placeFrom_nil, stepTo_of_ne hdot hup]
  | case8 _ _ _ _ _ hdot hup _ here hhere hrest ih =>
    rw [placeFrom_cons, stepTo_of_ne hdot hup]
    exact ih hr
  | case11 _ _ _ _ _ _ _ _ here target hhere => exact absurd hhere (h.links _ _)
  | case13 _ _ _ _ _ _ _ here target hhere => exact absurd hhere (h.links _ _)

/-- A path leads to its place. -/
theorem resolve_ok (h : PlainTree d) {final : Final} {r : Resolved}
    (hr : d.resolve final p = .ok r) :
    r.location = place d.working p ∧ d.find? r.location = r.node ∧
      d.find? r.location.dropLast = some .dir := by
  refine ⟨?_, h.tree.resolve_ok hr⟩
  rcases resolve_cases p with ⟨e, -, -, he⟩ | hwalk
  · rw [he] at hr
    cases hr
  · rw [hwalk, mapError_eq_ok] at hr
    exact h.walk_location hr

theorem place_of_fileAt (h : PlainTree d) (hp : FileAt d p l) : l = place d.working p := by
  obtain ⟨r, _, _, _, hr, rfl, -⟩ := hp
  exact (h.resolve_ok hr).1

theorem not_dir_of_fileAt (h : PlainTree d) (hp : FileAt d p l) :
    d.find? (place d.working p) ≠ some .dir := by
  obtain ⟨-, c, m, shared, hfile⟩ := hp.find?
  rw [← h.place_of_fileAt hp, hfile]
  nofun

theorem dirAt (h : PlainTree d) (hdir : d.isDir p = true) : DirAt d p (place d.working p) := by
  obtain ⟨l, r, hr, rfl, hn⟩ := isDir_iff.mp hdir
  exact ⟨r, hr, (h.resolve_ok hr).1, hn⟩

theorem find?_of_dirAt (h : PlainTree d) (hdir : DirAt d p l) : d.find? l = some .dir := by
  obtain ⟨r, hr, rfl, hn⟩ := hdir
  rw [(h.resolve_ok hr).2.1, hn]

theorem find?_of_isDir (h : PlainTree d) (hdir : d.isDir p = true) :
    d.find? (place d.working p) = some .dir := h.find?_of_dirAt (h.dirAt hdir)

/-- Something may be put into a directory under a free name. -/
theorem set (h : PlainTree d) (hproper : Proper l) (hnone : d.find? l = none)
    (hparent : d.find? l.dropLast = some .dir) {n : Node} (hn : ∀ target, n ≠ .link target) :
    PlainTree (d.set l n) := by
  refine .of_tree (h.tree.set hproper hnone hparent n) fun k target hk => ?_
  rw [find?_set] at hk
  split at hk
  · cases hk
  split at hk
  · exact hn target (Option.some.inj hk)
  · exact h.links k target hk

/-- A file may get another content. -/
theorem setContent (h : PlainTree d) (hl : l ≠ []) {c : ByteArray} {m : Nat} {shared : Option Nat}
    (hfile : d.find? l = some (.file c m shared)) (content : ByteArray) (mode : Nat) :
    PlainTree (d.setContent l content mode shared) := by
  refine .of_tree (h.tree.setContent hl hfile content mode) fun k target hk => ?_
  rw [← find?_outline_eq_link, outline_setContent d hl hfile content mode,
    find?_outline_eq_link] at hk
  exact h.links k target hk

end PlainTree

end GameInstaller.Disk
