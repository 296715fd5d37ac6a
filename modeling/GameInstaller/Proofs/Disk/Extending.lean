import GameInstaller.Proofs.Disk.Resolve
import GameInstaller.Proofs.Path
import Mathlib.Data.List.Induction

/-!
# Disks that are added to

When entries are added to a disk, and contents of files changed, paths that led to something lead
there still.

* `Extends`   everything is where it was, up to the contents of files
* `FileAt`    where the file is that a path leads to

## Key results

- `walk_mono`: a walk that leads to something leads there on a disk where all is that it met
- `resolve_congr`: where paths lead depends on what is where
- `Extends.fileAt`: paths lead to files still
- `resolve_of_child`: the way to a name goes through the directory that it is in
-/

namespace GameInstaller.Disk

/-- What is there is still there when a node is put where nothing was. -/
theorem find?_set_of_some {d : Disk} {l k : Location} {m : Node} (hl : d.find? l = none)
    (hk : d.find? k = some m) (n : Node) : (d.set l n).find? k = some m := by
  have hne : k ≠ l := by
    rintro rfl
    rw [hl] at hk
    cases hk
  rwa [find?_set_of_ne _ hne]

/-! ## Walks on extended disks -/

/-- Everything is where it was; files may have another content. -/
structure Extends (d d' : Disk) : Prop where
  working : d'.working = d.working
  keeps : ∀ l n, d.outline.find? l = some n → d'.outline.find? l = some n

namespace Extends

variable {d d₁ d₂ : Disk}

theorem refl : Extends d d := ⟨rfl, fun _ _ h => h⟩

theorem trans (h : Extends d d₁) (h' : Extends d₁ d₂) : Extends d d₂ :=
  ⟨h'.working.trans h.working, fun l n hn => h'.keeps l n (h.keeps l n hn)⟩

theorem of_outline (h : d₁.outline = d.outline) : Extends d d₁ where
  working := by rw [← outline_working, h, outline_working]
  keeps l n hn := by rwa [h]

theorem of_find? (hworking : d₁.working = d.working)
    (hkeeps : ∀ l n, d.find? l = some n → d₁.find? l = some n) : Extends d d₁ where
  working := hworking
  keeps l n hn := by
    rw [find?_outline] at hn ⊢
    obtain ⟨m, hm, rfl⟩ := Option.map_eq_some_iff.mp hn
    rw [hkeeps l m hm, Option.map_some]

/-- A node may be put where nothing is. -/
theorem set {l : Location} (hl : d.find? l = none) (n : Node) : Extends d (d.set l n) :=
  .of_find? rfl fun _ _ hk => find?_set_of_some hl hk n

end Extends

/-- A walk that leads to something leads there on every disk where everything is that it met. -/
theorem walk_mono {d d' : Disk} {final : Final} {links : Nat} {cur : Location} {slash : Bool}
    {names : List String} {r : Resolved} (hsub : ∀ l n, d.find? l = some n → d'.find? l = some n)
    (h : walk d final links cur slash names = .ok r) (hr : r.node ≠ none) :
    walk d' final links cur slash names = .ok r := by
  -- The cases are those of `walk`; in all that go on, what stands at the next name stands there on
  -- the other disk as well.
  fun_induction walk d final links cur slash names with
  | case1 =>
    rw [walk]
    exact h
  | case2 _ _ _ _ ih | case3 _ _ _ _ _ ih =>
    rw [walk]
    simpa using ih h
  | case4 | case6 | case10 | case12 => cases h
  | case5 =>
    cases h
    exact absurd rfl hr
  | case7 _ _ _ _ _ hdot hup hlen here hhere hrest
  | case9 _ _ _ _ _ hdot hup hlen here _ _ _ hhere hrest
  | case11 _ _ _ _ _ hdot hup hlen here _ hhere hrest =>
    rw [walk_cons _ _ hdot hup hlen, hsub _ _ hhere]
    simpa [walkAt, hrest] using h
  | case8 _ _ _ _ _ hdot hup hlen here hhere hrest ih =>
    rw [walk_cons _ _ hdot hup hlen, hsub _ _ hhere]
    simpa [walkAt, hrest] using ih h
  | case13 _ _ _ _ hdot hup hlen here target hhere hrest links ih =>
    rw [walk_cons _ _ hdot hup hlen, hsub _ _ hhere]
    simpa [walkAt, hrest] using ih h

/-- Walks depend on what is where, and on nothing else. -/
theorem walk_congr {d d' : Disk} (hsame : ∀ l, d'.find? l = d.find? l) (final : Final) (links : Nat)
    (cur : Location) (slash : Bool) (names : List String) :
    walk d' final links cur slash names = walk d final links cur slash names := by
  fun_induction walk d final links cur slash names with
  | case1 => rw [walk]
  | case2 _ _ _ _ ih | case3 _ _ _ _ _ ih =>
    rw [walk]
    simpa using ih
  | case4 _ _ _ _ _ hdot hup hlen => rw [walk, if_neg hdot, if_neg hup, if_pos hlen]
  | case5 _ _ _ _ _ hdot hup hlen here hhere hrest
  | case6 _ _ _ _ _ hdot hup hlen here hhere hrest
  | case7 _ _ _ _ _ hdot hup hlen here hhere hrest
  | case9 _ _ _ _ _ hdot hup hlen here content mode shared hhere hrest
  | case10 _ _ _ _ _ hdot hup hlen here content mode shared hhere hrest
  | case11 _ _ _ _ _ hdot hup hlen here target hhere hrest
  | case12 _ _ _ _ hdot hup hlen here target hhere hrest =>
    rw [walk_cons _ _ hdot hup hlen, hsame, hhere]
    simp [walkAt, hrest, here]
  | case8 _ _ _ _ _ hdot hup hlen here hhere hrest ih
  | case13 _ _ _ _ hdot hup hlen here target hhere hrest links ih =>
    rw [walk_cons _ _ hdot hup hlen, hsame, hhere]
    simpa [walkAt, hrest] using ih

/-- A walk with no more names may end at a node: a link is not followed, and no slash stands behind a
    file. -/
def Ends (final : Final) (slash : Bool) : Option Node → Prop
  | some (.file ..) => slash = false ∨ final = .entry
  | some (.link _) => final = .entry ∨ (final = .keep ∧ slash = false)
  | _ => True

theorem walkAt_of_ends {final : Final} {slash : Bool} {n : Option Node} (h : Ends final slash n)
    (d : Disk) (links : Nat) (cur : Location) (name : String) :
    walkAt d final links cur slash name [] n = .ok ⟨cur ++ [name], n, slash, false⟩ := by
  match n, h with
  | none, _ | some .dir, _ => rfl
  | some (.file ..), h => exact if_pos (by simpa [Ends] using h)
  | some (.link _), h => exact if_pos (by simpa [Ends] using h)

/-- A walk that led to nothing leads to what is put there, if it may end at it. -/
theorem walk_set {d : Disk} {final : Final} {links : Nat} {cur : Location} {slash : Bool}
    {names : List String} {r : Resolved} (n : Node)
    (h : walk d final links cur slash names = .ok r) (hr : r.node = none)
    (hend : Ends final r.slash (some n)) :
    walk (d.set r.location n) final links cur slash names = .ok { r with node := some n } := by
  have hnone : d.find? r.location = none := by
    rcases walk_node d _ h with ⟨-, hdir⟩ | ⟨-, -, hnode⟩
    · rw [hr] at hdir
      cases hdir
    · rw [← hnode, hr]
  -- What the walk comes by before its end is still there, and only its end is new.
  have hfind {l : Location} {m : Node} (hl : d.find? l = some m) :
      (d.set r.location n).find? l = some m := find?_set_of_some hnone hl _
  have hnew {cur : Location} {name : String} (hl : cur ++ [name] = r.location) :
      (d.set r.location n).find? (cur ++ [name]) = some n := by
    rw [find?_set, if_neg (by simp), if_pos hl]
  fun_induction walk d final links cur slash names with
  | case1 =>
    cases h
    cases hr
  | case2 _ _ _ _ ih | case3 _ _ _ _ _ ih =>
    rw [walk]
    simpa using ih h
  | case4 | case6 | case10 | case12 => cases h
  | case5 _ _ _ _ _ hdot hup hlen here hhere hrest =>
    cases h
    rw [walk_cons _ _ hdot hup hlen, hnew rfl, List.isEmpty_iff.mp hrest, walkAt_of_ends hend]
  | case7 _ _ _ _ _ hdot hup hlen here hhere hrest
  | case9 _ _ _ _ _ hdot hup hlen here _ _ _ hhere hrest
  | case11 _ _ _ _ _ hdot hup hlen here _ hhere hrest =>
    cases h
    cases hr
  | case8 _ _ _ _ _ hdot hup hlen here hhere hrest ih =>
    rw [walk_cons _ _ hdot hup hlen, hfind hhere]
    simpa [walkAt, hrest] using ih h
  | case13 _ _ _ _ hdot hup hlen here target hhere hrest links ih =>
    rw [walk_cons _ _ hdot hup hlen, hfind hhere]
    simpa [walkAt, hrest] using ih h

/-- A walk that need not follow a link at its end leads to the same when it is to. -/
theorem walk_final {d : Disk} {links : Nat} {cur : Location} {slash : Bool} {names : List String}
    {r : Resolved} (h : walk d .entry links cur slash names = .ok r) {final : Final}
    (hend : Ends final r.slash r.node) : walk d final links cur slash names = .ok r := by
  fun_induction walk d .entry links cur slash names with
  | case1 =>
    rw [walk]
    exact h
  | case2 _ _ _ _ ih | case3 _ _ _ _ _ ih =>
    rw [walk]
    simpa using ih h
  | case4 | case6 | case12 => cases h
  | case5 _ _ _ _ _ hdot hup hlen here hhere hrest
  | case7 _ _ _ _ _ hdot hup hlen here hhere hrest
  | case9 _ _ _ _ _ hdot hup hlen here _ _ _ hhere hrest
  | case11 _ _ _ _ _ hdot hup hlen here _ hhere hrest =>
    cases h
    obtain rfl : _ = [] := by simpa using hrest
    rw [walk_cons _ _ hdot hup hlen, hhere, walkAt_of_ends hend]
  | case10 => cases h
  | case8 _ _ _ _ _ hdot hup hlen here hhere hrest ih =>
    rw [walk_cons _ _ hdot hup hlen, hhere]
    simpa [walkAt, hrest] using ih h
  | case13 _ _ _ rest hdot hup hlen here target hhere hrest links ih =>
    rw [walk_cons _ _ hdot hup hlen, hhere]
    have hmore : rest ≠ [] := by simpa using hrest
    simpa [walkAt, hmore] using ih h

/-- Where a walk that follows a link at its end comes to, one that does not comes to as well, unless it
    ends at a link before. -/
theorem walk_entry {d : Disk} {links : Nat} {cur : Location} {slash : Bool} {names : List String}
    {r : Resolved} (h : walk d .follow links cur slash names = .ok r) :
    ∃ r', walk d .entry links cur slash names = .ok r' ∧
      (r' = r ∨ ∃ target, r'.node = some (.link target)) := by
  fun_induction walk d .follow links cur slash names with
  | case1 =>
    rw [walk]
    exact ⟨_, h, .inl rfl⟩
  | case2 _ _ _ _ ih | case3 _ _ _ _ _ ih =>
    rw [walk]
    simpa using ih h
  | case4 | case6 | case10 | case12 => cases h
  | case5 _ _ _ _ _ hdot hup hlen here hhere hrest
  | case7 _ _ _ _ _ hdot hup hlen here hhere hrest
  | case9 _ _ _ _ _ hdot hup hlen here _ _ _ hhere hrest =>
    cases h
    rw [walk_cons _ _ hdot hup hlen, hhere]
    exact ⟨_, by simp_all [walkAt, here], .inl rfl⟩
  | case11 _ _ _ _ _ hdot hup hlen here target hhere hrest => simp at hrest
  | case8 _ _ _ _ _ hdot hup hlen here hhere hrest ih =>
    rw [walk_cons _ _ hdot hup hlen, hhere]
    simpa [walkAt, hrest] using ih h
  | case13 cur slash name rest hdot hup hlen here target hhere hrest links ih =>
    rw [walk_cons _ _ hdot hup hlen, hhere]
    -- A link at the end is itself what the walk comes to.
    by_cases hempty : rest = []
    · exact ⟨⟨here, some (.link target), slash, false⟩, by simp [walkAt, hempty, here],
        .inr ⟨target, rfl⟩⟩
    · simpa [walkAt, hempty] using ih h

/-- A walk comes to its last name through a directory. -/
theorem walk_dropLast {d : Disk} {final : Final} {links : Nat} {cur : Location} {slash : Bool}
    {names : List String} {name : String} {r : Resolved}
    (h : walk d final links cur slash (names ++ [name]) = .ok r) (slash' : Bool) :
    ∃ r', walk d .follow links cur slash' names = .ok r' ∧ r'.node = some .dir := by
  have hnil (links : Nat) (cur : Location) (slash' : Bool) :
      ∃ r', walk d .follow links cur slash' [] = .ok r' ∧ r'.node = some .dir :=
    ⟨_, by rw [walk], rfl⟩
  generalize hall : names ++ [name] = all at h
  fun_induction walk d final links cur slash all generalizing names slash' with
  | case1 => simp at hall
  | case4 | case6 | case10 | case12 => cases h
  | case2 _ _ _ _ ih | case3 _ _ _ _ _ ih =>
    rcases names with _ | ⟨n, names⟩
    · exact hnil _ _ _
    · obtain ⟨rfl, rfl⟩ : n = _ ∧ names ++ [name] = _ := by simpa using hall
      rw [walk]
      simpa using ih slash' rfl h
  | case5 | case7 | case9 | case11 =>
    -- The last name is the only one.
    rcases names with _ | ⟨n, names⟩
    · exact hnil _ _ _
    · obtain ⟨-, rfl⟩ : n = _ ∧ names ++ [name] = _ := by simpa using hall
      simp_all
  | case8 _ _ _ _ _ hdot' hup' hlen here hhere hrest =>
    rename_i ih
    rcases names with _ | ⟨n, names⟩
    · exact hnil _ _ _
    · obtain ⟨rfl, rfl⟩ : n = _ ∧ names ++ [name] = _ := by simpa using hall
      rw [walk_cons _ _ hdot' hup' hlen, hhere]
      cases names with
      | nil => exact ⟨_, rfl, rfl⟩
      | cons m names => simpa [walkAt] using ih slash' rfl h
  | case13 _ _ _ _ hdot' hup' hlen here target hhere hrest links =>
    rename_i ih
    rcases names with _ | ⟨n, names⟩
    · exact hnil _ _ _
    · obtain ⟨rfl, rfl⟩ : n = _ ∧ names ++ [name] = _ := by simpa using hall
      rw [walk_cons _ _ hdot' hup' hlen, hhere]
      simpa [walkAt] using ih _ (by simp) h

/-! ## Paths on extended disks -/

/-- The file that a path leads to is at this location. -/
def FileAt (d : Disk) (p : Path) (l : Location) : Prop :=
  ∃ r content mode shared, d.resolve .follow p = .ok r ∧ r.location = l ∧
    r.node = some (.file content mode shared)

/-- What is at the end of a path to a file. -/
theorem FileAt.find? {d : Disk} {p : Path} {l : Location} (h : FileAt d p l) :
    l ≠ [] ∧ ∃ content mode shared, d.find? l = some (.file content mode shared) := by
  obtain ⟨r, content, mode, shared, hr, rfl, hn⟩ := h
  obtain ⟨-, hl, hfind⟩ := resolve_entry d _ hr (by simp [hn])
  exact ⟨hl, content, mode, shared, hfind.trans hn⟩

/-- A path leads to one file only. -/
theorem FileAt.unique {d : Disk} {p : Path} {l l' : Location} (h : FileAt d p l)
    (h' : FileAt d p l') : l = l' := by
  obtain ⟨r, -, -, -, hr, rfl, -⟩ := h
  obtain ⟨r', -, -, -, hr', rfl, -⟩ := h'
  cases hr.symm.trans hr'
  rfl

/-- Paths that led to something lead there still, up to the content. -/
theorem Extends.resolve {d d' : Disk} (h : Extends d d') {final : Final} {p : Path} {r : Resolved}
    (hr : d.resolve final p = .ok r) (hn : r.node ≠ none) :
    ∃ r', d'.resolve final p = .ok r' ∧ r'.outline = r.outline := by
  -- Where paths lead hangs on the outlines only, and on these everything is the same.
  have houtline : d'.outline.resolve final p = .ok r.outline := by
    have hr' : d.outline.resolve final p = .ok r.outline := by
      rw [resolve_outline, hr]
      rfl
    rcases resolve_cases p with ⟨e, -, -, he⟩ | hwalk
    · rw [he] at hr
      cases hr
    · rw [hwalk, mapError_eq_ok, outline_working] at hr'
      rw [hwalk, mapError_eq_ok, outline_working, h.working]
      exact walk_mono h.keeps hr' (by simpa [Resolved.outline] using hn)
  rw [resolve_outline] at houtline
  cases hd : d'.resolve final p with
  | error e =>
    rw [hd] at houtline
    cases houtline
  | ok r' =>
    rw [hd] at houtline
    exact ⟨r', rfl, Except.ok.inj houtline⟩

/-- A path that led to something leads there on every disk where everything is that was there. -/
theorem resolve_mono {d d' : Disk} (hsub : ∀ l n, d.find? l = some n → d'.find? l = some n)
    (hworking : d'.working = d.working) {final : Final} {p : Path} {r : Resolved}
    (hr : d.resolve final p = .ok r) (hn : r.node ≠ none) : d'.resolve final p = .ok r := by
  rcases resolve_cases p with ⟨e, -, -, he⟩ | hwalk
  · rw [he] at hr
    cases hr
  · rw [hwalk, mapError_eq_ok] at hr ⊢
    rw [hworking]
    exact walk_mono hsub hr hn

/-- Where paths lead depends on what is where and on the working directory. -/
theorem resolve_congr {d d' : Disk} (hsame : ∀ l, d'.find? l = d.find? l)
    (hworking : d'.working = d.working) (final : Final) (p : Path) :
    d'.resolve final p = d.resolve final p := by
  rcases resolve_cases p with ⟨e, -, -, he⟩ | hwalk
  · rw [he, he]
  · rw [hwalk, hwalk, hworking, walk_congr hsame]

/-- Paths lead to files still. -/
theorem Extends.fileAt {d d' : Disk} (h : Extends d d') {p : Path} {l : Location}
    (hf : FileAt d p l) : FileAt d' p l := by
  obtain ⟨r, content, mode, shared, hr, rfl, hn⟩ := hf
  obtain ⟨r', hr', hsame⟩ := h.resolve hr (by simp [hn])
  have hlocation : r'.outline.location = r.outline.location := congrArg _ hsame
  have hnode : r'.node.map Node.outline = some (.file ByteArray.empty 0 none) := by
    have := congrArg Resolved.node hsame
    simpa [Resolved.outline, hn, Node.outline] using this
  obtain ⟨n, hn', houtline⟩ := Option.map_eq_some_iff.mp hnode
  cases n with
  | file content' mode' shared' => exact ⟨r', content', mode', shared', hr', hlocation, hn'⟩
  | dir | link target => cases houtline

/-- A path that led to nothing leads to what is put there, if it may end at it. -/
theorem resolve_set_node {d : Disk} {final : Final} {p : Path} {r : Resolved} (n : Node)
    (hr : d.resolve final p = .ok r) (hn : r.node = none) (hend : Ends final r.slash (some n)) :
    (d.set r.location n).resolve final p = .ok { r with node := some n } := by
  rcases resolve_cases p with ⟨e, -, -, he⟩ | hwalk
  · rw [he] at hr
    cases hr
  · rw [hwalk, mapError_eq_ok] at hr ⊢
    exact walk_set n hr hn hend

/-- A path that led to nothing leads to the file that is put there. -/
theorem resolve_set {d : Disk} {p : Path} {r : Resolved} (hr : d.resolve .follow p = .ok r)
    (hn : r.node = none) (hslash : r.slash = false) (content : ByteArray) (mode : Nat)
    (shared : Option Nat) :
    (d.set r.location (.file content mode shared)).resolve .follow p =
      .ok { r with node := some (.file content mode shared) } :=
  resolve_set_node _ hr hn (.inl hslash)

/-- A path that need not be followed over a link at its end leads to the same when it is to. -/
theorem resolve_final {d : Disk} {p : Path} {r : Resolved} (hr : d.resolve .entry p = .ok r)
    {final : Final} (hend : Ends final r.slash r.node) : d.resolve final p = .ok r := by
  rcases resolve_cases p with ⟨e, -, -, he⟩ | hwalk
  · rw [he] at hr
    cases hr
  · rw [hwalk, mapError_eq_ok] at hr ⊢
    exact walk_final hr hend

/-- A path of one plain name leads to what has this name in the root, if it may end at it. -/
theorem resolve_root_name {d : Disk} {final : Final} {p : Path} {name : String}
    (hp : p.text.toList.contains '\x00' = false ∧ p.text.isEmpty = false ∧
      p.text.utf8ByteSize < pathLimit ∧ p.isAbsolute = true ∧ endsInSlash p.text = false ∧
      segments p.text = [name])
    (hname : name ≠ "." ∧ name ≠ ".." ∧ ¬ maxName < name.utf8ByteSize)
    (hends : Ends final false (d.find? [name])) :
    d.resolve final p = .ok ⟨[name], d.find? [name], false, false⟩ := by
  obtain ⟨hdot, hup, hlen⟩ := hname
  rw [resolve_absolute d final [name] hp, walk_cons _ _ hdot hup hlen, List.nil_append,
    walkAt_of_ends hends]
  rfl

/-- A path of two plain names leads to what has the second name in the directory of the first, if it may
    end at it. -/
theorem resolve_in_root_dir {d : Disk} {final : Final} {p : Path} {dir name : String}
    (hp : p.text.toList.contains '\x00' = false ∧ p.text.isEmpty = false ∧
      p.text.utf8ByteSize < pathLimit ∧ p.isAbsolute = true ∧ endsInSlash p.text = false ∧
      segments p.text = [dir, name])
    (hdir : dir ≠ "." ∧ dir ≠ ".." ∧ ¬ maxName < dir.utf8ByteSize)
    (hname : name ≠ "." ∧ name ≠ ".." ∧ ¬ maxName < name.utf8ByteSize)
    (hparent : d.find? [dir] = some .dir) (hends : Ends final false (d.find? [dir, name])) :
    d.resolve final p = .ok ⟨[dir, name], d.find? [dir, name], false, false⟩ := by
  obtain ⟨hdot, hup, hlen⟩ := hdir
  obtain ⟨hdot', hup', hlen'⟩ := hname
  rw [resolve_absolute d final [dir, name] hp, walk_cons _ _ hdot hup hlen, List.nil_append, hparent]
  change (walk d final maxLinks [dir] false [name]).mapError IoError.system = _
  rw [walk_cons _ _ hdot' hup' hlen', List.singleton_append, walkAt_of_ends hends]
  rfl

/-- Where a path leads to, it leads to also when a link at its end is not followed, unless it ends at
    a link. -/
theorem resolve_entry_of_ok {d : Disk} {p : Path} {r : Resolved}
    (hr : d.resolve .follow p = .ok r) :
    ∃ r', d.resolve .entry p = .ok r' ∧ (r' = r ∨ ∃ target, r'.node = some (.link target)) := by
  rcases resolve_cases p with ⟨e, -, -, he⟩ | hwalk
  · rw [he] at hr
    cases hr
  · rw [hwalk, mapError_eq_ok] at hr
    obtain ⟨r', hr', hcases⟩ := walk_entry hr
    exact ⟨r', by rw [hwalk, mapError_eq_ok, hr'], hcases⟩

/-- Where a path leads to something, there is something at its end also when a link there is not
    followed. -/
theorem resolve_entry_of_follow {d : Disk} {p : Path} {r : Resolved}
    (hr : d.resolve .follow p = .ok r) (hn : r.node ≠ none) :
    ∃ r', d.resolve .entry p = .ok r' ∧ r'.node.isSome := by
  obtain ⟨r', hr', rfl | ⟨target, hlink⟩⟩ := resolve_entry_of_ok hr
  · exact ⟨r', hr', Option.isSome_iff_ne_none.mpr hn⟩
  · exact ⟨r', hr', Option.isSome_of_eq_some hlink⟩

/-- A walk comes to further names through a directory. -/
theorem walk_front {d : Disk} {final : Final} {links : Nat} {cur : Location} {slash : Bool}
    {names rest : List String} {r : Resolved} (hrest : rest ≠ [])
    (h : walk d final links cur slash (names ++ rest) = .ok r) (slash' : Bool) :
    ∃ r', walk d .follow links cur slash' names = .ok r' ∧ r'.node = some .dir := by
  induction rest using List.reverseRecOn generalizing final r slash with
  | nil => exact absurd rfl hrest
  | append_singleton rest name ih =>
    rw [← List.append_assoc] at h
    obtain ⟨r', hr', hdir⟩ := walk_dropLast h slash'
    by_cases hnil : rest = []
    · rw [hnil, List.append_nil] at hr'
      exact ⟨r', hr', hdir⟩
    · exact ih hnil hr'

/-- Where a path starts is told by its front. -/
theorem isAbsolute_of_front {p q : Path} {rest : String} (hq : q.text ≠ "")
    (htext : p.text = q.text ++ rest) : p.isAbsolute = q.isAbsolute := by
  obtain ⟨c, cs, hcs⟩ := List.exists_cons_of_ne_nil (show q.text.toList ≠ [] by simpa using hq)
  rw [Path.isAbsolute_eq, Path.isAbsolute_eq, htext, String.toList_append, hcs]
  rfl

/-- A path comes to further names through a directory. -/
theorem resolve_front {d : Disk} {final : Final} {p q : Path} {r : Resolved} {rest : String}
    {names : List String}
    (hq : q.text ≠ "") (htext : p.text = q.text ++ rest)
    (hsegments : segments p.text = segments q.text ++ names) (hnames : names ≠ [])
    (hr : d.resolve final p = .ok r) :
    ∃ r', d.resolve .follow q = .ok r' ∧ r'.node = some .dir := by
  unfold resolve at hr
  split at hr
  · cases hr
  split at hr
  · cases hr
  split at hr
  · cases hr
  rename_i hnul _ hlong
  -- What is wrong with a text is wrong with every text that goes on after it.
  have hnul' : ¬ q.text.toList.contains '\x00' = true := by
    rw [htext] at hnul
    simp_all
  have hlong' : ¬ pathLimit ≤ q.text.utf8ByteSize := by
    rw [htext, String.utf8ByteSize_append] at hlong
    omega
  rw [mapError_eq_ok, hsegments, isAbsolute_of_front hq htext] at hr
  obtain ⟨r', hr', hdir⟩ := walk_front hnames hr (endsInSlash q.text)
  refine ⟨r', ?_, hdir⟩
  unfold resolve
  rw [if_neg hnul', if_neg (by simpa using hq), if_neg hlong', hr']
  rfl

/-- A path comes to a name through a directory. -/
theorem resolve_of_child {d : Disk} {p : Path} {name : String} {r : Resolved}
    (hname : Path.IsName name) (hp : p.text ≠ "")
    (hr : d.resolve .follow (p.child name) = .ok r) :
    ∃ r', d.resolve .follow p = .ok r' ∧ r'.node = some .dir := by
  obtain ⟨rest, htext⟩ := p.child_text hname
  exact resolve_front hp htext (Path.segments_child p hname) (List.cons_ne_nil _ _) hr

end GameInstaller.Disk
