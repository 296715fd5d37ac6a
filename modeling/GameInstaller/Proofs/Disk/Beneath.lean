import GameInstaller.Proofs.Disk.Contents
import GameInstaller.Proofs.Path.Components
import GameInstaller.Proofs.Text
import Mathlib.Logic.Function.Basic

/-!
# What is beneath a directory

A path to a directory leads on to the names in it.  A disk of which only what is beneath a directory
changes is told by the tree there, and calls on names in the directory are calls on the tree.

* `DirAt`     where the directory is that a path leads to
* `Fits`      a name may stand behind a path
* `Holds`     a path leads to a file with a content
* `Beneath`   the tree beneath a directory, the rest of the disk being as it was

## Key results

- `DirAt.resolve_child`: where a name in a directory leads
- `Beneath.dirAt`: a path to a directory does not hang on what is beneath it
- `find?_relocate`: what giving a file another name does
-/

namespace GameInstaller.Disk

/-! ## Names in a directory -/

/-- The directory that a path leads to is at this location. -/
def DirAt (d : Disk) (p : Path) (l : Location) : Prop :=
  ∃ r, d.resolve .follow p = .ok r ∧ r.location = l ∧ r.node = some .dir

/-- A name may stand behind a path: there is no zero character, and neither the name nor the whole
    is too long. -/
structure Fits (p : Path) (name : String) : Prop where
  nul : '\x00' ∉ (p.child name).text.toList
  path : (p.child name).text.utf8ByteSize < pathLimit
  name : name.utf8ByteSize ≤ maxName

/-- A walk that leads to a directory goes on from there when there are more names. -/
theorem walk_append {d : Disk} {links : Nat} {cur : Location} {slash : Bool} {names : List String}
    {r : Resolved} (h : walk d .follow links cur slash names = .ok r) (hr : r.node = some .dir) :
    ∃ links', ∀ final slash' rest, rest ≠ [] →
      walk d final links cur slash' (names ++ rest) = walk d final links' r.location slash' rest := by
  fun_induction walk d .follow links cur slash names with
  | case1 =>
    cases h
    exact ⟨_, fun _ _ _ _ => rfl⟩
  | case2 cur slash rest' _ ih =>
    obtain ⟨links', hwalk⟩ := ih h
    refine ⟨links', fun final slash' rest hrest => ?_⟩
    rw [List.cons_append, walk, if_pos rfl, hwalk _ _ _ hrest]
  | case3 cur slash rest' _ _ ih =>
    obtain ⟨links', hwalk⟩ := ih h
    refine ⟨links', fun final slash' rest hrest => ?_⟩
    rw [List.cons_append, walk, if_neg (by decide), if_pos rfl, hwalk _ _ _ hrest]
  | case4 | case6 | case10 | case12 => cases h
  | case5 | case9 | case11 =>
    cases h
    cases hr
  | case7 links _ _ _ _ hdot hup hlen here hhere hrest' =>
    -- The last name is that of the directory.
    cases h
    obtain rfl := List.isEmpty_iff.mp hrest'
    refine ⟨links, fun final slash' rest hrest => ?_⟩
    rw [List.singleton_append, walk_cons _ _ hdot hup hlen, hhere]
    simp [walkAt, hrest, here]
  | case8 _ _ _ _ _ hdot hup hlen here hhere hrest' ih =>
    obtain ⟨links', hwalk⟩ := ih h
    refine ⟨links', fun final slash' rest hrest => ?_⟩
    rw [List.cons_append, walk_cons _ _ hdot hup hlen, hhere]
    simpa [walkAt, hrest, here] using hwalk final slash' rest hrest
  | case13 _ _ _ rest' hdot hup hlen here target hhere hrest' links ih =>
    obtain ⟨links', hwalk⟩ := ih h
    refine ⟨links', fun final slash' rest hrest => ?_⟩
    -- With more names behind it the link is not at the end.
    have hmore : (rest' ++ rest).isEmpty = false := by simp [hrest]
    rw [List.cons_append, walk_cons _ _ hdot hup hlen, hhere]
    simpa [walkAt, hmore, List.append_assoc] using hwalk final slash' rest hrest

namespace Fits

variable {p : Path} {name name' : String}

/-- Less fits where more does. -/
theorem of_append (h : Fits p (name ++ name')) (hname : Path.IsName name)
    (happend : Path.IsName (name ++ name')) : Fits p name := by
  have htext : (p.child (name ++ name')).text = (p.child name).text ++ name' := by
    apply String.toList_injective
    rw [Path.child_chars p happend, String.toList_append, String.toList_append,
      Path.child_chars p hname, List.append_assoc]
  have hnul := h.nul
  have hpath := h.path
  have hlen := h.name
  rw [htext, String.toList_append, List.mem_append, not_or] at hnul
  rw [htext, String.utf8ByteSize_append] at hpath
  rw [String.utf8ByteSize_append] at hlen
  exact ⟨hnul.1, by omega, by omega⟩

/-- What stands before a name that fits is fit as well. -/
theorem of_child (h : Fits (p.child name) name') (hname' : Path.IsName name')
    (hlen : name.utf8ByteSize ≤ maxName) : Fits p name := by
  obtain ⟨rest, htext⟩ := (p.child name).child_text hname'
  have hnul := h.nul
  have hpath := h.path
  rw [htext, String.toList_append, List.mem_append, not_or] at hnul
  rw [htext, String.utf8ByteSize_append] at hpath
  exact ⟨hnul.1, by omega, hlen⟩

end Fits

theorem dirAt_slash (d : Disk) : DirAt d ⟨"/"⟩ [] := by
  have hsegments : segments "/" = [] := by decide
  refine ⟨⟨[], some .dir, true, true⟩, ?_, rfl, rfl⟩
  rw [resolve, if_neg (by decide), if_neg (by decide), if_neg (by decide), if_pos (by decide),
    hsegments, walk]
  rfl

/-- A directory in the root. -/
theorem dirAt_root {d : Disk} {p : Path} {name : String} (hname : Path.IsProper name)
    (hlen : name.utf8ByteSize ≤ maxName)
    (hp : p.text.toList.contains '\x00' = false ∧ p.text.isEmpty = false ∧
      p.text.utf8ByteSize < pathLimit ∧ p.isAbsolute = true ∧ endsInSlash p.text = false ∧
      segments p.text = [name])
    (hdir : d.find? [name] = some .dir) : DirAt d p [name] := by
  have hends : Ends .follow false (d.find? [name]) := by
    rw [hdir]
    trivial
  have hresolve := resolve_root_name hp ⟨hname.ne_dot, hname.ne_up, Nat.not_lt.mpr hlen⟩ hends
  exact ⟨_, hresolve, rfl, hdir⟩

namespace DirAt

variable {d : Disk} {p : Path} {l : Location} {name : String}

/-- A path behind which a name stands is refused for its text, or walked from the directory. -/
theorem resolve_child_eq (h : DirAt d p l) (hname : Path.IsProper name) :
    ∃ links, ∀ final, d.resolve final (p.child name) =
      if '\x00' ∈ (p.child name).text.toList then .error nulInName
      else if pathLimit ≤ (p.child name).text.utf8ByteSize then .error (.system .nameTooLong)
      else (d.walk final links l false [name]).mapError .system := by
  obtain ⟨r, hr, rfl, hdir⟩ := h
  have hempty : ¬ (p.child name).text.isEmpty = true := by
    simpa using p.child_text_ne hname.toIsName
  unfold resolve at hr
  split at hr
  · cases hr
  split at hr
  · cases hr
  split at hr
  · cases hr
  rw [mapError_eq_ok] at hr
  obtain ⟨links, hwalk⟩ := walk_append hr hdir
  refine ⟨links, fun final => ?_⟩
  rw [resolve, if_neg hempty, Path.segments_child p hname.toIsName,
    Path.isAbsolute_child p hname.toIsName, Path.endsInSlash_child p hname.toIsName,
    hwalk _ _ _ (List.cons_ne_nil _ _)]
  simp

/-- A name that fits leads to what has this name in the directory; a link there is another matter. -/
theorem resolve_child (h : DirAt d p l) (hname : Path.IsProper name) (hfits : Fits p name)
    (hlink : ∀ target, d.find? (l ++ [name]) ≠ some (.link target)) (final : Final) :
    d.resolve final (p.child name) =
      .ok ⟨l ++ [name], d.find? (l ++ [name]), false, false⟩ := by
  obtain ⟨links, hresolve⟩ := h.resolve_child_eq hname
  rw [hresolve, if_neg hfits.nul, if_neg (Nat.not_le.mpr hfits.path),
    walk_cons _ _ hname.ne_dot hname.ne_up (Nat.not_lt.mpr hfits.name), mapError_eq_ok]
  cases hn : d.find? (l ++ [name]) with
  | none => rfl
  | some n =>
    cases n with
    | dir => rfl
    | file content mode shared => simp [walkAt]
    | link target => exact absurd hn (hlink target)

/-- A name that does not fit leads nowhere. -/
theorem resolve_unfit (h : DirAt d p l) (hname : Path.IsProper name) (hunfit : ¬ Fits p name) :
    ∃ e : IoError, e.kind ≠ .notFound ∧ e.kind ≠ .alreadyExists ∧
      ∀ final, d.resolve final (p.child name) = .error e := by
  obtain ⟨links, hresolve⟩ := h.resolve_child_eq hname
  by_cases hnul : '\x00' ∈ (p.child name).text.toList
  · exact ⟨nulInName, by decide, by decide, fun final => by rw [hresolve, if_pos hnul]⟩
  refine ⟨.system .nameTooLong, by decide, by decide, fun final => ?_⟩
  rw [hresolve, if_neg hnul]
  split
  · rfl
  · rename_i hpath
    have hlen : maxName < name.utf8ByteSize := by
      by_contra hlen
      exact hunfit ⟨hnul, Nat.not_le.mp hpath, Nat.not_lt.mp hlen⟩
    rw [walk, if_neg hname.ne_dot, if_neg hname.ne_up, if_pos hlen]
    rfl

/-- A directory in a directory. -/
theorem child (h : DirAt d p l) (hname : Path.IsProper name) (hfits : Fits p name)
    (hdir : d.find? (l ++ [name]) = some .dir) : DirAt d (p.child name) (l ++ [name]) :=
  ⟨_, h.resolve_child hname hfits (by simp [hdir]) .follow, rfl, hdir⟩

/-- There is nothing at a path whose name is free. -/
theorem not_pathExists (h : DirAt d p l) (hname : Path.IsProper name)
    (hnone : d.find? (l ++ [name]) = none) : d.pathExists (p.child name) = false := by
  by_cases hfits : Fits p name
  · simp [pathExists, stat, h.resolve_child hname hfits (by simp [hnone]) .follow, hnone]
  · obtain ⟨e, -, -, hr⟩ := h.resolve_unfit hname hfits
    simp [pathExists, stat, hr]

/-- There is nothing at a path whose directory is not there. -/
theorem not_pathExists_of_none (h : DirAt d p l) (hname : Path.IsProper name)
    (hnone : d.find? (l ++ [name]) = none) {name' : String} (hname' : Path.IsName name') :
    d.pathExists ((p.child name).child name') = false := by
  have hgone := h.not_pathExists hname hnone
  cases hr : d.resolve .follow ((p.child name).child name') with
  | error e => simp [pathExists, stat, hr]
  | ok r =>
    -- A path that leads somewhere leads through its directory.
    obtain ⟨r', hr', hdir⟩ := resolve_of_child hname' (p.child_text_ne hname.toIsName) hr
    simp [pathExists, stat, hr', hdir] at hgone

end DirAt

/-! ## Calls on names in a directory -/

section Calls

variable {d : Disk} {p : Path} {l : Location} {name : String}

theorem isTop_child (p : Path) (hname : Path.IsProper name) : isTop (p.child name) = false := by
  obtain ⟨rooted, front, hbody⟩ := p.body_child
  obtain ⟨hbody', -⟩ := hbody name hname.toIsName
  rw [isTop, Path.components_child p hname, Path.parent?_of_body hbody']
  simp

/-- A directory is made in the one that is there. -/
theorem outcome_createDirAll_of_none (h : DirAt d p l) (hname : Path.IsProper name)
    (hfits : Fits p name) (hnone : d.find? (l ++ [name]) = none) :
    outcome (createDirAll (p.child name)) d = (.ok (), d.set (l ++ [name]) .dir) := by
  have hr := h.resolve_child hname hfits (by simp [hnone]) .entry
  have hclimb : outcome (climb ((p.child name).text.length + 1) (p.child name) []) d =
      (.ok [], d.set (l ++ [name]) .dir) := by
    rw [outcome_climb (isTop_child p hname), outcome_mkdir_of_none hr (by simp [hnone])]
  unfold createDirAll
  rw [if_neg (by simp [isTop_child p hname]), outcome_bind_of_ok hclimb]
  rfl

/-- No directory is made where the name does not fit. -/
theorem outcome_createDirAll_of_unfit (h : DirAt d p l) (hname : Path.IsProper name)
    (hunfit : ¬ Fits p name) : ∃ e, outcome (createDirAll (p.child name)) d = (.error e, d) := by
  obtain ⟨e, hkind, hkind', hr⟩ := h.resolve_unfit hname hunfit
  have hclimb : outcome (climb ((p.child name).text.length + 1) (p.child name) []) d =
      (.error e, d) := by
    rw [outcome_climb (isTop_child p hname), outcome_mkdir_of_error (hr .entry)]
    simp [hkind, hkind']
  refine ⟨e, ?_⟩
  unfold createDirAll
  rw [if_neg (by simp [isTop_child p hname]), outcome_bind_of_error hclimb]

/-- Where nothing is, a file is made. -/
theorem outcome_update_of_none {r : Resolved} (hr : d.resolve .follow p = .ok r)
    (hn : r.node = none) (hslash : r.slash = false) (change : ByteArray → ByteArray) (mode : Nat) :
    outcome (update p change mode) d =
      (.ok (), d.set r.location (.file (change ByteArray.empty) mode none)) := by
  unfold update
  rw [outcome_bind, outcome_find, hr]
  dsimp only
  rw [hn]
  dsimp only
  rw [if_neg (by simp [hslash])]
  rfl

/-- A file that is there gets another content. -/
theorem outcome_update_of_file {r : Resolved} {content : ByteArray} {mode' : Nat}
    {shared : Option Nat} (hr : d.resolve .follow p = .ok r)
    (hn : r.node = some (.file content mode' shared)) (change : ByteArray → ByteArray) (mode : Nat) :
    outcome (update p change mode) d =
      (.ok (), d.setContent r.location (change content) mode' shared) := by
  unfold update
  rw [outcome_bind, outcome_find, hr]
  dsimp only
  rw [hn]
  rfl

/-- A path that leads nowhere cannot be written to. -/
theorem outcome_update_of_error {e : IoError} (hr : d.resolve .follow p = .error e)
    (change : ByteArray → ByteArray) (mode : Nat) :
    outcome (update p change mode) d = (.error e, d) := by
  unfold update
  rw [outcome_bind, outcome_find, hr]

/-- The content of a file is read, the whole of it. -/
theorem outcome_readBytes_of_file {r : Resolved} {content : ByteArray} {mode : Nat}
    {shared : Option Nat} (hr : d.resolve .follow p = .ok r)
    (hn : r.node = some (.file content mode shared)) :
    outcome (readBytes p) d = (.ok content, d) := by
  have hopen : outcome (openStream p) d =
      (.ok ⟨if content.isEmpty then [] else [content], none⟩, d) := by
    unfold openStream
    rw [outcome_bind, outcome_find, hr]
    dsimp only
    rw [hn]
    rfl
  unfold readBytes
  rw [outcome_bind_of_ok hopen]
  have hread : ByteStream.readAll ⟨if content.isEmpty then [] else [content], none⟩ =
      .ok content := by
    change Except.ok (ByteStream.joined _) = _
    split
    · rename_i hempty
      have hsize : content.size = 0 := by simpa [ByteArray.isEmpty] using hempty
      rw [ByteArray.size_eq_zero_iff.mp hsize]
      rfl
    · simp [ByteStream.joined]
  rw [hread]
  rfl

/-- A text that was written is read. -/
theorem outcome_readText_of_file {r : Resolved} {text : String} {mode : Nat}
    {shared : Option Nat} (hr : d.resolve .follow p = .ok r)
    (hn : r.node = some (.file text.toUTF8 mode shared)) :
    outcome (readText p) d = (.ok text, d) := by
  unfold readText
  rw [outcome_bind_of_ok (outcome_readBytes_of_file hr hn), Text.strict?_toUTF8]
  rfl

/-- A path leads to a regular file with this content. -/
def Holds (d : Disk) (p : Path) (content : ByteArray) : Prop :=
  ∃ r mode shared, d.resolve .follow p = .ok r ∧ r.node = some (.file content mode shared)

end Calls

/-! ## Giving a file another name -/

/-- What is somewhere among entries is found there. -/
theorem lookup_isSome_of_mem {l : Location} {n : Node} {entries : List (Location × Node)}
    (h : (l, n) ∈ entries) : (lookup l entries).isSome := by
  induction entries with
  | nil => cases h
  | cons entry rest ih =>
    obtain ⟨k, m⟩ := entry
    rw [lookup]
    split
    · rfl
    · rename_i hk
      rcases List.mem_cons.mp h with heq | hrest
      · exact absurd (Prod.mk.inj heq).1.symm hk
      · exact ih hrest

/-- What is found on a disk is all that there is on it. -/
theorem not_mem_of_find? {d : Disk} {l : Location} (hl : l ≠ []) (h : d.find? l = none) (n : Node) :
    (l, n) ∉ d.entries := by
  intro hmem
  rw [find?, if_neg hl] at h
  have := lookup_isSome_of_mem hmem
  rw [h] at this
  cases this

/-- What has nothing beneath it is given a name that is free: it is found under this name, and no
    longer under the one it had. -/
theorem find?_relocate {d : Disk} {src dst : Location} (hsrc : src ≠ []) (hdst : dst ≠ [])
    (hunder : ∀ k, src.isPrefixOf k = true → k ≠ src → d.find? k = none) (hfree : d.find? dst = none)
    {k : Location} (hk : k ≠ []) :
    (d.relocate src dst).find? k =
      if k = dst then d.find? src else if k = src then none else d.find? k := by
  have hmoved {j : Location} {n : Node} (hj : (j, n) ∈ d.entries) (hpre : src.isPrefixOf j = true) :
      j = src := by
    by_contra hne
    have hj' : j ≠ [] := by
      rintro rfl
      exact hsrc (List.prefix_nil.mp (List.isPrefixOf_iff_prefix.mp hpre))
    exact not_mem_of_find? hj' (hunder j hpre hne) n hj
  have hstays {j : Location} {n : Node} (hj : (j, n) ∈ d.entries) : j ≠ dst := by
    rintro rfl
    exact not_mem_of_find? hdst hfree n hj
  rw [find?, find?, find?, if_neg hk, if_neg hk, if_neg hsrc]
  unfold relocate
  dsimp only
  generalize d.entries = entries at hmoved hstays
  induction entries with
  | nil => simp [lookup]
  | cons entry rest ih =>
    obtain ⟨j, n⟩ := entry
    specialize ih (fun hj => hmoved (List.mem_cons_of_mem _ hj))
      (fun hj => hstays (List.mem_cons_of_mem _ hj))
    have hj := hstays List.mem_cons_self
    rw [List.map_cons]
    -- Only an entry at the old name is given the new one.
    by_cases hpre : src.isPrefixOf j = true
    · obtain rfl := hmoved List.mem_cons_self hpre
      rw [if_pos hpre, List.drop_length, List.append_nil, lookup, ih]
      by_cases hkdst : k = dst
      · simp [hkdst, lookup]
      · by_cases hkj : k = j
        · simp [hkj, hj, Ne.symm hj]
        · simp [hkdst, hkj, Ne.symm hkdst, Ne.symm hkj, lookup]
    · have hne : j ≠ src := by
        rintro rfl
        exact hpre (by simp)
      rw [if_neg hpre, lookup, ih]
      by_cases hjk : j = k
      · simp [← hjk, hj, hne, lookup]
      · simp [hjk, hne, lookup]

/-- Nothing is taken away where nothing is. -/
theorem erase_of_none {d : Disk} {l : Location} (hl : l ≠ []) (h : d.find? l = none) :
    d.erase l = d := by
  unfold erase
  rw [List.filter_eq_self.mpr]
  intro entry hmem
  obtain ⟨k, n⟩ := entry
  have hne : k ≠ l := by
    rintro rfl
    exact not_mem_of_find? hl h n hmem
  simpa using hne

/-- A file takes the place of another one in its directory. -/
theorem outcome_rename_beside {d : Disk} {p : Path} {l : Location} {name name' : String}
    {content : ByteArray} {mode : Nat} (h : DirAt d p l) (hsplit : d.split = false)
    (hname : Path.IsProper name) (hname' : Path.IsProper name') (hfits : Fits p name)
    (hfits' : Fits p name') (hne : name ≠ name')
    (hsrc : d.find? (l ++ [name]) = some (.file content mode none))
    (hdst : ∀ n, d.find? (l ++ [name']) = some n → ∃ content' mode', n = .file content' mode' none) :
    outcome (rename (p.child name) (p.child name')) d =
      (.ok (), (d.erase (l ++ [name'])).relocate (l ++ [name]) (l ++ [name'])) := by
  have hs := h.resolve_child hname hfits (by simp [hsrc]) .entry
  have ht := h.resolve_child hname' hfits' (fun target htarget => by
    obtain ⟨_, _, heq⟩ := hdst _ htarget
    cases heq) .entry
  have hbeside {a b : String} (hab : a ≠ b) : (l ++ [a]).isPrefixOf (l ++ [b]) = false := by
    rw [Bool.eq_false_iff, ne_eq, List.isPrefixOf_iff_prefix, List.prefix_append_right_inj]
    simpa using hab
  rw [hsrc] at hs
  unfold rename
  rw [outcome_bind_of_ok (outcome_get d), if_neg (by simp [hsplit]), outcome_bind, outcome_find, hs]
  dsimp only
  rw [outcome_bind, outcome_find, ht]
  dsimp only
  cases hn : d.find? (l ++ [name']) with
  | none =>
    rw [erase_of_none (by simp) hn]
    simp [hbeside hne, hbeside (Ne.symm hne), hne, Node.isDir]
  | some n =>
    obtain ⟨content', mode', rfl⟩ := hdst n hn
    simp only [Bool.or_self, Bool.false_eq_true, if_false, Node.isDir, Bool.not_false,
      hbeside hne, hbeside (Ne.symm hne), Bool.false_and, sameFile, List.append_cancel_left_eq,
      List.cons.injEq, hne, and_true, Bool.and_false]
    rfl

/-! ## The tree beneath a directory -/

/-- This is the tree beneath a directory, and the rest of the disk is as it was. -/
structure Beneath (d₀ d : Disk) (l : Location) (tree : Location → Option Node) : Prop where
  working : d.working = d₀.working
  split : d.split = d₀.split
  inside : ∀ k ≠ [], d.find? (l ++ k) = tree k
  outside : ∀ k, (∀ k' ≠ [], k ≠ l ++ k') → d.find? k = d₀.find? k

/-- Nothing is beneath the directory. -/
abbrev Bare (d : Disk) (l : Location) : Prop := Beneath d d l fun _ => none

theorem bare_of_find? {d : Disk} {l : Location} (h : ∀ k ≠ [], d.find? (l ++ k) = none) : Bare d l :=
  ⟨rfl, rfl, h, fun _ _ => rfl⟩

namespace Beneath

variable {d₀ d : Disk} {l : Location} {tree : Location → Option Node} {p : Path}

/-- What was there while nothing was beneath the directory is there still. -/
theorem keeps (h : Beneath d₀ d l tree) (hbare : Bare d₀ l) {k : Location} {n : Node}
    (hk : d₀.find? k = some n) : d.find? k = some n := by
  rw [h.outside k fun k' hk' heq => ?_, hk]
  rw [heq, hbare.inside k' hk'] at hk
  cases hk

/-- A path to a directory does not hang on what is beneath the directory. -/
theorem dirAt (h : Beneath d₀ d l tree) (hbare : Bare d₀ l) (hp : DirAt d₀ p l) : DirAt d p l := by
  obtain ⟨r, hr, hl, hdir⟩ := hp
  refine ⟨r, ?_, hl, hdir⟩
  rcases resolve_cases p with ⟨e, -, -, he⟩ | hwalk
  · rw [he] at hr
    cases hr
  · rw [hwalk, mapError_eq_ok] at hr ⊢
    rw [h.working]
    exact walk_mono (fun _ _ => h.keeps hbare) hr (by simp [hdir])

theorem set (h : Beneath d₀ d l tree) {k : Location} (hk : k ≠ []) (n : Node) :
    Beneath d₀ (d.set (l ++ k) n) l (Function.update tree k (some n)) where
  working := h.working
  split := h.split
  inside k' hk' := by
    rw [find?_set, if_neg (by simp [hk']), Function.update_apply, h.inside k' hk']
    simp
  outside k' hk' := by
    rw [find?_set, if_neg (hk' k hk), h.outside k' hk']
    split
    · subst k'
      exact (find?_nil d₀).symm
    · rfl

theorem erase (h : Beneath d₀ d l tree) {k : Location} (hk : k ≠ []) :
    Beneath d₀ (d.erase (l ++ k)) l (Function.update tree k none) where
  working := h.working
  split := h.split
  inside k' hk' := by
    rw [find?_erase, if_neg (by simp [hk']), Function.update_apply, h.inside k' hk']
    simp
  outside k' hk' := by
    rw [find?_erase, if_neg (hk' k hk), h.outside k' hk']
    split
    · subst k'
      exact (find?_nil d₀).symm
    · rfl

/-- A file is given a name that is free. -/
theorem relocate (h : Beneath d₀ d l tree) {src dst : Location} (hsrc : src ≠ []) (hdst : dst ≠ [])
    (hunder : ∀ k, src.isPrefixOf k = true → k ≠ src → tree k = none) (hfree : tree dst = none) :
    Beneath d₀ (d.relocate (l ++ src) (l ++ dst)) l
      (Function.update (Function.update tree src none) dst (tree src)) := by
  have hunder' (k : Location) (hpre : (l ++ src).isPrefixOf k = true) (hne : k ≠ l ++ src) :
      d.find? k = none := by
    obtain ⟨k', rfl⟩ := List.isPrefixOf_iff_prefix.mp hpre
    rw [List.append_assoc, h.inside _ (by simp [hsrc])]
    exact hunder _ (by simp) fun heq => hne (by rw [List.append_assoc, heq])
  have hfree' : d.find? (l ++ dst) = none := (h.inside dst hdst).trans hfree
  have hfind {k : Location} (hk : k ≠ []) : (d.relocate (l ++ src) (l ++ dst)).find? k =
      if k = l ++ dst then d.find? (l ++ src) else if k = l ++ src then none else d.find? k :=
    find?_relocate (by simp [hsrc]) (by simp [hdst]) hunder' hfree' hk
  exact {
    working := h.working
    split := h.split
    inside := fun k hk => by
      rw [hfind (by simp [hk]), Function.update_apply, Function.update_apply, h.inside k hk,
        h.inside src hsrc]
      simp
    outside := fun k hk => by
      by_cases hnil : k = []
      · rw [hnil, find?_nil, find?_nil]
      · rw [hfind hnil, if_neg (hk dst hdst), if_neg (hk src hsrc), h.outside k hk] }

end Beneath

end GameInstaller.Disk
