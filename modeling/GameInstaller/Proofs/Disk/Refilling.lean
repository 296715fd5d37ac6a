import GameInstaller.Proofs.Disk.Leading
import GameInstaller.Proofs.Disk.Sharing

/-!
# Files that get another content

When a file is written to, everything stays where it is, and files keep the names that they had.  The
content changes under all names of the file, and nothing else does.

* `Refills`  everything is where it was, and files have the names that they had
* `OneFile`  two locations are names of one file
* `Avoids`   a path leads to another file than the one at a location

## Key results

- `find?_setContent_of_not_oneFile`, `bytesAt_setContent_of_oneFile`: what a new content changes
- `copyFile_shuns`: copying to a file leaves everything alone that the path avoids
-/

namespace GameInstaller.Disk

variable {d d₁ d₂ d' : Disk} {p : Path} {k l : Location}

/-! ## Files that are refilled -/

/-- A node without the content of a file, which keeps its link number. -/
def Node.shape : Node → Node
  | file _ _ shared => file ByteArray.empty 0 shared
  | n => n

theorem Node.outline_shape (n : Node) : n.shape.outline = n.outline := by cases n <;> rfl

theorem Node.shape_refill (id : Nat) (content : ByteArray) (mode : Nat) (n : Node) :
    (n.refill id content mode).shape = n.shape := by
  cases n with
  | dir | link target => rfl
  | file c m shared =>
    cases shared with
    | none => rfl
    | some i =>
      by_cases hi : i = id
      · simp [Node.refill, Node.shape, hi]
      · simp [Node.refill, hi]

theorem Node.eq_file_of_shape {n : Node} {c : ByteArray} {m : Nat} {shared : Option Nat}
    (h : n.shape = (Node.file c m shared).shape) : ∃ c' m', n = .file c' m' shared := by
  cases n with
  | dir | link target => cases h
  | file c' m' shared' =>
    cases h
    exact ⟨c', m', rfl⟩

/-- Everything is where it was; files may have another content, and have the names that they had. -/
structure Refills (d d' : Disk) : Prop where
  working : d'.working = d.working
  keeps : ∀ l n, d.find? l = some n → ∃ n', d'.find? l = some n' ∧ n'.shape = n.shape

namespace Refills

theorem refl : Refills d d := ⟨rfl, fun _ n h => ⟨n, h, rfl⟩⟩

theorem trans (h : Refills d d₁) (h' : Refills d₁ d₂) : Refills d d₂ where
  working := h'.working.trans h.working
  keeps l n hn := by
    obtain ⟨n₁, hn₁, hshape⟩ := h.keeps l n hn
    obtain ⟨n₂, hn₂, hshape'⟩ := h'.keeps l n₁ hn₁
    exact ⟨n₂, hn₂, hshape'.trans hshape⟩

theorem extending (h : Refills d d') : Extends d d' where
  working := h.working
  keeps l n hn := by
    rw [find?_outline] at hn ⊢
    obtain ⟨m, hm, rfl⟩ := Option.map_eq_some_iff.mp hn
    obtain ⟨m', hm', hshape⟩ := h.keeps l m hm
    rw [hm', Option.map_some, ← m'.outline_shape, hshape, m.outline_shape]

/-- A file is still there, and has the link number that it had. -/
theorem file (h : Refills d d') {c : ByteArray} {m : Nat} {shared : Option Nat}
    (hl : d.find? l = some (.file c m shared)) : ∃ c' m', d'.find? l = some (.file c' m' shared) := by
  obtain ⟨n, hn, hshape⟩ := h.keeps l _ hl
  obtain ⟨c', m', rfl⟩ := Node.eq_file_of_shape hshape
  exact ⟨c', m', hn⟩

/-- Something may be put where nothing was. -/
theorem set (hl : d.find? l = none) (n : Node) : Refills d (d.set l n) :=
  ⟨rfl, fun _ m hm => ⟨m, find?_set_of_some hl hm n, rfl⟩⟩

theorem setContent {c : ByteArray} {m : Nat} {shared : Option Nat} (hl : l ≠ [])
    (hfile : d.find? l = some (.file c m shared)) (content : ByteArray) (mode : Nat) :
    Refills d (d.setContent l content mode shared) where
  working := by cases shared <;> rfl
  keeps k n hn := by
    by_cases hk : k = l
    · subst hk
      obtain rfl := Option.some.inj (hn.symm.trans hfile)
      exact ⟨_, find?_setContent_self hl hfile content mode, rfl⟩
    · cases shared with
      | none => exact ⟨n, by rw [Disk.setContent, find?_set_of_ne _ hk, hn], rfl⟩
      | some id =>
        exact ⟨_, by rw [find?_setContent_shared, hn, Option.map_some], n.shape_refill id content mode⟩

end Refills

theorem AddsDirs.refills (h : AddsDirs d d') : Refills d d' where
  working := h.working
  keeps l n hn := by
    rcases h.dirs l with hsame | ⟨hnone, -⟩
    · exact ⟨n, by rw [hsame, hn], rfl⟩
    · rw [hn] at hnone
      cases hnone

/-- Directories that were made are not in the place of anything. -/
theorem AddsDirs.find?_eq (h : AddsDirs d d') {n : Node} (hl : d.find? l = some n) :
    d'.find? l = some n := by
  rcases h.dirs l with hsame | ⟨hnone, -⟩
  · rw [hsame, hl]
  · rw [hl] at hnone
    cases hnone

/-- Two locations are names of one file, if they are not the same. -/
def OneFile (d : Disk) (k l : Location) : Prop :=
  k = l ∨ ∃ c m c' m' id,
    d.find? k = some (.file c m (some id)) ∧ d.find? l = some (.file c' m' (some id))

theorem OneFile.refl (d : Disk) (l : Location) : OneFile d l l := .inl rfl

theorem OneFile.refills (h : OneFile d k l) (hd : Refills d d') : OneFile d' k l := by
  rcases h with rfl | ⟨c, m, c', m', id, hk, hl⟩
  · exact .refl d' k
  · obtain ⟨c₁, m₁, hk'⟩ := hd.file hk
    obtain ⟨c₂, m₂, hl'⟩ := hd.file hl
    exact .inr ⟨c₁, m₁, c₂, m₂, id, hk', hl'⟩

/-- Files get no new names when their contents are changed. -/
theorem OneFile.of_refills (hd : Refills d d') {n m : Node} (hk : d.find? k = some n)
    (hl : d.find? l = some m) (h : OneFile d' k l) : OneFile d k l := by
  rcases h with rfl | ⟨c, mode, c', mode', id, hk', hl'⟩
  · exact .refl d k
  · obtain ⟨n', hn', hshape⟩ := hd.keeps k n hk
    obtain ⟨m', hm', hshape'⟩ := hd.keeps l m hl
    obtain rfl := Option.some.inj (hk'.symm.trans hn')
    obtain rfl := Option.some.inj (hl'.symm.trans hm')
    obtain ⟨c₁, m₁, rfl⟩ := Node.eq_file_of_shape hshape.symm
    obtain ⟨c₂, m₂, rfl⟩ := Node.eq_file_of_shape hshape'.symm
    exact .inr ⟨c₁, m₁, c₂, m₂, id, hk, hl⟩

/-- The content of a file is changed under all of its names. -/
theorem bytesAt_setContent_of_oneFile {c : ByteArray} {m : Nat} {shared : Option Nat} (hk : k ≠ [])
    (hfile : d.find? k = some (.file c m shared)) (h : OneFile d k l) (content : ByteArray)
    (mode : Nat) : (d.setContent k content mode shared).bytesAt l = content := by
  rcases h with rfl | ⟨c₁, m₁, c₂, m₂, id, hk', hl⟩
  · rw [bytesAt, find?_setContent_self hk hfile]
  · obtain ⟨-, -, rfl⟩ := Node.file.inj (Option.some.inj (hfile.symm.trans hk'))
    rw [bytesAt, find?_setContent_shared, hl, Option.map_some, Node.refill, if_pos rfl]

/-- The content of a file is changed under its names only. -/
theorem find?_setContent_of_not_oneFile {c : ByteArray} {m : Nat} {shared : Option Nat}
    (hfile : d.find? k = some (.file c m shared)) (h : ¬ OneFile d k l) (content : ByteArray)
    (mode : Nat) : (d.setContent k content mode shared).find? l = d.find? l := by
  have hne : l ≠ k := fun hl => h (.inl hl.symm)
  cases shared with
  | none => rw [setContent, find?_set_of_ne _ hne]
  | some id =>
    rw [find?_setContent_shared]
    cases hl : d.find? l with
    | none => rfl
    | some n =>
      cases n with
      | dir | link target => rfl
      | file c' m' shared' =>
        cases shared' with
        | none => rfl
        | some i =>
          by_cases hi : i = id
          · subst hi
            exact absurd (.inr ⟨c, m, c', m', i, hfile, hl⟩) h
          · simp [Node.refill, hi]

/-! ## Calls that write to files -/

/-- An update fails, or gives a file another content, or makes one. -/
theorem update_cases (p : Path) (change : ByteArray → ByteArray) (mode : Nat) (d : Disk) :
    (∃ e, outcome (update p change mode) d = (.error e, d)) ∨
      (∃ r c m shared, d.resolve .follow p = .ok r ∧ r.node = some (.file c m shared) ∧
        outcome (update p change mode) d =
          (.ok (), d.setContent r.location (change c) m shared)) ∨
      ∃ r, d.resolve .follow p = .ok r ∧ r.node = none ∧ r.slash = false ∧
        outcome (update p change mode) d =
          (.ok (), d.set r.location (.file (change ByteArray.empty) mode none)) := by
  unfold update
  rw [outcome_bind, outcome_find]
  cases hr : d.resolve .follow p with
  | error e => exact .inl ⟨e, rfl⟩
  | ok r =>
    dsimp only
    split
    · exact .inr (.inl ⟨r, _, _, _, rfl, ‹_›, rfl⟩)
    · exact .inl ⟨_, rfl⟩
    · rename_i hn
      split
      · exact .inl ⟨_, rfl⟩
      · rename_i hslash
        exact .inr (.inr ⟨r, rfl, hn, by simpa using hslash, rfl⟩)

/-- A change of permission bits changes nothing, or those of a file. -/
theorem chmod_cases (p : Path) (mode : Nat) (d : Disk) :
    (outcome (chmod p mode) d).2 = d ∨
      ∃ r c m shared, d.resolve .follow p = .ok r ∧ r.node = some (.file c m shared) ∧
        outcome (chmod p mode) d = (.ok (), d.setContent r.location c mode shared) := by
  unfold chmod
  rw [outcome_bind, outcome_find]
  cases hr : d.resolve .follow p with
  | error e => exact .inl rfl
  | ok r =>
    dsimp only
    split
    · exact .inr ⟨r, _, _, _, rfl, ‹_›, rfl⟩
    · exact .inl rfl
    · exact .inl rfl


/-! ## Calls that refill -/

instance : IsPreorder Disk Refills where
  refl _ := .refl
  trans _ _ _ := .trans

theorem Addition.refills (h : Addition d d') : Refills d d' := by
  cases h with
  | same => exact .refl
  | entry _ hnone n => exact .set hnone n
  | content hl hfile content mode => exact .setContent hl hfile content mode

theorem Adds.refills {ε α : Type} [Collides ε] {x : Call ε α} (hx : Adds x) : Leads Refills x := by
  intro d
  rcases hx d with ⟨e, -, h⟩ | ⟨a, d', hadd, h⟩
  · rw [h]
    exact .refl
  · rw [h]
    exact hadd.refills

theorem copyFile_refills (src dst : Path) : Leads Refills (copyFile src dst) :=
  .copyFile (fun change mode => (update_adds dst change mode).refills)
    fun mode => (chmod_adds dst mode).refills

/-! ## Calls that avoid a file -/

/-- If a path leads to a file, it is another one than that at a location. -/
def Avoids (d : Disk) (p : Path) (l : Location) : Prop := ∀ k, FileAt d p k → ¬ OneFile d k l

theorem Avoids.refills (h : Avoids d p l) (hd : Refills d d') {n : Node}
    (hl : d.find? l = some n) (hp : FileAt d p k) : Avoids d' p l := by
  intro k' hk' hone
  -- The path still leads to the file that it led to before.
  obtain rfl := (hd.extending.fileAt hp).unique hk'
  obtain ⟨-, c, m, shared, hfile⟩ := hp.find?
  exact h k hp (hone.of_refills hd hfile hl)

/-- When a path avoids what is at a location, it is left alone there, and the path still avoids it. -/
def Shuns (p : Path) (l : Location) (d d' : Disk) : Prop :=
  ∀ n, d.find? l = some n → Avoids d p l → d'.find? l = some n ∧ Avoids d' p l

instance (p : Path) (l : Location) : IsPreorder Disk (Shuns p l) where
  refl _ _ hl h := ⟨hl, h⟩
  trans _ _ _ h h' n hl havoids :=
    have hmid := h n hl havoids
    h' n hmid.1 hmid.2

theorem shuns_setContent {r : Resolved} {c : ByteArray} {m : Nat} {shared : Option Nat}
    (hr : d.resolve .follow p = .ok r) (hn : r.node = some (.file c m shared))
    (content : ByteArray) (mode : Nat) :
    Shuns p l d (d.setContent r.location content mode shared) := by
  intro n hl h
  obtain ⟨-, hne, hfind⟩ := resolve_entry d _ hr (by simp [hn])
  have hfile := hfind.trans hn
  have hp : FileAt d p r.location := ⟨r, c, m, shared, hr, rfl, hn⟩
  refine ⟨?_, h.refills (.setContent hne hfile content mode) hl hp⟩
  rw [find?_setContent_of_not_oneFile hfile (h _ hp), hl]

theorem update_shuns (p : Path) (l : Location) (change : ByteArray → ByteArray) (mode : Nat) :
    Leads (Shuns p l) (update p change mode) := by
  intro d
  rcases update_cases p change mode d with ⟨e, hout⟩ | ⟨r, c, m, shared, hr, hn, hout⟩ |
    ⟨r, hr, hn, hslash, hout⟩
  · rw [hout]
    exact refl_of (Shuns p l) d
  · rw [hout]
    exact shuns_setContent hr hn _ _
  · intro n hl _
    obtain ⟨-, hne, hfind⟩ := resolve_entry d _ hr (by simp [hn])
    have hnone := hfind.trans hn
    rw [hout]
    refine ⟨find?_set_of_some hnone hl _, fun k hk hone => ?_⟩
    -- The path leads to the file that was made, which has one name.
    have hnew := resolve_set hr hn hslash (change ByteArray.empty) mode none
    obtain rfl := hk.unique ⟨_, _, _, _, hnew, rfl, rfl⟩
    rcases hone with rfl | ⟨c, m, c', m', id, hk', -⟩
    · rw [hnone] at hl
      cases hl
    · rw [find?_set, if_neg hne, if_pos rfl] at hk'
      cases hk'

theorem chmod_shuns (p : Path) (l : Location) (mode : Nat) :
    Leads (Shuns p l) (chmod p mode) := by
  intro d
  rcases chmod_cases p mode d with hsame | ⟨r, c, m, shared, hr, hn, hout⟩
  · rw [hsame]
    exact refl_of (Shuns p l) d
  · rw [hout]
    exact shuns_setContent hr hn _ _

/-- Copying to a file leaves everything alone that the path avoids. -/
theorem copyFile_shuns (src dst : Path) (l : Location) : Leads (Shuns dst l) (copyFile src dst) :=
  .copyFile (update_shuns dst l) (chmod_shuns dst l)

/-! ## Paths to files -/

/-- A file that a path leads to gets another content, under all of its names. -/
theorem outcome_update_of_fileAt (h : FileAt d p k) (change : ByteArray → ByteArray) (mode : Nat) :
    ∃ d', outcome (update p change mode) d = (.ok (), d') ∧ Refills d d' ∧
      ∀ l, OneFile d k l → d'.bytesAt l = change (d.bytesAt k) := by
  obtain ⟨r, c, m, shared, hr, rfl, hn⟩ := h
  obtain ⟨-, hne, hfind⟩ := resolve_entry d _ hr (by simp [hn])
  have hfile := hfind.trans hn
  have hbytes : d.bytesAt r.location = c := by rw [bytesAt, hfile]
  refine ⟨_, outcome_update_of_file hr hn change mode, .setContent hne hfile _ _, fun l hone => ?_⟩
  rw [bytesAt_setContent_of_oneFile hne hfile hone, hbytes]

/-- A file that a path leads to gets other permission bits, under all of its names. -/
theorem outcome_chmod_of_fileAt (h : FileAt d p k) (mode : Nat) :
    ∃ d' shared, outcome (chmod p mode) d = (.ok (), d') ∧
      d'.find? k = some (.file (d.bytesAt k) mode shared) ∧
      ∀ l, OneFile d k l → d'.bytesAt l = d.bytesAt k := by
  obtain ⟨r, c, m, shared, hr, rfl, hn⟩ := h
  obtain ⟨-, hne, hfind⟩ := resolve_entry d _ hr (by simp [hn])
  have hfile := hfind.trans hn
  have hbytes : d.bytesAt r.location = c := by rw [bytesAt, hfile]
  have hchmod : outcome (chmod p mode) d = (.ok (), d.setContent r.location c mode shared) := by
    unfold chmod
    rw [outcome_bind, outcome_find, hr]
    dsimp only
    rw [hn]
    rfl
  refine ⟨_, shared, hchmod, ?_, fun l hone => ?_⟩
  · rw [find?_setContent_self hne hfile, hbytes]
  · rw [bytesAt_setContent_of_oneFile hne hfile hone, hbytes]

theorem outcome_readBytes_of_fileAt (h : FileAt d p l) :
    outcome (readBytes p) d = (.ok (d.bytesAt l), d) := by
  obtain ⟨r, c, m, shared, hr, rfl, hn⟩ := h
  obtain ⟨-, -, hfind⟩ := resolve_entry d _ hr (by simp [hn])
  rw [outcome_readBytes_of_file hr hn, bytesAt, hfind, hn]

/-- A file is copied by emptying the target, reading the source, and writing what was read. -/
theorem outcome_copyFile_of_file {src : Path} {r : Resolved} {c : ByteArray} {m : Nat}
    {shared : Option Nat} (hr : d.resolve .follow src = .ok r)
    (hn : r.node = some (.file c m shared)) (dst : Path) :
    outcome (copyFile src dst) d = outcome (do
      update dst (fun _ => ByteArray.empty) m
      let content ← readBytes src
      update dst (fun _ => content) m
      chmod dst m) d := by
  unfold copyFile
  rw [outcome_bind, outcome_find, hr]
  dsimp only
  rw [hn]

/-- A file that is copied to where nothing is is a new file there. -/
theorem outcome_copyFile_new {src dst : Path} {s r : Resolved} {c : ByteArray} {m : Nat} {shared : Option Nat}
    (hs : d.resolve .follow src = .ok s) (hfile : s.node = some (.file c m shared))
    (hr : d.resolve .follow dst = .ok r) (hn : r.node = none) (hslash : r.slash = false) :
    outcome (copyFile src dst) d = (.ok (), d.set r.location (.file c m none)) := by
  obtain ⟨-, -, hfind⟩ := resolve_entry d _ hr (by simp [hn])
  have hmade := outcome_update_of_none hr hn hslash (fun _ => ByteArray.empty) m
  have hnew := resolve_set hr hn hslash ByteArray.empty m none
  -- The source is read when the target is there already.
  have hkeeps (l : Location) (n : Node) (hl : d.find? l = some n) :
      (d.set r.location (.file ByteArray.empty m none)).find? l = some n :=
    find?_set_of_some (hfind.trans hn) hl _
  have hs' := resolve_mono hkeeps rfl hs (by simp [hfile])
  have hread := outcome_readBytes_of_file hs' hfile
  have hwrite := outcome_update_of_file hnew rfl (fun _ => c) m
  have hchmod : outcome (chmod dst m) (d.set r.location (.file c m none)) =
      (.ok (), d.set r.location (.file c m none)) := by
    unfold chmod
    rw [outcome_bind, outcome_find, resolve_set hr hn hslash c m none]
    dsimp only
    rw [outcome_modify, setContent, set_set]
  rw [outcome_copyFile_of_file hs hfile, outcome_bind_of_ok hmade, outcome_bind_of_ok hread,
    outcome_bind_of_ok hwrite]
  dsimp only
  rw [setContent, set_set, hchmod]

/-- Only a file is copied as one. -/
theorem copyFile_cases (src dst : Path) (d : Disk) :
    (∃ e, outcome (copyFile src dst) d = (.error e, d)) ∨ ∃ k, FileAt d src k := by
  unfold copyFile
  rw [outcome_bind, outcome_find]
  cases hr : d.resolve .follow src with
  | error e => exact .inl ⟨e, rfl⟩
  | ok r =>
    dsimp only
    split
    · exact .inl ⟨_, rfl⟩
    · exact .inl ⟨_, rfl⟩
    · exact .inl ⟨_, rfl⟩
    · exact .inr ⟨r.location, r, _, _, _, hr, rfl, ‹_›⟩

/-- What was copied as a file is one. -/
theorem fileAt_of_copyOne {src dst : Path} (h : outcome (copyOne src dst) d = (.ok (), d')) :
    ∃ l, FileAt d' src l := by
  obtain ⟨⟨⟩, d₁, -, hcopy⟩ := outcome_bind_eq_ok.mp h
  rw [outcome_about_eq_ok] at hcopy
  have hrefills := copyFile_refills src dst d₁
  rw [hcopy] at hrefills
  rcases copyFile_cases src dst d₁ with ⟨e, hfailed⟩ | ⟨l, hsrc⟩
  · rw [hfailed] at hcopy
    cases hcopy
  · exact ⟨l, hrefills.extending.fileAt hsrc⟩

end GameInstaller.Disk
