import GameInstaller.Proofs.Disk.Relocating

/-!
# Changes at leaves

A walk goes on behind directories and links only.  So when a disk changes at places where nothing or
a file is, paths lead where they led, except that what is at the end of those that end there is new.
Giving a file its content, and renaming it in place of another one, are such changes.

* `Leaf`        nothing is at a place, or a file
* `LeafChange`  a disk changed at leaves only
* `Filled`      the file that a path names was given a content
* `Replaced`    a file was renamed in place of what was at another place

## Key results

- `LeafChange.resolve`: where paths lead after a change
- `writeBytes_filled`: what writing to a file under one name does
- `rename_replaced`: what renaming such a file does
-/

namespace GameInstaller.Disk

variable {d d' : Disk} {p q : Path} {k l S T : Location} {X : Location → Prop}

/-! ## Walks -/

/-- Nothing is at a place, or a file. -/
def Leaf (d : Disk) (l : Location) : Prop :=
  d.find? l = none ∨ ∃ c m shared, d.find? l = some (.file c m shared)

theorem Leaf.not_dir (h : Leaf d l) : d.find? l ≠ some .dir := by
  rintro hdir
  rcases h with hnone | ⟨_, _, _, hfile⟩
  · simp [hdir] at hnone
  · simp [hdir] at hfile

theorem leaf_of_not (hdir : d.find? l ≠ some .dir) (hlink : ∀ target, d.find? l ≠ some (.link target)) :
    Leaf d l := by
  cases hl : d.find? l with
  | none => exact .inl hl
  | some n =>
    cases n with
    | dir => exact absurd hl hdir
    | file c m shared => exact .inr ⟨c, m, shared, hl⟩
    | link target => exact absurd hl (hlink target)

theorem Leaf.not_link (h : Leaf d l) (target : String) : d.find? l ≠ some (.link target) := by
  rintro hlink
  rcases h with hnone | ⟨_, _, _, hfile⟩
  · simp [hlink] at hnone
  · simp [hlink] at hfile

/-- A path may end at a leaf if no slash is behind it. -/
theorem Leaf.ends (h : Leaf d l) : Ends .follow false (d.find? l) := by
  rcases h with hnone | ⟨_, _, _, hfile⟩
  · rw [hnone]
    trivial
  · rw [hfile]
    exact .inl rfl

/-- A disk changed at places of a kind only, all of which were leaves. -/
structure LeafChange (X : Location → Prop) (d d' : Disk) : Prop where
  working : d'.working = d.working
  others : ∀ l, ¬ X l → d'.find? l = d.find? l
  leaf : ∀ l, X l → Leaf d l

/-- A walk that ends at an entry may end there. -/
theorem walk_ends {final : Final} {links : Nat} {cur : Location} {slash : Bool} {names : List String}
    {r : Resolved} (h : walk d final links cur slash names = .ok r) : Ends final r.slash r.node := by
  fun_induction walk d final links cur slash names with
  | case1 | case5 | case7 =>
    cases h
    trivial
  | case2 _ _ _ _ ih | case3 _ _ _ _ _ ih | case8 _ _ _ _ _ _ _ _ _ _ _ ih
  | case13 _ _ _ _ _ _ _ _ _ _ _ _ ih => exact ih h
  | case4 | case6 | case10 | case12 => cases h
  | case9 _ _ _ _ _ _ _ _ _ _ _ _ _ hrest | case11 _ _ _ _ _ _ _ _ _ _ _ hrest =>
    cases h
    simp_all [Ends]

/-- A walk comes to where it came, unless it ends at a place that changed; then it comes there if it
    may end at what is there now. -/
theorem walk_leaves (h : LeafChange X d d') {final : Final} {links : Nat} {cur : Location}
    {slash : Bool} {names : List String} {r : Resolved}
    (hr : walk d final links cur slash names = .ok r) :
    walk d' final links cur slash names = .ok r ∨ (X r.location ∧ r.dots = false ∧
      (Ends final r.slash (d'.find? r.location) →
        walk d' final links cur slash names = .ok { r with node := d'.find? r.location })) := by
  fun_induction walk d final links cur slash names with
  | case1 =>
    rw [walk]
    exact .inl hr
  | case2 _ _ _ _ ih | case3 _ _ _ _ _ ih =>
    rw [walk]
    simpa using ih hr
  | case4 | case6 | case10 | case12 => cases hr
  | case5 links cur slash name rest hdot hup hlen here hhere hrest
  | case7 links cur slash name rest hdot hup hlen here hhere hrest
  | case9 links cur slash name rest hdot hup hlen here _ _ _ hhere hrest
  | case11 links cur slash name rest hdot hup hlen here _ hhere hrest =>
    cases hr
    -- The walk ends at this name, where the node may be another one now.
    by_cases hX : X here
    · obtain rfl : rest = [] := by simp_all
      refine .inr ⟨hX, rfl, fun hends => ?_⟩
      rw [walk_cons _ _ hdot hup hlen, walkAt_of_ends hends]
    · rw [walk_cons _ _ hdot hup hlen, h.others _ hX, hhere]
      exact .inl (by simp [walkAt, hrest, here])
  | case8 _ _ _ _ _ hdot hup hlen here hhere hrest ih =>
    have hX : ¬ X here := fun hX => (h.leaf _ hX).not_dir hhere
    rw [walk_cons _ _ hdot hup hlen, h.others _ hX, hhere]
    simpa [walkAt, hrest] using ih hr
  | case13 _ _ _ _ hdot hup hlen here target hhere hrest links ih =>
    have hX : ¬ X here := fun hX => (h.leaf _ hX).not_link _ hhere
    rw [walk_cons _ _ hdot hup hlen, h.others _ hX, hhere]
    simpa [walkAt, hrest] using ih hr

/-- A walk that takes a link for itself may end at whatever is there. -/
theorem ends_entry (slash : Bool) (n : Option Node) : Ends .entry slash n := by
  match n with
  | none | some .dir => trivial
  | some (.file ..) => exact .inr rfl
  | some (.link _) => exact .inl rfl

theorem resolve_ends {final : Final} {r : Resolved} (hr : d.resolve final p = .ok r) :
    Ends final r.slash r.node := by
  rcases resolve_cases p with ⟨e, -, -, he⟩ | hwalk
  · rw [he] at hr
    cases hr
  · rw [hwalk, mapError_eq_ok] at hr
    exact walk_ends hr

namespace LeafChange

/-- A path leads where it led, unless it ends at a place that changed; then it leads there if it may
    end at what is there now. -/
theorem resolve (h : LeafChange X d d') {final : Final} {r : Resolved}
    (hr : d.resolve final p = .ok r) :
    d'.resolve final p = .ok r ∨ (X r.location ∧ r.dots = false ∧
      (Ends final r.slash (d'.find? r.location) →
        d'.resolve final p = .ok { r with node := d'.find? r.location })) := by
  rcases resolve_cases p with ⟨e, -, -, he⟩ | hwalk
  · rw [he] at hr
    cases hr
  · rw [hwalk, mapError_eq_ok] at hr
    simp only [hwalk, mapError_eq_ok, h.working]
    exact walk_leaves h hr

/-- A path that names an entry names the one that is there now. -/
theorem resolve_entry (h : LeafChange X d d') {r : Resolved} (hr : d.resolve .entry p = .ok r)
    (hdots : r.dots = false) :
    d'.resolve .entry p = .ok { r with node := d'.find? r.location } := by
  rcases h.resolve hr with hr' | ⟨-, -, hr'⟩
  · rw [hr', (node_of_resolve hr' hdots).2]
  · exact hr' (ends_entry _ _)

/-- A path names the entry at the place that it named. -/
theorem entryAt (h : LeafChange X d d') (hl : EntryAt d p l) : EntryAt d' p l := by
  obtain ⟨r, hr, rfl, hdots⟩ := hl
  exact ⟨_, h.resolve_entry hr hdots, rfl, hdots⟩

/-- What leads to a leaf that changed led there before, if all of them are leaves still. -/
theorem location (h : LeafChange X d d') (hleaf : ∀ l, X l → Leaf d' l) {r : Resolved}
    (hr : d.resolve .follow p = .ok r) (hX : X r.location) (hn : r.node ≠ none) :
    ∃ r', d'.resolve .follow p = .ok r' ∧ r'.location = r.location := by
  rcases h.resolve hr with hr' | ⟨-, hdots, hr'⟩
  · exact ⟨r, hr', rfl⟩
  · refine ⟨_, hr' ?_, rfl⟩
    obtain ⟨-, hfind⟩ := node_of_resolve hr hdots
    have hends := resolve_ends hr
    -- The path ended at a file, so no slash is behind it.
    rcases h.leaf _ hX with hnone | ⟨_, _, _, hfile⟩
    · exact absurd (hfind.symm.trans hnone) hn
    · rw [← hfind, hfile] at hends
      rcases hleaf _ hX with hnone' | ⟨_, _, _, hfile'⟩
      · rw [hnone']
        trivial
      · rw [hfile']
        exact hends

theorem symm (h : LeafChange X d d') (hleaf : ∀ l, X l → Leaf d' l) : LeafChange X d' d :=
  ⟨h.working.symm, fun l hl => (h.others l hl).symm, hleaf⟩

end LeafChange

theorem stat_eq_ok_iff {final : Final} {n : Node} :
    d.stat final p = .ok n ↔ ∃ r, d.resolve final p = .ok r ∧ r.node = some n := by
  unfold stat
  cases d.resolve final p with
  | error e => simp
  | ok r => cases hn : r.node <;> simp [hn]

/-- A path that does not lead to a place that changed leads to what it led to, and to nothing else. -/
theorem LeafChange.stat_iff (h : LeafChange X d d') (hleaf : ∀ l, X l → Leaf d' l)
    (hled : ∀ r, d.resolve .follow p = .ok r → ¬ X r.location) (n : Node) :
    d'.stat .follow p = .ok n ↔ d.stat .follow p = .ok n := by
  rw [stat_eq_ok_iff, stat_eq_ok_iff]
  constructor
  · rintro ⟨r, hr, hn⟩
    have hback := h.symm hleaf
    rcases hback.resolve hr with hr' | ⟨hX, -⟩
    · exact ⟨r, hr', hn⟩
    · obtain ⟨r', hr', hsame⟩ := hback.location h.leaf hr hX (by simp [hn])
      exact absurd (hsame ▸ hX) (hled r' hr')
  · rintro ⟨r, hr, hn⟩
    rcases h.resolve hr with hr' | ⟨hX, -⟩
    · exact ⟨r, hr', hn⟩
    · exact absurd hX (hled r hr)

/-! ## Files under one name -/

/-- What is at a place is under no other name. -/
def Alone (d : Disk) (l : Location) : Prop := ∀ k, OneFile d l k → k = l

theorem alone_of_none (h : d.find? l = none) : Alone d l := by
  rintro k (hsame | ⟨_, _, _, _, _, hfile, -⟩)
  · exact hsame.symm
  · rw [h] at hfile
    cases hfile

theorem EntryAt.unique (h : EntryAt d p l) (h' : EntryAt d p k) : l = k := by
  obtain ⟨r, hr, rfl, -⟩ := h
  obtain ⟨r', hr', rfl, -⟩ := h'
  rw [Except.ok.inj (hr.symm.trans hr')]

/-- A path to what is neither directory nor link names it. -/
theorem entryAt_of_follow {r : Resolved} (hr : d.resolve .follow p = .ok r)
    (hn : r.node ≠ some .dir)
    (hlink : ∀ S target, EntryAt d p S → d.find? S ≠ some (.link target)) :
    EntryAt d p r.location := by
  obtain ⟨r', hr', rfl | ⟨target, htarget⟩⟩ := resolve_entry_of_ok hr
  · exact ⟨r', hr', rfl, (resolve_entry _ _ hr hn).1⟩
  · obtain ⟨hdots, -, hfind⟩ := resolve_entry _ _ hr' (by simp [htarget])
    exact absurd (hfind.trans htarget) (hlink _ target ⟨r', hr', rfl, hdots⟩)

/-- The file that a path names was given a content, or made with it, and nothing else changed. -/
structure Filled (d d' : Disk) (p : Path) (S : Location) (content : ByteArray) : Prop where
  entry : EntryAt d p S
  change : LeafChange (· = S) d d'
  file : ∃ m shared, d'.find? S = some (.file content m shared)
  alone : Alone d' S
  split : d'.split = d.split
  tree : Tree d'

theorem filled_set (htree : Tree d) (hS : EntryAt d p S) (hnone : d.find? S = none)
    (content : ByteArray) (mode : Nat) :
    Filled d (d.set S (.file content mode none)) p S content := by
  have hself : (d.set S (.file content mode none)).find? S = some (.file content mode none) := by
    rw [find?_set, if_neg hS.ne_nil, if_pos rfl]
  have hparent : Proper S ∧ d.find? S.dropLast = some .dir := by
    obtain ⟨r, hr, rfl, -⟩ := hS
    exact ⟨htree.resolve_proper hr, (htree.resolve_ok hr).2⟩
  exact {
    entry := hS
    change := ⟨rfl, fun l hl => find?_set_of_ne d hl _, fun l hl => .inl (hl ▸ hnone)⟩
    file := ⟨mode, none, hself⟩
    alone := by
      rintro k (hsame | ⟨_, _, _, _, _, hfile, -⟩)
      · exact hsame.symm
      · rw [hself] at hfile
        cases hfile
    split := rfl
    tree := htree.set hparent.1 hnone hparent.2 _ }

theorem filled_setContent (htree : Tree d) (hS : EntryAt d p S) {c : ByteArray} {m : Nat}
    {shared : Option Nat} (hfile : d.find? S = some (.file c m shared)) (halone : Alone d S)
    (content : ByteArray) (mode : Nat) :
    Filled d (d.setContent S content mode shared) p S content := by
  have hself := find?_setContent_self hS.ne_nil hfile content mode
  have hothers (l : Location) (hl : l ≠ S) :
      (d.setContent S content mode shared).find? l = d.find? l := by
    cases shared with
    | none => exact find?_set_of_ne d hl _
    | some id =>
      -- Another name with the link number would be one of the same file.
      rw [find?_setContent_shared]
      cases hn : d.find? l with
      | none => rfl
      | some n =>
        cases n with
        | dir | link target => rfl
        | file c' m' shared' =>
          cases shared' with
          | none => rfl
          | some i =>
            have hi : i ≠ id := by
              rintro rfl
              exact hl (halone l (.inr ⟨_, _, _, _, _, hfile, hn⟩))
            exact congrArg some (if_neg hi)
  exact {
    entry := hS
    change := ⟨by cases shared <;> rfl, hothers, fun l hl => .inr ⟨c, m, shared, hl ▸ hfile⟩⟩
    file := ⟨mode, shared, hself⟩
    alone := by
      rintro k (hsame | ⟨_, _, c', m', id, hS', hk⟩)
      · exact hsame.symm
      · by_contra hne
        obtain ⟨-, -, rfl⟩ := Node.file.inj (Option.some.inj (hself.symm.trans hS'))
        rw [hothers k hne] at hk
        exact hne (halone k (.inr ⟨_, _, _, _, _, hfile, hk⟩))
    split := by cases shared <;> rfl
    tree := htree.setContent hS.ne_nil hfile content mode }

/-- Writing to what is no link and under one name fills the file there. -/
theorem writeBytes_filled {content : ByteArray} (htree : Tree d)
    (hok : outcome (writeBytes p content) d = (.ok (), d'))
    (hlink : ∀ S target, EntryAt d p S → d.find? S ≠ some (.link target))
    (halone : ∀ S, EntryAt d p S → Alone d S) : ∃ S, Filled d d' p S content := by
  have hentry {r : Resolved} (hr : d.resolve .follow p = .ok r) (hn : r.node ≠ some .dir) :
      EntryAt d p r.location ∧ d.find? r.location = r.node :=
    ⟨entryAt_of_follow hr hn hlink, (resolve_entry _ _ hr hn).2.2⟩
  rw [writeBytes] at hok
  rcases update_cases p (fun _ => content) newFileMode d with ⟨e, hout⟩ |
    ⟨r, c, m, shared, hr, hn, hout⟩ | ⟨r, hr, hn, -, hout⟩
  · rw [hout] at hok
    cases hok
  · rw [hout] at hok
    cases hok
    obtain ⟨hS, hfind⟩ := hentry hr (by simp [hn])
    exact ⟨_, filled_setContent htree hS (hfind.trans hn) (halone _ hS) content m⟩
  · rw [hout] at hok
    cases hok
    obtain ⟨hS, hfind⟩ := hentry hr (by simp [hn])
    exact ⟨_, filled_set htree hS (hfind.trans hn) content newFileMode⟩

/-! ## Renaming a file -/

/-- Renaming what has nothing beneath it changes nothing but at the two places. -/
theorem Relocated.others_of_bare (h : Relocated d d' S T) (hS : ∀ j ≠ [], d.find? (S ++ j) = none)
    (hT : ∀ j ≠ [], d.find? (T ++ j) = none) {l : Location} (hlS : l ≠ S) (hlT : l ≠ T) :
    d'.find? l = d.find? l := by
  by_cases hbelow : S <+: l
  · obtain ⟨j, rfl⟩ := hbelow
    rw [h.gone, hS j (by simpa using hlS)]
  by_cases hbelow' : T <+: l
  · obtain ⟨j, rfl⟩ := hbelow'
    have hj : j ≠ [] := by simpa using hlT
    rw [h.arrived, hS j hj, hT j hj]
  · exact h.others l hbelow hbelow'

theorem Renamed.working {src dst : Path} (h : Renamed d d' src dst S T) :
    d'.working = d.working := by
  rcases h.result with ⟨-, rfl⟩ | ⟨-, -, -, rfl⟩ <;> rfl

/-- A file was renamed in place of what was at another place, which was no directory, and nothing else
    changed. -/
structure Replaced (d d' : Disk) (src dst : Path) (S T : Location) : Prop where
  arrived : d'.find? T = d.find? S
  gone : d'.find? S = none
  others : ∀ l, l ≠ S → l ≠ T → d'.find? l = d.find? l
  working : d'.working = d.working
  notDir : d.find? T ≠ some .dir
  unslashed : ∃ n, d.resolve .entry dst = .ok ⟨T, n, false, false⟩

/-- Only a directory is put in place of one. -/
theorem not_dir_of_rename (hok : outcome (rename p q) d = (.ok (), d')) (hS : EntryAt d p S)
    (hT : EntryAt d q T) (hdir : d.find? S ≠ some .dir) : d.find? T ≠ some .dir := by
  obtain ⟨s, t, n, hs, ht, ⟨hsdots, htdots⟩, hn, -, hput⟩ := rename_put hok
  obtain rfl := hS.unique ⟨s, hs, rfl, hsdots⟩
  obtain rfl := hT.unique ⟨t, ht, rfl, htdots⟩
  have hsource : d.find? s.location = some n := (node_of_resolve hs hsdots).2.trans hn
  have htarget : d.find? t.location = t.node := (node_of_resolve ht htdots).2
  have hn' : n ≠ .dir := fun heq => hdir (heq ▸ hsource)
  generalize t.node = m at htarget hput
  cases hput with
  | self hsame => rwa [← hsame]
  | free => simp [htarget]
  | linked _ hone =>
    rintro heq
    cases htarget.symm.trans heq
    unfold sameFile at hone
    split at hone <;> simp_all
  | replaced _ _ _ hkind =>
    rintro heq
    cases htarget.symm.trans heq
    cases n with
    | dir => exact hn' rfl
    | file _ _ _ | link _ => cases hkind

theorem rename_replaced {c : ByteArray} {m : Nat} {shared : Option Nat} (htree : Tree d)
    (hok : outcome (rename p q) d = (.ok (), d')) (hS : EntryAt d p S)
    (hfile : d.find? S = some (.file c m shared)) (hT : EntryAt d q T) (hone : ¬ OneFile d S T) :
    Replaced d d' p q S T := by
  have hdir : d.find? S ≠ some .dir := by simp [hfile]
  obtain ⟨S', T', hrenamed⟩ := rename_ok hok
  obtain rfl := hrenamed.source.unique hS
  obtain rfl := hrenamed.target.unique hT
  have hbare (j : Location) (hj : j ≠ []) : d.find? (S' ++ j) = none :=
    htree.none_beneath (fun heq => absurd heq hdir) hj
  rcases hrenamed.cases htree with ⟨hone', -⟩ | ⟨-, hbeneath, hmoved⟩
  · exact absurd hone' hone
  exact {
    arrived := by simpa using hmoved.arrived []
    gone := by simpa using hmoved.gone []
    others := fun l hl hl' => hmoved.others_of_bare hbare hbeneath hl hl'
    working := hrenamed.working
    notDir := not_dir_of_rename hok hS hT hdir
    unslashed := (hrenamed.unslashed hdir).2 }

namespace Replaced

variable {src dst : Path}

/-- If no link was replaced, all that changed are leaves. -/
theorem change (h : Replaced d d' src dst S T) (hS : Leaf d S)
    (hlink : ∀ target, d.find? T ≠ some (.link target)) :
    LeafChange (fun l => l = S ∨ l = T) d d' where
  working := h.working
  others l hl := h.others l (fun hS => hl (.inl hS)) (fun hT => hl (.inr hT))
  leaf := by
    rintro l (rfl | rfl)
    · exact hS
    · exact leaf_of_not h.notDir hlink

/-- If no link was replaced, the path leads to the file. -/
theorem holds (h : Replaced d d' src dst S T) {c : ByteArray} {m : Nat} {shared : Option Nat}
    (hS : d.find? S = some (.file c m shared))
    (hlink : ∀ target, d.find? T ≠ some (.link target)) : d'.Holds dst c := by
  have hfile : d'.find? T = some (.file c m shared) := h.arrived.trans hS
  have hends : Ends .follow false (d'.find? T) := Leaf.ends (.inr ⟨_, _, _, hfile⟩)
  obtain ⟨n, hr⟩ := h.unslashed
  have hreach : d'.resolve .entry dst = .ok ⟨T, d'.find? T, false, false⟩ :=
    (h.change (.inr ⟨_, _, _, hS⟩) hlink).resolve_entry hr rfl
  exact ⟨_, m, shared, resolve_final hreach hends, hfile⟩

end Replaced

end GameInstaller.Disk
