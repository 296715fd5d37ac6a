import GameInstaller.Proofs.Disk.Replacing

/-!
# Finding replaced files

When a file was replaced, its path leads to the new content or to no file at all.  It leads to none
where links go round: a link at the end of the path itself, or one in the place of the file beside it,
which is then what the path names.

* `ComesTo`  a walk comes to a place or to a file with a content
* `Landed`   what was renamed is a file with a content, or a link that came to one
* `Atomic`   what replacing a file leaves, with how it ended

## Key results

- `walk_landed`: a walk that came to the renamed entry comes to no other content
- `Course.content_eq`: a path leads to no other content than that it was replaced by
- `ReplaceCalls.Faulty.atomic`: replacing a file is atomic, whatever fails
-/

namespace GameInstaller.Disk

variable {d d' d₁ : Disk} {p : Path} {cur S T : Location} {content : ByteArray}

/-! ## Walks -/

/-- A walk comes to this place, or to a file with this content. -/
def ComesTo (d : Disk) (T : Location) (content : ByteArray) (cur : Location) (names : List String) :
    Prop :=
  ∃ final links slash r, walk d final links cur slash names = .ok r ∧ r.dots = false ∧
    (r.location = T ∨ ∃ m shared, r.node = some (.file content m shared))

namespace ComesTo

variable {name : String} {names : List String}

theorem ne_nil (h : ComesTo d T content cur names) : names ≠ [] := by
  rintro rfl
  obtain ⟨final, links, slash, r, hr, hdots, -⟩ := h
  rw [walk] at hr
  cases hr
  cases hdots

theorem dot (h : ComesTo d T content cur ("." :: names)) : ComesTo d T content cur names := by
  obtain ⟨final, links, slash, r, hr, hend⟩ := h
  rw [walk, if_pos rfl] at hr
  exact ⟨final, links, slash, r, hr, hend⟩

theorem up (h : ComesTo d T content cur (".." :: names)) :
    ComesTo d T content cur.dropLast names := by
  obtain ⟨final, links, slash, r, hr, hend⟩ := h
  rw [walk, if_neg (by decide), if_pos rfl] at hr
  exact ⟨final, links, slash, r, hr, hend⟩

section Steps

variable (hdot : name ≠ ".") (hup : name ≠ "..") (hlen : ¬ maxName < name.utf8ByteSize)
  (hne : cur ++ [name] ≠ T) (h : ComesTo d T content cur (name :: names))
include hdot hup hlen hne h

/-- A walk to somewhere else goes on behind a directory. -/
theorem dir (hhere : d.find? (cur ++ [name]) = some .dir) :
    ComesTo d T content (cur ++ [name]) names := by
  obtain ⟨final, links, slash, r, hr, hdots, hend⟩ := h
  rw [walk_cons _ _ hdot hup hlen, hhere, walkAt] at hr
  split at hr
  · cases hr
    rcases hend with hT | ⟨m, shared, hfile⟩
    · exact absurd hT hne
    · cases hfile
  · exact ⟨final, links, slash, r, hr, hdots, hend⟩

/-- A walk to somewhere else ends at a file with the content. -/
theorem file {c : ByteArray} {m : Nat} {shared : Option Nat}
    (hhere : d.find? (cur ++ [name]) = some (.file c m shared)) : c = content := by
  obtain ⟨final, links, slash, r, hr, hdots, hend⟩ := h
  rw [walk_cons _ _ hdot hup hlen, hhere, walkAt] at hr
  split at hr
  · cases hr
    rcases hend with hT | ⟨m, shared, hfile⟩
    · exact absurd hT hne
    · exact (Node.file.inj (Option.some.inj hfile)).1
  · cases hr

/-- A walk to somewhere else goes on behind a link. -/
theorem link {target : String} (hhere : d.find? (cur ++ [name]) = some (.link target)) :
    ComesTo d T content (if startsInSlash target then [] else cur) (segments target ++ names) := by
  obtain ⟨final, links, slash, r, hr, hdots, hend⟩ := h
  rw [walk_cons _ _ hdot hup hlen, hhere] at hr
  unfold walkAt at hr
  dsimp only at hr
  split at hr
  · cases hr
    rcases hend with hT | ⟨m, shared, hfile⟩
    · exact absurd hT hne
    · cases hfile
  · cases links with
    | zero => cases hr
    | succ links => exact ⟨final, links, _, r, hr, hdots, hend⟩

end Steps

end ComesTo

/-- What was at the place `S` is at the place `T` now, and is a file with this content or a link that
    came to such a file or to what was at `T`. -/
structure Landed (d d' : Disk) (S T : Location) (content : ByteArray) : Prop where
  gone : d'.find? S = none
  others : ∀ l, l ≠ S → l ≠ T → d'.find? l = d.find? l
  notDir : d'.find? T ≠ some .dir
  file : ∀ c m shared, d'.find? T = some (.file c m shared) → c = content
  link : ∀ target, d'.find? T = some (.link target) →
    ComesTo d T content (if startsInSlash target then [] else T.dropLast) (segments target)

/-- A walk that came to the renamed entry, or to a file with the content, comes to no file with another
    one, wherever it goes on. -/
theorem walk_landed (h : Landed d d' S T content) {links : Nat} {slash : Bool}
    {names rest : List String} {r : Resolved} (hcomes : ComesTo d T content cur names)
    (hr : walk d' .follow links cur slash (names ++ rest) = .ok r) {c : ByteArray} {m : Nat}
    {shared : Option Nat} (hfile : r.node = some (.file c m shared)) : c = content := by
  have hother {l : Location} (hsome : d'.find? l ≠ none) (hT : l ≠ T) :
      d'.find? l = d.find? l :=
    h.others l (fun hS => hsome (hS ▸ h.gone)) hT
  generalize hall : names ++ rest = all at hr
  fun_induction walk d' .follow links cur slash all generalizing names rest with
  | case1 => exact absurd (List.append_eq_nil_iff.mp hall).1 hcomes.ne_nil
  | case4 | case6 | case10 | case12 => cases hr
  | case5 | case7 =>
    cases hr
    cases hfile
  | case11 =>
    rename_i hrest
    simp at hrest
  | case2 _ _ _ _ ih =>
    obtain ⟨name, names, rfl⟩ := List.exists_cons_of_ne_nil hcomes.ne_nil
    obtain ⟨rfl, rfl⟩ := List.cons.inj hall
    exact ih hcomes.dot rfl hr
  | case3 _ _ _ _ _ ih =>
    obtain ⟨name, names, rfl⟩ := List.exists_cons_of_ne_nil hcomes.ne_nil
    obtain ⟨rfl, rfl⟩ := List.cons.inj hall
    exact ih hcomes.up rfl hr
  | case8 _ _ _ _ _ hdot hup hlen here hhere =>
    rename_i ih
    obtain ⟨name, names, rfl⟩ := List.exists_cons_of_ne_nil hcomes.ne_nil
    obtain ⟨rfl, rfl⟩ := List.cons.inj hall
    have hT : here ≠ T := fun hT => h.notDir (hT ▸ hhere)
    have hbefore := (hother (by simp [hhere]) hT).symm.trans hhere
    exact ih (hcomes.dir hdot hup hlen hT hbefore) rfl hr
  | case9 _ _ _ _ _ hdot hup hlen here _ _ _ hhere =>
    obtain ⟨name, names, rfl⟩ := List.exists_cons_of_ne_nil hcomes.ne_nil
    obtain ⟨rfl, rfl⟩ := List.cons.inj hall
    cases hr
    obtain ⟨rfl, rfl, rfl⟩ := Node.file.inj (Option.some.inj hfile)
    by_cases hT : here = T
    · exact h.file _ _ _ (hT ▸ hhere)
    · have hbefore := (hother (by simp [hhere]) hT).symm.trans hhere
      exact hcomes.file hdot hup hlen hT hbefore
  | case13 cur _ _ _ hdot hup hlen here target hhere =>
    rename_i ih
    obtain ⟨name, names, rfl⟩ := List.exists_cons_of_ne_nil hcomes.ne_nil
    obtain ⟨rfl, rfl⟩ := List.cons.inj hall
    by_cases hT : here = T
    · -- The walk goes on where the link that was renamed leads.
      have hlink := h.link target (hT ▸ hhere)
      rw [← hT, List.dropLast_concat, hT] at hlink
      exact ih hlink rfl hr
    · have hbefore := (hother (by simp [hhere]) hT).symm.trans hhere
      exact ih (hcomes.link hdot hup hlen hT hbefore) (List.append_assoc ..) hr

/-! ## Links at the end of a path -/

/-- A walk that follows the link at its end goes on where the link leads. -/
theorem walk_through {links : Nat} {slash : Bool} {names : List String} {target : String}
    {r r' : Resolved} (h : walk d .entry links cur slash names = .ok r)
    (hlink : r.node = some (.link target)) (h' : walk d .follow links cur slash names = .ok r') :
    ∃ links' slash', walk d .follow links'
      (if startsInSlash target then [] else r.location.dropLast) slash' (segments target) = .ok r' := by
  fun_induction walk d .entry links cur slash names with
  | case1 | case5 | case7 | case9 =>
    cases h
    cases hlink
  | case2 _ _ _ _ ih | case3 _ _ _ _ _ ih =>
    rw [walk] at h'
    exact ih h (by simpa using h')
  | case4 | case6 | case10 | case12 => cases h
  | case8 _ _ _ _ _ hdot hup hlen here hhere hrest ih =>
    rw [walk_cons _ _ hdot hup hlen, hhere] at h'
    exact ih h (by simpa [walkAt, hrest] using h')
  | case11 links cur slash name rest hdot hup hlen here _ hhere hrest =>
    cases h
    cases hlink
    obtain rfl : rest = [] := by simpa using hrest
    rw [walk_cons _ _ hdot hup hlen, hhere] at h'
    unfold walkAt at h'
    cases links with
    | zero => cases h'
    | succ links =>
      rw [List.dropLast_concat]
      exact ⟨links, _, by simpa using h'⟩
  | case13 _ _ _ rest hdot hup hlen here target hhere hrest links ih =>
    have hmore : rest ≠ [] := by simpa using hrest
    rw [walk_cons _ _ hdot hup hlen, hhere] at h'
    exact ih h (by simpa [walkAt, hmore] using h')

/-- If a path leads to a file over a link at its end, so does the link. -/
theorem comesTo_of_link {l : Location} {target : String} (hS : EntryAt d p S)
    (hlink : d.find? S = some (.link target)) (hfile : FileAt d p l) (T : Location) :
    ComesTo d T (d.bytesAt l) (if startsInSlash target then [] else S.dropLast)
      (segments target) := by
  obtain ⟨s, hs, rfl, hsdots⟩ := hS
  obtain ⟨r, c, m, shared, hr, rfl, hn⟩ := hfile
  obtain ⟨hdots, -, hfind⟩ := resolve_entry d _ hr (by simp [hn])
  have hbytes : d.bytesAt r.location = c := by rw [bytesAt, hfind, hn]
  have hnode : s.node = some (.link target) := (node_of_resolve hs hsdots).2.symm.trans hlink
  rcases resolve_cases p with ⟨e, -, -, he⟩ | hwalk
  · rw [he] at hs
    cases hs
  · rw [hwalk, mapError_eq_ok] at hs hr
    obtain ⟨links, slash, hthrough⟩ := walk_through hs hnode hr
    exact ⟨.follow, links, slash, r, hthrough, hdots, .inr ⟨m, shared, hbytes.symm ▸ hn⟩⟩

/-! ## Replacing files -/

/-- Writing to a path gives the file that it leads to this content, under all names of the file. -/
theorem writeBytes_writes (htree : Tree d) (hok : outcome (writeBytes p content) d = (.ok (), d')) :
    Tree d' ∧ ∃ l, FileAt d' p l ∧ ∀ k, OneFile d' l k → d'.bytesAt k = content := by
  rw [writeBytes] at hok
  rcases update_cases p (fun _ => content) newFileMode d with ⟨e, hout⟩ |
    ⟨r, c, m, shared, hr, hn, hout⟩ | ⟨r, hr, hn, hslash, hout⟩
  · rw [hout] at hok
    cases hok
  · rw [hout] at hok
    cases hok
    obtain ⟨-, hne, hfind⟩ := resolve_entry _ _ hr (by simp [hn])
    have hfile := hfind.trans hn
    have hrefills := Refills.setContent hne hfile content m
    refine ⟨htree.setContent hne hfile content m, r.location,
      hrefills.extending.fileAt ⟨r, c, m, shared, hr, rfl, hn⟩, fun k hone => ?_⟩
    refine bytesAt_setContent_of_oneFile hne hfile ?_ content m
    -- The file gets no new name.
    by_contra hnot
    have hsame := find?_setContent_of_not_oneFile hfile hnot content m
    rcases id hone with rfl | ⟨_, _, _, _, _, -, hk⟩
    · exact hnot (.refl d _)
    · exact hnot (hone.of_refills hrefills hfile (hsame.symm.trans hk))
  · rw [hout] at hok
    cases hok
    obtain ⟨-, hne, hfind⟩ := resolve_entry _ _ hr (by simp [hn])
    obtain ⟨-, hparent⟩ := htree.resolve_ok hr
    have hself : (d.set r.location (.file content newFileMode none)).find? r.location =
        some (.file content newFileMode none) := by
      rw [find?_set, if_neg hne, if_pos rfl]
    refine ⟨htree.set (htree.resolve_proper hr) (hfind.trans hn) hparent _, r.location,
      ⟨_, _, _, _, resolve_set hr hn hslash _ _ _, rfl, rfl⟩, fun k hone => ?_⟩
    rcases hone with rfl | ⟨_, _, _, _, _, hfile, -⟩
    · rw [bytesAt, hself]
    · rw [hself] at hfile
      cases hfile

/-- A path to a file names that file, a link, or no entry. -/
theorem FileAt.entry {l : Location} (h : FileAt d p l) (hS : EntryAt d p S) :
    S = l ∨ ∃ target, d.find? S = some (.link target) := by
  obtain ⟨r, c, m, shared, hr, rfl, hn⟩ := h
  obtain ⟨s, hs, rfl, hsdots⟩ := hS
  obtain ⟨s', hs', rfl | ⟨target, hlink⟩⟩ := resolve_entry_of_ok hr
  · obtain rfl := Except.ok.inj (hs.symm.trans hs')
    exact .inl rfl
  · obtain rfl := Except.ok.inj (hs.symm.trans hs')
    exact .inr ⟨target, (node_of_resolve hs hsdots).2.trans hlink⟩

/-- After a path was written to and renamed, the new path leads to no file with another content. -/
theorem content_of_rename {q : Path} {l : Location} (htree : Tree d)
    (hok : outcome (rename q p) d = (.ok (), d')) (hfile : FileAt d q l)
    (hbytes : ∀ k, OneFile d l k → d.bytesAt k = content)
    (hbeside : ∀ {S T}, EntryAt d q S → EntryAt d p T → S ≠ T ∧ S.dropLast = T.dropLast)
    {r : Resolved} (hr : d'.resolve .follow p = .ok r) {c : ByteArray} {m : Nat}
    {shared : Option Nat} (hn : r.node = some (.file c m shared)) : c = content := by
  obtain ⟨S, T, hrenamed⟩ := rename_ok hok
  obtain ⟨hne, hdirs⟩ := hbeside hrenamed.source hrenamed.target
  have hcontent {k : Location} {c : ByteArray} {m : Nat} {shared : Option Nat}
      (hone : OneFile d l k) (hk : d.find? k = some (.file c m shared)) : c = content := by
    rw [← hbytes k hone, bytesAt, hk]
  have hself {c : ByteArray} {m : Nat} {shared : Option Nat}
      (hS : d.find? S = some (.file c m shared)) : S = l := by
    rcases hfile.entry hrenamed.source with rfl | ⟨target, hlink⟩
    · rfl
    · cases hS.symm.trans hlink
  rcases hrenamed.cases htree with ⟨hone, rfl⟩ | ⟨-, hbeneath, hmoved⟩
  · -- Both names are of the file that was written to.
    obtain ⟨_, _, c', m', id, hS, hT⟩ := hone.resolve_left hne
    obtain rfl := hself hS
    obtain ⟨r', _, _, _, hr', rfl, hn'⟩ := hrenamed.file c' m' (some id) hT
    obtain rfl := Except.ok.inj (hr.symm.trans hr')
    obtain ⟨-, -, hfind⟩ := resolve_entry _ _ hr (by simp [hn])
    exact hcontent hone (hfind.trans hn)
  · have hdir : d.find? S ≠ some .dir := by
      intro hdir
      rcases hfile.entry hrenamed.source with rfl | ⟨target, hlink⟩
      · obtain ⟨-, _, _, _, hl⟩ := hfile.find?
        cases hdir.symm.trans hl
      · cases hdir.symm.trans hlink
    have hbare (j : Location) (hj : j ≠ []) : d.find? (S ++ j) = none :=
      htree.none_beneath (fun heq => absurd heq hdir) hj
    have harrived : d'.find? T = d.find? S := by simpa using hmoved.arrived []
    -- What landed at the path is the file that was written, or a link that led to it.
    have hlanded : Landed d d' S T content := {
      gone := by simpa using hmoved.gone []
      others := fun k hk hk' => hmoved.others_of_bare hbare hbeneath hk hk'
      notDir := harrived ▸ hdir
      file := fun c m shared hT => by
        rw [harrived] at hT
        obtain rfl := hself hT
        exact hcontent (.refl d S) hT
      link := fun target hT => by
        rw [harrived] at hT
        have hcomes := comesTo_of_link hrenamed.source hT hfile T
        rwa [hbytes l (.refl d l), hdirs] at hcomes }
    obtain ⟨t, ht, htT, htdots⟩ := hrenamed.target
    rcases resolve_cases p with ⟨e, -, -, he⟩ | hwalk
    · rw [he] at hr
      cases hr
    · rw [hwalk, mapError_eq_ok] at ht hr
      rw [hrenamed.working, ← List.append_nil (segments p.text)] at hr
      exact walk_landed hlanded ⟨_, _, _, t, ht, htdots, .inl htT⟩ hr hn

/-- A path that was replaced leads to no file with another content. -/
theorem Course.content_eq {ext : String} {u : Unit} (htree : Tree d) (hdot : '.' ∈ ext.toList)
    (hslash : '/' ∉ ext.toList) (h : Course d p (p.withExtension ext) content (.ok u, d'))
    {c : ByteArray} (hholds : d'.Holds p c) : c = content := by
  obtain ⟨r, m, shared, hr, hn⟩ := hholds
  cases h with
  | done hwrite hrename =>
    obtain ⟨htree₂, l, hfile, hbytes⟩ := writeBytes_writes (htree.withParents p) hwrite
    refine content_of_rename htree₂ hrename hfile hbytes (fun hS hT => ?_) hr hn
    exact ⟨hT.ne_beside hdot hslash hS, hT.dropLast_beside hslash hS⟩

/-- On a disk without links, the path leads to the new content. -/
theorem Course.holds {ext : String} {u : Unit} (hplain : PlainTree d) (hdot : '.' ∈ ext.toList)
    (hslash : '/' ∉ ext.toList) (h : Course d p (p.withExtension ext) content (.ok u, d')) :
    d'.Holds p content := by
  suffices hsome : ∃ c, d'.Holds p c by
    obtain ⟨c, hc⟩ := hsome
    obtain rfl := h.content_eq hplain.tree hdot hslash hc
    exact hc
  cases h with
  | @done d₂ _ hwrite hrename =>
    obtain ⟨htree₂, l, hfile, -⟩ := writeBytes_writes (hplain.tree.withParents p) hwrite
    -- Neither making directories nor writing makes a link.
    have hlink (k : Location) (target : String) : d₂.find? k ≠ some (.link target) := by
      have hmade : AddsNoLink d (d.withParents p) := (makeParent_addsDirs p d).addsNoLink
      have hadds := update_addsNoLink (p.withExtension ext) (fun _ => content) newFileMode
        (d.withParents p)
      rw [← writeBytes, hwrite] at hadds
      exact fun hk => hplain.links k target ((hmade.trans hadds).links k target hk)
    obtain ⟨S, T, hrenamed⟩ := rename_ok hrename
    obtain rfl := (hfile.entry hrenamed.source).resolve_right (not_exists.mpr (hlink S))
    obtain ⟨-, c, m, shared, hS⟩ := hfile.find?
    by_cases hone : OneFile d₂ S T
    · -- Two names of one file: renaming leaves both, and the content is that of either.
      have hne := hrenamed.target.ne_beside hdot hslash hrenamed.source
      obtain ⟨_, _, c', m', id, -, hT⟩ := hone.resolve_left hne
      obtain ⟨r, c'', m'', shared', hr, -, hn⟩ := hrenamed.file c' m' _ hT
      rcases hrenamed.result with ⟨-, rfl⟩ | ⟨hnot, -⟩
      · exact ⟨c'', r, m'', shared', hr, hn⟩
      · exact absurd hone hnot
    · have hreplaced := rename_replaced htree₂ hrename hrenamed.source hS hrenamed.target hone
      exact ⟨c, hreplaced.holds hS (hlink T)⟩

/-! ## Atomic replacements -/

/-- What replacing a file leaves, with how it ended.  When it failed, the path leads to what it led to.
    When it succeeded, the file is there with the new content, and the one beside it is gone; whatever
    links there are, the path leads to no other content, and where there are none, it leads to it. -/
structure Atomic {ε : Type} (d : Disk) (p : Path) (ext : String) (content : ByteArray)
    (out : Except ε Unit × Disk) : Prop where
  failed : ∀ e, out.1 = .error e → Replaceable d p ext → Kept d out.2 p (p.withExtension ext)
  done : out.1 = .ok () → Spare (d.withParents p) (p.withExtension ext) →
    Swapped (d.withParents p) out.2 p (p.withExtension ext) content
  only : out.1 = .ok () → ∀ c, out.2.Holds p c → c = content
  plain : out.1 = .ok () → PlainTree d → out.2.Holds p content

/-- Replacing a file is atomic, whatever fails. -/
theorem ReplaceCalls.Faulty.atomic {calls : ReplaceCalls} (h : calls.Faulty) (htree : Tree d)
    (p : Path) {ext : String} (hdot : '.' ∈ ext.toList) (hslash : '/' ∉ ext.toList)
    (content : ByteArray) : Atomic d p ext content (outcome (calls.replaceFile p ext content) d) := by
  have hcourse := h.course p ext content d
  generalize outcome (calls.replaceFile p ext content) d = out at hcourse
  obtain ⟨e | u, d'⟩ := out
  · exact {
      failed := fun _ _ hreplaceable => hcourse.kept htree hreplaceable
      done := nofun
      only := nofun
      plain := nofun }
  · exact {
      failed := nofun
      done := fun _ hspare => hcourse.swapped htree hspare hdot hslash
      only := fun _ _ hholds => hcourse.content_eq htree hdot hslash hholds
      plain := fun _ hplain => hcourse.holds hplain hdot hslash }

/-- It does not matter how a failure is reported. -/
theorem Atomic.mapError {ε ε' : Type} {ext : String} {out : Except ε Unit × Disk}
    (h : Atomic d p ext content out) (f : ε → ε') :
    Atomic d p ext content (out.1.mapError f, out.2) := by
  obtain ⟨e | u, d'⟩ := out
  · exact {
      failed := fun _ _ => h.failed e rfl
      done := nofun
      only := nofun
      plain := nofun }
  · exact {
      failed := nofun
      done := fun _ => h.done rfl
      only := fun _ => h.only rfl
      plain := fun _ => h.plain rfl }

end GameInstaller.Disk
