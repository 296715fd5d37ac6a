import GameInstaller.Proofs.Disk.Relocating
import GameInstaller.Proofs.Path.Splitting

/-!
# Names of entries

The entry that a path names has the last name of the path, so a path with another last name names
another entry.  That is the case of the path of a file and of the one beside it, which has another
extension and is the same in front of its last name.

## Key results

- `EntryAt.name`: an entry has the last name of the path
- `Path.segments_withExtension`: the names of a path with another extension
- `EntryAt.dropLast_beside`, `EntryAt.ne_beside`: the file beside another one is another entry of the
  same directory
-/

namespace GameInstaller

open Text (pieces)

/-! ## Last names -/

namespace Disk

variable {d : Disk} {p : Path} {l S T : Location}

/-- A walk that ends in no dots ends at the last of its names. -/
theorem walk_last {links : Nat} {cur : Location} {slash : Bool} {names : List String} {r : Resolved}
    (h : walk d .entry links cur slash names = .ok r) (hr : r.dots = false) :
    ∃ name, names.getLast? = some name ∧ r.location.getLast? = some name ∧ name ≠ "." ∧
      name ≠ ".." := by
  fun_induction walk d .entry links cur slash names with
  | case1 =>
    cases h
    cases hr
  | case2 _ _ rest _ ih | case3 _ _ rest _ _ ih | case8 _ _ _ _ rest _ _ _ _ _ _ ih =>
    obtain ⟨name, hname, hlast⟩ := ih h
    exact ⟨name, by rw [List.getLast?_cons, hname]; rfl, hlast⟩
  | case4 | case6 | case10 | case12 => cases h
  | case5 _ _ _ name rest hdot hup _ here _ hrest | case7 _ _ _ name rest hdot hup _ here _ hrest
  | case9 _ _ _ name rest hdot hup _ here _ _ _ _ hrest
  | case11 _ _ _ name rest hdot hup _ here _ _ hrest =>
    cases h
    obtain rfl : rest = [] := by simpa using hrest
    exact ⟨name, rfl, by simp [here], hdot, hup⟩
  | case13 _ _ _ rest _ _ _ _ target _ hrest _ ih =>
    -- A link is followed only where more names stand behind it.
    have hmore : rest ≠ [] := by simpa using hrest
    obtain ⟨name, hname, hlast⟩ := ih h
    rw [List.getLast?_append_of_ne_nil _ hmore] at hname
    exact ⟨name, by rw [List.getLast?_cons, hname]; rfl, hlast⟩

/-- An entry has the last name of the path that names it. -/
theorem EntryAt.name (h : EntryAt d p l) : ∃ name, (segments p.text).getLast? = some name ∧
    l.getLast? = some name ∧ name ≠ "." ∧ name ≠ ".." := by
  obtain ⟨r, hr, rfl, hdots⟩ := h
  rcases resolve_cases p with ⟨e, -, -, he⟩ | hwalk
  · rw [he] at hr
    cases hr
  · rw [hwalk, mapError_eq_ok] at hr
    exact walk_last hr hdots

/-- A walk that ends in no dots ends under the directory that it comes to in front of its last name. -/
theorem walk_concat {links : Nat} {cur : Location} {slash : Bool} (slash' : Bool)
    {names : List String} {name : String} {r r' : Resolved}
    (h : walk d .entry links cur slash (names ++ [name]) = .ok r) (hr : r.dots = false)
    (h' : walk d .follow links cur slash' names = .ok r') : r.location = r'.location ++ [name] := by
  generalize hall : names ++ [name] = all at h
  fun_induction walk d .entry links cur slash all generalizing names slash' r' with
  | case1 => simp at hall
  | case4 | case6 | case10 | case12 => cases h
  | case2 _ _ _ _ ih | case3 _ _ _ _ _ ih =>
    rcases names with _ | ⟨n, names⟩
    · obtain ⟨rfl, rfl⟩ : name = _ ∧ [] = _ := by simpa using hall
      rw [walk] at h
      cases h
      cases hr
    · obtain ⟨rfl, rfl⟩ : n = _ ∧ names ++ [name] = _ := by simpa using hall
      rw [walk] at h'
      exact ih slash' (by simpa using h') rfl h
  | case5 | case7 | case9 | case11 =>
    rcases names with _ | ⟨n, names⟩
    · obtain ⟨rfl, rfl⟩ : name = _ ∧ [] = _ := by simpa using hall
      cases h
      rw [walk] at h'
      cases h'
      rfl
    · obtain ⟨-, rfl⟩ : n = _ ∧ names ++ [name] = _ := by simpa using hall
      simp_all
  | case8 links _ _ _ _ hdot' hup' hlen here hhere hrest =>
    rename_i ih
    rcases names with _ | ⟨n, names⟩
    · simp_all
    · obtain ⟨rfl, rfl⟩ : n = _ ∧ names ++ [name] = _ := by simpa using hall
      rw [walk_cons _ _ hdot' hup' hlen, hhere] at h'
      cases names with
      | nil =>
        cases h'
        have hhere' : walk d .follow links here slash' [] = .ok ⟨here, some .dir, slash', true⟩ := by
          rw [walk]
        have hlocation := ih slash' hhere' rfl h
        exact hlocation
      | cons m names => exact ih slash' (by simpa [walkAt] using h') rfl h
  | case13 _ _ _ _ hdot' hup' hlen here target hhere hrest links =>
    rename_i ih
    rcases names with _ | ⟨n, names⟩
    · simp_all
    · obtain ⟨rfl, rfl⟩ : n = _ ∧ names ++ [name] = _ := by simpa using hall
      rw [walk_cons _ _ hdot' hup' hlen, hhere] at h'
      exact ih _ (by simpa [walkAt] using h') (by simp) h

/-- The names of a path are those of its pieces that are not empty. -/
theorem segments_of_body {text : String} {rooted : Bool} {cs : List Char}
    (htext : text.toList = if rooted then '/' :: cs else cs) :
    segments text = ((pieces '/' cs).filter fun s => !s.isEmpty).map String.ofList := by
  rw [segments, htext]
  cases rooted with
  | false => rfl
  | true =>
    have hroot : pieces '/' ('/' :: cs) = [] :: pieces '/' cs := Text.pieces_append '/' [] cs
    rw [if_pos rfl, hroot]
    rfl

end Disk

namespace Path

variable {p : Path} {name : String}

/-- A path is cut in front of its last name, with empty pieces only behind it, unless the name is a
    dot. -/
theorem body_of_last (hlast : (Disk.segments p.text).getLast? = some name) (hdot : name ≠ ".") :
    ∃ rooted cs front back, p.text.toList = (if rooted then '/' :: cs else cs) ∧
      (rooted = false → ∀ r, cs ≠ '/' :: r) ∧ p.body = (rooted, front ++ [name.toList]) ∧
        pieces '/' cs = front ++ name.toList :: back ∧ ∀ s ∈ back, s = [] := by
  obtain ⟨rooted, cs, htext, hcs, hbody⟩ := p.body_cases
  obtain ⟨back, hback, hsilent⟩ := exists_silentEnd (!rooted) (pieces '/' cs)
  rw [Disk.segments_of_body htext, hback, List.filter_append, List.map_append] at hlast
  have hempty : ∀ s ∈ back, s = [] := by
    rcases List.eq_nil_or_concat (back.filter fun s => !s.isEmpty) with hnil | ⟨front, s, hs⟩
    · simpa using hnil
    · have hmem : s ∈ back.filter fun s => !s.isEmpty := by simp [hs]
      obtain ⟨hmem, hne⟩ : s ∈ back ∧ s ≠ [] := by simpa using List.mem_filter.mp hmem
      have hsdot : s = ['.'] := by simpa [isSilent, hne] using hsilent s hmem
      have hname : String.ofList s = name := by simpa [hs, ← List.append_assoc] using hlast
      exact absurd (hname.symm.trans (congrArg String.ofList hsdot)) hdot
  have hnone : back.filter (fun s => !s.isEmpty) = [] := by simpa using hempty
  rw [hnone, List.map_nil, List.append_nil] at hlast
  rcases dropSilentEnd_cases (!rooted) (pieces '/' cs) with hnil | ⟨front, last, _, hkept, -, hne⟩
  · rw [hnil] at hlast
    cases hlast
  · have hlast' : [last].filter (fun s => !s.isEmpty) = [last] := by simpa using hne
    rw [hkept, List.filter_append, hlast', List.map_append, List.map_singleton,
      List.getLast?_concat] at hlast
    obtain rfl := Option.some.inj hlast
    rw [hkept] at hbody hback
    rw [← String.toList_ofList (l := last)] at hbody hback
    exact ⟨rooted, cs, front, back, htext, hcs, hbody, by simpa using hback, hempty⟩

/-- A path ends in its last name, unless that is of dots. -/
theorem fileName?_of_last (hlast : (Disk.segments p.text).getLast? = some name) (hdot : name ≠ ".")
    (hup : name ≠ "..") : p.fileName? = some name := by
  obtain ⟨rooted, cs, front, back, htext, hslash, -, hpieces, hback⟩ := body_of_last hlast hdot
  have hname := Disk.isName_of_mem_segments (List.mem_of_getLast? hlast) hdot
  have hdot' : name.toList ≠ ['.'] := fun heq => hdot (String.toList_injective heq)
  have hup' : name.toList ≠ ['.', '.'] := fun heq => hup (String.toList_injective heq)
  have hsilent : ∀ s ∈ back, isSilent s = true := by
    intro s hs
    rw [hback s hs]
    rfl
  have hlater : laterComponents (name.toList :: back) = [.normal name.toList] := by
    rw [← List.singleton_append, laterComponents_append, laterComponents_silent hsilent,
      List.append_nil]
    simp [laterComponents, ofSegment, hname.silent, hup']
  rw [fileName?, components_eq_ofBody htext hslash, hpieces,
    ofBody_append rooted (by simpa using fun _ _ => hdot'), hlater, List.getLast?_concat]
  simp

/-! ## Extensions -/

/-- A stem is the whole name, or what stands in front of a dot that has none behind it. -/
theorem stem_cases (cs : List Char) :
    stem cs = cs ∨ ∃ after, cs = stem cs ++ '.' :: after ∧ '.' ∉ after := by
  unfold stem
  rw [List.span_eq_takeWhile_dropWhile]
  split
  · rename_i after before heq
    obtain ⟨hafter, hbefore⟩ := Prod.mk.inj heq
    split
    · exact .inl rfl
    · refine .inr ⟨after.reverse, ?_, fun hmem => ?_⟩
      · have hwhole := List.takeWhile_append_dropWhile (p := (· != '.')) (l := cs.reverse)
        rw [hafter, hbefore] at hwhole
        rw [← List.reverse_reverse cs, ← hwhole]
        simp
      · rw [List.mem_reverse, ← hafter] at hmem
        simpa using List.mem_takeWhile_imp hmem
  · exact .inl rfl

/-- An extension with a dot in it makes another name. -/
theorem stem_append_ne (cs : List Char) {ext : List Char} (hext : '.' ∈ ext) :
    stem cs ++ '.' :: ext ≠ cs := by
  intro heq
  rcases stem_cases cs with hwhole | ⟨after, hcs, hafter⟩
  · rw [hwhole] at heq
    simpa using congrArg List.length heq
  · rw [hcs] at heq
    have htail : stem cs ++ '.' :: ext = stem cs ++ '.' :: after := by
      conv_rhs => rw [← hcs]
      rwa [← hcs] at heq
    rw [List.append_cancel_left_eq, List.cons.injEq] at htail
    exact hafter (htail.2 ▸ hext)

theorem mem_of_mem_stem {c : Char} {cs : List Char} (h : c ∈ stem cs) : c ∈ cs := by
  rcases stem_cases cs with hwhole | ⟨after, hcs, -⟩
  · rwa [hwhole] at h
  · rw [hcs]
    exact List.mem_append_left _ h

/-- The text of joined segments starts with a slash only if the first segment is empty. -/
theorem head_of_unsplit {segs : List (List Char)} {r : List Char} (hsegs : ∀ s ∈ segs, '/' ∉ s)
    (hr : unsplit segs = '/' :: r) : segs.head? = some [] := by
  have hne : segs ≠ [] := by
    rintro rfl
    cases hr
  have hpieces := pieces_unsplit hne hsegs
  have hroot : pieces '/' ('/' :: r) = [] :: pieces '/' r := Text.pieces_append '/' [] r
  rw [hr, hroot] at hpieces
  rw [← hpieces]
  rfl

/-- A path with another extension has another last name, and is the same in front of it. -/
theorem segments_withExtension {ext : String} (hlast : (Disk.segments p.text).getLast? = some name)
    (hdot : name ≠ ".") (hup : name ≠ "..") (hext : '/' ∉ ext.toList) :
    ∃ front, Disk.segments p.text = front ++ [name] ∧ Disk.segments (p.withExtension ext).text =
        front ++ [String.ofList (stem name.toList ++ '.' :: ext.toList)] ∧
      (p.withExtension ext).isAbsolute = p.isAbsolute := by
  obtain ⟨rooted, cs, front, back, htext, hcs, hbody, hpieces, hback⟩ := body_of_last hlast hdot
  have hname := Disk.isName_of_mem_segments (List.mem_of_getLast? hlast) hdot
  have hnew : ∀ s ∈ front ++ [stem name.toList ++ '.' :: ext.toList], '/' ∉ s := by
    intro s hs
    rcases List.mem_append.mp hs with hs | hs
    · have hmem : s ∈ pieces '/' cs := by
        rw [hpieces]
        exact List.mem_append_left _ hs
      exact Text.not_mem_of_mem_pieces hmem
    · rw [List.mem_singleton.mp hs, List.mem_append, List.mem_cons]
      rintro (hmem | hmem | hmem)
      · exact hname.slash (mem_of_mem_stem hmem)
      · exact absurd hmem (by decide)
      · exact hext hmem
  have htext' : (p.withExtension ext).text.toList =
      if rooted then '/' :: unsplit (front ++ [stem name.toList ++ '.' :: ext.toList])
        else unsplit (front ++ [stem name.toList ++ '.' :: ext.toList]) := by
    unfold withExtension
    rw [fileName?_of_last hlast hdot hup, hbody]
    dsimp only
    rw [List.dropLast_concat, String.toList_ofList]
  have hnone : back.filter (fun s => !s.isEmpty) = [] := by simpa using hback
  have hsome : name.toList ≠ [] := by
    intro heq
    have hsilent := hname.silent
    rw [heq] at hsilent
    cases hsilent
  refine ⟨(front.filter fun s => !s.isEmpty).map String.ofList, ?_, ?_, ?_⟩
  · rw [Disk.segments_of_body htext, hpieces, List.filter_append, List.filter_cons, hnone]
    simp [hsome]
  · rw [Disk.segments_of_body htext', pieces_unsplit (by simp) hnew, List.filter_append]
    simp
  · rw [isAbsolute_eq, isAbsolute_eq, htext, htext']
    cases rooted with
    | true => rfl
    | false =>
      -- An empty piece in front of others would be there for a slash in front.
      have hnot (r : List Char) :
          unsplit (front ++ [stem name.toList ++ '.' :: ext.toList]) ≠ '/' :: r := by
        intro hr
        have hfirst := head_of_unsplit hnew hr
        rcases front with _ | ⟨s, front⟩
        · simp at hfirst
        · obtain rfl : s = [] := by simpa using hfirst
          refine hcs rfl (unsplit (front ++ name.toList :: back)) ?_
          rw [← unsplit_pieces cs, hpieces]
          have hjoined : unsplit ([[]] ++ (front ++ name.toList :: back)) =
              unsplit [[]] ++ '/' :: unsplit (front ++ name.toList :: back) :=
            unsplit_append (List.cons_ne_nil _ _) (by simp)
          exact hjoined
      have hhead {t : List Char} (ht : ∀ r, t ≠ '/' :: r) : (t.head? == some '/') = false := by
        rcases t with _ | ⟨c, t⟩
        · rfl
        · simpa using fun hc => ht t (by rw [hc])
      rw [if_neg nofun, if_neg nofun, hhead hnot, hhead (hcs rfl)]

end Path

/-- The file beside another one is in the same directory. -/
theorem Disk.EntryAt.dropLast_beside {d : Disk} {p : Path} {ext : String} {S T : Location}
    (hslash : '/' ∉ ext.toList) (h : EntryAt d p T) (hbeside : EntryAt d (p.withExtension ext) S) :
    S.dropLast = T.dropLast := by
  obtain ⟨name, hlast, -, hne, hup⟩ := h.name
  obtain ⟨front, hp, hq, habsolute⟩ := Path.segments_withExtension hlast hne hup hslash
  obtain ⟨t, ht, rfl, htdots⟩ := h
  obtain ⟨s, hs, rfl, hsdots⟩ := hbeside
  rcases resolve_cases p with ⟨e, -, -, he⟩ | hwalk
  · rw [he] at ht
    cases ht
  rcases resolve_cases (p.withExtension ext) with ⟨e, -, -, he⟩ | hwalk'
  · rw [he] at hs
    cases hs
  rw [hwalk, mapError_eq_ok, hp] at ht
  rw [hwalk', mapError_eq_ok, hq, habsolute] at hs
  obtain ⟨r, hr, -⟩ := walk_dropLast ht false
  rw [walk_concat false ht htdots hr, walk_concat false hs hsdots hr, List.dropLast_concat,
    List.dropLast_concat]

/-- The file beside another one, with an extension that has a dot in it, is another entry. -/
theorem Disk.EntryAt.ne_beside {d : Disk} {p : Path} {ext : String} {S T : Location}
    (hdot : '.' ∈ ext.toList) (hslash : '/' ∉ ext.toList) (h : EntryAt d p T)
    (hbeside : EntryAt d (p.withExtension ext) S) : S ≠ T := by
  rintro rfl
  obtain ⟨name, hlast, hname, hne, hup⟩ := h.name
  obtain ⟨other, hother, hname', -⟩ := hbeside.name
  obtain rfl := Option.some.inj (hname.symm.trans hname')
  obtain ⟨front, -, hsegments, -⟩ := Path.segments_withExtension hlast hne hup hslash
  rw [hsegments, List.getLast?_concat] at hother
  refine Path.stem_append_ne name.toList hdot ?_
  rw [← String.toList_ofList (l := Path.stem name.toList ++ '.' :: ext.toList),
    Option.some.inj hother]

end GameInstaller
