import GameInstaller.Disk.Resolve
import GameInstaller.Slug

/-!
# Paths as texts

Appending a name to a path and taking it off again, by the pieces of the text between slashes.

## Key results

- `Path.segments_child`: the names on the way to a child
- `Path.parent?_child`: a child is below its parent
-/

namespace GameInstaller

/-! ## Pieces -/

namespace Text

theorem pieces_ne_nil (sep : Char) (cs : List Char) : pieces sep cs ≠ [] := by
  cases cs with
  | nil => simp [pieces]
  | cons c cs =>
    unfold pieces
    split
    · simp
    · split <;> simp

/-- A separator cuts the pieces in two. -/
theorem pieces_append (sep : Char) (cs ds : List Char) :
    pieces sep (cs ++ sep :: ds) = pieces sep cs ++ pieces sep ds := by
  induction cs with
  | nil =>
    obtain ⟨p, ps, hp⟩ := List.exists_cons_of_ne_nil (pieces_ne_nil sep ds)
    simp [pieces, hp]
  | cons c cs ih =>
    obtain ⟨p, ps, hp⟩ := List.exists_cons_of_ne_nil (pieces_ne_nil sep cs)
    rw [List.cons_append, pieces, ih, hp]
    rw [pieces, hp]
    by_cases hc : c = sep <;> simp [hc]

/-- A text without separators is one piece. -/
theorem pieces_of_not_mem {sep : Char} {cs : List Char} (h : sep ∉ cs) : pieces sep cs = [cs] := by
  induction cs with
  | nil => rfl
  | cons c cs ih =>
    obtain ⟨hc, hcs⟩ : sep ≠ c ∧ sep ∉ cs := by simpa using h
    rw [pieces, ih hcs]
    simp [Ne.symm hc]

end Text

namespace Path

open Text (pieces)

/-- Joined again the pieces of a text are the text. -/
theorem unsplit_pieces (cs : List Char) : unsplit (pieces '/' cs) = cs := by
  induction cs with
  | nil => rfl
  | cons c cs ih =>
    obtain ⟨p, ps, hp⟩ := List.exists_cons_of_ne_nil (Text.pieces_ne_nil '/' cs)
    rw [hp] at ih
    rw [pieces, hp]
    by_cases hc : c = '/'
    · simp [hc, unsplit, ih]
    · cases ps with
      | nil => simpa [hc, unsplit] using ih
      | cons q qs => simpa [hc, unsplit] using ih

/-- Nothing is dropped behind a segment that is not silent. -/
theorem dropSilentEnd_append {name : List Char} (hname : isSilent name = false) (keepFirst : Bool)
    (segs : List (List Char)) : dropSilentEnd keepFirst (segs ++ [name]) = segs ++ [name] := by
  induction segs generalizing keepFirst with
  | nil => simp [dropSilentEnd, hname]
  | cons s segs ih =>
    rw [List.cons_append, dropSilentEnd, ih]
    obtain ⟨t, ts, ht⟩ := List.exists_cons_of_ne_nil (List.append_ne_nil_of_right_ne_nil segs
      (List.cons_ne_nil name []))
    rw [ht]

/-! ## Children -/

/-- A name that a directory may have in it: not silent, and without slashes. -/
structure IsName (name : String) : Prop where
  slash : '/' ∉ name.toList
  silent : isSilent name.toList = false

/-- A slug is a name. -/
theorem isName_of_isSlug {slug : String} (h : isSlug slug = true) : IsName slug := by
  unfold isSlug at h
  cases hcs : slug.toList with
  | nil =>
    rw [hcs] at h
    cases h
  | cons c cs =>
    rw [hcs, isSlugChars] at h
    obtain ⟨hdot, hall⟩ := Bool.and_eq_true_iff.mp h
    constructor
    · -- A slash is no character of a slug.
      intro hslash
      rw [hcs] at hslash
      exact absurd (List.all_eq_true.mp hall _ hslash) (by decide)
    · rw [hcs]
      have : c ≠ '.' := by simpa using hdot
      simp [isSilent, this]

/-- The characters before the name of a child: those of the path, and a slash unless there is one or
    nothing to be separated. -/
def stemChars (p : Path) : List Char :=
  match p.text.toList.getLast? with
  | none => []
  | some '/' => p.text.toList
  | some _ => p.text.toList ++ ['/']

theorem stemChars_cases (p : Path) :
    (p.text.toList = [] ∧ p.stemChars = []) ∨
      (∃ cs, p.text.toList = cs ++ ['/'] ∧ p.stemChars = cs ++ ['/']) ∨
      ∃ cs c, c ≠ '/' ∧ p.text.toList = cs ++ [c] ∧ p.stemChars = cs ++ [c] ++ ['/'] := by
  unfold stemChars
  rcases List.eq_nil_or_concat p.text.toList with hp | ⟨cs, c, hp⟩
  · exact .inl ⟨hp, by rw [hp]; rfl⟩
  · rw [List.concat_eq_append] at hp
    rw [hp, List.getLast?_concat]
    by_cases hc : c = '/'
    · subst hc
      exact .inr (.inl ⟨cs, rfl, rfl⟩)
    · refine .inr (.inr ⟨cs, c, hc, rfl, ?_⟩)
      split
      · simp_all
      · simp_all
      · rfl

/-- A child is named after its parent. -/
theorem child_chars (p : Path) {name : String} (hname : IsName name) :
    (p.child name).text.toList = p.stemChars ++ name.toList := by
  have hjoin : (p.child name).text.toList = joinChars p.text.toList name.toList :=
    String.toList_ofList
  rw [hjoin, stemChars]
  unfold joinChars
  split
  · rename_i r hr
    exact absurd (by simp [hr]) hname.slash
  · split
    · simp_all
    · simp_all
    · rename_i c _ hc
      have : c ≠ '/' := by
        rintro rfl
        simp_all
      simp_all

/-- The text of a child goes on after that of its parent. -/
theorem child_text (p : Path) {name : String} (hname : IsName name) :
    ∃ rest, (p.child name).text = p.text ++ rest := by
  have hchars := child_chars p hname
  obtain ⟨cs, hcs⟩ : ∃ cs, p.stemChars = p.text.toList ++ cs := by
    rcases p.stemChars_cases with ⟨htext, hstem⟩ | ⟨cs, htext, hstem⟩ | ⟨cs, c, -, htext, hstem⟩
    · exact ⟨[], by rw [htext, hstem]; rfl⟩
    · exact ⟨[], by rw [htext, hstem, List.append_nil]⟩
    · exact ⟨['/'], by rw [htext, hstem]⟩
  refine ⟨String.ofList (cs ++ name.toList), String.toList_injective ?_⟩
  rw [hchars, hcs, String.toList_append, String.toList_ofList, List.append_assoc]

theorem IsName.ne_nil {name : String} (hname : IsName name) : name.toList ≠ [] := by
  intro h
  have := hname.silent
  rw [h] at this
  cases this

theorem child_text_ne (p : Path) {name : String} (hname : IsName name) : (p.child name).text ≠ "" := by
  intro hempty
  have hchars := p.child_chars hname
  rw [hempty] at hchars
  exact hname.ne_nil (List.append_eq_nil_iff.mp hchars.symm).2

/-- The name of a child is the last piece of its text. -/
theorem pieces_child (p : Path) {name : String} (hname : IsName name) :
    ∃ front, pieces '/' (p.child name).text.toList = front ++ [name.toList] ∧
      (front.filter fun s => !s.isEmpty) =
        (pieces '/' p.text.toList).filter fun s => !s.isEmpty := by
  have hpiece := Text.pieces_of_not_mem hname.slash
  rw [child_chars p hname]
  rcases p.stemChars_cases with ⟨htext, hstem⟩ | ⟨cs, htext, hstem⟩ | ⟨cs, c, -, htext, hstem⟩
  · rw [htext, hstem]
    exact ⟨[], hpiece, rfl⟩
  · rw [htext, hstem, List.append_assoc, List.singleton_append, Text.pieces_append,
      Text.pieces_append, hpiece]
    -- Behind the slash at the end of the path is one more piece, which is empty.
    exact ⟨pieces '/' cs, rfl, by simp [pieces]⟩
  · rw [htext, hstem, List.append_assoc _ ['/'], List.singleton_append, Text.pieces_append, hpiece]
    exact ⟨pieces '/' (cs ++ [c]), rfl, rfl⟩

/-- The names on the way to a child are those on the way to its parent, and its own. -/
theorem segments_child (p : Path) {name : String} (hname : IsName name) :
    Disk.segments (p.child name).text = Disk.segments p.text ++ [name] := by
  obtain ⟨front, hpieces, hfront⟩ := p.pieces_child hname
  have hne : name.toList.isEmpty = false := by simpa using hname.ne_nil
  unfold Disk.segments
  rw [hpieces, List.filter_append, hfront]
  simp [hne]

theorem isAbsolute_eq (p : Path) : p.isAbsolute = (p.text.toList.head? == some '/') := by
  unfold isAbsolute
  cases p.text.toList with
  | nil => rfl
  | cons c cs => by_cases hc : c = '/' <;> simp [hc]

theorem isAbsolute_child (p : Path) {name : String} (hname : IsName name) :
    (p.child name).isAbsolute = p.isAbsolute := by
  rw [isAbsolute_eq, isAbsolute_eq, child_chars p hname, List.head?_append]
  rcases p.stemChars_cases with ⟨htext, hstem⟩ | ⟨cs, htext, hstem⟩ | ⟨cs, c, -, htext, hstem⟩
  · obtain ⟨c, cs, hc⟩ := List.exists_cons_of_ne_nil hname.ne_nil
    have : c ≠ '/' := by
      rintro rfl
      exact hname.slash (by simp [hc])
    simp [htext, hstem, hc, this]
  · rw [htext, hstem]
    cases cs <;> simp
  · rw [htext, hstem]
    cases cs <;> simp

theorem endsInSlash_child (p : Path) {name : String} (hname : IsName name) :
    Disk.endsInSlash (p.child name).text = false := by
  unfold Disk.endsInSlash
  rw [child_chars p hname, List.getLast?_append]
  cases hlast : name.toList.getLast? with
  | none => exact absurd (List.getLast?_eq_none_iff.mp hlast) hname.ne_nil
  | some c =>
    have : c ≠ '/' := by
      rintro rfl
      exact hname.slash (List.mem_of_getLast? hlast)
    simpa using this

/-- The text of a child of a child. -/
theorem child_child_chars (p : Path) {name name' : String} (hname : IsName name)
    (hname' : IsName name') : ((p.child name).child name').text.toList =
      (p.child name).text.toList ++ '/' :: name'.toList := by
  have hend := p.endsInSlash_child hname
  rw [child_chars _ hname']
  rcases (p.child name).stemChars_cases with ⟨htext, -⟩ | ⟨cs, htext, -⟩ | ⟨cs, c, -, htext, hstem⟩
  · rw [child_chars p hname] at htext
    exact absurd (List.append_eq_nil_iff.mp htext).2 hname.ne_nil
  · simp [Disk.endsInSlash, htext] at hend
  · rw [htext, hstem]
    simp

/-- The parent of a path is what stands before its last segment. -/
theorem parent?_of_body {p : Path} {rooted : Bool} {segs : List (List Char)} {last : List Char}
    (h : p.body = (rooted, segs ++ [last])) :
    p.parent? = some ⟨String.ofList (if rooted then '/' :: unsplit (dropSilentEnd (!rooted) segs)
      else unsplit (dropSilentEnd (!rooted) segs))⟩ := by
  unfold parent?
  rw [h]
  split
  · simp_all
  · rename_i rooted' segs' _ heq
    obtain ⟨rfl, rfl⟩ := Prod.mk.inj heq
    rw [List.dropLast_concat]

/-- A child of a child is below that child. -/
theorem parent?_child (p : Path) {name name' : String} (hname : IsName name)
    (hname' : IsName name') : ((p.child name).child name').parent? = some (p.child name) := by
  have hchars := p.child_child_chars hname hname'
  have hpiece := Text.pieces_of_not_mem hname'.slash
  obtain ⟨front, hfront, -⟩ := p.pieces_child hname
  have hself {cs : List Char} (h : (p.child name).text.toList = cs) :
      some (⟨String.ofList cs⟩ : Path) = some (p.child name) := by
    rw [← h, String.ofList_toList]
  cases hcs : (p.child name).text.toList with
  | nil =>
    rw [child_chars p hname] at hcs
    exact absurd (List.append_eq_nil_iff.mp hcs).2 hname.ne_nil
  | cons c cs =>
    rw [hcs] at hchars hfront
    by_cases hc : c = '/'
    · subst hc
      -- The root of the path is an empty piece in front of the others.
      have hroot : pieces '/' ('/' :: cs) = [] :: pieces '/' cs := Text.pieces_append '/' [] cs
      obtain ⟨front', hfront'⟩ : ∃ front', pieces '/' cs = front' ++ [name.toList] := by
        rw [hroot] at hfront
        rcases front with _ | ⟨f, front⟩
        · exact absurd (List.cons.inj hfront).2 (Text.pieces_ne_nil '/' cs)
        · exact ⟨front, (List.cons.inj hfront).2⟩
      have hbody : ((p.child name).child name').body =
          (true, pieces '/' cs ++ [name'.toList]) := by
        unfold body
        rw [hchars, List.cons_append]
        change (true, dropSilentEnd false (pieces '/' (cs ++ '/' :: name'.toList))) = _
        rw [Text.pieces_append, hpiece, dropSilentEnd_append hname'.silent]
      rw [parent?_of_body hbody, hfront', dropSilentEnd_append hname.silent, ← hfront',
        unsplit_pieces, if_pos rfl]
      exact hself hcs
    · have hbody : ((p.child name).child name').body =
          (false, pieces '/' (c :: cs) ++ [name'.toList]) := by
        unfold body
        rw [hchars]
        split
        · simp_all
        · rw [Text.pieces_append, hpiece, dropSilentEnd_append hname'.silent]
      rw [parent?_of_body hbody, hfront, dropSilentEnd_append hname.silent, ← hfront,
        unsplit_pieces, if_neg (by simp)]
      exact hself hcs

end Path

end GameInstaller
