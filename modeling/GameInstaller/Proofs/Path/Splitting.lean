import GameInstaller.Proofs.Path.Components

/-!
# Splitting paths

A path is the directory before its last component, and this component, if it is a name.  What is
silent at the end of a path, and at the end of the directory, is dropped.

* `ofBody`  the components of segments behind a root, or behind none
* `split?`  the directory and the name that a path is split into

## Key results

- `components_eq_ofBody`: what is dropped from the end of a path is no component of it
- `components_of_split?`: joined again, directory and name are the path, component by component
-/

namespace GameInstaller

open Text (pieces)

/-- No piece of a text has a separator in it. -/
theorem Text.not_mem_of_mem_pieces {sep : Char} {cs s : List Char} (h : s ∈ pieces sep cs) :
    sep ∉ s := by
  induction cs generalizing s with
  | nil => simp_all [pieces]
  | cons c cs ih =>
    obtain ⟨p, ps, hp⟩ := List.exists_cons_of_ne_nil (pieces_ne_nil sep cs)
    rw [hp] at ih
    rw [pieces, hp] at h
    by_cases hc : c = sep
    · simp only [hc, if_true, List.mem_cons] at h
      rcases h with rfl | h
      · exact List.not_mem_nil
      · exact ih (List.mem_cons.mpr h)
    · simp only [hc, if_false, List.mem_cons] at h
      rcases h with rfl | h
      · simpa [Ne.symm hc] using ih List.mem_cons_self
      · exact ih (List.mem_cons_of_mem _ h)

namespace Path

/-! ## Segments -/

/-- Segments joined in two parts. -/
theorem unsplit_append {front back : List (List Char)} (hfront : front ≠ []) (hback : back ≠ []) :
    unsplit (front ++ back) = unsplit front ++ '/' :: unsplit back := by
  obtain ⟨b, bs, rfl⟩ := List.exists_cons_of_ne_nil hback
  induction front with
  | nil => exact absurd rfl hfront
  | cons s front ih =>
    cases front with
    | nil => rfl
    | cons t ts =>
      have hcons (rest : List (List Char)) :
          unsplit (s :: t :: rest) = s ++ '/' :: unsplit (t :: rest) := rfl
      have hrest := ih (List.cons_ne_nil t ts)
      rw [List.cons_append] at hrest
      rw [List.cons_append, List.cons_append, hcons, hcons, hrest, List.append_assoc,
        List.cons_append]

/-- Segments without separators are the pieces of the text that they are joined to. -/
theorem pieces_unsplit {segs : List (List Char)} (hne : segs ≠ []) (h : ∀ s ∈ segs, '/' ∉ s) :
    pieces '/' (unsplit segs) = segs := by
  induction segs with
  | nil => exact absurd rfl hne
  | cons s rest ih =>
    obtain ⟨hs, hrest⟩ := List.forall_mem_cons.mp h
    cases rest with
    | nil => exact Text.pieces_of_not_mem hs
    | cons t ts =>
      have hcons : unsplit (s :: t :: ts) = s ++ '/' :: unsplit (t :: ts) := rfl
      rw [hcons, Text.pieces_append, Text.pieces_of_not_mem hs, ih (List.cons_ne_nil t ts) hrest]
      rfl

/-- What is left when the silent end of segments is dropped ends in a segment that is not empty. -/
theorem dropSilentEnd_cases (keepFirst : Bool) (segs : List (List Char)) :
    dropSilentEnd keepFirst segs = [] ∨ ∃ front last back,
      dropSilentEnd keepFirst segs = front ++ [last] ∧ segs = front ++ last :: back ∧
        last ≠ [] := by
  induction segs generalizing keepFirst with
  | nil => exact .inl rfl
  | cons s rest ih =>
    unfold dropSilentEnd
    rcases ih false with hnil | ⟨front, last, back, hkept, hrest, hlast⟩
    · rw [hnil]
      dsimp only
      split
      · exact .inl rfl
      · rename_i hs
        refine .inr ⟨[], s, rest, rfl, rfl, ?_⟩
        rintro rfl
        simp [isSilent] at hs
    · refine .inr ⟨s :: front, last, back, ?_, by rw [hrest]; rfl, hlast⟩
      rw [hkept]
      cases front <;> rfl

/-- What is dropped at the end of segments is silent. -/
theorem exists_silentEnd (keepFirst : Bool) (segs : List (List Char)) :
    ∃ back, segs = dropSilentEnd keepFirst segs ++ back ∧ ∀ s ∈ back, isSilent s = true := by
  induction segs generalizing keepFirst with
  | nil => exact ⟨[], rfl, by simp⟩
  | cons s rest ih =>
    obtain ⟨back, hrest, hback⟩ := ih false
    rw [dropSilentEnd]
    cases hkept : dropSilentEnd false rest with
    | nil =>
      rw [hkept, List.nil_append] at hrest
      dsimp only
      split
      · rename_i hs
        refine ⟨s :: rest, rfl, List.forall_mem_cons.mpr ⟨?_, hrest ▸ hback⟩⟩
        exact (Bool.and_eq_true_iff.mp hs).1
      · exact ⟨rest, rfl, hrest ▸ hback⟩
    | cons t ts => exact ⟨back, by rw [List.cons_append, ← hkept, ← hrest], hback⟩

/-- What is left ends in a segment that is not silent, or it is the dot that is protected. -/
theorem last_of_dropSilentEnd {keepFirst : Bool} {segs front : List (List Char)} {last : List Char}
    (h : dropSilentEnd keepFirst segs = front ++ [last]) :
    isSilent last = false ∨ (keepFirst = true ∧ front = [] ∧ last = ['.']) := by
  induction segs generalizing keepFirst front with
  | nil => simp [dropSilentEnd] at h
  | cons s rest ih =>
    rw [dropSilentEnd] at h
    cases hkept : dropSilentEnd false rest with
    | nil =>
      rw [hkept] at h
      dsimp only at h
      split at h
      · simp at h
      · rename_i hs
        obtain ⟨rfl, rfl⟩ : front = [] ∧ s = last := by
          rcases front with _ | ⟨t, ts⟩
          · simpa using h
          · simp at h
        cases hsilent : isSilent s with
        | false => exact .inl rfl
        | true => exact .inr (by simpa [hsilent] using hs)
    | cons t ts =>
      rw [hkept] at h
      rcases front with _ | ⟨f, front⟩
      · simp at h
      · have hrest : dropSilentEnd false rest = front ++ [last] := hkept.trans (List.cons.inj h).2
        simpa using ih hrest

/-- Joined segments of which the last ones were taken off: nothing is left, or the front of the
    text. -/
theorem unsplit_front {keepFirst : Bool} (keepFirst' : Bool) {segs front : List (List Char)}
    {last : List Char} (hsegs : ∀ s ∈ segs, '/' ∉ s)
    (h : dropSilentEnd keepFirst segs = front ++ [last]) :
    dropSilentEnd keepFirst' front = [] ∨ ∃ rest,
      unsplit segs = unsplit (dropSilentEnd keepFirst' front) ++ '/' :: rest ∧
        ∃ s ∈ pieces '/' rest, isSilent s = false := by
  rcases dropSilentEnd_cases keepFirst segs with hnil | ⟨front', last', back, hkept, rfl, -⟩
  · simp [hnil] at h
  obtain ⟨rfl, heq⟩ := List.append_inj' (hkept.symm.trans h) rfl
  obtain rfl := List.singleton_inj.mp heq
  rcases dropSilentEnd_cases keepFirst' front' with hnil | ⟨before, s, silent, hbefore, rfl, -⟩
  · exact .inl hnil
  have hlast : isSilent last' = false :=
    (last_of_dropSilentEnd h).resolve_right fun ⟨_, hfront, _⟩ => by simp at hfront
  -- Behind the front are the segments that were dropped from it, the last one and its silent end.
  have hback : silent ++ last' :: back ≠ [] := by simp
  refine .inr ⟨unsplit (silent ++ last' :: back), ?_, last', ?_, hlast⟩
  · rw [hbefore, ← unsplit_append (by simp) hback]
    simp
  · rw [pieces_unsplit hback fun t ht => hsegs t (by
      simp only [List.append_assoc, List.cons_append]
      exact List.mem_append_right _ (List.mem_cons_of_mem _ ht))]
    simp

/-! ## The body of a path -/

/-- A path starts at the root or not, and is cut into pieces behind. -/
theorem body_cases (p : Path) : ∃ rooted cs, p.text.toList = (if rooted then '/' :: cs else cs) ∧
    (rooted = false → ∀ r, cs ≠ '/' :: r) ∧
      p.body = (rooted, dropSilentEnd (!rooted) (pieces '/' cs)) := by
  unfold body
  split
  · exact ⟨true, _, ‹_›, nofun, rfl⟩
  · rename_i hslash
    exact ⟨false, _, rfl, fun _ => hslash, rfl⟩

/-- Components of segments behind the root, or behind none. -/
def ofBody (rooted : Bool) (segs : List (List Char)) : List Component :=
  if rooted then .root :: laterComponents segs else ofPieces segs

theorem ofBody_append (rooted : Bool) {segs segs' : List (List Char)}
    (hdot : rooted = false → segs = [] → segs'.head? ≠ some ['.']) :
    ofBody rooted (segs ++ segs') = ofBody rooted segs ++ laterComponents segs' := by
  cases rooted with
  | true => simp [ofBody, laterComponents_append]
  | false =>
    simp only [ofBody, Bool.false_eq_true, if_false]
    rcases segs with _ | ⟨s, segs⟩
    · rcases segs' with _ | ⟨t, segs'⟩
      · rfl
      · exact ofPieces_of_ne (by simpa using hdot rfl rfl) segs'
    · exact ofPieces_append (List.cons_ne_nil _ _) segs'

theorem laterComponents_silent {segs : List (List Char)} (h : ∀ s ∈ segs, isSilent s = true) :
    laterComponents segs = [] := by
  simpa [laterComponents] using h

/-- What is dropped from the end is no component. -/
theorem ofBody_dropSilentEnd (rooted : Bool) (segs : List (List Char)) :
    ofBody rooted (dropSilentEnd (!rooted) segs) = ofBody rooted segs := by
  obtain ⟨back, hsegs, hback⟩ := exists_silentEnd (!rooted) segs
  conv_rhs => rw [hsegs]
  rw [ofBody_append, laterComponents_silent hback, List.append_nil]
  -- A dot in front is kept.
  rintro rfl hnil hdot
  obtain ⟨rest, rfl⟩ : ∃ rest, back = ['.'] :: rest := by
    rcases back with _ | ⟨s, rest⟩
    · simp at hdot
    · exact ⟨rest, by simpa using hdot⟩
  obtain rfl : segs = ['.'] :: rest := by rw [hsegs, hnil, List.nil_append]
  rw [dropSilentEnd] at hnil
  split at hnil <;> simp [isSilent] at hnil

/-- The components of a path are those of its pieces. -/
theorem components_eq_ofBody {p : Path} {rooted : Bool} {cs : List Char}
    (htext : p.text.toList = if rooted then '/' :: cs else cs)
    (hslash : rooted = false → ∀ r, cs ≠ '/' :: r) :
    p.components = ofBody rooted (pieces '/' cs) := by
  rw [components, htext]
  cases rooted with
  | true => rfl
  | false => exact componentsOf_relative (hslash rfl)

/-- The components of a text that segments are joined to. -/
theorem components_unsplit {p : Path} {rooted : Bool} {segs : List (List Char)}
    (htext : p.text.toList = if rooted then '/' :: unsplit segs else unsplit segs)
    (h : ∀ s ∈ segs, '/' ∉ s) (hne : rooted = false → segs.head? ≠ some []) :
    p.components = ofBody rooted segs := by
  have hslash : rooted = false → ∀ r, unsplit segs ≠ '/' :: r := by
    rintro hrooted r hr
    -- A text that starts with a slash has an empty piece in front.
    rcases segs with _ | ⟨s, segs⟩
    · cases hr
    · have hpieces := pieces_unsplit (List.cons_ne_nil s segs) h
      rw [hr] at hpieces
      have hroot : pieces '/' ('/' :: r) = [] :: pieces '/' r := Text.pieces_append '/' [] r
      rw [hroot] at hpieces
      exact hne hrooted (by rw [← hpieces]; rfl)
  rw [components_eq_ofBody htext hslash]
  by_cases hsegs : segs = []
  · subst hsegs
    cases rooted <;> rfl
  · rw [pieces_unsplit hsegs h]

/-! ## Splitting -/

/-- The directory and the name that a path is split into; none where its last component is no name. -/
def split? (p : Path) : Option (Path × String) :=
  match p.parent?, p.fileName? with
  | some dir, some name => some (dir, name)
  | _, _ => none

theorem split?_eq_some_iff {p dir : Path} {name : String} :
    p.split? = some (dir, name) ↔ p.parent? = some dir ∧ p.fileName? = some name := by
  unfold split?
  cases p.parent? <;> cases p.fileName? <;> simp

/-- The components of a parent are those of the segments before the last one. -/
theorem components_parent {p dir : Path} {rooted : Bool} {cs : List Char} {front : List (List Char)}
    {last : List Char} (hslash : rooted = false → ∀ r, cs ≠ '/' :: r)
    (hbody : p.body = (rooted, dropSilentEnd (!rooted) (pieces '/' cs)))
    (hkept : dropSilentEnd (!rooted) (pieces '/' cs) = front ++ [last])
    (hparent : p.parent? = some dir) : dir.components = ofBody rooted front := by
  obtain ⟨back, hback, -⟩ := exists_silentEnd (!rooted) (pieces '/' cs)
  obtain ⟨silent, hsilent, -⟩ := exists_silentEnd (!rooted) front
  rw [hkept] at hbody hback
  rw [parent?_of_body hbody, Option.some.injEq] at hparent
  have hpieces (s : List Char) (hs : s ∈ dropSilentEnd (!rooted) front) : '/' ∉ s := by
    have hfront : s ∈ front := by
      rw [hsilent]
      exact List.mem_append_left _ hs
    have hmem : s ∈ pieces '/' cs := by
      rw [hback]
      simp [hfront]
    exact Text.not_mem_of_mem_pieces hmem
  have htext : dir.text.toList = if rooted then '/' :: unsplit (dropSilentEnd (!rooted) front)
      else unsplit (dropSilentEnd (!rooted) front) := by
    rw [← hparent, String.toList_ofList]
  rw [components_unsplit htext hpieces, ofBody_dropSilentEnd]
  -- An empty piece in front of others is there for a slash in front.
  intro hrooted hempty
  obtain ⟨rest, hrest⟩ := List.head?_eq_some_iff.mp hempty
  rw [hrest] at hsilent
  have hcs := unsplit_pieces cs
  rw [hback, hsilent] at hcs
  refine hslash hrooted (unsplit (rest ++ silent ++ [last] ++ back)) (hcs.symm.trans ?_)
  rw [List.cons_append, List.cons_append, List.cons_append]
  obtain ⟨t, ts, ht⟩ := List.exists_cons_of_ne_nil
    (show rest ++ silent ++ [last] ++ back ≠ [] by simp)
  rw [ht]
  rfl

theorem split?_eq_none_iff {p : Path} :
    p.split? = none ↔ p.parent? = none ∨ p.fileName? = none := by
  unfold split?
  cases p.parent? <;> cases p.fileName? <;> simp

/-- Where a path ends in a name, its components are those of its directory, and this name. -/
theorem split?_components {p dir : Path} {name : String} (h : p.split? = some (dir, name)) :
    IsProper name ∧ p.components = dir.components ++ [.normal name.toList] := by
  obtain ⟨hparent, hname⟩ := split?_eq_some_iff.mp h
  obtain ⟨rooted, cs, htext, hslash, hbody⟩ := p.body_cases
  obtain ⟨back, hback, -⟩ := exists_silentEnd (!rooted) (pieces '/' cs)
  rcases List.eq_nil_or_concat (dropSilentEnd (!rooted) (pieces '/' cs)) with
    hnil | ⟨front, last, hkept⟩
  · rw [parent?, hbody, hnil] at hparent
    cases hparent
  rw [List.concat_eq_append] at hkept
  have hfront := components_parent hslash hbody hkept hparent
  have hcomponents := components_eq_ofBody htext hslash
  rw [← ofBody_dropSilentEnd, hkept] at hcomponents
  rw [fileName?, hcomponents] at hname
  rcases last_of_dropSilentEnd hkept with hlast | ⟨hrooted, rfl, rfl⟩
  swap
  · -- A path that is a dot ends in no name.
    obtain rfl : rooted = false := by simpa using hrooted
    cases hname
  have hdot : last ≠ ['.'] := by
    rintro rfl
    cases hlast
  have hlater : laterComponents [last] = [ofSegment last] := by simp [laterComponents, hlast]
  rw [ofBody_append rooted (by simpa using fun _ _ => hdot), hlater] at hcomponents hname
  rw [List.getLast?_concat, ofSegment] at hname
  have hup : last ≠ ['.', '.'] := by
    rintro rfl
    cases hname
  rw [if_neg (by simpa using hup)] at hname
  obtain rfl : String.ofList last = name := Option.some.inj hname
  have hmem : last ∈ pieces '/' cs := by
    rw [hback, hkept]
    simp
  rw [hcomponents, hfront, ofSegment, if_neg (by simpa using hup), String.toList_ofList]
  refine ⟨⟨⟨?_, ?_⟩, ?_⟩, rfl⟩ <;> rw [String.toList_ofList]
  · exact Text.not_mem_of_mem_pieces hmem
  · exact hlast
  · exact hup

/-- Joined again, the directory and the name of a path are the path, component by component. -/
theorem components_of_split? {p dir : Path} {name : String} (h : p.split? = some (dir, name)) :
    (dir.child name).components = p.components := by
  obtain ⟨hproper, hcomponents⟩ := split?_components h
  rw [components_child dir hproper, hcomponents]

end Path

end GameInstaller
