import GameInstaller.Proofs.Path
import Mathlib.Data.List.Basic

/-!
# Components of paths

The components of a child are those of its parent and its own name, so a path that was made by
appending names goes down from where it started, name by name.

* `IsProper`   a name that leads down
* `Below`      what names lead to from a root

## Key results

- `isProper_of_isSlug`: a slug leads one step down
- `components_child`: the components of a child
- `Below.unique`: components tell which names were appended
- `withExtension_child`: a file with another extension lies beside the file
-/

namespace GameInstaller.Path

open Text (pieces)

/-- A name that leads one step down: neither empty nor `.` nor `..`, and without slashes. -/
structure IsProper (name : String) : Prop extends IsName name where
  up : name.toList ≠ ['.', '.']

namespace IsProper

variable {name : String}

theorem ne_dot (h : IsProper name) : name ≠ "." := by
  rintro rfl
  exact absurd h.silent (by decide)

theorem ne_up (h : IsProper name) : name ≠ ".." := by
  rintro rfl
  exact h.up rfl

end IsProper

/-- A slug leads one step down, also with an ending. -/
theorem isProper_append {slug : String} (hslug : isSlug slug = true) (ending : String)
    (hending : '/' ∉ ending.toList) : IsProper (slug ++ ending) := by
  have hname := isName_of_isSlug hslug
  unfold isSlug at hslug
  cases hcs : slug.toList with
  | nil => simp [hcs, isSlugChars] at hslug
  | cons c cs =>
    -- No slug starts with a dot.
    have hdot : c ≠ '.' := by
      rw [hcs, isSlugChars] at hslug
      simpa using (Bool.and_eq_true_iff.mp hslug).1
    refine ⟨⟨?_, ?_⟩, ?_⟩
    · rw [String.toList_append, List.mem_append, not_or]
      exact ⟨hname.slash, hending⟩
    · simp [hcs, isSilent, hdot]
    · simp [hcs, hdot]

theorem isProper_of_isSlug {slug : String} (hslug : isSlug slug = true) : IsProper slug := by
  simpa using isProper_append hslug "" (by simp)

/-! ## Components -/

theorem laterComponents_append (segs segs' : List (List Char)) :
    laterComponents (segs ++ segs') = laterComponents segs ++ laterComponents segs' := by
  simp [laterComponents]

/-- The component of a proper name. -/
theorem laterComponents_name {name : String} (hname : IsProper name) :
    laterComponents (pieces '/' name.toList) = [.normal name.toList] := by
  rw [Text.pieces_of_not_mem hname.slash]
  simp [laterComponents, ofSegment, hname.silent, hname.up]

/-- Components of the pieces of a path that does not start at the root. -/
def ofPieces : List (List Char) → List Component
  | ['.'] :: segs => .here :: laterComponents segs
  | segs => laterComponents segs

theorem ofPieces_of_ne {p : List Char} (hp : p ≠ ['.']) (segs : List (List Char)) :
    ofPieces (p :: segs) = laterComponents (p :: segs) := by
  unfold ofPieces
  split
  · simp_all
  · rfl

/-- A path that does not start at the root is read piece by piece. -/
theorem componentsOf_relative {cs : List Char} (hcs : ∀ r, cs ≠ '/' :: r) :
    componentsOf cs = ofPieces (pieces '/' cs) := by
  unfold componentsOf
  split
  · exact absurd rfl (hcs _)
  · rfl

theorem ofPieces_append {segs : List (List Char)} (hsegs : segs ≠ [])
    (segs' : List (List Char)) : ofPieces (segs ++ segs') = ofPieces segs ++ laterComponents segs' := by
  obtain ⟨p, ps, rfl⟩ := List.exists_cons_of_ne_nil hsegs
  -- Whether the path starts with a dot is told by its first piece.
  by_cases hdot : p = ['.']
  · subst hdot
    simp [ofPieces, laterComponents_append]
  · rw [List.cons_append, ofPieces_of_ne hdot, ofPieces_of_ne hdot, ← List.cons_append,
      laterComponents_append]

/-- What stands behind a slash adds its components to those before it. -/
theorem componentsOf_append {cs : List Char} (hcs : cs ≠ []) (ds : List Char) :
    componentsOf (cs ++ '/' :: ds) = componentsOf cs ++ laterComponents (pieces '/' ds) := by
  obtain ⟨c, r, rfl⟩ := List.exists_cons_of_ne_nil hcs
  by_cases hc : c = '/'
  · subst hc
    change Component.root :: laterComponents (pieces '/' (r ++ '/' :: ds)) = _
    rw [Text.pieces_append, laterComponents_append]
    rfl
  · have hrelative (l : List Char) : ∀ r', c :: l ≠ '/' :: r' := by simp [hc]
    rw [componentsOf_relative (hrelative r), List.cons_append, componentsOf_relative (hrelative _),
      ← List.cons_append, Text.pieces_append, ofPieces_append (Text.pieces_ne_nil _ _)]

/-- A slash at the end adds nothing. -/
theorem componentsOf_slash {cs : List Char} (hcs : cs ≠ []) :
    componentsOf (cs ++ ['/']) = componentsOf cs := by
  rw [componentsOf_append hcs]
  exact List.append_nil _

/-- The components of a child are those of its parent, and its name. -/
theorem components_child (p : Path) {name : String} (hname : IsProper name) :
    (p.child name).components = p.components ++ [.normal name.toList] := by
  have hlater := laterComponents_name hname
  unfold components
  rw [child_chars p hname.toIsName]
  rcases p.stemChars_cases with ⟨htext, hstem⟩ | ⟨cs, htext, hstem⟩ | ⟨cs, c, -, htext, hstem⟩
  · -- There is nothing before the name.
    have hname' : ∀ r, name.toList ≠ '/' :: r := fun r hr => hname.slash (by simp [hr])
    have hdot : name.toList ≠ ['.'] := fun hdot => by simpa [hdot, isSilent] using hname.silent
    have hpiece := Text.pieces_of_not_mem hname.slash
    rw [htext, hstem, List.nil_append, componentsOf_relative hname', hpiece, ofPieces_of_ne hdot,
      ← hpiece, hlater]
    rfl
  · rw [htext, hstem, List.append_assoc, List.singleton_append]
    by_cases hcs : cs = []
    · subst hcs
      rw [← hlater]
      rfl
    · rw [componentsOf_append hcs, componentsOf_slash hcs, hlater]
  · rw [htext, hstem, List.append_assoc _ ['/'], List.singleton_append,
      componentsOf_append (by simp), hlater]

/-! ## Paths below a root -/

/-- These names lead from a root down to a path: its components are those of the root, followed by
    the names, and every name leads one step down. -/
structure Below (root : Path) (names : List String) (p : Path) : Prop where
  components : p.components = root.components ++ names.map fun name => .normal name.toList
  proper : ∀ name ∈ names, IsProper name

namespace Below

variable {root p q : Path} {names names' : List String} {name : String}

theorem root_self (root : Path) : Below root [] root := ⟨(List.append_nil _).symm, by simp⟩

/-- A child lies below what its parent lies below. -/
theorem child (h : Below root names p) (hname : IsProper name) :
    Below root (names ++ [name]) (p.child name) where
  components := by simp [components_child p hname, h.components]
  proper other hother := by
    rcases List.mem_append.mp hother with hmem | hmem
    · exact h.proper other hmem
    · obtain rfl := List.mem_singleton.mp hmem
      exact hname

/-- Other names lead to another path. -/
theorem unique (h : Below root names p) (h' : Below root names' q)
    (hpq : p.components = q.components) : names = names' := by
  rw [h.components, h'.components, List.append_cancel_left_eq] at hpq
  have hinjective : Function.Injective fun name : String => Component.normal name.toList :=
    fun a b hab => String.toList_injective (Component.normal.inj hab)
  exact hinjective.list_map hpq

end Below

/-! ## Extensions -/

/-- A child's text is cut into what stands before the last name, and that name. -/
theorem body_child (p : Path) : ∃ rooted front, ∀ name, IsName name →
    (p.child name).body = (rooted, front ++ [name.toList]) ∧
      (p.child name).text.toList =
        if rooted then '/' :: unsplit (front ++ [name.toList])
        else unsplit (front ++ [name.toList]) := by
  have hstem : p.stemChars = [] ∨ ∃ cs, p.stemChars = cs ++ ['/'] := by
    rcases p.stemChars_cases with ⟨-, h⟩ | ⟨cs, -, h⟩ | ⟨cs, c, -, -, h⟩
    · exact .inl h
    · exact .inr ⟨cs, h⟩
    · exact .inr ⟨_, h⟩
  have hrelative {cs : List Char} {segs : List (List Char)} {name : String} (hname : IsName name)
      (hcs : ∀ r, cs ≠ '/' :: r) (hp : (p.child name).text.toList = cs)
      (hsegs : pieces '/' cs = segs ++ [name.toList]) :
      (p.child name).body = (false, segs ++ [name.toList]) ∧
        (p.child name).text.toList = unsplit (segs ++ [name.toList]) := by
    constructor
    · unfold body
      rw [hp]
      split
      · exact absurd rfl (hcs _)
      · rw [hsegs, dropSilentEnd_append hname.silent]
    · rw [hp, ← hsegs, unsplit_pieces]
  rcases hstem with hstem | ⟨cs, hstem⟩
  · refine ⟨false, [], fun name hname => ?_⟩
    have hslash : ∀ r, name.toList ≠ '/' :: r := fun r hr => hname.slash (by simp [hr])
    refine hrelative hname hslash ?_ ?_
    · rw [child_chars p hname, hstem, List.nil_append]
    · exact Text.pieces_of_not_mem hname.slash
  · have hchars {name : String} (hname : IsName name) :
        (p.child name).text.toList = cs ++ '/' :: name.toList := by
      rw [child_chars p hname, hstem, List.append_assoc, List.singleton_append]
    have hpieces (ds : List Char) {name : String} (hname : IsName name) :
        pieces '/' (ds ++ '/' :: name.toList) = pieces '/' ds ++ [name.toList] := by
      rw [Text.pieces_append, Text.pieces_of_not_mem hname.slash]
    have hrooted {r : List Char} {segs : List (List Char)} {name : String} (hname : IsName name)
        (hp : (p.child name).text.toList = '/' :: r) (hsegs : pieces '/' r = segs ++ [name.toList]) :
        (p.child name).body = (true, segs ++ [name.toList]) ∧
          (p.child name).text.toList = '/' :: unsplit (segs ++ [name.toList]) := by
      constructor
      · unfold body
        rw [hp]
        change (true, dropSilentEnd false (pieces '/' r)) = _
        rw [hsegs, dropSilentEnd_append hname.silent]
      · rw [hp, ← hsegs, unsplit_pieces]
    -- A slash in front of the first piece makes the path one from the root.
    match cs with
    | [] =>
      exact ⟨true, [], fun name hname => hrooted hname (hchars hname)
        (Text.pieces_of_not_mem hname.slash)⟩
    | c :: r =>
      by_cases hc : c = '/'
      · subst hc
        exact ⟨true, pieces '/' r, fun name hname => hrooted hname (hchars hname)
          (hpieces r hname)⟩
      · refine ⟨false, pieces '/' (c :: r), fun name hname => hrelative hname ?_ (hchars hname)
          (hpieces _ hname)⟩
        simp [hc]

/-- The name of a file and its extension. -/
theorem fileName?_child (p : Path) {name : String} (hname : IsProper name) :
    (p.child name).fileName? = some name := by
  rw [fileName?, components_child p hname]
  simp

/-- A child with another extension is beside it. -/
theorem withExtension_child (p : Path) {name ext : String} (hname : IsProper name)
    {other : String} (hother : IsName other)
    (hstem : stem name.toList ++ '.' :: ext.toList = other.toList) :
    (p.child name).withExtension ext = p.child other := by
  obtain ⟨rooted, front, hbody⟩ := p.body_child
  obtain ⟨hname', -⟩ := hbody name hname.toIsName
  obtain ⟨-, htext⟩ := hbody other hother
  unfold withExtension
  rw [fileName?_child p hname, hname']
  dsimp only
  rw [List.dropLast_concat, hstem, ← htext, String.ofList_toList]

end GameInstaller.Path
