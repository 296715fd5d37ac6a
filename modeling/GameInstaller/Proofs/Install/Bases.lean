import GameInstaller.Proofs.Install.Expansion
import GameInstaller.Proofs.Path.Components

/-!
# The directories that paths start from

A relative target is one in the directory of the game; a recipe may also write that directory before it,
as `$GAMEDIR/`.  The two are one path if the directory is given from the root, or is the current one.  A
directory that is given from the current one is gone into twice.  Inputs and `$CACHE/` are alike.

* `Path.IsFixed`  a directory that is found again from itself

## Key results

- `Path.components_div`: what a relative path adds to the path that it is joined to
- `Path.components_div_base_iff`: what it adds where that path stands before it too
- `Context.text_base`: a reference before a slash is replaced by its value
- `base_account`: when a base before a target or an input makes no difference
- `exists_base_twice`: where it does
-/

namespace GameInstaller

namespace Path

open Text (pieces)

variable {p q : Path}

theorem isAbsolute_iff : p.isAbsolute = true ↔ ∃ r, p.text.toList = '/' :: r := by
  unfold isAbsolute
  split
  · simp_all
  · simp_all

theorem isRelative_iff : p.isRelative = true ↔ ∀ r, p.text.toList ≠ '/' :: r := by
  rw [isRelative, Bool.not_eq_true', Bool.eq_false_iff, ne_eq, isAbsolute_iff, not_exists]

theorem div_of_isAbsolute (hq : q.isAbsolute = true) : p / q = q := by
  obtain ⟨r, hr⟩ := isAbsolute_iff.mp hq
  change Path.mk (String.ofList (joinChars _ _)) = q
  rw [hr, joinChars, ← hr, String.ofList_toList]

theorem div_chars (hq : q.isRelative = true) :
    (p / q).text.toList = p.stemChars ++ q.text.toList := by
  change (String.ofList (joinChars _ _)).toList = _
  rw [String.toList_ofList]
  unfold joinChars
  split
  · exact absurd ‹_› (isRelative_iff.mp hq _)
  · rcases p.stemChars_cases with ⟨htext, hstem⟩ | ⟨cs, htext, hstem⟩ | ⟨cs, c, hc, htext, hstem⟩
    · rw [htext, hstem]
      rfl
    · rw [htext, hstem, List.getLast?_concat]
      rfl
    · rw [htext, hstem, List.getLast?_concat]
      split
      · simp_all
      · simp_all
      · simp

/-- A relative path adds its components to those of the path that it is joined to. -/
theorem components_div (hp : p.text ≠ "") (hq : q.isRelative = true) :
    (p / q).components = p.components ++ laterComponents (pieces '/' q.text.toList) := by
  unfold components
  rw [div_chars hq]
  -- The base ends in a slash, or gets one; in both cases the pieces behind it are those of the path.
  rcases p.stemChars_cases with ⟨htext, -⟩ | ⟨cs, htext, hstem⟩ | ⟨cs, c, -, htext, hstem⟩
  · exact absurd (String.toList_eq_nil_iff.mp htext) hp
  · rw [htext, hstem, List.append_assoc, List.singleton_append]
    by_cases hcs : cs = []
    · subst hcs
      rfl
    · rw [componentsOf_append hcs, componentsOf_slash hcs]
  · rw [htext, hstem, List.append_assoc _ ['/'], List.singleton_append, componentsOf_append (by simp)]

theorem components_of_isRelative (hp : p.isRelative = true) :
    p.components = ofPieces (pieces '/' p.text.toList) :=
  componentsOf_relative (isRelative_iff.mp hp)

theorem ofSegment_cases (seg : List Char) : ofSegment seg = .up ∨ ofSegment seg = .normal seg := by
  unfold ofSegment
  split <;> simp

/-- Only a leading slash is the root. -/
theorem root_notMem_components (hp : p.isRelative = true) : .root ∉ p.components := by
  have hlater (segs : List (List Char)) : .root ∉ laterComponents segs := by
    intro hroot
    obtain ⟨seg, -, hseg⟩ := List.mem_map.mp hroot
    rcases ofSegment_cases seg with h | h <;> rw [h] at hseg <;> cases hseg
  rw [components_of_isRelative hp]
  unfold ofPieces
  split
  · simpa using hlater _
  · exact hlater _

/-- A relative path adds nothing exactly if it is the current directory. -/
theorem laterComponents_eq_nil_iff (hp : p.text ≠ "") (hrelative : p.isRelative = true) :
    laterComponents (pieces '/' p.text.toList) = [] ↔ p.components = [.here] := by
  obtain ⟨c, r, hcs⟩ := List.exists_cons_of_ne_nil (mt String.toList_eq_nil_iff.mp hp)
  obtain ⟨s, segs, hr⟩ := List.exists_cons_of_ne_nil (Text.pieces_ne_nil '/' r)
  have hc : c ≠ '/' := fun h => isRelative_iff.mp hrelative r (by rw [hcs, h])
  have hpieces : pieces '/' p.text.toList = (c :: s) :: segs := by
    rw [hcs, pieces, hr]
    simp [hc]
  rw [components_of_isRelative hrelative, hpieces]
  by_cases hdot : c :: s = ['.']
  · rw [hdot]
    simp [ofPieces, laterComponents, isSilent]
  · have hsilent : isSilent (c :: s) = false := by simpa [isSilent] using hdot
    rw [ofPieces_of_ne hdot, laterComponents, List.filter_cons_of_pos (by simp [hsilent])]
    rcases ofSegment_cases (c :: s) with h | h <;> simp [h]

/-- A base before a relative path leads where the path alone does, seen from that base, if the base is
    given from the root or is the current directory. -/
theorem components_div_base_iff (hq : q.isRelative = true) :
    (p / ⟨p.text ++ "/" ++ q.text⟩).components = (p / q).components ↔
      p.isAbsolute = true ∨ p.components = [.here] := by
  have hchars : (p.text ++ "/" ++ q.text).toList = p.text.toList ++ '/' :: q.text.toList := by
    simp [String.toList_append]
  by_cases hp : p.text = ""
  · -- Behind the empty path the slash is the root.
    have hnil : p.text.toList = [] := String.toList_eq_nil_iff.mpr hp
    have habsolute : (⟨p.text ++ "/" ++ q.text⟩ : Path).isAbsolute = true :=
      isAbsolute_iff.mpr ⟨q.text.toList, by rw [hchars, hnil]; rfl⟩
    have hroot : .root ∈ (⟨p.text ++ "/" ++ q.text⟩ : Path).components := by
      rw [components, hchars, hnil]
      exact List.mem_cons_self
    have hdiv : (p / q).components = q.components := by
      rw [components, div_chars hq, stemChars, hnil]
      rfl
    have hcomponents : p.components = [] := by rw [components, hnil]; rfl
    have hrelative : p.isAbsolute = false := by rw [isAbsolute, hnil]
    rw [div_of_isAbsolute habsolute, hdiv, hrelative, hcomponents]
    exact iff_of_false (fun h => root_notMem_components hq (h ▸ hroot)) (by decide)
  · by_cases habsolute : p.isAbsolute = true
    · -- What starts from the root is not joined to the base.
      obtain ⟨r, hr⟩ := isAbsolute_iff.mp habsolute
      rw [div_of_isAbsolute (isAbsolute_iff.mpr ⟨r ++ '/' :: q.text.toList, by rw [hchars, hr]; rfl⟩),
        components_div hp hq, components, hchars, componentsOf_append (by simp [hr])]
      exact iff_of_true rfl (.inl habsolute)
    · -- Else the base is gone into twice, which makes no difference if it adds no component.
      have hrelative : p.isRelative = true := by simpa [isRelative] using habsolute
      have hbase : (⟨p.text ++ "/" ++ q.text⟩ : Path).isRelative = true := by
        rw [isRelative_iff, hchars]
        intro r hr
        obtain ⟨c, cs, hcs⟩ := List.exists_cons_of_ne_nil (mt String.toList_eq_nil_iff.mp hp)
        rw [hcs, List.cons_append] at hr
        exact isRelative_iff.mp hrelative cs (by rw [hcs, (List.cons_eq_cons.mp hr).1])
      rw [components_div hp hq, components_div hp hbase, hchars, Text.pieces_append,
        laterComponents_append, List.append_cancel_left_eq, List.append_left_eq_self,
        laterComponents_eq_nil_iff hp hrelative]
      simp [habsolute]

end Path

/-! ## Bases that recipes write -/

/-- A slash ends a name. -/
theorem longestName_slash {name : List Char} (hname : IsName name) (rest : List Char) :
    LongestName (name ++ '/' :: rest) name := by
  cases name with
  | nil => exact hname.elim
  | cons s r =>
    have hlongest := longestName_takeWhile hname.1 (r ++ '/' :: rest)
    rwa [List.takeWhile_append_of_pos fun d hd => (isNameChar_iff d).mp (hname.2 d hd),
      List.takeWhile_cons_of_neg (by decide), List.append_nil] at hlongest

namespace Context

/-- A reference is replaced by its value, whatever stands behind the slash. -/
theorem text_base (c : Context) (g : Game) {name value : String} (hname : IsName name.toList)
    (hvalue : c.ownValue g name = some value) (raw : String) :
    c.text g ("$" ++ name ++ "/" ++ raw) = value ++ "/" ++ c.text g raw := by
  obtain ⟨parts, hparts⟩ := exists_splits raw.toList
  have hsplits : Splits ("$" ++ name ++ "/" ++ raw).toList
      (.reference name.toList :: .literal '/' :: parts) := by
    have h := Splits.reference (longestName_slash hname raw.toList)
      (.literal (fun h => absurd h (by decide)) hparts)
    simpa [String.toList_append] using h
  apply String.toList_inj.mp
  rw [toList_text hsplits, String.toList_append, toList_text hparts, List.flatMap_cons,
    List.flatMap_cons, Part.expand_reference (get?_of_ownValue hvalue), String.toList_append,
    List.append_assoc]
  rfl

end Context

/-! ## When a base makes no difference -/

/-- A base directory that is found again from itself. -/
def Path.IsFixed (base : Path) : Prop := base.isAbsolute = true ∨ base.components = [.here]

/-- What is promised of paths with and without the directory that they start from. -/
structure BaseAccount (c : Context) (g : Game) (raw : String) : Prop where
  /-- The directory of the game may be written before a target if it is fixed. -/
  target : (⟨c.text g raw⟩ : Path).isRelative = true →
    ((c.targetPath g ("$GAMEDIR/" ++ raw)).components = (c.targetPath g raw).components ↔
      c.gameDir.IsFixed)
  /-- So may the cache before an input. -/
  input : (⟨c.text g raw⟩ : Path).isRelative = true →
    ((c.inputPath g ("$CACHE/" ++ raw)).components = (c.inputPath g raw).components ↔
      c.cacheDir.IsFixed)

theorem base_account (c : Context) (g : Game) (raw : String) : BaseAccount c g raw where
  target hraw := by
    have htext := c.text_base g (show IsName "GAMEDIR".toList by decide) rfl raw
    rw [Context.targetPath, Context.targetPath, show "$GAMEDIR/" = "$" ++ "GAMEDIR" ++ "/" from rfl,
      htext]
    exact Path.components_div_base_iff hraw
  input hraw := by
    have htext := c.text_base g (show IsName "CACHE".toList by decide) rfl raw
    rw [Context.inputPath, Context.inputPath, show "$CACHE/" = "$" ++ "CACHE" ++ "/" from rfl, htext]
    exact Path.components_div_base_iff hraw

/-- A directory that is given from the current one is gone into twice. -/
theorem exists_base_twice : ∃ (c : Context) (g : Game) (raw : String),
    (⟨c.text g raw⟩ : Path).isRelative = true ∧
      (c.targetPath g ("$GAMEDIR/" ++ raw)).text = "games/baz/games/baz/saves" ∧
      (c.targetPath g raw).text = "games/baz/saves" ∧
      (c.targetPath g ("$GAMEDIR/" ++ raw)).components ≠ (c.targetPath g raw).components := by
  refine ⟨.ofGameDir ⟨"games/baz"⟩ none, ⟨"baz", "Baz", "linux"⟩, "saves", ?_⟩
  have hraw : (Context.ofGameDir ⟨"games/baz"⟩ none).text ⟨"baz", "Baz", "linux"⟩ "saves" = "saves" := by
    apply String.toList_inj.mp
    simp [Context.text, Environment.expand, Environment.expandChars]
  have hbase := (Context.ofGameDir ⟨"games/baz"⟩ none).text_base ⟨"baz", "Baz", "linux"⟩
    (show IsName "GAMEDIR".toList by decide) rfl "saves"
  rw [Context.targetPath, Context.targetPath, show "$GAMEDIR/" = "$" ++ "GAMEDIR" ++ "/" from rfl,
    hbase, hraw]
  decide

end GameInstaller
