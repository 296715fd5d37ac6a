import GameInstaller.Install.Context
import GameInstaller.Proofs.Text
import Mathlib.Data.List.Infix
import Mathlib.Data.List.Nodup
import Mathlib.Data.List.TakeWhile
import Mathlib.Order.Lattice
import Mathlib.Tactic.Tauto

/-!
# What a text expands to

A text is split into references to variables and the characters between them, each name as long as it
can be.  Expansion keeps the characters and replaces each reference by the value of its name, if it has
one.

* `IsName`, `LongestName`   the names of variables, and the one that a text starts with
* `Part`, `Splits`          the parts of a text, and how it is split into them
* `Context.value`           the value of a name: of the install itself, given, or of the process
* `Crosses`                 a reference that reaches over a place of the text

## Key results

- `exists_unique_splits`: a text is split in one way
- `Splits.expandChars`: expansion is that of the parts
- `Splits.exists_cut`: a text cut between its parts is two texts with these parts
- `Context.get?_scope`: which values there are
- `expansion_account`: what is promised of the expansion of a text
-/

namespace GameInstaller

/-! ## Names -/

/-- The start of a name: a capital letter or an underscore. -/
def IsNameStart (c : Char) : Prop := 'A' ≤ c ∧ c ≤ 'Z' ∨ c = '_'

/-- The rest of a name: digits as well. -/
def IsNameChar (c : Char) : Prop := 'A' ≤ c ∧ c ≤ 'Z' ∨ '0' ≤ c ∧ c ≤ '9' ∨ c = '_'

/-- The names of variables. -/
def IsName : List Char → Prop
  | [] => False
  | c :: r => IsNameStart c ∧ ∀ d ∈ r, IsNameChar d

instance : DecidablePred IsNameStart := fun c =>
  inferInstanceAs (Decidable ('A' ≤ c ∧ c ≤ 'Z' ∨ c = '_'))

instance : DecidablePred IsNameChar := fun c =>
  inferInstanceAs (Decidable ('A' ≤ c ∧ c ≤ 'Z' ∨ '0' ≤ c ∧ c ≤ '9' ∨ c = '_'))

instance : DecidablePred IsName
  | [] => inferInstanceAs (Decidable False)
  | c :: r =>
    have : Decidable (∀ d ∈ r, IsNameChar d) := List.decidableBAll IsNameChar r
    inferInstanceAs (Decidable (IsNameStart c ∧ ∀ d ∈ r, IsNameChar d))

/-- The longest name that a text starts with. -/
structure LongestName (text name : List Char) : Prop where
  isName : IsName name
  front : name <+: text
  longest : ∀ other, IsName other → other <+: text → other.length ≤ name.length

theorem isNameStart_iff (c : Char) : IsNameStart c ↔ isVariableStart c = true := by
  rw [IsNameStart, isVariableStart, Bool.or_eq_true, Text.isUpper_iff, beq_iff_eq]

theorem isNameChar_iff (c : Char) : IsNameChar c ↔ isVariableChar c = true := by
  rw [IsNameChar, isVariableChar, Bool.or_eq_true, Bool.or_eq_true, Text.isUpper_iff,
    Text.isDigit_iff, beq_iff_eq, or_assoc]

/-- A name goes on as long as characters of names do. -/
theorem longestName_takeWhile {s : Char} (hs : IsNameStart s) (r : List Char) :
    LongestName (s :: r) (s :: r.takeWhile isVariableChar) where
  isName := ⟨hs, fun d hd => (isNameChar_iff d).mpr (List.mem_takeWhile_imp hd)⟩
  front := List.prefix_cons_inj s |>.mpr (List.takeWhile_prefix _)
  longest other hother hfront := by
    cases other with
    | nil => exact hother.elim
    | cons c name =>
      obtain ⟨rest, hrest⟩ := (List.cons_prefix_cons.mp hfront).2
      rw [← hrest, List.takeWhile_append_of_pos fun d hd => (isNameChar_iff d).mp (hother.2 d hd)]
      simp

theorem LongestName.eq {text name name' : List Char} (h : LongestName text name)
    (h' : LongestName text name') : name = name' :=
  (List.prefix_of_prefix_length_le h.front h'.front
    (h'.longest _ h.isName h.front)).eq_of_length_le (h.longest _ h'.isName h'.front)

/-- A text starts with a name if it does with the start of one. -/
theorem exists_name_front_iff {s : Char} {r : List Char} :
    (∃ name, IsName name ∧ name <+: s :: r) ↔ IsNameStart s := by
  constructor
  · rintro ⟨name, hname, hfront⟩
    cases name with
    | nil => exact hname.elim
    | cons c name =>
      rw [← (List.cons_prefix_cons.mp hfront).1]
      exact hname.1
  · exact fun hs => ⟨_, (longestName_takeWhile hs r).isName, (longestName_takeWhile hs r).front⟩

/-! ## Parts -/

/-- A part of a text. -/
inductive Part where
  /-- A character that stands for itself. -/
  | literal (c : Char)
  /-- A dollar sign and a name. -/
  | reference (name : List Char)
  deriving DecidableEq, Repr

namespace Part

/-- A part as it is written. -/
def chars : Part → List Char
  | literal c => [c]
  | reference name => '$' :: name

/-- What a part stands for.  A reference to a name without a value stands for itself. -/
def expand (value : String → Option String) : Part → List Char
  | literal c => [c]
  | reference name =>
    match value (String.ofList name) with
    | some v => v.toList
    | none => '$' :: name

theorem expand_reference {value : String → Option String} {name v : String}
    (h : value name = some v) : (reference name.toList).expand value = v.toList := by
  rw [expand, String.ofList_toList, h]

end Part

/-- How a text is split, from left to right.  A dollar sign before a name starts a reference to the
    longest one. -/
inductive Splits : List Char → List Part → Prop where
  | nil : Splits [] []
  | literal {c : Char} {rest : List Char} {parts : List Part}
      (alone : c = '$' → ¬ ∃ name, IsName name ∧ name <+: rest) (tail : Splits rest parts) :
      Splits (c :: rest) (.literal c :: parts)
  | reference {name rest : List Char} {parts : List Part}
      (longest : LongestName (name ++ rest) name) (tail : Splits rest parts) :
      Splits ('$' :: (name ++ rest)) (.reference name :: parts)

namespace Splits

variable {text : List Char} {parts parts' : List Part}

theorem chars_eq (h : Splits text parts) : parts.flatMap Part.chars = text := by
  induction h with
  | nil => rfl
  | literal _ _ ih => rw [List.flatMap_cons, ih, Part.chars, List.singleton_append]
  | reference _ _ ih => rw [List.flatMap_cons, ih, Part.chars, List.cons_append]

theorem unique (h : Splits text parts) (h' : Splits text parts') : parts = parts' := by
  induction h generalizing parts' with
  | nil => cases h'; rfl
  | literal alone tail ih =>
    cases h' with
    | literal _ tail' => rw [ih tail']
    | reference longest _ => exact absurd ⟨_, longest.isName, longest.front⟩ (alone rfl)
  | @reference name rest parts longest tail ih =>
    generalize htext : name ++ rest = text at h'
    cases h' with
    | literal alone _ => exact absurd ⟨_, longest.isName, htext ▸ longest.front⟩ (alone rfl)
    | @reference name' rest' _ longest' tail' =>
      obtain rfl := (htext ▸ longest).eq longest'
      obtain rfl := List.append_cancel_left htext
      rw [ih tail']

end Splits

/-- Every text is split. -/
theorem exists_splits (text : List Char) : ∃ parts, Splits text parts := by
  induction text using Environment.expandChars.induct with
  | case1 => exact ⟨[], .nil⟩
  | case2 s r hs ih =>
    -- A dollar sign before the start of a name: the scan passes over all of the name.
    obtain ⟨parts, hparts⟩ := ih
    have hsplit := List.takeWhile_append_dropWhile (p := isVariableChar) (l := r)
    have hlongest : LongestName (s :: r.takeWhile isVariableChar ++ r.dropWhile isVariableChar)
        (s :: r.takeWhile isVariableChar) := by
      rw [List.cons_append, hsplit]
      exact longestName_takeWhile ((isNameStart_iff s).mpr hs) r
    have hsplits := Splits.reference hlongest hparts
    rw [List.cons_append, hsplit] at hsplits
    exact ⟨_, hsplits⟩
  | case3 s r hs ih =>
    obtain ⟨parts, hparts⟩ := ih
    refine ⟨_, .literal (fun _ => ?_) hparts⟩
    rwa [exists_name_front_iff, isNameStart_iff]
  | case4 c r hnot ih =>
    obtain ⟨parts, hparts⟩ := ih
    refine ⟨_, .literal ?_ hparts⟩
    -- A dollar sign in the end has no name behind it.
    rintro rfl ⟨name, hname, hfront⟩
    cases r with
    | nil =>
      rw [List.prefix_nil.mp hfront] at hname
      exact hname
    | cons s r => exact hnot s r rfl rfl

/-! ## Expansion by parts -/

/-- Expansion is that of the parts. -/
theorem Splits.expandChars {text : List Char} {parts : List Part} (h : Splits text parts)
    (vars : Environment) : vars.expandChars text = parts.flatMap (Part.expand vars.get?) := by
  induction h with
  | nil => rw [Environment.expandChars, List.flatMap_nil]
  | @literal c rest parts alone tail ih =>
    rw [List.flatMap_cons, ← ih, Part.expand, List.singleton_append]
    by_cases hc : c = '$'
    · subst hc
      cases rest with
      | nil => simp [Environment.expandChars]
      | cons s r =>
        rw [Environment.expandChars, if_neg]
        rw [← isNameStart_iff, ← exists_name_front_iff]
        exact alone rfl
    · rw [Environment.expandChars]
      exact fun _ _ h => absurd h hc
  | @reference name rest parts longest tail ih =>
    rw [List.flatMap_cons, ← ih]
    cases name with
    | nil => exact longest.isName.elim
    | cons s name =>
      have hs := longest.isName.1
      obtain ⟨-, hname⟩ := List.cons_eq_cons.mp
        (longest.eq (longestName_takeWhile hs (name ++ rest)))
      -- The longest name is the one that the scan takes, so it leaves the same text.
      have hrest : (name ++ rest).dropWhile isVariableChar = rest := by
        have hsplit := List.takeWhile_append_dropWhile (p := isVariableChar) (l := name ++ rest)
        rw [← hname] at hsplit
        exact List.append_cancel_left hsplit
      rw [List.cons_append, Environment.expandChars, if_pos ((isNameStart_iff s).mp hs), ← hname,
        hrest, Environment.reference]
      rfl

/-! ## Cuts -/

/-- A reference starts before a place of the text and ends behind it. -/
def Crosses (parts : List Part) (place : Nat) : Prop :=
  ∃ before name after, parts = before ++ .reference name :: after ∧
    (before.flatMap Part.chars).length < place ∧
      place < (before.flatMap Part.chars).length + (Part.reference name).chars.length

/-- Where no reference crosses, the parts are those of two texts. -/
theorem Splits.exists_cut {text : List Char} {parts : List Part} (h : Splits text parts)
    {a b : List Char} (hab : a ++ b = text) (hcut : ¬ Crosses parts a.length) :
    ∃ before after, before ++ after = parts ∧ Splits a before ∧ Splits b after := by
  -- Part by part, until the text before the cut is used up.
  induction h generalizing a with
  | nil =>
    obtain ⟨rfl, rfl⟩ := List.append_eq_nil_iff.mp hab
    exact ⟨[], [], rfl, .nil, .nil⟩
  | @literal c rest parts alone tail ih =>
    cases a with
    | nil => exact ⟨[], _, rfl, .nil, by rw [← List.nil_append b, hab]; exact .literal alone tail⟩
    | cons d a =>
      obtain ⟨rfl, rfl⟩ := List.cons_eq_cons.mp hab
      obtain ⟨before, after, rfl, ha, hb⟩ := ih rfl fun ⟨front, name, rear, hparts, hlt, hgt⟩ =>
        hcut ⟨.literal d :: front, name, rear, by rw [hparts, List.cons_append], by
          simp only [List.flatMap_cons, Part.chars, List.length_append, List.length_cons,
            List.length_nil] at hlt hgt ⊢
          omega⟩
      refine ⟨.literal d :: before, after, rfl, .literal ?_ ha, hb⟩
      rintro hd ⟨name, hname, hfront⟩
      exact alone hd ⟨name, hname, hfront.trans (List.prefix_append a b)⟩
  | @reference name rest parts longest tail ih =>
    cases a with
    | nil => exact ⟨[], _, rfl, .nil, by rw [← List.nil_append b, hab]; exact .reference longest tail⟩
    | cons d a =>
      rw [List.cons_append] at hab
      obtain ⟨rfl, htext⟩ := List.cons_eq_cons.mp hab
      -- The reference does not cross, so all of it stands before the cut.
      have hlength : name.length ≤ a.length := by
        by_contra hshort
        refine hcut ⟨[], name, parts, rfl, ?_, ?_⟩ <;> simp [Part.chars]
        omega
      obtain ⟨a, rfl⟩ := List.prefix_of_prefix_length_le (List.prefix_append name rest)
        (htext ▸ List.prefix_append a b) hlength
      rw [List.append_assoc, List.append_cancel_left_eq] at htext
      subst htext
      obtain ⟨before, after, rfl, ha, hb⟩ := ih rfl fun ⟨front, name', rear, hparts, hlt, hgt⟩ =>
        hcut ⟨.reference name :: front, name', rear, by rw [hparts, List.cons_append], by
          simp only [List.flatMap_cons, Part.chars, List.length_append, List.length_cons] at hlt hgt ⊢
          omega⟩
      refine ⟨.reference name :: before, after, rfl, .reference ⟨longest.isName, ?_, ?_⟩ ha, hb⟩
      · exact List.prefix_append name a
      · -- A longer name before the cut would be one of the whole text.
        intro other hother hfront
        refine longest.longest other hother (hfront.trans ?_)
        rw [← List.append_assoc]
        exact List.prefix_append _ b

/-! ## Values -/

/-- The value that was given to a name last. -/
def lastGiven : List (String × String) → String → Option String
  | [], _ => none
  | (k, v) :: rest, name => (lastGiven rest name).or (if k = name then some v else none)

namespace Environment

theorem get?_cons (k v : String) (vars : List (String × String)) (name : String) :
    (⟨(k, v) :: vars⟩ : Environment).get? name =
      if k = name then some v else (⟨vars⟩ : Environment).get? name := by
  unfold get?
  by_cases h : k = name <;> simp [h]

theorem get?_set (e : Environment) (k v name : String) :
    (e.set k v).get? name = if k = name then some v else e.get? name := by
  obtain ⟨vars⟩ := e
  unfold set
  induction vars with
  | nil => rw [putVar, get?_cons]
  | cons entry vars ih =>
    obtain ⟨k', v'⟩ := entry
    rw [putVar]
    split
    · rename_i heq
      subst heq
      rw [get?_cons, get?_cons]
      split <;> rfl
    · rename_i hne
      rw [get?_cons, get?_cons, ih]
      split
      · rename_i heq
        rw [if_neg fun h => hne (heq.trans h.symm)]
      · rfl

theorem get?_extend (e : Environment) (more : List (String × String)) (name : String) :
    (e.extend more).get? name = (lastGiven more name).or (e.get? name) := by
  induction more generalizing e with
  | nil => rfl
  | cons entry more ih =>
    obtain ⟨k, v⟩ := entry
    rw [extend, List.foldl_cons, ← extend, ih, get?_set, lastGiven, Option.or_assoc]
    split <;> rfl

theorem get?_eq_none {e : Environment} {name : String} (h : name ∉ e.vars.map Prod.fst) :
    e.get? name = none := by
  rw [get?, Option.map_eq_none_iff, List.find?_eq_none]
  rintro entry hentry heq
  exact h (List.mem_map.mpr ⟨entry, hentry, beq_iff_eq.mp heq⟩)

/-- The names of an environment to which a name is given. -/
theorem names_set (e : Environment) (k v : String) :
    (e.set k v).vars.map Prod.fst =
      if k ∈ e.vars.map Prod.fst then e.vars.map Prod.fst else e.vars.map Prod.fst ++ [k] := by
  obtain ⟨vars⟩ := e
  unfold set
  induction vars with
  | nil => rfl
  | cons entry vars ih =>
    obtain ⟨k', v'⟩ := entry
    rw [putVar]
    by_cases heq : k' = k
    · simp [heq]
    · simp only [if_neg heq, List.map_cons, ih, List.mem_cons, Ne.symm heq, false_or]
      split <;> rfl

theorem nodup_extend {e : Environment} (h : (e.vars.map Prod.fst).Nodup)
    (more : List (String × String)) : ((e.extend more).vars.map Prod.fst).Nodup := by
  induction more generalizing e with
  | nil => exact h
  | cons entry more ih =>
    refine ih (e := e.set entry.1 entry.2) ?_
    rw [names_set]
    split
    · exact h
    · rename_i hnew
      rw [← List.concat_eq_append]
      exact h.concat hnew

theorem set_of_notMem {e : Environment} {k : String} (h : k ∉ e.vars.map Prod.fst) (v : String) :
    e.set k v = ⟨e.vars ++ [(k, v)]⟩ := by
  obtain ⟨vars⟩ := e
  simp only [set, Environment.mk.injEq]
  induction vars with
  | nil => rfl
  | cons entry vars ih =>
    obtain ⟨hne, hnot⟩ := not_or.mp (mt List.mem_cons.mpr h)
    rw [putVar, if_neg (Ne.symm hne), ih hnot, List.cons_append]

/-- An environment in which no name occurs twice is given, entry by entry. -/
theorem extend_of_nodup {e : Environment} {more : List (String × String)}
    (h : ((e.vars ++ more).map Prod.fst).Nodup) : e.extend more = ⟨e.vars ++ more⟩ := by
  induction more generalizing e with
  | nil => rw [List.append_nil]; rfl
  | cons entry more ih =>
    have hnew : entry.1 ∉ e.vars.map Prod.fst := by
      rw [List.map_append, List.map_cons] at h
      exact fun hmem => (List.nodup_append.mp h).2.2 _ hmem _ List.mem_cons_self rfl
    have hsplit : e.vars ++ entry :: more = (e.set entry.1 entry.2).vars ++ more := by
      rw [set_of_notMem hnew, List.append_assoc, List.singleton_append]
    rw [hsplit] at h ⊢
    exact ih h

/-- Where no name occurs twice, the last value of a name is the first. -/
theorem lastGiven_vars {e : Environment} (h : (e.vars.map Prod.fst).Nodup) (name : String) :
    lastGiven e.vars name = e.get? name := by
  obtain ⟨vars⟩ := e
  induction vars with
  | nil => rfl
  | cons entry vars ih =>
    obtain ⟨k, v⟩ := entry
    obtain ⟨hnot, hnodup⟩ := List.nodup_cons.mp h
    rw [lastGiven, ih hnodup, get?_cons]
    -- Only the first entry may have its name, so it is the last one with it as well.
    split
    · rename_i heq
      rw [get?_eq_none, Option.none_or]
      exact heq ▸ hnot
    · rw [Option.or_none]

end Environment

namespace Context

/-- The value that an install itself gives a name. -/
def ownValue (c : Context) (g : Game) : String → Option String
  | "GAMEDIR" => some c.gameDir.text
  | "CACHE" => some c.cacheDir.text
  | "GAME_SLUG" => some g.slug
  | "NAME" => some g.name
  | "RUNNER" => some g.runner
  | _ => none

/-- The value of a name: that of the install, the one given last, or that of the process. -/
def value (c : Context) (g : Game) (given : List (String × String)) (name : String) : Option String :=
  (c.ownValue g name).or <| (lastGiven given name).or <| if name = "HOME" then c.home else none

/-- A context in which nothing was given yet. -/
def fresh (c : Context) : Context := { c with env := ⟨[]⟩ }

/-- A context in which one more name was given a value. -/
def withEnv (c : Context) (name value : String) : Context := { c with env := c.env.set name value }

/-- A context in which names were given values, one after the other. -/
def withEnvs (c : Context) (given : List (String × String)) : Context :=
  given.foldl (fun c entry => c.withEnv entry.1 entry.2) c

theorem withEnvs_eq (c : Context) (given : List (String × String)) :
    c.withEnvs given = { c with env := c.env.extend given } := by
  induction given generalizing c with
  | nil => rfl
  | cons entry given ih => exact ih (c.withEnv entry.1 entry.2)

theorem lastGiven_own (c : Context) (g : Game) (name : String) :
    lastGiven [("GAMEDIR", c.gameDir.text), ("CACHE", c.cacheDir.text), ("GAME_SLUG", g.slug),
      ("NAME", g.name), ("RUNNER", g.runner)] name = c.ownValue g name := by
  unfold ownValue
  split
  all_goals simp_all [lastGiven]
  tauto

/-- The values of an install. -/
theorem get?_scope (c : Context) (g : Game) (name : String) :
    (c.scope g).get? name = c.value g c.env.vars name := by
  have hhome : lastGiven (match c.home with | some h => [("HOME", h)] | none => []) name =
      if name = "HOME" then c.home else none := by
    cases c.home with
    | none => rw [ite_self]; rfl
    | some h => simp [lastGiven, eq_comm]
  unfold scope
  rw [Environment.get?_extend, Environment.get?_extend, Environment.get?_extend, lastGiven_own, value,
    ← hhome]
  exact congrArg _ (congrArg _ (Option.or_none))

theorem get?_of_ownValue {c : Context} {g : Game} {name v : String}
    (h : c.ownValue g name = some v) : (c.scope g).get? name = some v := by
  rw [get?_scope, value, h, Option.some_or]

theorem value_withEnvs (c : Context) (g : Game) (given : List (String × String)) (name : String) :
    ((c.fresh.withEnvs given).scope g).get? name = c.value g given name := by
  have hlast : lastGiven ((⟨[]⟩ : Environment).extend given).vars name = lastGiven given name := by
    rw [Environment.lastGiven_vars (Environment.nodup_extend (e := ⟨[]⟩) List.nodup_nil given),
      Environment.get?_extend]
    exact Option.or_none
  rw [get?_scope, withEnvs_eq, value, value, ← hlast]
  rfl

/-- Every context in which no name has two values is made by giving values. -/
theorem withEnvs_vars {c : Context} (h : (c.env.vars.map Prod.fst).Nodup) :
    c.fresh.withEnvs c.env.vars = c := by
  rw [withEnvs_eq, fresh, Environment.extend_of_nodup (by simpa using h)]
  rfl

theorem toList_text {c : Context} {g : Game} {text : String} {parts : List Part}
    (h : Splits text.toList parts) :
    (c.text g text).toList = parts.flatMap (Part.expand (c.scope g).get?) := by
  rw [Context.text, Environment.expand, String.toList_ofList, h.expandChars]

theorem text_append {c : Context} {g : Game} {a b : String} {parts : List Part}
    (h : Splits (a ++ b).toList parts) (hcut : ¬ Crosses parts a.length) :
    c.text g (a ++ b) = c.text g a ++ c.text g b := by
  obtain ⟨before, after, rfl, ha, hb⟩ := h.exists_cut String.toList_append.symm
    (by rwa [String.length_toList])
  apply String.toList_inj.mp
  rw [toList_text h, String.toList_append, toList_text ha, toList_text hb, List.flatMap_append]

end Context

/-! ## The account -/

/-- What is promised of texts in a context in which names were given values, one after the other. -/
structure ExpansionAccount (c : Context) (g : Game) (given : List (String × String)) : Prop where
  /-- A text is split in one way. -/
  split : ∀ text : String, ∃ parts, ∀ parts', Splits text.toList parts' ↔ parts' = parts
  /-- Characters stay, and a reference is replaced by the value of its name. -/
  expand : ∀ (text : String) (parts : List Part), Splits text.toList parts →
    ((c.fresh.withEnvs given).text g text).toList = parts.flatMap (Part.expand (c.value g given))
  /-- Where no reference crosses, a text may be cut. -/
  append : ∀ (a b : String) (parts : List Part), Splits (a ++ b).toList parts →
    ¬ Crosses parts a.length → (c.fresh.withEnvs given).text g (a ++ b) =
      (c.fresh.withEnvs given).text g a ++ (c.fresh.withEnvs given).text g b
  /-- Every context is one of these, if its environment has no name twice. -/
  every : (c.env.vars.map Prod.fst).Nodup → c.fresh.withEnvs c.env.vars = c

/-- A context expands texts by the values of the install, those given, and those of the process. -/
theorem expansion_account (c : Context) (g : Game) (given : List (String × String)) :
    ExpansionAccount c g given where
  split text := by
    obtain ⟨parts, hparts⟩ := exists_splits text.toList
    exact ⟨parts, fun parts' => ⟨fun h => h.unique hparts, fun h => h ▸ hparts⟩⟩
  expand text parts h := by
    rw [Context.toList_text h, funext (c.value_withEnvs g given)]
  append a b parts h hcut := Context.text_append h hcut
  every := Context.withEnvs_vars

end GameInstaller
