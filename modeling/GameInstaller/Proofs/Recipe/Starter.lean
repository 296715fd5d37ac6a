import GameInstaller.Cli.Run
import GameInstaller.Proofs.Install.Validity
import GameInstaller.Proofs.Yaml.Foreign
import GameInstaller.Proofs.Yaml.Lines
import GameInstaller.Proofs.Yaml.Reading

/-!
# Recipes to start from

A recipe to start from is written line by line, with a slug in four places.  It is read back as a recipe
with fixed metadata and steps, but the slug itself stands there as a plain scalar, and is what YAML
reads in its place: a number, a boolean, null or no value at all.

* `starterLines`       the lines of such a recipe
* `starterWith`        the recipe, by the value that its slug is read as
* `starterOperations`  what its steps do
* `KeepsSlug`          slugs that are read as themselves

## Key results

- `value_starterRecipe`, `value_starterRecipe_dash`: the value of the text
- `ofText_starterRecipe`: the recipe that the text is read as
- `gameSlug_starterWith`: when the recipe has the slug that it was written with
- `findings_starterWith`: it is valid then
-/

namespace GameInstaller.Cli

open Yaml

/-! ## The text -/

/-- The lines of a recipe to start from, with its archive, the digest of the archive, and a script. -/
def starterLines (slug archive digest script : List Char) : List Line :=
  [⟨0, false, "name".toList, .quoted "My Game".toList, 0⟩,
   ⟨0, false, "game_slug".toList, .plain slug, 0⟩,
   ⟨0, false, "runner".toList, .plain "linux".toList, 1⟩,
   ⟨0, false, "steps".toList, .none, 0⟩,
   ⟨2, true, "checksum".toList, .none, 0⟩,
   ⟨6, false, "file".toList, .plain archive, 0⟩,
   ⟨6, false, "hash".toList, .quoted digest, 0⟩,
   ⟨2, true, "extract".toList, .none, 0⟩,
   ⟨6, false, "file".toList, .plain archive, 0⟩,
   ⟨2, true, "mkdir".toList, .plain "$GAMEDIR/saves".toList, 0⟩,
   ⟨2, true, "write_config".toList, .plain script, 0⟩]

/-- The archive of a game. -/
def archiveOf (slug : String) : String := slug ++ ".tar.gz"

/-- The start script of a game. -/
def scriptOf (slug : String) : String := "$GAMEDIR/" ++ slug ++ "/start.sh"

/-- The digest that stands for one that is not known yet. -/
def noDigest : String := "sha256:" ++ String.ofList (List.replicate 64 '0')

theorem starterRecipe_toList (slug : String) : (starterRecipe slug).toList =
    Line.text (starterLines slug.toList (archiveOf slug).toList noDigest.toList
      (scriptOf slug).toList) := by
  delta starterRecipe noDigest archiveOf scriptOf
  -- The digest is the same on both sides, however many zeros it has.
  generalize String.ofList (List.replicate 64 '0') = zeros
  simp only [String.toList_append, starterLines, Line.text, Line.chars, Line.columnOf,
    Content.chars, List.append_assoc, List.replicate, if_true, Bool.false_eq_true, if_false,
    List.nil_append, List.append_nil, List.cons_append]
  simp

/-! ## Slugs in YAML -/

variable {slug : String} {c : Char}

theorem toNat_lt_of_isSlugChar (hc : isSlugChar c = true) : c.toNat < 0x7F := by
  simp only [isSlugChar, Bool.or_eq_true, Text.isAlphanum_iff, beq_iff_eq] at hc
  rcases hc with ((((⟨-, hhigh⟩ | ⟨-, hhigh⟩) | ⟨-, hhigh⟩) | rfl) | rfl) | rfl
  case inr | inl.inr | inl.inl.inr => decide
  all_goals exact Nat.lt_of_le_of_lt (UInt32.le_iff_toNat_le.mp hhigh) (by decide)

/-- What holds of the characters of ASCII that slugs may have holds of all that they may have. -/
theorem forall_isSlugChar {p : Char → Prop}
    (h : ∀ n < 0x7F, isSlugChar (Char.ofNat n) = true → p (Char.ofNat n))
    (hc : isSlugChar c = true) : p c := by
  have hvalue := h c.toNat (toNat_lt_of_isSlugChar hc)
  rw [Char.ofNat_toNat] at hvalue
  exact hvalue hc

theorem isPlainChar_of_isSlugChar (hc : isSlugChar c = true) : isPlainChar c = true :=
  forall_isSlugChar (p := fun c => isPlainChar c = true) (by decide +kernel) hc

theorem isPrintable_of_isSlugChar (hc : isSlugChar c = true) : isPrintable c = true :=
  forall_isSlugChar (p := fun c => isPrintable c = true) (by decide +kernel) hc

/-- The dash is the only indicator that a slug may have. -/
theorem isIndicator_of_isSlugChar (hc : isSlugChar c = true) : c ≠ '-' → isIndicator c = false :=
  forall_isSlugChar (p := fun c => c ≠ '-' → isIndicator c = false) (by decide +kernel) hc

theorem isBlank_of_isSlugChar (hc : isSlugChar c = true) : Text.isBlank c = false :=
  forall_isSlugChar (p := fun c => Text.isBlank c = false) (by decide +kernel) hc

theorem all_isSlugChar (h : isSlug slug = true) : ∀ c ∈ slug.toList, isSlugChar c = true := by
  unfold isSlug isSlugChars at h
  split at h
  · cases h
  · rename_i heq
    rw [heq]
    exact List.all_eq_true.mp (Bool.and_eq_true_iff.mp h).2

/-- No slug is blank. -/
theorem trim_ne_of_isSlug (h : isSlug slug = true) : Text.trim slug ≠ "" := by
  rw [Ne, ← Text.allBlank_iff, Text.allBlank, Bool.not_eq_true, List.all_eq_false]
  cases hslug : slug.toList with
  | nil =>
    rw [isSlug, hslug] at h
    cases h
  | cons c r =>
    have hblank := isBlank_of_isSlugChar (all_isSlugChar h c (by simp [hslug]))
    exact ⟨c, List.mem_cons_self, by simp [hblank]⟩

/-- A slug that is more than a dash is a word. -/
theorem isWord_of_isSlug (h : isSlug slug = true) (hdash : slug ≠ "-") : IsWord slug.toList := by
  have hchars := all_isSlugChar h
  refine ⟨fun c hc => isPlainChar_of_isSlugChar (hchars c hc), ?_⟩
  cases hslug : slug.toList with
  | nil =>
    rw [isSlug, hslug] at h
    cases h
  | cons c r =>
    refine ⟨c, r, rfl, ?_⟩
    by_cases hc : c = '-'
    · refine .inr ⟨hc, ?_⟩
      rintro rfl
      exact hdash (String.toList_injective (by rw [hslug, hc]; rfl))
    · exact .inl (isIndicator_of_isSlugChar (hchars c (by simp [hslug])) hc)

theorem fitAll_starterLines (h : isSlug slug = true) (hdash : slug ≠ "-") :
    Line.FitAll (starterLines slug.toList (archiveOf slug).toList noDigest.toList
      (scriptOf slug).toList) := by
  have hchars := all_isSlugChar h
  have hslug := isWord_of_isSlug h hdash
  have harchive : IsWord (archiveOf slug).toList := by
    rw [archiveOf, String.toList_append]
    exact hslug.append (List.all_eq_true.mp (by decide))
  have hscript : IsWord (scriptOf slug).toList := by
    rw [scriptOf, String.toList_append, String.toList_append, List.append_assoc]
    refine IsWord.append (by decide) fun c hc => ?_
    rcases List.mem_append.mp hc with hc | hc
    · exact isPlainChar_of_isSlugChar (hchars c hc)
    · exact List.all_eq_true.mp (show "/start.sh".toList.all isPlainChar = true by decide) c hc
  have hlinux : IsWord "linux".toList := by decide
  have hsaves : IsWord "$GAMEDIR/saves".toList := by decide
  have hname : ∀ c ∈ "My Game".toList, isQuotedChar c = true := List.all_eq_true.mp (by decide)
  have hdigest : ∀ c ∈ noDigest.toList, isQuotedChar c = true := List.all_eq_true.mp (by decide)
  have hkey : ∀ name ∈ ["name", "game_slug", "runner", "steps", "checksum", "file", "hash", "extract",
    "mkdir", "write_config"], IsKey name.toList := by decide
  exact ⟨⟨hkey "name" (by decide), hname⟩,
    ⟨hkey "game_slug" (by decide), hslug, Nat.le_refl 0⟩,
    ⟨hkey "runner" (by decide), hlinux, Nat.le_refl 0⟩,
    ⟨hkey "steps" (by decide), trivial⟩,
    ⟨hkey "checksum" (by decide), trivial⟩,
    ⟨hkey "file" (by decide), harchive, Nat.le_refl 6⟩,
    ⟨hkey "hash" (by decide), hdigest⟩,
    ⟨hkey "extract" (by decide), trivial⟩,
    ⟨hkey "file" (by decide), harchive, Nat.le_add_left 2 4⟩,
    ⟨hkey "mkdir" (by decide), hsaves, Nat.le_add_left 2 2⟩,
    ⟨hkey "write_config" (by decide), hscript, Nat.zero_le 4⟩,
    trivial⟩

theorem tokens_starterLines (slug archive digest script : List Char) :
    Line.tokens (starterLines slug archive digest script) =
      .blockMapping :: (Token.ofEntries
        [([.scalar true "name".toList], [.scalar false "My Game".toList]),
         ([.scalar true "game_slug".toList], [.scalar true slug]),
         ([.scalar true "runner".toList], [.scalar true "linux".toList]),
         ([.scalar true "steps".toList], .blockSequence :: (Token.ofItems
          [.blockMapping :: (Token.ofEntries [([.scalar true "checksum".toList],
            .blockMapping :: (Token.ofEntries
              [([.scalar true "file".toList], [.scalar true archive]),
               ([.scalar true "hash".toList], [.scalar false digest])] ++ [.blockEnd]))] ++ [.blockEnd]),
           .blockMapping :: (Token.ofEntries [([.scalar true "extract".toList],
            .blockMapping :: (Token.ofEntries
              [([.scalar true "file".toList], [.scalar true archive])] ++ [.blockEnd]))] ++ [.blockEnd]),
           .blockMapping :: (Token.ofEntries [([.scalar true "mkdir".toList],
              [.scalar true "$GAMEDIR/saves".toList])] ++ [.blockEnd]),
           .blockMapping :: (Token.ofEntries [([.scalar true "write_config".toList],
              [.scalar true script])] ++ [.blockEnd])] ++ [.blockEnd]))] ++ [.blockEnd]) ++ [.streamEnd] := by
  simp [starterLines, Line.tokens, Line.blocks, Line.keyColumn, Blocks.close, Blocks.closeAll,
    Blocks.enter, Blocks.push, Blocks.innermost, Content.tokens, Blocks.done, Token.ofEntries, Token.ofItems]

/-! ## The value -/

/-- The value of a recipe to start from whose slug has this value. -/
def starterValue (slug : String) (v : Value) : Value :=
  let step (command : String) (params : Value) : Value := .mapping [(.string command, params)]
  let archive : Value × Value := (.string "file", .string (archiveOf slug))
  .mapping
    [(.string "name", .string "My Game"),
     (.string "game_slug", v),
     (.string "runner", .string "linux"),
     (.string "steps", .sequence
       [step "checksum" (.mapping [archive, (.string "hash", .string noDigest)]),
        step "extract" (.mapping [archive]),
        step "mkdir" (.string "$GAMEDIR/saves"),
        step "write_config" (.string (scriptOf slug))])]

theorem value?_archiveOf (slug : String) :
    Plain.value? (archiveOf slug).toList = some (.string (archiveOf slug)) := by
  have hmem : 'z' ∈ (archiveOf slug).toList := by simp [archiveOf, String.toList_append]
  rw [Plain.value?_of_isForeign hmem (by decide), String.ofList_toList]

theorem value?_scriptOf (slug : String) :
    Plain.value? (scriptOf slug).toList = some (.string (scriptOf slug)) := by
  have hmem : '$' ∈ (scriptOf slug).toList := by simp [scriptOf, String.toList_append]
  rw [Plain.value?_of_isForeign hmem (by decide), String.ofList_toList]

theorem denotes_word (depth : Nat) (name : String)
    (h : Plain.value? name.toList = some (.string name)) :
    Token.Denotes depth [.scalar true name.toList] (some (.string name)) := by
  rw [← h]
  exact Token.denotes_plain _

/-- A step is a mapping of one entry. -/
theorem denotes_step {depth : Nat} (command : String) {ts : List Token} {params : Value}
    (hcommand : Plain.value? command.toList = some (.string command))
    (h : Token.Denotes depth ts (some params)) : Token.Denotes (depth + 1)
      (.blockMapping :: (Token.ofEntries [([.scalar true command.toList], ts)] ++ [.blockEnd]))
      (some (.mapping [(.string command, params)])) :=
  Token.denotes_entries (.cons (denotes_word _ _ hcommand) h .nil) rfl rfl

/-- The value of a recipe to start from hangs on what YAML reads in place of its slug. -/
theorem value_starterRecipe (h : isSlug slug = true) (hdash : slug ≠ "-") :
    Value.ofText? (starterRecipe slug).toList =
      (Plain.value? slug.toList).map (starterValue slug) := by
  have hprintable : (starterRecipe slug).toList.all isPrintable = true := by
    have hslug : slug.toList.all isPrintable = true :=
      List.all_eq_true.mpr fun c hc => isPrintable_of_isSlugChar (all_isSlugChar h c hc)
    delta starterRecipe
    simp only [String.toList_append, List.all_append, hslug, Bool.and_true]
    decide
  have htokens := Token.ofText_lines (fitAll_starterLines h hdash) rfl
    (by rw [← starterRecipe_toList]; exact hprintable)
  rw [← starterRecipe_toList, tokens_starterLines] at htokens
  refine Value.ofText?_of_denotes htokens ?_
  -- From the inside out: scalars, parameters, steps, and the whole.
  have hdigest : Token.Denotes 124 [.scalar false noDigest.toList] (some (.string noDigest)) := by
    simpa only [String.ofList_toList] using Token.denotes_quoted noDigest.toList
  have harchive := denotes_word 124 _ (value?_archiveOf slug)
  have hchecksum := denotes_step "checksum" rfl (Token.denotes_entries
    (.cons (denotes_word _ "file" rfl) harchive (.cons (denotes_word _ "hash" rfl) hdigest .nil))
    rfl rfl)
  have hextract := denotes_step "extract" rfl (denotes_step "file" rfl harchive)
  have hmkdir := denotes_step "mkdir" rfl (denotes_word 125 "$GAMEDIR/saves" rfl)
  have hwrite := denotes_step "write_config" rfl (denotes_word 125 _ (value?_scriptOf slug))
  have hsteps := Token.denotes_items
    (.cons hchecksum (.cons hextract (.cons hmkdir (.cons hwrite .nil))))
  have hwhole := Token.denotes_mapping
    (.cons (denotes_word 127 "name" rfl) (Token.denotes_quoted "My Game".toList)
    (.cons (denotes_word _ "game_slug" rfl) (Token.denotes_plain slug.toList)
    (.cons (denotes_word _ "runner" rfl) (denotes_word _ "linux" rfl)
    (.cons (denotes_word _ "steps" rfl) hsteps .nil))))
  cases hslug : Plain.value? slug.toList with
  | none =>
    rw [hslug] at hwhole
    exact hwhole
  | some v =>
    rw [hslug] at hwhole
    exact hwhole

/-- A dash in place of the slug starts an item where none may start. -/
theorem value_starterRecipe_dash : Value.ofText? (starterRecipe "-").toList = none := by
  have hline : Line.Fits 0 ⟨0, false, "name".toList, .quoted "My Game".toList, 0⟩ :=
    ⟨by decide, List.all_eq_true.mp (show "My Game".toList.all isQuotedChar = true by decide)⟩
  have htext : Token.ofText (starterRecipe "-").toList = none := by
    rw [starterRecipe_toList]
    exact Token.ofText_dash hline rfl (show IsKey "game_slug".toList by decide) 0 _
  rw [Value.ofText?, Document.ofText?, htext]
  rfl

/-! ## The recipe -/

/-- The steps of a recipe to start from. -/
def starterSteps (slug : String) : List Step :=
  [⟨0, "checksum", .mapping [(.string "file", .string (archiveOf slug)),
    (.string "hash", .string noDigest)]⟩,
   ⟨1, "extract", .mapping [(.string "file", .string (archiveOf slug))]⟩,
   ⟨2, "mkdir", .string "$GAMEDIR/saves"⟩,
   ⟨3, "write_config", .string (scriptOf slug)⟩]

/-- A recipe to start from whose slug has this value. -/
def starterWith (slug : String) (v : Value) : Recipe :=
  ⟨[("name", .string "My Game"), ("game_slug", v), ("runner", .string "linux")], starterSteps slug⟩

theorem ofValue_starterValue (slug : String) (v : Value) :
    Recipe.ofValue (starterValue slug v) = .ok (starterWith slug v) := rfl

/-- What the steps of a recipe to start from do: its archive is checked and extracted, a directory is
    made, and the script is entered. -/
def starterOperations (slug : String) : List Operation :=
  [.checksum (archiveOf slug) ⟨.sha256, String.ofList (List.replicate 64 '0')⟩,
   .extract (archiveOf slug) none none, .mkdir "$GAMEDIR/saves", .writeConfig (scriptOf slug)]

theorem operations_starterSteps (slug : String) :
    (starterSteps slug).map Step.operation = (starterOperations slug).map .ok := by
  rfl

/-- A recipe to start from can be read when its slug can. -/
theorem ofText_starterRecipe (h : isSlug slug = true) : Recipe.ofText (starterRecipe slug) =
    match if slug = "-" then none else Plain.value? slug.toList with
    | some v => .ok (starterWith slug v)
    | none => .error .notYaml := by
  rw [Recipe.ofText]
  split_ifs with hdash
  · rw [hdash, value_starterRecipe_dash]
  · rw [value_starterRecipe h hdash]
    cases Plain.value? slug.toList <;> rfl

/-- The text of a plain scalar, unless it is null. -/
theorem hasText_of_value? {cs : List Char} {v : Value} (h : Plain.value? cs = some v)
    (hnull : v ≠ .null) : v.HasText v.scalarText := by
  unfold Plain.value? at h
  dsimp only at h
  split at h
  · cases h
    exact absurd rfl hnull
  split at h
  · cases h
    exact .bool _
  split at h
  · obtain ⟨n, -, rfl⟩ := Option.map_eq_some_iff.mp h
    exact .number n
  split at h
  · cases h
    exact .number _
  · cases h
    exact .string _

theorem scalarText_of_hasText {v : Value} {text : String} (h : v.HasText text) :
    v.scalarText = text := by
  cases h <;> rfl

/-- The slugs that stand in a recipe to start from as they are: the text of what YAML reads in place of
    them is theirs. -/
def KeepsSlug (slug : String) : Prop :=
  slug ≠ "-" ∧ (Plain.value? slug.toList).map Value.scalarText = some slug

instance : DecidablePred KeepsSlug := fun _ => instDecidableAnd

/-- A slug with a character that no number, boolean or null is written with is kept. -/
theorem keepsSlug_of_isForeign (hmem : c ∈ slug.toList) (hc : Plain.isForeign c = true) :
    KeepsSlug slug := by
  refine ⟨?_, ?_⟩
  · rintro rfl
    obtain rfl : c = '-' := by simpa using hmem
    cases hc
  · rw [Plain.value?_of_isForeign hmem hc, String.ofList_toList]
    rfl

example : KeepsSlug starterSlug := by decide

/-- Words of YAML and numbers that are not written in their shortest form are no such slugs. -/
example : ∀ slug ∈ ["null", "True", "0x10", "1.50", "-"], isSlug slug = true ∧ ¬ KeepsSlug slug := by
  decide

variable {v : Value}

theorem gameSlug_starterWith (h : isSlug slug = true) (hv : Plain.value? slug.toList = some v) :
    (starterWith slug v).gameSlug = some slug ↔ v.scalarText = slug := by
  rw [Recipe.gameSlug, Recipe.field_eq_some_iff]
  constructor
  · rintro ⟨w, hw, htext, -⟩
    obtain rfl : v = w := Option.some.inj hw
    exact scalarText_of_hasText htext
  · intro htext
    -- The text of null is empty, which no slug is.
    have hnull : v ≠ .null := by
      rintro rfl
      obtain rfl : "" = slug := htext
      cases h
    have hhas := hasText_of_value? hv hnull
    rw [htext] at hhas
    exact ⟨v, rfl, hhas, trim_ne_of_isSlug h⟩

theorem findings_starterWith (h : isSlug slug = true)
    (hslug : (starterWith slug v).gameSlug = some slug) : (starterWith slug v).findings = [] := by
  have hmetadata : (starterWith slug v).metadataErrors = [] := by
    rw [Recipe.metadataErrors_eq_nil_iff]
    refine ⟨⟨"linux", ?_⟩, ⟨"My Game", ?_⟩, slug, Recipe.field_eq_some_iff.mp hslug, h⟩
    · exact ⟨_, rfl, .string _, by decide⟩
    · exact ⟨_, rfl, .string _, by decide⟩
  have hsteps : Recipe.checkSteps (starterWith slug v).steps = .ok () := rfl
  rw [Recipe.findings, hmetadata, hsteps]
  rfl

end GameInstaller.Cli
