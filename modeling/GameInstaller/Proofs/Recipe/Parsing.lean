import GameInstaller.Proofs.Actions
import GameInstaller.Proofs.Yaml.Keys
import GameInstaller.Recipe.Parse

/-!
# Recipes and the values that write them

A recipe is read off a mapping in one pass over its entries, which stops at the first defect.  Here
the outcome of that pass is described without it: by the mapping that a recipe is written as, and by
the list of all defects of a value, the first of which is the one that is reported.

* `StepsUnder`   the key that the step list of a mapping stands under, and the step list
* `Lists`        the steps that a step list writes
* `defects`      everything that is wrong with a value, in authored order

## Key results

- `parseMapping_at`: the recipe of a mapping with a step list somewhere among its entries
- `ofValue_eq_error_iff`: the defect that is reported is the first one
- `ofValue_account`: which values are recipes, what they hold, and what is wrong with the others
-/

namespace GameInstaller

open Yaml (Value textEntries)

namespace Recipe

/-! ## Step lists -/

/-- A command with its parameters, as an entry of a step list. -/
def stepEntry (call : String × Value) : Value := .mapping [(.string call.1, call.2)]

/-- The steps that call commands with their parameters, numbered from zero. -/
def numbered (calls : List (String × Value)) : List Step :=
  calls.mapIdx fun i call => ⟨i, call.1, call.2⟩

/-- The value can be a step list: it is null, or a sequence of mappings with exactly one entry,
    whose key is a text. -/
def IsStepList : Value → Prop
  | .null => True
  | .sequence items => ∀ item ∈ items, ∃ command params, item = .mapping [(.string command, params)]
  | _ => False

/-- The steps that a step list writes: for null none, and for a sequence one for each item. -/
inductive Lists : Value → List Step → Prop where
  | null : Lists .null []
  | sequence (calls : List (String × Value)) :
      Lists (.sequence (calls.map stepEntry)) (numbered calls)

/-- What is wrong with an item of a step list, given its number. -/
def itemDefect? (number : Nat) : Value → Option RecipeError
  | .mapping [(.string _, _)] => none
  | .mapping [(key, _)] => some (.commandNotText number key.kind)
  | .mapping entries => some (.stepNotSingle number entries.length)
  | v => some (.stepNotMapping number v.kind)

/-- Everything that is wrong with items, the first of which has the given number. -/
def itemDefects (number : Nat) (items : List Value) : List RecipeError :=
  (items.zipIdx number).filterMap fun (item, number) => itemDefect? number item

/-- Everything that is wrong with a step list.  Its items are numbered from one. -/
def listDefects (key : String) : Value → List RecipeError
  | .null => []
  | .sequence items => itemDefects 1 items
  | v => [.stepsNotList key v.kind]

theorem parseStep_eq_error_iff {n : Nat} {v : Value} {e : RecipeError} :
    parseStep n v = .error e ↔ itemDefect? (n + 1) v = some e := by
  unfold parseStep itemDefect?
  split <;> simp_all

theorem parseStep_eq_ok_iff {n : Nat} {v : Value} {s : Step} :
    parseStep n v = .ok s ↔ ∃ call, v = stepEntry call ∧ s = ⟨n, call.1, call.2⟩ := by
  constructor
  · intro h
    unfold parseStep at h
    split at h
    · rename_i command params
      exact ⟨(command, params), rfl, (Except.ok.inj h).symm⟩
    all_goals cases h
  · rintro ⟨call, rfl, rfl⟩
    rfl

theorem parseEntries_eq_error_iff {n : Nat} {items : List Value} {e : RecipeError} :
    parseEntries n items = .error e ↔ (itemDefects (n + 1) items).head? = some e := by
  induction items generalizing n with
  | nil => simp [parseEntries, itemDefects]
  | cons v rest ih =>
    -- Either the first item has a defect, or the first defect is that of the rest.
    rw [parseEntries, itemDefects, List.zipIdx_cons, List.filterMap_cons, ← itemDefects]
    cases hv : parseStep n v with
    | error e' =>
      rw [parseStep_eq_error_iff] at hv
      simp [hv]
    | ok s =>
      have hnone := eq_none_of_eq_ok (fun _ => parseStep_eq_error_iff) hv
      simp only [hnone, map_eq_error_iff, ih]

theorem parseEntries_eq_ok_iff {n : Nat} {items : List Value} {steps : List Step} :
    parseEntries n items = .ok steps ↔ ∃ calls : List (String × Value),
      items = calls.map stepEntry ∧ steps = calls.mapIdx fun i call => ⟨n + i, call.1, call.2⟩ := by
  induction items generalizing n steps with
  | nil =>
    constructor
    · intro h
      cases h
      exact ⟨[], rfl, rfl⟩
    · rintro ⟨calls, hcalls, rfl⟩
      obtain rfl := List.map_eq_nil_iff.mp hcalls.symm
      rfl
  | cons v rest ih =>
    rw [parseEntries]
    constructor
    · intro h
      cases hv : parseStep n v with
      | error e =>
        rw [hv] at h
        cases h
      | ok s =>
        simp only [hv] at h
        obtain ⟨steps', hrest, rfl⟩ := map_eq_ok_iff.mp h
        obtain ⟨call, rfl, rfl⟩ := parseStep_eq_ok_iff.mp hv
        obtain ⟨calls, rfl, rfl⟩ := ih.mp hrest
        refine ⟨call :: calls, rfl, ?_⟩
        simp [List.mapIdx_cons, Nat.add_assoc, Nat.add_comm 1]
    · rintro ⟨calls, hcalls, rfl⟩
      cases calls with
      | nil => cases hcalls
      | cons call calls =>
        obtain ⟨rfl, rfl⟩ := List.cons.inj hcalls
        -- The first call is the step with this number, and the others go on from the next.
        have hv : parseStep n (stepEntry call) = .ok ⟨n, call.1, call.2⟩ :=
          parseStep_eq_ok_iff.mpr ⟨call, rfl, rfl⟩
        have hrest : parseEntries (n + 1) (calls.map stepEntry) =
            .ok (calls.mapIdx fun i call => ⟨n + 1 + i, call.1, call.2⟩) :=
          ih.mpr ⟨calls, rfl, rfl⟩
        simp only [hv, hrest, Except.map]
        simp [List.mapIdx_cons, Nat.add_assoc, Nat.add_comm 1]

theorem parseSteps_eq_error_iff {key : String} {v : Value} {e : RecipeError} :
    parseSteps key v = .error e ↔ (listDefects key v).head? = some e := by
  unfold parseSteps listDefects
  split
  · exact parseEntries_eq_error_iff
  all_goals simp

/-- What is read of a step list is what it writes. -/
theorem parseSteps_eq_ok_iff {key : String} {v : Value} {steps : List Step} :
    parseSteps key v = .ok steps ↔ Lists v steps := by
  constructor
  · intro h
    unfold parseSteps at h
    split at h
    · obtain ⟨calls, rfl, rfl⟩ := parseEntries_eq_ok_iff.mp h
      simpa [numbered] using Lists.sequence calls
    · cases h
      exact .null
    · cases h
  · intro h
    cases h with
    | null => rfl
    | sequence calls => exact parseEntries_eq_ok_iff.mpr ⟨calls, rfl, by simp [numbered]⟩

theorem isStepList_iff {v : Value} : IsStepList v ↔ ∃ steps, Lists v steps := by
  constructor
  · intro h
    unfold IsStepList at h
    split at h
    · exact ⟨_, .null⟩
    · rename_i items
      obtain ⟨calls, rfl⟩ : ∃ calls : List (String × Value), items = calls.map stepEntry := by
        induction items with
        | nil => exact ⟨[], rfl⟩
        | cons item rest ih =>
          obtain ⟨command, params, rfl⟩ := h item List.mem_cons_self
          obtain ⟨calls, rfl⟩ := ih fun i hi => h i (List.mem_cons_of_mem _ hi)
          exact ⟨(command, params) :: calls, rfl⟩
      exact ⟨_, .sequence calls⟩
    · exact h.elim
  · rintro ⟨steps, h⟩
    cases h with
    | null => trivial
    | sequence calls =>
      intro item hitem
      obtain ⟨call, -, rfl⟩ := List.mem_map.mp hitem
      exact ⟨_, _, rfl⟩

/-! ## Mappings -/

/-- The step list of a mapping, and the key it stands under: what stands under `steps` if there is
    such a key, or else a sequence under `installer`. -/
inductive StepsUnder (entries : List (Value × Value)) : String → Value → Prop where
  | steps {v : Value} (h : (.string "steps", v) ∈ entries) : StepsUnder entries "steps" v
  | installer {items : List Value} (hno : ∀ v, (.string "steps", v) ∉ entries)
      (h : (.string "installer", .sequence items) ∈ entries) :
      StepsUnder entries "installer" (.sequence items)

theorem StepsUnder.mem {entries : List (Value × Value)} {key : String} {v : Value}
    (h : StepsUnder entries key v) : (.string key, v) ∈ entries := by
  cases h with
  | steps h => exact h
  | installer _ h => exact h

/-- Everything that is wrong with an entry of a mapping whose step list stands under `key`. -/
def entryDefects (key : Option String) : Value × Value → List RecipeError
  | (.string k, v) => if key = some k then listDefects k v else []
  | (k, _) => [.keyNotText k.kind]

/-- Everything that is wrong with a value as a recipe, in authored order. -/
def defects : Value → List RecipeError
  | .mapping entries => entries.flatMap (entryDefects (stepsKeyOf entries))
  | v => [.notMapping v.kind]

/-- Under distinct keys the step list is what the key of the step list leads to. -/
theorem stepsKeyOf_of_stepsUnder {entries : List (Value × Value)} {key : String} {v : Value}
    (hd : (Value.mapping entries).DistinctKeys) (h : StepsUnder entries key v) :
    stepsKeyOf entries = some key := by
  unfold stepsKeyOf
  cases h with
  | steps h => simp [stepsKey, hd.get?_of_mem h]
  | installer hno h =>
    simp [stepsKey, legacyStepsKey, Value.get?_eq_none_iff.mpr hno, hd.get?_of_mem h]

theorem stepsKeyOf_eq_some {entries : List (Value × Value)} {key : String}
    (h : stepsKeyOf entries = some key) : ∃ v, StepsUnder entries key v := by
  unfold stepsKeyOf at h
  split at h
  · cases h
    obtain ⟨v, hv⟩ := Option.isSome_iff_exists.mp ‹_›
    exact ⟨v, .steps (Value.mem_of_get? hv)⟩
  · rename_i hno
    split at h
    · cases h
      have hnone : Value.get? entries stepsKey = none := by simpa using hno
      exact ⟨_, .installer (Value.get?_eq_none_iff.mp hnone) (Value.mem_of_get? ‹_›)⟩
    · cases h

/-- What is not the step list goes into the metadata as it is. -/
theorem parseMapping_append {key : Option String} {front : List (String × Value)}
    (h : ∀ e ∈ front, key ≠ some e.1) (rest : List (Value × Value)) :
    parseMapping key (textEntries front ++ rest) =
      (parseMapping key rest).map fun r => ⟨front ++ r.metadata, r.steps⟩ := by
  induction front with
  | nil =>
    rw [Yaml.textEntries_nil, List.nil_append]
    cases parseMapping key rest <;> rfl
  | cons e front ih =>
    obtain ⟨hkey, hfront⟩ := List.forall_mem_cons.mp h
    rw [Yaml.textEntries_cons, List.cons_append, parseMapping, if_neg hkey, ih hfront]
    cases parseMapping key rest <;> rfl

theorem parseMapping_textEntries {key : Option String} {fields : List (String × Value)}
    (h : ∀ e ∈ fields, key ≠ some e.1) :
    parseMapping key (textEntries fields) = .ok ⟨fields, []⟩ := by
  have := parseMapping_append h []
  rw [List.append_nil] at this
  simp [this, parseMapping, Except.map]

/-- A mapping with a step list somewhere among its entries: the other entries are the metadata. -/
theorem parseMapping_at {key : String} {before after : List (String × Value)}
    (h : ∀ e ∈ before ++ after, e.1 ≠ key) (v : Value) :
    parseMapping (some key) (textEntries before ++ (.string key, v) :: textEntries after) =
      (parseSteps key v).map fun steps => ⟨before ++ after, steps⟩ := by
  have hne {e : String × Value} (he : e ∈ before ++ after) : some key ≠ some e.1 := by
    simpa using (h e he).symm
  rw [parseMapping_append fun e he => hne (List.mem_append_left _ he), parseMapping, if_pos rfl,
    parseMapping_textEntries fun e he => hne (List.mem_append_right _ he)]
  cases parseSteps key v <;> simp [Except.map]

theorem parseMapping_eq_error_iff {key : Option String} {entries : List (Value × Value)}
    {e : RecipeError} :
    parseMapping key entries = .error e ↔ (entries.flatMap (entryDefects key)).head? = some e := by
  induction entries with
  | nil => simp [parseMapping]
  | cons entry rest ih =>
    obtain ⟨k, v⟩ := entry
    rw [List.flatMap_cons, List.head?_append]
    cases k with
    | string k =>
      -- Only under the key of the step list can a value have defects.
      rw [parseMapping, entryDefects]
      split
      · cases hv : parseSteps k v with
        | error e' => simp [parseSteps_eq_error_iff.mp hv]
        | ok steps =>
          have hnone := eq_none_of_eq_ok (fun _ => parseSteps_eq_error_iff) hv
          simp only [hnone, map_eq_error_iff, ih, Option.none_or]
      · simp [map_eq_error_iff, ih]
    | _ => simp [parseMapping, entryDefects]

/-- The defect that is reported is the first one. -/
theorem ofValue_eq_error_iff {v : Value} {e : RecipeError} :
    ofValue v = .error e ↔ (defects v).head? = some e := by
  unfold ofValue defects
  split
  · exact parseMapping_eq_error_iff
  · simp

/-- What is read of a mapping has texts as its keys. -/
theorem exists_textEntries_of_parseMapping {key : Option String} {entries : List (Value × Value)}
    {r : Recipe} (h : parseMapping key entries = .ok r) :
    ∃ fields, entries = textEntries fields := by
  have hnone := eq_none_of_eq_ok (fun _ => parseMapping_eq_error_iff) h
  refine Yaml.exists_textEntries fun ⟨k, v⟩ he => ?_
  have hdefects := List.flatMap_eq_nil_iff.mp (List.head?_eq_none_iff.mp hnone) _ he
  cases k <;> simp [entryDefects] at hdefects ⊢

/-- Without a step list every entry goes into the metadata. -/
theorem parseMapping_none_eq_ok_iff {entries : List (Value × Value)} {r : Recipe} :
    parseMapping none entries = .ok r ↔ entries = textEntries r.metadata ∧ r.steps = [] := by
  constructor
  · intro h
    obtain ⟨fields, rfl⟩ := exists_textEntries_of_parseMapping h
    rw [parseMapping_textEntries (by simp)] at h
    obtain rfl := Except.ok.inj h
    exact ⟨rfl, rfl⟩
  · obtain ⟨fields, steps⟩ := r
    rintro ⟨rfl, rfl⟩
    exact parseMapping_textEntries (by simp)

/-- With a step list the entries around it go into the metadata. -/
theorem parseMapping_some_eq_ok_iff {entries : List (Value × Value)} {key : String} {v : Value}
    {r : Recipe} (hd : (Value.mapping entries).DistinctKeys) (hv : (.string key, v) ∈ entries) :
    parseMapping (some key) entries = .ok r ↔ ∃ before after,
      entries = textEntries before ++ (.string key, v) :: textEntries after ∧
        r.metadata = before ++ after ∧ Lists v r.steps := by
  -- No other entry has the key.
  have hother {before after : List (String × Value)}
      (h : entries = textEntries before ++ (.string key, v) :: textEntries after) :
      ∀ e ∈ before ++ after, e.1 ≠ key := by
    rintro ⟨_, w⟩ he rfl
    rw [h] at hd
    obtain ⟨hbefore, hafter⟩ := hd.mem_unique (w := w)
    rw [Yaml.mem_textEntries] at hbefore hafter
    exact (List.mem_append.mp he).elim hbefore hafter
  constructor
  · intro h
    obtain ⟨fields, rfl⟩ := exists_textEntries_of_parseMapping h
    obtain ⟨before, after, rfl⟩ := List.append_of_mem (Yaml.mem_textEntries.mp hv)
    have hsplit : textEntries (before ++ (key, v) :: after) =
        textEntries before ++ (.string key, v) :: textEntries after := by simp
    rw [hsplit, parseMapping_at (hother hsplit)] at h
    obtain ⟨steps, hsteps, rfl⟩ := map_eq_ok_iff.mp h
    exact ⟨before, after, hsplit, rfl, parseSteps_eq_ok_iff.mp hsteps⟩
  · obtain ⟨metadata, steps⟩ := r
    rintro ⟨before, after, hsplit, rfl, hsteps⟩
    rw [hsplit, parseMapping_at (hother hsplit), parseSteps_eq_ok_iff.mpr hsteps]
    rfl

/-! ## Values -/

theorem ofValue_of_stepsUnder {entries : List (Value × Value)} {key : String} {v : Value}
    {r : Recipe} (hd : (Value.mapping entries).DistinctKeys) (h : StepsUnder entries key v) :
    ofValue (.mapping entries) = .ok r ↔ ∃ before after,
      entries = textEntries before ++ (.string key, v) :: textEntries after ∧
        r.metadata = before ++ after ∧ Lists v r.steps := by
  rw [ofValue, stepsKeyOf_of_stepsUnder hd h]
  exact parseMapping_some_eq_ok_iff hd h.mem

theorem ofValue_of_no_stepsUnder {entries : List (Value × Value)} {r : Recipe}
    (h : ∀ key v, ¬ StepsUnder entries key v) :
    ofValue (.mapping entries) = .ok r ↔ entries = textEntries r.metadata ∧ r.steps = [] := by
  have hnone : stepsKeyOf entries = none := by
    cases hkey : stepsKeyOf entries with
    | none => rfl
    | some key =>
      obtain ⟨v, hv⟩ := stepsKeyOf_eq_some hkey
      exact absurd hv (h key v)
  rw [ofValue, hnone]
  exact parseMapping_none_eq_ok_iff

/-- A value without two keys that are the same is a recipe just when it is a mapping with texts as
    keys, and what stands as its step list is one. -/
theorem exists_ofValue_eq_ok_iff {v : Value} (hd : v.DistinctKeys) :
    (∃ r, ofValue v = .ok r) ↔ ∃ entries, v = .mapping entries ∧
      (∀ e ∈ entries, ∃ key, e.1 = .string key) ∧
        ∀ key list, StepsUnder entries key list → IsStepList list := by
  constructor
  · rintro ⟨r, h⟩
    cases v with
    | mapping entries =>
      refine ⟨entries, rfl, fun ⟨k, w⟩ he => ?_, fun key list hlist => ?_⟩
      · obtain ⟨fields, rfl⟩ := exists_textEntries_of_parseMapping h
        obtain ⟨field, -, hfield⟩ := List.mem_map.mp he
        exact ⟨field.1, (congrArg Prod.fst hfield).symm⟩
      · obtain ⟨_, _, _, _, hsteps⟩ := (ofValue_of_stepsUnder hd hlist).mp h
        exact isStepList_iff.mpr ⟨_, hsteps⟩
    | _ => cases h
  · rintro ⟨entries, rfl, htexts, hlists⟩
    obtain ⟨fields, rfl⟩ := Yaml.exists_textEntries htexts
    -- Either the step list divides the entries in two, or all of them are metadata.
    by_cases h : ∃ key list, StepsUnder (textEntries fields) key list
    · obtain ⟨key, list, hlist⟩ := h
      obtain ⟨steps, hsteps⟩ := isStepList_iff.mp (hlists key list hlist)
      obtain ⟨before, after, rfl⟩ := List.append_of_mem (Yaml.mem_textEntries.mp hlist.mem)
      exact ⟨⟨before ++ after, steps⟩, (ofValue_of_stepsUnder hd hlist).mpr
        ⟨before, after, by simp, rfl, hsteps⟩⟩
    · simp only [not_exists] at h
      exact ⟨⟨fields, []⟩, (ofValue_of_no_stepsUnder h).mpr ⟨rfl, rfl⟩⟩

/-- Metadata with a list of calls somewhere among its entries: the recipe has that metadata and a
    step for each call. -/
theorem ofValue_steps {before after : List (String × Value)}
    (h : ∀ e ∈ before ++ after, e.1 ≠ "steps") (calls : List (String × Value)) :
    ofValue (.mapping (textEntries before ++
        (.string "steps", .sequence (calls.map stepEntry)) :: textEntries after)) =
      .ok ⟨before ++ after, numbered calls⟩ := by
  have hkey : stepsKeyOf (textEntries before ++
      (.string "steps", .sequence (calls.map stepEntry)) :: textEntries after) = some "steps" := by
    have hget := Value.get?_at (fun e he => h e (List.mem_append_left _ he))
      (.sequence (calls.map stepEntry)) (textEntries after)
    simp only [stepsKeyOf, stepsKey, hget, Option.isSome_some, if_true]
  rw [ofValue, hkey, parseMapping_at h, parseSteps_eq_ok_iff.mpr (.sequence calls)]
  rfl

/-- The same under the older key. -/
theorem ofValue_installer {before after : List (String × Value)}
    (hsteps : ∀ e ∈ before ++ after, e.1 ≠ "steps")
    (h : ∀ e ∈ before ++ after, e.1 ≠ "installer") (calls : List (String × Value)) :
    ofValue (.mapping (textEntries before ++
        (.string "installer", .sequence (calls.map stepEntry)) :: textEntries after)) =
      .ok ⟨before ++ after, numbered calls⟩ := by
  have hkey : stepsKeyOf (textEntries before ++
      (.string "installer", .sequence (calls.map stepEntry)) :: textEntries after) =
        some "installer" := by
    -- The step list is looked for under the newer key first, which is not there.
    have hnone : Value.get? (textEntries before ++
        (.string "installer", .sequence (calls.map stepEntry)) :: textEntries after)
        stepsKey = none := by
      rw [Value.get?_eq_none_iff]
      intro v hv
      simp only [List.mem_append, List.mem_cons, Prod.mk.injEq, Value.string.injEq,
        Yaml.mem_textEntries, stepsKey] at hv
      rcases hv with hv | ⟨hkey, -⟩ | hv
      · exact hsteps _ (List.mem_append_left _ hv) rfl
      · exact absurd hkey (by decide)
      · exact hsteps _ (List.mem_append_right _ hv) rfl
    have hget := Value.get?_at (fun e he => h e (List.mem_append_left _ he))
      (.sequence (calls.map stepEntry)) (textEntries after)
    simp only [stepsKeyOf, hnone, legacyStepsKey, hget, Option.isSome_none, Bool.false_eq_true,
      if_false]
  rw [ofValue, hkey, parseMapping_at h, parseSteps_eq_ok_iff.mpr (.sequence calls)]
  rfl

/-- Which values are recipes, what the recipes hold, and what is wrong with the other values.

    First, a value without two keys that are the same is a recipe just when it is a mapping with
    texts as keys whose step list, if there is one, is null or a sequence of mappings of one text
    each.  The recipe then has a step for each item of the step list, and all other entries as its
    metadata.  Second, metadata with a step list put anywhere among its entries is read back as it
    was, under either key that can hold the list.  Third, of all that is wrong with a value the
    first defect is reported. -/
theorem ofValue_account :
    (∀ v : Value, v.DistinctKeys →
      ((∃ r, ofValue v = .ok r) ↔ ∃ entries, v = .mapping entries ∧
        (∀ e ∈ entries, ∃ key, e.1 = .string key) ∧
          ∀ key list, StepsUnder entries key list → IsStepList list) ∧
      ∀ r, ofValue v = .ok r → ∃ entries, v = .mapping entries ∧
        (∀ key list, StepsUnder entries key list → ∃ before after,
          entries = textEntries before ++ (.string key, list) :: textEntries after ∧
            r.metadata = before ++ after ∧ Lists list r.steps) ∧
        ((∀ key list, ¬ StepsUnder entries key list) →
          entries = textEntries r.metadata ∧ r.steps = [])) ∧
    (∀ before after calls : List (String × Value), (∀ e ∈ before ++ after, e.1 ≠ "steps") →
      ofValue (.mapping (textEntries before ++
          (.string "steps", .sequence (calls.map stepEntry)) :: textEntries after)) =
        .ok ⟨before ++ after, numbered calls⟩ ∧
      ((∀ e ∈ before ++ after, e.1 ≠ "installer") →
        ofValue (.mapping (textEntries before ++
            (.string "installer", .sequence (calls.map stepEntry)) :: textEntries after)) =
          .ok ⟨before ++ after, numbered calls⟩)) ∧
    ∀ v e, ofValue v = .error e ↔ (defects v).head? = some e := by
  refine ⟨fun v hd => ⟨exists_ofValue_eq_ok_iff hd, fun r h => ?_⟩,
    fun before after calls hsteps => ⟨ofValue_steps hsteps calls,
      fun hinstaller => ofValue_installer hsteps hinstaller calls⟩,
    fun v e => ofValue_eq_error_iff⟩
  obtain ⟨entries, rfl, -, -⟩ := (exists_ofValue_eq_ok_iff hd).mp ⟨r, h⟩
  exact ⟨entries, rfl, fun key list hlist => (ofValue_of_stepsUnder hd hlist).mp h,
    fun hno => (ofValue_of_no_stepsUnder hno).mp h⟩

/-- A recipe with null for its step list, one with its step list in the middle, the same under the
    older key, and a value whose second step is none. -/
theorem ofValue_account_mkdir :
    let call : String × Value := ("mkdir", .string "data")
    let metadata (key : String) (list : Value) : Value := .mapping
      [(.string "name", .string "Baz"), (.string key, list), (.string "runner", .string "linux")]
    let recipe : Recipe :=
      ⟨[("name", .string "Baz"), ("runner", .string "linux")], [⟨0, "mkdir", .string "data"⟩]⟩
    (metadata "steps" .null).DistinctKeys ∧
      (∃ r, ofValue (metadata "steps" .null) = .ok r ∧ r.steps = []) ∧
      ofValue (metadata "steps" (.sequence [stepEntry call])) = .ok recipe ∧
        ofValue (metadata "installer" (.sequence [stepEntry call])) = .ok recipe ∧
          ofValue (metadata "steps" (.sequence [stepEntry call, .null])) =
            .error (.stepNotMapping 2 "null") := by
  intro call metadata recipe
  obtain ⟨haccept, hread, hdefects⟩ := ofValue_account
  have hdistinct : (metadata "steps" .null).DistinctKeys := by
    simp [metadata, Value.DistinctKeys, Value.same]
  obtain ⟨hsteps, hinstaller⟩ := hread [("name", .string "Baz")] [("runner", .string "linux")]
    [call] (by simp)
  obtain ⟨hiff, hholds⟩ := haccept _ hdistinct
  obtain ⟨r, hr⟩ : ∃ r, ofValue (metadata "steps" .null) = .ok r := by
    refine hiff.mpr ⟨_, rfl, by simp, fun key list hlist => ?_⟩
    cases hlist with
    | steps h => simp_all [metadata, IsStepList]
    | installer hno h => simp at h
  obtain ⟨entries, hentries, hlist, -⟩ := hholds r hr
  obtain rfl := Value.mapping.inj hentries
  obtain ⟨-, -, -, -, hnull⟩ := hlist "steps" .null (.steps (by simp))
  have hempty : r.steps = [] := by
    generalize r.steps = steps at hnull
    cases hnull
    rfl
  exact ⟨hdistinct, ⟨r, hr, hempty⟩, hsteps, hinstaller (by simp), (hdefects _ _).mpr rfl⟩

end Recipe

end GameInstaller
