import GameInstaller.Json.Value
import Mathlib.Data.List.Basic

/-!
# Validity against a schema

When a JSON value is valid against a JSON schema, for the keywords that the published schemas have.
A keyword that asks something of one type of values asks nothing of the others, and beside a
reference no other keyword counts.

* `Keyword`     what an entry of a schema asks
* `Valid`       a value is valid against a schema of a document
* `Annotated`   entries of a schema among entries that only describe it

## Key results

- `valid_object_iff`: a schema without a reference asks what its keywords ask
- `valid_reference_iff`: a schema with a reference asks what the schema there asks
-/

namespace GameInstaller.Json

/-- The name of the type of a value. -/
def Value.typeName : Value → String
  | null => "null"
  | bool _ => "boolean"
  | number _ => "number"
  | string _ => "string"
  | array _ => "array"
  | object _ => "object"

theorem Value.get?_object_cons (name : String) (v : Value) (rest : List (String × Value))
    (key : String) : (object ((name, v) :: rest)).get? key =
      if name = key then some v else (object rest).get? key := by
  rw [get?, List.find?_cons, get?]
  dsimp only
  by_cases hname : name = key
  · rw [if_pos hname, beq_iff_eq.mpr hname, Option.map_some]
  · rw [if_neg hname, beq_eq_false_iff_ne.mpr hname]

/-- The texts among values. -/
def Value.texts : List Value → List String
  | [] => []
  | .string s :: r => s :: texts r
  | _ :: r => texts r

theorem Value.texts_strings (names : List String) : texts (names.map .string) = names := by
  induction names with
  | nil => rfl
  | cons name names ih => rw [List.map_cons, texts, ih]

/-- What an entry of a schema asks. -/
inductive Keyword where
  /-- Nothing: the entry describes the schema. -/
  | remark
  /-- One of these types. -/
  | type (names : List String)
  /-- One of these values. -/
  | enum (values : List Value)
  /-- Of an array, items that are valid against a schema. -/
  | items (schema : Value)
  /-- Validity against one of these schemas. -/
  | anyOf (schemas : List Value)
  /-- Of an object, entries under these names. -/
  | required (names : List String)
  /-- Of an object, that an entry under one of these names is valid against the schema there. -/
  | properties (schemas : List (String × Value))
  /-- Of an object, that an entry under none of these names is valid against a schema. -/
  | additionalProperties (known : List (String × Value)) (schema : Value)

/-- The keywords that describe a schema. -/
def annotations : List String := ["$schema", "title", "description", "default", "definitions"]

/-- The names with a schema of their own, among the entries of a schema. -/
def ownProperties (entries : List (String × Value)) : List (String × Value) :=
  match (Value.object entries).get? "properties" with
  | some (.object schemas) => schemas
  | _ => []

/-- What an entry of a schema with these entries asks. -/
def Keyword.ofEntry? (entries : List (String × Value)) : String × Value → Option Keyword
  | ("type", .string name) => some (.type [name])
  | ("type", .array names) => some (.type (Value.texts names))
  | ("enum", .array values) => some (.enum values)
  | ("items", schema) => some (.items schema)
  | ("anyOf", .array schemas) => some (.anyOf schemas)
  | ("required", .array names) => some (.required (Value.texts names))
  | ("properties", .object schemas) => some (.properties schemas)
  | ("additionalProperties", schema) => some (.additionalProperties (ownProperties entries) schema)
  | (name, _) => if name ∈ annotations then some .remark else none

/-- The schema that a document defines under a name. -/
def definition? (document : Value) (name : String) : Option Value :=
  (document.get? "definitions").bind (·.get? name)

/-- What a schema refers to. -/
def reference? (entries : List (String × Value)) : Option Value :=
  (Value.object entries).get? "$ref"

mutual

/-- A value is valid against a schema of a document. -/
inductive Valid (document : Value) : Value → Value → Prop where
  | all (v : Value) : Valid document (.bool true) v
  | reference {entries : List (String × Value)} {name : String} {schema v : Value}
      (href : reference? entries = some (.string ("#/definitions/" ++ name)))
      (hschema : definition? document name = some schema) (h : Valid document schema v) :
      Valid document (.object entries) v
  | keywords {entries : List (String × Value)} {v : Value} (href : reference? entries = none)
      (hread : ∀ e ∈ entries, ∃ k, Keyword.ofEntry? entries e = some k)
      (h : ∀ e ∈ entries, ∀ k, Keyword.ofEntry? entries e = some k → Meets document k v) :
      Valid document (.object entries) v

/-- A value is what a keyword of a schema of a document asks. -/
inductive Meets (document : Value) : Keyword → Value → Prop where
  | remark (v : Value) : Meets document .remark v
  | type {names : List String} {v : Value} (h : v.typeName ∈ names) : Meets document (.type names) v
  | enum {values : List Value} {v : Value} (h : v ∈ values) : Meets document (.enum values) v
  | items {schema v : Value}
      (h : ∀ items, v = .array items → ∀ item ∈ items, Valid document schema item) :
      Meets document (.items schema) v
  | anyOf {schemas : List Value} {schema v : Value} (hschema : schema ∈ schemas)
      (h : Valid document schema v) : Meets document (.anyOf schemas) v
  | required {names : List String} {v : Value}
      (h : ∀ entries, v = .object entries → ∀ name ∈ names, ∃ w, (name, w) ∈ entries) :
      Meets document (.required names) v
  | properties {schemas : List (String × Value)} {v : Value}
      (h : ∀ entries, v = .object entries → ∀ e ∈ entries, ∀ schema,
        (Value.object schemas).get? e.1 = some schema → Valid document schema e.2) :
      Meets document (.properties schemas) v
  | additionalProperties {known : List (String × Value)} {schema v : Value}
      (h : ∀ entries, v = .object entries → ∀ e ∈ entries,
        (Value.object known).get? e.1 = none → Valid document schema e.2) :
      Meets document (.additionalProperties known schema) v

end

/-- A value is what an entry of a schema with these entries asks. -/
def Asks (document : Value) (entries : List (String × Value)) (e : String × Value) (v : Value) :
    Prop :=
  ∃ k, Keyword.ofEntry? entries e = some k ∧ Meets document k v

section Validity

variable {document schema v : Value} {entries core : List (String × Value)}

theorem valid_object_iff (href : reference? entries = none) :
    Valid document (.object entries) v ↔ ∀ e ∈ entries, Asks document entries e v := by
  constructor
  · intro h e he
    cases h with
    | reference href' => cases href.symm.trans href'
    | keywords _ hread h =>
      obtain ⟨k, hk⟩ := hread e he
      exact ⟨k, hk, h e he k hk⟩
  · intro h
    refine .keywords href (fun e he => ?_) fun e he k hk => ?_
    · obtain ⟨k, hk, -⟩ := h e he
      exact ⟨k, hk⟩
    · obtain ⟨k', hk', hmeets⟩ := h e he
      cases hk.symm.trans hk'
      exact hmeets

theorem valid_reference_iff {name : String}
    (href : reference? entries = some (.string ("#/definitions/" ++ name)))
    (hschema : definition? document name = some schema) :
    Valid document (.object entries) v ↔ Valid document schema v := by
  constructor
  · intro h
    cases h with
    | reference href' hschema' h =>
      have hname := Value.string.inj (Option.some.inj (href.symm.trans href'))
      rw [String.append_right_inj] at hname
      subst hname
      cases hschema.symm.trans hschema'
      exact h
    | keywords href' => cases href.symm.trans href'
  · exact .reference href hschema

/-- Entries that stand among entries which only describe a schema. -/
def Annotated (entries core : List (String × Value)) : Prop :=
  ∃ before after, entries = before ++ core ++ after ∧
    ∀ e ∈ before ++ after, e.1 ∈ annotations

theorem Annotated.refl (core : List (String × Value)) : Annotated core core :=
  ⟨[], [], by simp, nofun⟩

theorem Annotated.append_left {before : List (String × Value)}
    (hbefore : ∀ e ∈ before, e.1 ∈ annotations) : Annotated (before ++ core) core :=
  ⟨before, [], by simp, by simpa using hbefore⟩

/-- A description hides no other keyword. -/
theorem Annotated.get?_eq (h : Annotated entries core) {key : String} (hkey : key ∉ annotations) :
    (Value.object entries).get? key = (Value.object core).get? key := by
  obtain ⟨before, after, rfl, hall⟩ := h
  have hskip : ∀ l : List (String × Value), (∀ e ∈ l, e.1 ∈ annotations) →
      (l.find? fun e => e.1 == key) = none := fun l hl =>
    List.find?_eq_none.mpr fun e he heq => hkey (beq_iff_eq.mp heq ▸ hl e he)
  rw [List.forall_mem_append] at hall
  simp only [Value.get?, List.find?_append, hskip before hall.1, hskip after hall.2, Option.none_or,
    Option.or_none]

theorem Annotated.reference?_eq (h : Annotated entries core) :
    reference? entries = reference? core :=
  h.get?_eq (by decide)

theorem Annotated.ownProperties_eq (h : Annotated entries core) :
    ownProperties entries = ownProperties core := by
  rw [ownProperties, h.get?_eq (by decide), ownProperties]

theorem asks_of_remark {e : String × Value} (he : e.1 ∈ annotations) :
    Asks document entries e v := by
  refine ⟨.remark, ?_, .remark v⟩
  obtain ⟨name, content⟩ := e
  simp only [annotations, List.mem_cons, List.not_mem_nil, or_false] at he
  rcases he with rfl | rfl | rfl | rfl | rfl <;> simp [Keyword.ofEntry?, annotations]

/-- Descriptions ask nothing. -/
theorem valid_annotated_iff (h : Annotated entries core) (href : reference? core = none) :
    Valid document (.object entries) v ↔ ∀ e ∈ core, Asks document entries e v := by
  rw [valid_object_iff (h.reference?_eq.trans href)]
  obtain ⟨before, after, hentries, hall⟩ := h
  constructor
  · intro hasks e he
    exact hasks e (by rw [hentries]; simp [he])
  · intro hasks e he
    rw [hentries, List.mem_append, List.mem_append, or_right_comm, ← List.mem_append] at he
    rcases he with he | he
    · exact asks_of_remark (hall e he)
    · exact hasks e he

/-! ## What single entries ask -/

theorem asks_iff {e : String × Value} {k : Keyword} (hk : Keyword.ofEntry? entries e = some k) :
    Asks document entries e v ↔ Meets document k v := by
  constructor
  · rintro ⟨k', hk', h⟩
    cases hk.symm.trans hk'
    exact h
  · exact fun h => ⟨k, hk, h⟩

theorem meets_type_iff {names : List String} :
    Meets document (.type names) v ↔ v.typeName ∈ names := by
  constructor
  · intro h
    cases h with
    | type h => exact h
  · exact .type

theorem meets_enum_iff {values : List Value} : Meets document (.enum values) v ↔ v ∈ values := by
  constructor
  · intro h
    cases h with
    | enum h => exact h
  · exact .enum

theorem meets_items_iff {items : List Value} :
    Meets document (.items schema) (.array items) ↔ ∀ item ∈ items, Valid document schema item := by
  constructor
  · intro h
    cases h with
    | items h => exact h items rfl
  · intro h
    exact .items fun _ heq => Value.array.inj heq ▸ h

theorem meets_anyOf_iff {schemas : List Value} :
    Meets document (.anyOf schemas) v ↔ ∃ schema ∈ schemas, Valid document schema v := by
  constructor
  · intro h
    cases h with
    | anyOf hschema h => exact ⟨_, hschema, h⟩
  · rintro ⟨schema, hschema, h⟩
    exact .anyOf hschema h

theorem meets_required_iff {names : List String} :
    Meets document (.required names) (.object entries) ↔
      ∀ name ∈ names, ∃ w, (name, w) ∈ entries := by
  constructor
  · intro h
    cases h with
    | required h => exact h entries rfl
  · intro h
    exact .required fun _ heq => Value.object.inj heq ▸ h

theorem meets_properties_iff {schemas : List (String × Value)} :
    Meets document (.properties schemas) (.object entries) ↔ ∀ e ∈ entries, ∀ schema,
      (Value.object schemas).get? e.1 = some schema → Valid document schema e.2 := by
  constructor
  · intro h
    cases h with
    | properties h => exact h entries rfl
  · intro h
    exact .properties fun _ heq => Value.object.inj heq ▸ h

/-- No entry is valid against the schema of nothing. -/
theorem meets_additionalProperties_iff {known : List (String × Value)} :
    Meets document (.additionalProperties known (.bool false)) (.object entries) ↔
      ∀ e ∈ entries, ∃ schema, (Value.object known).get? e.1 = some schema := by
  constructor
  · intro h e he
    cases h with
    | additionalProperties h =>
      cases hknown : (Value.object known).get? e.1 with
      | none => cases h entries rfl e he hknown
      | some schema => exact ⟨schema, rfl⟩
  · intro h
    refine .additionalProperties fun entries' heq e he hknown => ?_
    cases heq
    obtain ⟨schema, hschema⟩ := h e he
    cases hknown.symm.trans hschema

end Validity

end GameInstaller.Json
