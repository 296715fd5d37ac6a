import GameInstaller.Command.Schema
import GameInstaller.Proofs.Json.Validity

/-!
# What published schemas admit

A schema is written as a JSON document, with the schemas it shares among the definitions.  The values
that are valid against the document are those that the schema admits, read off the schema itself.

* `Schema.Admits`     the values that a schema admits
* `Schema.Resolves`   a document defines what a schema shares

## Key results

- `Schema.valid_iff`: validity against what a schema is written as
- `TitledSchema.valid_iff`: validity against a whole document
- `Command.resolves_schema`: the document of each command defines what its schema shares
-/

namespace GameInstaller

open Json (Valid Meets Asks Annotated Keyword)

namespace Schema

mutual

/-- The values that a schema admits. -/
def Admits : Schema → Json.Value → Prop
  | text, v => ∃ s, v = .string s
  | textOrNull, v => (∃ s, v = .string s) ∨ v = .null
  | null, v => v = .null
  | choice names, v => ∃ name ∈ names, v = .string name
  | list item, v => ∃ items, v = .array items ∧ ∀ i ∈ items, item.Admits i
  | anyOf alternatives, v => AnyAdmits alternatives v
  | shared _ _ s, v => s.Admits v
  | record fields, v => ∃ entries, v = .object entries ∧
      (∀ e ∈ entries, FieldAdmits fields e.1 e.2) ∧
        ∀ field ∈ fields, field.2.1.fallback = none → ∃ w, (field.1, w) ∈ entries

/-- The values that one of the schemas admits. -/
def AnyAdmits : List Schema → Json.Value → Prop
  | [], _ => False
  | s :: r, v => s.Admits v ∨ AnyAdmits r v

/-- The values that the field of a name may have. -/
def FieldAdmits : List (String × FieldNote × Schema) → String → Json.Value → Prop
  | [], _, _ => False
  | (name, _, s) :: r, key, v => if name = key then s.Admits v else FieldAdmits r key v

end

mutual

/-- A document defines everything that a schema shares. -/
def Resolves (document : Json.Value) : Schema → Prop
  | shared name description s =>
    Json.definition? document name = some (.object (described description ++ s.entries)) ∧
      s.Resolves document
  | list item => item.Resolves document
  | anyOf alternatives => AllResolve document alternatives
  | record fields => FieldsResolve document fields
  | _ => True

/-- A document defines everything that the schemas share. -/
def AllResolve (document : Json.Value) : List Schema → Prop
  | [] => True
  | s :: r => s.Resolves document ∧ AllResolve document r

/-- A document defines everything that the schemas of fields share. -/
def FieldsResolve (document : Json.Value) : List (String × FieldNote × Schema) → Prop
  | [] => True
  | (_, _, s) :: r => s.Resolves document ∧ FieldsResolve document r

end

/-! ## Records as objects -/

theorem described_annotations (description : Option String) :
    ∀ e ∈ described description, e.1 ∈ Json.annotations := by
  cases description with
  | none => nofun
  | some d => simp [described, Json.annotations]

/-- The entries that describe a field. -/
def noted (note : FieldNote) : List (String × Json.Value) :=
  described note.description ++ match note.fallback with
    | some v => [("default", v)]
    | none => []

theorem noted_annotations (note : FieldNote) : ∀ e ∈ noted note, e.1 ∈ Json.annotations := by
  rw [noted, List.forall_mem_append]
  refine ⟨described_annotations _, ?_⟩
  cases note.fallback with
  | none => nofun
  | some v => simp [Json.annotations]

/-- The schema under a name is that of the first field of the name. -/
theorem get?_properties_cons (name : String) (note : FieldNote) (s : Schema)
    (rest : List (String × FieldNote × Schema)) (key : String) :
    (Json.Value.object (properties ((name, note, s) :: rest))).get? key =
      if name = key then some (.object (noted note ++ s.entries))
      else (Json.Value.object (properties rest)).get? key := by
  rw [properties, Json.Value.get?_object_cons]
  rfl

theorem mem_texts_required {fields : List (String × FieldNote × Schema)} {name : String} :
    name ∈ Json.Value.texts (required fields) ↔
      ∃ field ∈ fields, field.2.1.fallback = none ∧ field.1 = name := by
  have hrequired : required fields =
      ((fields.filter fun field => field.2.1.fallback.isNone).map Prod.fst).map .string := by
    rw [required, List.map_map]
    rfl
  rw [hrequired, Json.Value.texts_strings]
  simp [and_assoc]

/-! ## Validity -/

section Validity

variable {document v : Json.Value} {entries : List (String × Json.Value)}

/-- The values that are valid against a schema which has a type alone. -/
theorem valid_type_iff {type : Json.Value} {names : List String}
    (he : Annotated entries [("type", type)])
    (htype : Keyword.ofEntry? entries ("type", type) = some (.type names)) :
    Valid document (.object entries) v ↔ v.typeName ∈ names := by
  rw [Json.valid_annotated_iff he rfl, List.forall_mem_singleton, Json.asks_iff htype,
    Json.meets_type_iff]

theorem typeName_eq_string_iff : v.typeName = "string" ↔ ∃ s, v = .string s := by
  cases v <;> simp [Json.Value.typeName]

theorem typeName_eq_null_iff : v.typeName = "null" ↔ v = .null := by
  cases v <;> simp [Json.Value.typeName]

theorem typeName_eq_array_iff : v.typeName = "array" ↔ ∃ items, v = .array items := by
  cases v <;> simp [Json.Value.typeName]

theorem typeName_eq_object_iff : v.typeName = "object" ↔ ∃ entries, v = .object entries := by
  cases v <;> simp [Json.Value.typeName]

theorem valid_choice_iff {names : List String} (he : Annotated entries (choice names).entries) :
    Valid document (.object entries) v ↔ (choice names).Admits v := by
  rw [Json.valid_annotated_iff he rfl, Schema.entries, List.forall_mem_cons, List.forall_mem_singleton,
    Json.asks_iff rfl, Json.asks_iff rfl, Json.meets_type_iff, Json.meets_enum_iff,
    List.mem_singleton, typeName_eq_string_iff, List.mem_map, Admits]
  constructor
  · rintro ⟨-, name, hname, rfl⟩
    exact ⟨name, hname, rfl⟩
  · rintro ⟨name, hname, rfl⟩
    exact ⟨⟨name, rfl⟩, name, hname, rfl⟩

theorem valid_list_iff {item : Schema} (he : Annotated entries (list item).entries)
    (hitem : ∀ i, Valid document (.object item.entries) i ↔ item.Admits i) :
    Valid document (.object entries) v ↔ (list item).Admits v := by
  rw [Json.valid_annotated_iff he rfl, Schema.entries, List.forall_mem_cons,
    List.forall_mem_singleton, Json.asks_iff rfl, Json.asks_iff rfl, Json.meets_type_iff,
    List.mem_singleton, typeName_eq_array_iff, Admits]
  constructor
  · rintro ⟨⟨items, rfl⟩, hitems⟩
    rw [Json.meets_items_iff] at hitems
    exact ⟨items, rfl, fun i hi => (hitem i).mp (hitems i hi)⟩
  · rintro ⟨items, rfl, hitems⟩
    exact ⟨⟨items, rfl⟩, Json.meets_items_iff.mpr fun i hi => (hitem i).mpr (hitems i hi)⟩

theorem valid_record_iff {fields : List (String × FieldNote × Schema)}
    (he : Annotated entries (record fields).entries)
    (hfields : ∀ key w, (∃ schema, (Json.Value.object (properties fields)).get? key = some schema ∧
      Valid document schema w) ↔ FieldAdmits fields key w) :
    Valid document (.object entries) v ↔ (record fields).Admits v := by
  have hknown : Keyword.ofEntry? entries ("additionalProperties", .bool false) =
      some (.additionalProperties (properties fields) (.bool false)) := by
    have hown : Json.ownProperties entries = properties fields := he.ownProperties_eq
    rw [← hown]
    rfl
  rw [Json.valid_annotated_iff he rfl, Schema.entries]
  simp only [List.forall_mem_cons, List.not_mem_nil, false_imp_iff, implies_true, and_true]
  rw [Json.asks_iff rfl, Json.asks_iff rfl, Json.asks_iff rfl, Json.asks_iff hknown,
    Json.meets_type_iff, List.mem_singleton, typeName_eq_object_iff, Admits]
  constructor
  · rintro ⟨⟨es, rfl⟩, hrequired, hproperties, hnoother⟩
    rw [Json.meets_required_iff] at hrequired
    rw [Json.meets_properties_iff] at hproperties
    rw [Json.meets_additionalProperties_iff] at hnoother
    refine ⟨es, rfl, fun e hmem => ?_, fun field hfield hnone => ?_⟩
    · obtain ⟨schema, hschema⟩ := hnoother e hmem
      exact (hfields _ _).mp ⟨schema, hschema, hproperties e hmem schema hschema⟩
    · exact hrequired _ (mem_texts_required.mpr ⟨field, hfield, hnone, rfl⟩)
  · rintro ⟨es, rfl, hall, hrequired⟩
    refine ⟨⟨es, rfl⟩, Json.meets_required_iff.mpr fun name hname => ?_,
      Json.meets_properties_iff.mpr fun e hmem schema hschema => ?_,
      Json.meets_additionalProperties_iff.mpr fun e hmem => ?_⟩
    · obtain ⟨field, hfield, hnone, rfl⟩ := mem_texts_required.mp hname
      exact hrequired field hfield hnone
    · obtain ⟨schema', hschema', hvalid⟩ := (hfields _ _).mpr (hall e hmem)
      cases hschema.symm.trans hschema'
      exact hvalid
    · obtain ⟨schema, hschema, -⟩ := (hfields _ _).mpr (hall e hmem)
      exact ⟨schema, hschema⟩

mutual

/-- What is valid against a schema as it is written, in a document that defines what it shares. -/
theorem valid_iff (s : Schema) (hs : s.Resolves document) {entries : List (String × Json.Value)}
    (he : Annotated entries s.entries) (v : Json.Value) :
    Valid document (.object entries) v ↔ s.Admits v := by
  cases s with
  | text => rw [valid_type_iff he rfl, List.mem_singleton, typeName_eq_string_iff, Admits]
  | textOrNull =>
    rw [valid_type_iff he rfl, Admits, Json.Value.texts, Json.Value.texts, Json.Value.texts,
      List.mem_cons, List.mem_singleton, typeName_eq_string_iff, typeName_eq_null_iff]
  | null => rw [valid_type_iff he rfl, List.mem_singleton, typeName_eq_null_iff, Admits]
  | choice names => exact valid_choice_iff he
  | list item => exact valid_list_iff he (valid_iff item hs (.refl _))
  | anyOf alternatives =>
    rw [Json.valid_annotated_iff he rfl, Schema.entries, List.forall_mem_singleton,
      Json.asks_iff rfl, Json.meets_anyOf_iff, Admits]
    exact valid_objects_iff alternatives hs v
  | shared name description s =>
    obtain ⟨hdefinition, hs⟩ := hs
    rw [Json.valid_reference_iff (he.reference?_eq.trans rfl) hdefinition, Admits]
    exact valid_iff s hs (.append_left (described_annotations description)) v
  | record fields => exact valid_record_iff he (valid_properties_iff fields hs)

/-- What is valid against one of the schemas. -/
theorem valid_objects_iff (alternatives : List Schema) (hs : AllResolve document alternatives)
    (v : Json.Value) :
    (∃ schema ∈ objects alternatives, Valid document schema v) ↔ AnyAdmits alternatives v := by
  cases alternatives with
  | nil => simp [objects, AnyAdmits]
  | cons s rest =>
    rw [objects, List.exists_mem_cons_iff, AnyAdmits, valid_iff s hs.1 (.refl _) v,
      valid_objects_iff rest hs.2 v]

/-- What is valid against the schema of the field of a name. -/
theorem valid_properties_iff (fields : List (String × FieldNote × Schema))
    (hs : FieldsResolve document fields) (key : String) (v : Json.Value) :
    (∃ schema, (Json.Value.object (properties fields)).get? key = some schema ∧
      Valid document schema v) ↔ FieldAdmits fields key v := by
  match fields with
  | [] => simp [properties, FieldAdmits, Json.Value.get?]
  | (name, note, s) :: rest =>
    rw [FieldAdmits, get?_properties_cons]
    split
    · simp only [Option.some.injEq, exists_eq_left']
      exact valid_iff s hs.1 (.append_left (noted_annotations note)) v
    · exact valid_properties_iff rest hs.2 key v

end

end Validity

end Schema

/-- What is valid against the document of a schema, if it defines what the schema shares. -/
theorem TitledSchema.valid_iff (s : TitledSchema) (hs : s.schema.Resolves s.toJson)
    (v : Json.Value) : Valid s.toJson s.toJson v ↔ s.schema.Admits v := by
  refine s.schema.valid_iff hs ⟨_, _, rfl, ?_⟩ v
  rw [List.forall_mem_append, List.forall_mem_append]
  refine ⟨⟨by simp [Json.annotations], Schema.described_annotations _⟩, ?_⟩
  split
  · simp
  · simp [Json.annotations]

/-- The document of each command defines what its schema shares. -/
theorem Command.resolves_schema (c : Command) : c.schema.schema.Resolves c.schema.toJson := by
  cases c
  case extract => exact ⟨trivial, trivial, ⟨⟨rfl, trivial⟩, trivial, trivial⟩, trivial⟩
  case execute => exact ⟨trivial, ⟨rfl, trivial, trivial, trivial⟩, trivial⟩
  case writeConfig => exact ⟨trivial, ⟨rfl, trivial, trivial⟩, trivial⟩
  all_goals simp [Command.schema, Command.schema.transfer, Schema.Resolves, Schema.FieldsResolve]

end GameInstaller
