import GameInstaller.Proofs.Command.Forms
import GameInstaller.Proofs.Command.Schemas

/-!
# Parameters and published schemas

What a command takes, read as JSON, is valid against the schema that is published for it, unless it
is one of few parameters that the schema does not list: the short spellings of archive formats,
a mapping without entries where nothing is expected, and a list of fields in their order.

* `toJson?`     a value read as JSON
* `TextKeyed`   all keys in a value are texts
* `Unlisted`    parameters that a command takes beside those its schema lists

## Key results

- `bound_valid_iff`: which of the parameters that a command takes are valid against its schema
- `exists_bound_invalid`: parameters that are taken and not valid
-/

namespace GameInstaller

open Yaml (Value textEntries)
open Params

namespace Yaml.Value

mutual

/-- A value read as JSON, if it has no tag and all its keys are texts. -/
def toJson? : Value → Option Json.Value
  | .null => some .null
  | .bool b => some (.bool b)
  | .number n => some (.number n)
  | .string s => some (.string s)
  | .sequence items => (itemsToJson? items).map .array
  | .mapping entries => (entriesToJson? entries).map .object
  | .tagged .. => none

/-- Items read as JSON. -/
def itemsToJson? : List Value → Option (List Json.Value)
  | [] => some []
  | v :: r =>
    match toJson? v, itemsToJson? r with
    | some j, some js => some (j :: js)
    | _, _ => none

/-- Entries read as JSON. -/
def entriesToJson? : List (Value × Value) → Option (List (String × Json.Value))
  | [] => some []
  | (.string key, v) :: r =>
    match toJson? v, entriesToJson? r with
    | some j, some es => some ((key, j) :: es)
    | _, _ => none
  | _ :: _ => none

end

mutual

/-- All keys in a value are texts. -/
def TextKeyed : Value → Prop
  | .sequence items => ItemsTextKeyed items
  | .mapping entries => EntriesTextKeyed entries
  | .tagged _ v => TextKeyed v
  | _ => True

/-- All keys in the items are texts. -/
def ItemsTextKeyed : List Value → Prop
  | [] => True
  | v :: r => TextKeyed v ∧ ItemsTextKeyed r

/-- All keys of the entries and in their values are texts. -/
def EntriesTextKeyed : List (Value × Value) → Prop
  | [] => True
  | (k, v) :: r => (∃ key, k = .string key) ∧ TextKeyed v ∧ EntriesTextKeyed r

end

mutual

/-- A value without tags and with texts as keys can be read as JSON. -/
theorem exists_toJson? (v : Value) (htag : holdsTag v = false) (hkeys : TextKeyed v) :
    ∃ j, toJson? v = some j := by
  cases v with
  | tagged tag content => simp [holdsTag] at htag
  | sequence items =>
    obtain ⟨js, hjs⟩ := exists_itemsToJson? items htag hkeys
    exact ⟨.array js, by rw [toJson?, hjs, Option.map_some]⟩
  | mapping entries =>
    obtain ⟨es, hes⟩ := exists_entriesToJson? entries htag hkeys
    exact ⟨.object es, by rw [toJson?, hes, Option.map_some]⟩
  | _ => exact ⟨_, rfl⟩

theorem exists_itemsToJson? (items : List Value) (htag : itemsHoldTag items = false)
    (hkeys : ItemsTextKeyed items) : ∃ js, itemsToJson? items = some js := by
  cases items with
  | nil => exact ⟨[], rfl⟩
  | cons v rest =>
    rw [itemsHoldTag, Bool.or_eq_false_iff] at htag
    obtain ⟨j, hj⟩ := exists_toJson? v htag.1 hkeys.1
    obtain ⟨js, hjs⟩ := exists_itemsToJson? rest htag.2 hkeys.2
    exact ⟨j :: js, by simp only [itemsToJson?, hj, hjs]⟩

theorem exists_entriesToJson? (entries : List (Value × Value))
    (htag : entriesHoldTag entries = false) (hkeys : EntriesTextKeyed entries) :
    ∃ es, entriesToJson? entries = some es := by
  match entries with
  | [] => exact ⟨[], rfl⟩
  | (k, v) :: rest =>
    rw [entriesHoldTag, Bool.or_eq_false_iff, Bool.or_eq_false_iff] at htag
    obtain ⟨⟨key, rfl⟩, hv, hrest⟩ := hkeys
    obtain ⟨j, hj⟩ := exists_toJson? v htag.1.2 hv
    obtain ⟨es, hes⟩ := exists_entriesToJson? rest htag.2 hrest
    exact ⟨(key, j) :: es, by simp only [entriesToJson?, hj, hes]⟩

end

theorem EntriesTextKeyed.text {entries : List (Value × Value)} (h : EntriesTextKeyed entries) :
    ∀ e ∈ entries, ∃ key, e.1 = .string key := by
  induction entries with
  | nil => nofun
  | cons e rest ih =>
    obtain ⟨hkey, -, hrest⟩ := h
    rw [List.forall_mem_cons]
    exact ⟨hkey, ih hrest⟩

/-- Entries of an object that are fields read as JSON. -/
def ReadAs (fields : List (String × Value)) (entries : List (String × Json.Value)) : Prop :=
  List.Forall₂ (fun f e => e.1 = f.1 ∧ toJson? f.2 = some e.2) fields entries

/-- A mapping with texts as keys is read as an object. -/
theorem exists_readAs {fields : List (String × Value)} {j : Json.Value}
    (h : toJson? (.mapping (textEntries fields)) = some j) :
    ∃ entries, j = .object entries ∧ ReadAs fields entries := by
  rw [toJson?, Option.map_eq_some_iff] at h
  obtain ⟨entries, hentries, rfl⟩ := h
  refine ⟨entries, rfl, ?_⟩
  induction fields generalizing entries with
  | nil =>
    cases hentries
    exact .nil
  | cons f rest ih =>
    obtain ⟨key, v⟩ := f
    rw [Yaml.textEntries_cons, entriesToJson?] at hentries
    split at hentries
    · rename_i j es hj hes
      cases hentries
      exact .cons ⟨rfl, hj⟩ (ih es hes)
    · cases hentries

section ReadAs

variable {fields : List (String × Value)} {entries : List (String × Json.Value)}

theorem ReadAs.names (h : ReadAs fields entries) :
    entries.map Prod.fst = fields.map Prod.fst := by
  induction h with
  | nil => rfl
  | cons hfield _ ih => rw [List.map_cons, List.map_cons, hfield.1, ih]

theorem ReadAs.forall_iff (h : ReadAs fields entries) {P : String → Json.Value → Prop} :
    (∀ e ∈ entries, P e.1 e.2) ↔ ∀ f ∈ fields, ∀ j, toJson? f.2 = some j → P f.1 j := by
  induction h with
  | nil => simp
  | cons hfield _ ih =>
    rw [List.forall_mem_cons, List.forall_mem_cons, ih, hfield.1, hfield.2]
    simp

theorem ReadAs.exists_entry (h : ReadAs fields entries) {name : String} {v : Value}
    (hv : (name, v) ∈ fields) : ∃ j, (name, j) ∈ entries := by
  have hname : name ∈ entries.map Prod.fst := h.names ▸ List.mem_map_of_mem hv
  obtain ⟨⟨_, j⟩, he, rfl⟩ := List.mem_map.mp hname
  exact ⟨j, he⟩

end ReadAs

theorem itemsToJson?_strings (texts : List String) :
    itemsToJson? (texts.map .string) = some (texts.map .string) := by
  induction texts with
  | nil => rfl
  | cons text texts ih => rw [List.map_cons, itemsToJson?, toJson?, ih, List.map_cons]

end Yaml.Value

open Yaml.Value (toJson? TextKeyed ReadAs exists_toJson? exists_readAs)
open Json (Valid)

/-- The value of a field that may be missing is null, or a text that stands for something. -/
theorem Params.IsRecord.optional_value {α : Type} {stands : String → α → Prop} {known : List String}
    {fields : List (String × Value)} {name : String} {a : Option α} {v w : Value}
    (h : IsRecord known fields v) (ha : Optionally stands fields name a)
    (hw : (name, w) ∈ fields) : w = .null ∨ ∃ s b, w = .string s ∧ stands s b := by
  cases ha with
  | absent habsent => exact absurd hw (habsent w)
  | null hnull => exact .inl (h.unique hw hnull)
  | given hgiven hstands => exact .inr ⟨_, _, h.unique hw hgiven, hstands⟩

/-- A record schema admits a record that has all that is required, if it admits each of its fields. -/
theorem Schema.record_admits_iff {schemas : List (String × FieldNote × Schema)}
    {fields : List (String × Value)} {v : Value} {j : Json.Value} {known : List String}
    (h : IsRecord known fields v) (hj : toJson? v = some j)
    (hrequired : ∀ s ∈ schemas, s.2.1.fallback = none → ∃ w, (s.1, w) ∈ fields) :
    (record schemas).Admits j ↔
      ∀ f ∈ fields, ∀ i, toJson? f.2 = some i → FieldAdmits schemas f.1 i := by
  rw [h.entries] at hj
  obtain ⟨entries, rfl, hread⟩ := exists_readAs hj
  rw [Admits, ← hread.forall_iff]
  constructor
  · rintro ⟨_, heq, hall, -⟩
    cases heq
    exact hall
  · intro hall
    refine ⟨entries, rfl, hall, fun s hs hnone => ?_⟩
    obtain ⟨w, hw⟩ := hrequired s hs hnone
    exact hread.exists_entry hw

namespace Command

/-- Parameters that a command takes beside those its schema lists: a short spelling of an archive
    format, a mapping without entries for nothing, and fields in their order. -/
inductive Unlisted : Command → Value → Prop where
  | spelling {entries : List (Value × Value)} {name : String}
      (h : (.string "format", .string name) ∈ entries) (hname : name ∈ ["tgz", "tbz2", "tzst"]) :
      Unlisted .extract (.mapping entries)
  | noEntries : Unlisted .checkDepends (.mapping [])
  | programInOrder (items : List Value) : Unlisted .execute (.sequence items)
  | entryInOrder (items : List Value) : Unlisted .writeConfig (.sequence items)

section Covering

variable {v : Value} {j : Json.Value} {o : Operation}

/-- A record of two texts is admitted. -/
theorem admits_texts {schemas : List (String × FieldNote × Schema)} {a b s t : String}
    {fields : List (String × Value)} (h : IsRecord [a, b] fields v) (ha : (a, .string s) ∈ fields)
    (hb : (b, .string t) ∈ fields) (hj : toJson? v = some j)
    (hnames : ∀ field ∈ schemas, field.1 = a ∨ field.1 = b)
    (htexts : ∀ text, Schema.FieldAdmits schemas a (.string text) ∧
      Schema.FieldAdmits schemas b (.string text)) : (Schema.record schemas).Admits j := by
  refine (Schema.record_admits_iff h hj fun field hfield _ => ?_).mpr fun f hf i hi => ?_
  · rcases hnames field hfield with hname | hname
    · exact ⟨_, hname ▸ ha⟩
    · exact ⟨_, hname ▸ hb⟩
  · obtain ⟨name, w⟩ := f
    have hname : name = a ∨ name = b := by simpa using h.known _ hf
    rcases hname with rfl | rfl
    · rw [h.unique hf ha, toJson?] at hi
      cases hi
      exact (htexts s).1
    · rw [h.unique hf hb, toJson?] at hi
      cases hi
      exact (htexts t).2

theorem admits_transfer {t : Transfer} (h : IsTransfer v t) (hj : toJson? v = some j) :
    schema.transfer.schema.Admits j := by
  obtain ⟨fields, hrecord, hsrc, hdst, -⟩ := h
  exact admits_texts hrecord hsrc hdst hj (by simp) fun text => by
    simp [Schema.FieldAdmits, Schema.Admits]

/-- The published spellings of the formats are all but the short ones. -/
theorem Spells.published_iff {name : String} {f : Archive.Format}
    (h : Archive.Format.Spells name f) :
    name ∈ Archive.Format.all.map Archive.Format.name ↔ name ∉ ["tgz", "tbz2", "tzst"] := by
  cases h <;> decide

/-- A record of an archive is unlisted by a short spelling of its format. -/
theorem unlisted_extract_iff {fields : List (String × Value)} :
    Unlisted .extract (.mapping (textEntries fields)) ↔
      ∃ name, ("format", .string name) ∈ fields ∧ name ∈ ["tgz", "tbz2", "tzst"] := by
  constructor
  · rintro (⟨hmem, hname⟩ | _ | _ | _)
    exact ⟨_, Yaml.mem_textEntries.mp hmem, hname⟩
  · rintro ⟨name, hmem, hname⟩
    exact .spelling (Yaml.mem_textEntries.mpr hmem) hname

theorem extract_admits_iff (h : Declares .extract v o) (hj : toJson? v = some j) :
    (schema .extract).schema.Admits j ↔ ¬ Unlisted .extract v := by
  cases h with
  | @extract v fields file dst format hrecord hfile hdst hformat =>
    rw [schema, Schema.record_admits_iff hrecord hj]
    swap
    · simp only [List.forall_mem_cons, textNote]
      exact ⟨by simp, fun _ => ⟨_, hfile⟩, by simp, by simp⟩
    rw [hrecord.entries, unlisted_extract_iff]
    constructor
    · rintro hall ⟨name, hmem, hshort⟩
      -- The format that is given would have to be one of those that are published.
      obtain hnull | ⟨s, f, hs, hspells⟩ := hrecord.optional_value hformat hmem
      · cases hnull
      · cases hs
        refine (Spells.published_iff hspells).mp ?_ hshort
        simpa [Schema.FieldAdmits, Schema.Admits, Schema.AnyAdmits] using hall _ hmem _ rfl
    · rintro hno ⟨key, w⟩ hf i hi
      have hkey : key = "file" ∨ key = "dst" ∨ key = "format" := by
        simpa using hrecord.known _ hf
      rcases hkey with rfl | rfl | rfl
      · rw [hrecord.unique hf hfile] at hi
        cases hi
        simp [Schema.FieldAdmits, Schema.Admits]
      · obtain rfl | ⟨s, -, rfl, -⟩ := hrecord.optional_value hdst hf <;> cases hi <;>
          simp [Schema.FieldAdmits, Schema.Admits]
      · obtain rfl | ⟨s, f, rfl, hspells⟩ := hrecord.optional_value hformat hf
        · cases hi
          simp [Schema.FieldAdmits, Schema.Admits, Schema.AnyAdmits]
        · cases hi
          have hpublished := (Spells.published_iff hspells).mpr fun hshort => hno ⟨s, hf, hshort⟩
          simpa [Schema.FieldAdmits, Schema.Admits, Schema.AnyAdmits] using hpublished

theorem execute_admits (h : Declares .execute v o) (hj : toJson? v = some j) :
    (schema .execute).schema.Admits j := by
  cases h with
  | program file =>
    cases hj
    simp [schema, Schema.Admits, Schema.AnyAdmits]
  | @programWithArguments v fields file args hrecord hfile hargs =>
    refine .inr (.inl ?_)
    rw [Schema.Admits, Schema.record_admits_iff hrecord hj]
    · rintro ⟨key, w⟩ hf i hi
      have hkey : key = "file" ∨ key = "args" := by simpa using hrecord.known _ hf
      rcases hkey with rfl | rfl
      · rw [hrecord.unique hf hfile, toJson?] at hi
        cases hi
        simp [Schema.FieldAdmits, Schema.Admits]
      · rcases hargs with ⟨habsent, -⟩ | hargs
        · exact absurd hf (habsent _)
        · rw [hrecord.unique hf hargs, toJson?, Yaml.Value.itemsToJson?_strings] at hi
          cases hi
          simp [Schema.FieldAdmits, Schema.Admits]
    · simp only [List.forall_mem_cons, textNote]
      exact ⟨by simp, fun _ => ⟨_, hfile⟩, by simp⟩

theorem writeConfig_admits (h : Declares .writeConfig v o) (hj : toJson? v = some j) :
    (schema .writeConfig).schema.Admits j := by
  cases h with
  | entry file =>
    cases hj
    simp [schema, Schema.Admits, Schema.AnyAdmits]
  | @entryRecord v fields file hrecord hfile =>
    refine .inr (.inl ?_)
    rw [Schema.Admits, Schema.record_admits_iff hrecord hj]
    · rintro ⟨key, w⟩ hf i hi
      obtain rfl : key = "file" := by simpa using hrecord.known _ hf
      rw [hrecord.unique hf hfile, toJson?] at hi
      cases hi
      simp [Schema.FieldAdmits, Schema.Admits]
    · simp only [List.forall_mem_cons, textNote]
      exact ⟨fun _ => ⟨_, hfile⟩, by simp⟩

/-- With texts as keys, only a list gives a field by its position. -/
theorem not_byPosition_of_textKeyed (hkeys : TextKeyed v) (hv : ∀ items, v ≠ .sequence items) :
    ¬ ByPosition v := by
  cases v with
  | sequence items => exact absurd rfl (hv items)
  | mapping entries =>
    rintro ⟨e, he, n, hn⟩
    obtain ⟨key, hkey⟩ := Yaml.Value.EntriesTextKeyed.text hkeys e he
    cases hkey.symm.trans hn
  | _ => exact id

/-- The values that a schema of a text or a record admits are no lists. -/
theorem not_admits_array {name : String} {description : Option String}
    {fields : List (String × FieldNote × Schema)} {items : List Json.Value} :
    ¬ (Schema.anyOf [.text, .shared name description (.record fields)]).Admits (.array items) := by
  simp [Schema.Admits, Schema.AnyAdmits]

/-- Of parameters with texts as keys, a command with two forms of parameters takes what it declares,
    and lists, which its schema does not admit. -/
theorem form_admits_iff {c : Command} (hc : c = .execute ∨ c = .writeConfig)
    (htag : holdsTag v = false) (hkeys : TextKeyed v) (hj : toJson? v = some j)
    (h : c.bind v = .ok o) : c.schema.schema.Admits j ↔ ¬ Unlisted c v := by
  by_cases hlist : ∃ items, v = .sequence items
  · obtain ⟨items, rfl⟩ := hlist
    obtain ⟨js, -, rfl⟩ := Option.map_eq_some_iff.mp hj
    rcases hc with rfl | rfl
    · exact iff_of_false not_admits_array fun hno => hno (.programInOrder items)
    · exact iff_of_false not_admits_array fun hno => hno (.entryInOrder items)
  · have hlist : ∀ items, v ≠ .sequence items := fun items heq => hlist ⟨items, heq⟩
    have hdeclares := (bind_iff_declares_spelled htag hc).mp h
    rw [spelled_of_not_byPosition (not_byPosition_of_textKeyed hkeys hlist)] at hdeclares
    rcases hc with rfl | rfl
    · refine iff_of_true (execute_admits hdeclares hj) ?_
      rintro (_ | _ | items | _)
      exact hlist items rfl
    · refine iff_of_true (writeConfig_admits hdeclares hj) ?_
      rintro (_ | _ | _ | items)
      exact hlist items rfl

/-- The parameters that a command takes are admitted unless they are among those not listed. -/
theorem admits_iff (c : Command) (htag : holdsTag v = false) (hkeys : TextKeyed v)
    (hj : toJson? v = some j) (h : c.bind v = .ok o) :
    c.schema.schema.Admits j ↔ ¬ Unlisted c v := by
  cases c with
  | move =>
    rw [bind_move_iff htag] at h
    cases h with
    | move ht => exact iff_of_true (admits_transfer ht hj) (by rintro ⟨⟩)
  | copy =>
    rw [bind_copy_iff htag] at h
    cases h with
    | copy ht => exact iff_of_true (admits_transfer ht hj) (by rintro ⟨⟩)
  | mkdir =>
    rw [bind_mkdir_iff htag] at h
    cases h
    cases hj
    exact iff_of_true ⟨_, rfl⟩ (by rintro ⟨⟩)
  | extract =>
    rw [Command.bind, mapError_eq_ok, readExtract_eq_ok_iff htag] at h
    exact extract_admits_iff h hj
  | execute => exact form_admits_iff (.inl rfl) htag hkeys hj h
  | checksum =>
    rw [Command.bind, readChecksum_eq_ok_iff htag] at h
    cases h with
    | checksum hrecord hfile hhash =>
      refine iff_of_true ?_ (by rintro ⟨⟩)
      exact admits_texts hrecord hfile hhash hj (by simp) fun text => by
        simp [Schema.FieldAdmits, Schema.Admits]
  | checkDepends =>
    rw [bind_checkDepends_iff] at h
    cases h with
    | nothing =>
      cases hj
      exact iff_of_true rfl (by rintro ⟨⟩)
    | noEntries =>
      cases hj
      exact iff_of_false (by rintro ⟨⟩) fun hno => hno .noEntries
  | writeConfig => exact form_admits_iff (.inr rfl) htag hkeys hj h

/-- Parameters without tags and with texts as keys that a command takes can be read as JSON, and are
    then valid against the schema of the command, unless they are among those that it does not
    list. -/
theorem bound_valid_iff (c : Command) (htag : holdsTag v = false) (hkeys : TextKeyed v)
    (h : c.bind v = .ok o) :
    ∃ j, toJson? v = some j ∧
      (Valid c.schema.toJson c.schema.toJson j ↔ ¬ Unlisted c v) := by
  obtain ⟨j, hj⟩ := exists_toJson? v htag hkeys
  refine ⟨j, hj, ?_⟩
  rw [TitledSchema.valid_iff _ (resolves_schema c), admits_iff c htag hkeys hj h]

/-- An archive with a published spelling of its format. -/
theorem bound_valid_iff_archive :
    let archive : Value :=
      .mapping [(.string "file", .string "a.bin"), (.string "format", .string "tar.gz")]
    (holdsTag archive = false ∧ TextKeyed archive ∧
      Command.bind .extract archive = .ok (.extract "a.bin" none (some .tarGz))) ∧
      Valid (schema .extract).toJson (schema .extract).toJson
        (.object [("file", .string "a.bin"), ("format", .string "tar.gz")]) := by
  intro archive
  have htag : holdsTag archive = false := rfl
  have hkeys : TextKeyed archive := ⟨⟨_, rfl⟩, trivial, ⟨_, rfl⟩, trivial, trivial⟩
  have hbind : Command.bind .extract archive = .ok (.extract "a.bin" none (some .tarGz)) := rfl
  obtain ⟨j, hj, hvalid⟩ := bound_valid_iff .extract htag hkeys hbind
  cases hj
  refine ⟨⟨htag, hkeys, hbind⟩, hvalid.mpr ?_⟩
  have hunlisted := @unlisted_extract_iff
    [("file", .string "a.bin"), ("format", .string "tar.gz")]
  rw [Yaml.textEntries_cons, Yaml.textEntries_cons, Yaml.textEntries_nil] at hunlisted
  rw [hunlisted]
  rintro ⟨name, hmem, hname⟩
  obtain rfl : name = "tar.gz" := by simpa using hmem
  simp at hname

/-- An archive with a short spelling of its format, nothing as a mapping, and a program as a list:
    all are taken, and none is valid against the schema. -/
theorem exists_bound_invalid :
    let archive : Value :=
      .mapping [(.string "file", .string "a.bin"), (.string "format", .string "tgz")]
    let program : Value := .sequence [.string "setup.sh"]
    (holdsTag archive = false ∧ TextKeyed archive ∧
      Command.bind .extract archive = .ok (.extract "a.bin" none (some .tarGz)) ∧
      ∃ j, toJson? archive = some j ∧ ¬ Valid (schema .extract).toJson (schema .extract).toJson j) ∧
    (Command.bind .checkDepends (.mapping []) = .ok .checkDepends ∧
      ∃ j, toJson? (.mapping []) = some j ∧
        ¬ Valid (schema .checkDepends).toJson (schema .checkDepends).toJson j) ∧
    (holdsTag program = false ∧ TextKeyed program ∧
      Command.bind .execute program = .ok (.execute "setup.sh" []) ∧
      ∃ j, toJson? program = some j ∧
        ¬ Valid (schema .execute).toJson (schema .execute).toJson j) := by
  intro archive program
  have harchive : TextKeyed archive := ⟨⟨_, rfl⟩, trivial, ⟨_, rfl⟩, trivial, trivial⟩
  refine ⟨⟨rfl, harchive, rfl, _, rfl, ?_⟩, ⟨rfl, _, rfl, ?_⟩,
    ⟨rfl, ⟨trivial, trivial⟩, rfl, _, rfl, ?_⟩⟩
  · rw [TitledSchema.valid_iff _ (resolves_schema .extract),
      admits_iff .extract rfl harchive rfl rfl, not_not]
    exact .spelling (List.mem_cons_of_mem _ List.mem_cons_self) List.mem_cons_self
  · rw [TitledSchema.valid_iff _ (resolves_schema .checkDepends)]
    nofun
  · rw [TitledSchema.valid_iff _ (resolves_schema .execute)]
    exact not_admits_array

end Covering

end Command

end GameInstaller
