import GameInstaller.Proofs.Command.Binding

/-!
# Commands with two forms of parameters

`execute` and `write_config` declare a text and a record.  Their records are read by another reader
than those of the other commands, which also takes a field under the number of its position and a
list of fields in their order.  What it takes is what the command declares, once names are put for
positions.

* `spelled`      parameters with the names of fields for their positions
* `ByPosition`   parameters that give a field by its position

## Key results

- `bind_form_iff`: what is bound of parameters, and when it is what the command declares
- `exists_bound_by_position`: a list is bound that is none of the declared parameters
-/

namespace GameInstaller

open Yaml (Value textEntries)
open Params

namespace Params

/-- A key with the name of a field for its position. -/
def spelledKey (known : List String) : Value → Value
  | .number (.natural n) =>
    match known[n]? with
    | some name => .string name
    | none => .number (.natural n)
  | k => k

/-- An entry with the name of its field for its position. -/
def spelledEntry (known : List String) (e : Value × Value) : Value × Value :=
  (spelledKey known e.1, e.2)

/-- Parameters with the names of fields for their positions. -/
def spelled (known : List String) : Value → Value
  | .mapping entries => .mapping (entries.map (spelledEntry known))
  | .sequence items =>
    if items.length ≤ known.length then .mapping (textEntries (known.zip items))
    else .sequence items
  | v => v

/-- The parameters are a list, or a mapping with a number among its keys. -/
def ByPosition : Value → Prop
  | .sequence _ => True
  | .mapping entries => ∃ e ∈ entries, ∃ n, e.1 = .number (.natural n)
  | _ => False

theorem spelledKey_of_ne_natural {known : List String} {k : Value}
    (h : ∀ n, k ≠ .number (.natural n)) : spelledKey known k = k := by
  unfold spelledKey
  split
  · exact absurd rfl (h _)
  · rfl

@[simp] theorem holdsTag_spelledKey (known : List String) (k : Value) :
    holdsTag (spelledKey known k) = holdsTag k := by
  unfold spelledKey
  split
  · split <;> simp [holdsTag]
  · rfl

theorem entriesHoldTag_spelled (known : List String) (entries : List (Value × Value)) :
    entriesHoldTag (entries.map (spelledEntry known)) = entriesHoldTag entries := by
  induction entries with
  | nil => rfl
  | cons e rest ih => simp [spelledEntry, entriesHoldTag, ih]

/-- Without positions there is nothing to put names for. -/
theorem spelled_of_not_byPosition {known : List String} {v : Value} (h : ¬ ByPosition v) :
    spelled known v = v := by
  cases v with
  | mapping entries =>
    have hkeys : ∀ e ∈ entries, spelledEntry known e = id e := fun e he => by
      rw [spelledEntry, spelledKey_of_ne_natural fun n hn => h ⟨e, he, n, hn⟩, id]
    rw [spelled, List.map_congr_left hkeys, List.map_id]
  | sequence items => exact absurd trivial h
  | _ => rfl

/-- A record has names only. -/
theorem IsRecord.not_byPosition {known : List String} {fields : List (String × Value)} {v : Value}
    (h : IsRecord known fields v) : ¬ ByPosition v := by
  rw [h.entries]
  rintro ⟨e, he, n, hn⟩
  obtain ⟨field, -, rfl⟩ := List.mem_map.mp he
  cases hn

namespace Buffered

theorem texts?_eq_some_iff {items : List Value} {texts : List String} :
    texts? items = some texts ↔ items = texts.map .string := by
  induction items generalizing texts with
  | nil => cases texts <;> simp [texts?]
  | cons v items ih =>
    cases v with
    | string s =>
      rw [texts?, Option.map_eq_some_iff]
      constructor
      · rintro ⟨rest, hrest, rfl⟩
        rw [ih.mp hrest, List.map_cons]
      · intro h
        obtain ⟨t, rest, rfl, ht, hrest⟩ := List.map_eq_cons_iff.mp h.symm
        obtain rfl := Value.string.inj ht
        exact ⟨rest, ih.mpr hrest.symm, rfl⟩
    | _ => cases texts <;> simp [texts?]

/-- A key is read as the field that its name or position is of. -/
theorem fieldName?_eq_some_iff {known : List String} {k : Value} {name : String} :
    fieldName? known k = some name ↔ spelledKey known k = .string name ∧ name ∈ known := by
  cases k with
  | string s => simp [fieldName?, spelledKey]; grind
  | number n =>
    cases n with
    | natural n => simp [fieldName?, spelledKey]; grind
    | _ => simp [fieldName?, spelledKey]
  | _ => simp [fieldName?, spelledKey]

/-- Fields are read of entries as they are read of a record, once names are put for positions. -/
theorem fields?_eq_some_iff {known seen : List String} {entries : List (Value × Value)}
    {fields : List (String × Value)} (hentries : entriesHoldTag entries = false) :
    fields? known seen entries = some fields ↔
      readFields known (fun _ _ => .ok ()) seen
        (entries.map (spelledEntry known)) = .ok fields := by
  induction entries generalizing seen fields with
  | nil => simp [fields?, readFields]
  | cons e rest ih =>
    obtain ⟨k, v⟩ := e
    simp only [entriesHoldTag, Bool.or_eq_false_iff] at hentries
    obtain ⟨⟨hk, -⟩, hrest⟩ := hentries
    have hspelled : holdsTag (spelledKey known k) = false := by simpa using hk
    rw [fields?, List.map_cons, spelledEntry, readFields]
    cases hname : fieldName? known k with
    | some name =>
      obtain ⟨hkey, hknown⟩ := fieldName?_eq_some_iff.mp hname
      rw [(readKey_eq_ok_iff hspelled).mpr hkey]
      by_cases hseen : name ∈ seen
      · simp [hseen, hknown]
      · simp [hseen, hknown, ih hrest, map_eq_ok_iff]
    | none =>
      -- The key is no text, or a text that is no known name.
      cases hkey : readKey (spelledKey known k) with
      | error e => simp
      | ok name =>
        have hunknown : name ∉ known := fun hknown => by
          rw [fieldName?_eq_some_iff.mpr ⟨(readKey_eq_ok_iff hspelled).mp hkey, hknown⟩] at hname
          cases hname
        simp [hunknown]

/-- What is read of a value is a record just when the value is one, once names are put for
    positions. -/
theorem record?_eq_some_iff {known : List String} {v : Value} {fields : List (String × Value)}
    (hknown : known.Nodup) (hv : holdsTag v = false) :
    record? known v = some fields ↔ IsRecord known fields (spelled known v) := by
  cases v with
  | mapping entries =>
    rw [holdsTag] at hv
    rw [record?, fields?_eq_some_iff hv,
      readFields_eq_ok_iff (by rwa [entriesHoldTag_spelled]), spelled]
    constructor
    · rintro ⟨hentries, hall, hnodup⟩
      exact ⟨congrArg _ hentries, fun f hf => (hall f hf).1, hnodup⟩
    · rintro ⟨hentries, hall, hnodup⟩
      exact ⟨Value.mapping.inj hentries, fun f hf => ⟨hall f hf, List.not_mem_nil, rfl⟩, hnodup⟩
  | sequence items =>
    rw [record?, spelled]
    split
    · rename_i hlen
      rw [Option.some.injEq]
      constructor
      · rintro rfl
        refine ⟨rfl, fun f hf => (List.of_mem_zip hf).1, ?_⟩
        rw [List.zip_eq_zip_take_min, List.map_fst_zip (by simp)]
        exact hknown.sublist (List.take_sublist _ _)
      · rintro ⟨hentries, -, -⟩
        exact Yaml.textEntries_inj.mp (Value.mapping.inj hentries)
    · constructor
      · intro h
        cases h
      · rintro ⟨hentries, -, -⟩
        cases hentries
  | _ =>
    constructor
    · intro h
      cases h
    · rintro ⟨hentries, -, -⟩
      cases hentries

end Buffered

end Params

namespace Command

section Untagged

variable {v : Value}

/-- The names of the fields of a command with two forms of parameters, in the order of their
    positions. -/
def formFields : Command → List String
  | .execute => ["file", "args"]
  | .writeConfig => ["file"]
  | _ => []

theorem spelled_eq_string_iff {known : List String} {s : String} :
    spelled known v = .string s ↔ v = .string s := by
  cases v with
  | sequence items =>
    rw [spelled]
    split <;> simp
  | _ => simp [spelled]

theorem program?_eq_some_iff (hv : holdsTag v = false) {file : String} {args : List String} :
    Buffered.program? v = some (file, args) ↔
      Declares .execute (spelled (formFields .execute) v) (.execute file args) := by
  have hrecord {fields : List (String × Value)} :=
    @Buffered.record?_eq_some_iff ["file", "args"] v fields (by decide) hv
  unfold Buffered.program?
  constructor
  · intro h
    -- A text is the program itself; all else must be a record.
    split at h
    · cases h
      exact .program file
    split at h
    · cases h
    rename_i fields hfields
    have hfields := hrecord.mp hfields
    split at h
    · rename_i hfile hargs
      cases h
      rw [field?_eq_some_iff hfields.nodup] at hfile
      exact .programWithArguments hfields hfile (.inl ⟨field?_eq_none_iff.mp hargs, rfl⟩)
    · rename_i items hfile hargs
      obtain ⟨texts, htexts, heq⟩ := Option.map_eq_some_iff.mp h
      cases heq
      rw [field?_eq_some_iff hfields.nodup] at hfile hargs
      rw [Buffered.texts?_eq_some_iff.mp htexts] at hargs
      exact .programWithArguments hfields hfile (.inr hargs)
    · cases h
  · intro h
    -- What is declared is not of the form of `spelled`, so the cases are those of any value.
    generalize hw : spelled (formFields .execute) v = w at h
    cases h with
    | program =>
      obtain rfl := spelled_eq_string_iff.mp hw
      rfl
    | programWithArguments hfields hfile hargs =>
      subst hw
      have hfile := (field?_eq_some_iff hfields.nodup).mpr hfile
      split
      · cases hfields.entries
      rcases hargs with ⟨hno, rfl⟩ | hargs
      · simp only [hrecord.mpr hfields, hfile, field?_eq_none_iff.mpr hno]
      · have hargs := (field?_eq_some_iff hfields.nodup).mpr hargs
        have htexts := Buffered.texts?_eq_some_iff.mpr (Eq.refl (args.map Value.string))
        simp only [hrecord.mpr hfields, hfile, hargs, htexts, Option.map_some]

theorem file?_eq_some_iff (hv : holdsTag v = false) {file : String} :
    Buffered.file? v = some file ↔
      Declares .writeConfig (spelled (formFields .writeConfig) v) (.writeConfig file) := by
  have hrecord {fields : List (String × Value)} :=
    @Buffered.record?_eq_some_iff ["file"] v fields (by decide) hv
  unfold Buffered.file?
  constructor
  · intro h
    split at h
    · cases h
      exact .entry file
    split at h
    · cases h
    rename_i fields hfields
    have hfields := hrecord.mp hfields
    split at h
    · rename_i hfile
      cases h
      exact .entryRecord hfields ((field?_eq_some_iff hfields.nodup).mp hfile)
    · cases h
  · intro h
    generalize hw : spelled (formFields .writeConfig) v = w at h
    cases h with
    | entry =>
      obtain rfl := spelled_eq_string_iff.mp hw
      rfl
    | entryRecord hfields hfile =>
      subst hw
      have hfile := (field?_eq_some_iff hfields.nodup).mpr hfile
      split
      · cases hfields.entries
      · simp only [hrecord.mpr hfields, hfile]

theorem read_eq_ok_iff {α : Type} {spec : String} {form? : Value → Option α} {a : α}
    (hv : holdsTag v = false) : Buffered.read spec form? v = .ok a ↔ form? v = some a := by
  simp only [Buffered.read, hv]
  cases form? v <;> simp

/-- The commands with two forms of parameters take what they declare, with names put for
    positions. -/
theorem bind_iff_declares_spelled (hv : holdsTag v = false) {c : Command}
    (hc : c = .execute ∨ c = .writeConfig) {o : Operation} :
    c.bind v = .ok o ↔ Declares c (spelled (formFields c) v) o := by
  rcases hc with rfl | rfl
  · simp only [Command.bind, map_eq_ok_iff, mapError_eq_ok, read_eq_ok_iff hv, Prod.exists,
      program?_eq_some_iff hv]
    constructor
    · rintro ⟨file, args, h, rfl⟩
      exact h
    · intro h
      have hcommand := h.command
      obtain ⟨file, args, rfl⟩ : ∃ file args, o = .execute file args := by
        cases o <;> first | exact ⟨_, _, rfl⟩ | cases hcommand
      exact ⟨file, args, h, rfl⟩
  · simp only [Command.bind, map_eq_ok_iff, mapError_eq_ok, read_eq_ok_iff hv,
      file?_eq_some_iff hv]
    constructor
    · rintro ⟨file, h, rfl⟩
      exact h
    · intro h
      have hcommand := h.command
      obtain ⟨file, rfl⟩ : ∃ file, o = .writeConfig file := by
        cases o <;> first | exact ⟨_, rfl⟩ | cases hcommand
      exact ⟨file, h, rfl⟩

theorem Declares.not_byPosition {c : Command} (hc : c = .execute ∨ c = .writeConfig)
    {o : Operation} (h : Declares c v o) : ¬ ByPosition v := by
  cases h with
  | program | entry => exact id
  | programWithArguments h => exact h.not_byPosition
  | entryRecord h => exact h.not_byPosition
  | _ => simp at hc

end Untagged

/-- What the commands with two forms of parameters take.  They take what they declare with names put
    for positions; so of parameters without tags they take just what they declare, unless the
    parameters give a field by its position and are taken all the same.  A text stands for the same
    as a record of it alone, and no other scalar is taken. -/
theorem bind_form_iff {c : Command} (hc : c = .execute ∨ c = .writeConfig) :
    (∀ v, holdsTag v = false →
      (∀ o, c.bind v = .ok o ↔ Declares c (spelled (formFields c) v) o) ∧
      ((∀ o, c.bind v = .ok o ↔ Declares c v o) ↔ ¬ (ByPosition v ∧ ∃ o, c.bind v = .ok o))) ∧
    (∀ s, ∃ o, c.bind (.string s) = .ok o ∧
      c.bind (.mapping [(.string "file", .string s)]) = .ok o) ∧
    ∀ v, (v = .null ∨ (∃ b, v = .bool b) ∨ ∃ n, v = .number n) → ∀ o, c.bind v ≠ .ok o := by
  refine ⟨fun v hv => ⟨fun o => bind_iff_declares_spelled hv hc, ?_⟩, fun s => ?_,
    fun v hscalar o => ?_⟩
  · constructor
    · rintro hall ⟨hposition, o, ho⟩
      exact ((hall o).mp ho).not_byPosition hc hposition
    · intro hno o
      by_cases hposition : ByPosition v
      · exact iff_of_false (fun ho => hno ⟨hposition, o, ho⟩)
          fun ho => ho.not_byPosition hc hposition
      · rw [bind_iff_declares_spelled hv hc, spelled_of_not_byPosition hposition]
  · rcases hc with rfl | rfl
    · exact ⟨.execute s [], rfl, rfl⟩
    · exact ⟨.writeConfig s, rfl, rfl⟩
  · rcases hc with rfl | rfl <;> rcases hscalar with rfl | ⟨b, rfl⟩ | ⟨n, rfl⟩ <;> nofun

/-- A program under the number of its position, and a text. -/
theorem bind_form_iff_program :
    let byNumber : Value := .mapping [(.number (.natural 0), .string "setup.sh")]
    (Command.execute = .execute ∨ Command.execute = .writeConfig) ∧ holdsTag byNumber = false ∧
      Command.bind .execute byNumber = .ok (.execute "setup.sh" []) ∧
        (∀ o, Command.bind .execute .null ≠ .ok o) := by
  intro byNumber
  have hc : Command.execute = .execute ∨ Command.execute = .writeConfig := .inl rfl
  have hv : holdsTag byNumber = false := rfl
  obtain ⟨hforms, -, hscalars⟩ := bind_form_iff hc
  have hrecord : IsRecord ["file", "args"] [("file", .string "setup.sh")]
      (spelled (formFields .execute) byNumber) := ⟨rfl, by simp, by simp⟩
  exact ⟨hc, hv,
    ((hforms byNumber hv).1 _).mpr (.programWithArguments hrecord (by simp) (.inl ⟨by simp, rfl⟩)),
    hscalars .null (.inl rfl)⟩

/-- A list, and a mapping with a number as its key: both are taken, and neither is declared. -/
theorem exists_bound_by_position :
    let list : Value := .sequence [.string "setup.sh"]
    let byNumber : Value := .mapping [(.number (.natural 0), .string "baz")]
    (holdsTag list = false ∧ Command.bind .execute list = .ok (.execute "setup.sh" []) ∧
      ∀ o, ¬ Declares .execute list o) ∧
    (holdsTag byNumber = false ∧ Command.bind .writeConfig byNumber = .ok (.writeConfig "baz") ∧
      ∀ o, ¬ Declares .writeConfig byNumber o) := by
  intro list byNumber
  have hlist : ByPosition list := trivial
  have hnumber : ByPosition byNumber := ⟨_, List.mem_cons_self, 0, rfl⟩
  exact ⟨⟨rfl, rfl, fun o ho => ho.not_byPosition (.inl rfl) hlist⟩,
    ⟨rfl, rfl, fun o ho => ho.not_byPosition (.inr rfl) hnumber⟩⟩

end Command

end GameInstaller
