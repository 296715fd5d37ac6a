import GameInstaller.Command.Params
import GameInstaller.Proofs.Actions
import GameInstaller.Proofs.Yaml.Keys

/-!
# Records among parameters

What is read of a value without tags, said without the order in which its entries are looked at.

* `IsRecord`      a value is a record of given fields, with their names among the known ones
* `Optionally`    what a field that may be absent or null stands for
* `Spells`        the texts that stand for an archive format

## Key results

- `readRecord_eq_ok_iff`: the values that are read as records
- `textField_eq_ok_iff`, `optionalField_eq_ok_iff`: what is read of a field
-/

namespace GameInstaller

open Yaml (Value textEntries)

/-- The texts that stand for the archive formats. -/
inductive Archive.Format.Spells : String → Archive.Format → Prop where
  | tar : Spells "tar" .tar
  | tarGz : Spells "tar.gz" .tarGz
  | tgz : Spells "tgz" .tarGz
  | tarBz2 : Spells "tar.bz2" .tarBz2
  | tbz2 : Spells "tbz2" .tarBz2
  | tarZst : Spells "tar.zst" .tarZst
  | tzst : Spells "tzst" .tarZst
  | zip : Spells "zip" .zip

theorem Archive.Format.ofName?_eq_some_iff {s : String} {f : Archive.Format} :
    Archive.Format.ofName? s = some f ↔ Archive.Format.Spells s f := by
  constructor
  · intro h
    obtain ⟨⟨name, format⟩, hfind, rfl⟩ := Option.map_eq_some_iff.mp h
    have hmem := List.mem_of_find?_eq_some hfind
    obtain rfl : name = s := by simpa using List.find?_some hfind
    simp only [spellings, List.mem_cons, Prod.mk.injEq, List.not_mem_nil, or_false] at hmem
    rcases hmem with ⟨rfl, rfl⟩ | ⟨rfl, rfl⟩ | ⟨rfl, rfl⟩ | ⟨rfl, rfl⟩ | ⟨rfl, rfl⟩ | ⟨rfl, rfl⟩ |
      ⟨rfl, rfl⟩ | ⟨rfl, rfl⟩ <;> constructor
  · intro h
    cases h <;> decide

namespace Params

/-- The value is a mapping that has these fields as its entries, each under a known name and no two
    under the same. -/
structure IsRecord (known : List String) (fields : List (String × Value)) (v : Value) : Prop where
  entries : v = .mapping (textEntries fields)
  known : ∀ f ∈ fields, f.1 ∈ known
  nodup : (fields.map Prod.fst).Nodup

/-- What a field that may be missing gives: nothing when it is absent or null, or else what its text
    stands for. -/
inductive Optionally {α : Type} (stands : String → α → Prop) (fields : List (String × Value))
    (name : String) : Option α → Prop where
  | absent (h : ∀ v, (name, v) ∉ fields) : Optionally stands fields name none
  | null (h : (name, .null) ∈ fields) : Optionally stands fields name none
  | given {s : String} {a : α} (h : (name, .string s) ∈ fields) (ha : stands s a) :
      Optionally stands fields name (some a)

/-! ## Values without tags -/

section Untagged

variable {v : Value}

theorem untag_of_holdsTag (hv : holdsTag v = false) : untag v = v := by
  cases v with
  | tagged tag content => simp [holdsTag] at hv
  | _ => simp [untag]

theorem readText_eq_ok_iff (hv : holdsTag v = false) {s : String} :
    readText v = .ok s ↔ v = .string s := by
  rw [readText, untag_of_holdsTag hv]
  cases v <;> simp

theorem checkText_eq_ok_iff (hv : holdsTag v = false) :
    checkText v = .ok () ↔ ∃ s, v = .string s := by
  rw [checkText, map_eq_ok_iff]
  simp [readText_eq_ok_iff hv]

theorem readKey_eq_ok_iff (hv : holdsTag v = false) {name : String} :
    readKey v = .ok name ↔ v = .string name := by
  rw [readKey, untag_of_holdsTag hv]
  cases v <;> simp

theorem readFormat_eq_ok_iff (hv : holdsTag v = false) {f : Archive.Format} :
    readFormat v = .ok f ↔ ∃ s, v = .string s ∧ Archive.Format.Spells s f := by
  cases v with
  | tagged tag content => simp [holdsTag] at hv
  | string s =>
    simp only [readFormat, formatNamed, Value.string.injEq, exists_eq_left',
      ← Archive.Format.ofName?_eq_some_iff]
    cases Archive.Format.ofName? s <;> simp
  | _ => simp [readFormat]

/-- A reader that gives nothing for null, and for a text what it stands for. -/
def ReadsOptionally {α : Type} (stands : String → α → Prop)
    (read : Value → Except ShapeError (Option α)) : Prop :=
  ∀ v o, holdsTag v = false →
    (read v = .ok o ↔ v = .null ∧ o = none ∨ ∃ s a, v = .string s ∧ stands s a ∧ o = some a)

/-- A reader for texts, to which null was added. -/
theorem readsOptionally_of {α : Type} {stands : String → α → Prop}
    {read : Value → Except ShapeError α} {readOptional : Value → Except ShapeError (Option α)}
    (hread : ∀ v a, holdsTag v = false → (read v = .ok a ↔ ∃ s, v = .string s ∧ stands s a))
    (hnull : readOptional .null = .ok none)
    (hother : ∀ v, v ≠ .null → readOptional v = (read v).map some) :
    ReadsOptionally stands readOptional := by
  intro v o hv
  by_cases hv' : v = .null
  · subst hv'
    rw [hnull, Except.ok.injEq]
    constructor
    · rintro rfl
      exact .inl ⟨rfl, rfl⟩
    · rintro (⟨-, rfl⟩ | ⟨s, a, hs, -⟩)
      · rfl
      · cases hs
  · rw [hother v hv', map_eq_ok_iff]
    simp only [hread v _ hv, hv', false_and, false_or]
    grind

theorem readsOptionally_text : ReadsOptionally Eq readOptionalText := by
  have hread (v : Value) (s : String) (hv : holdsTag v = false) :
      readText v = .ok s ↔ ∃ t, v = .string t ∧ t = s := by simp [readText_eq_ok_iff hv]
  refine readsOptionally_of hread rfl fun v hv => ?_
  cases v <;> first | rfl | exact absurd rfl hv

theorem readsOptionally_format : ReadsOptionally Archive.Format.Spells readOptionalFormat := by
  refine readsOptionally_of (fun v f hv => readFormat_eq_ok_iff hv) rfl fun v hv => ?_
  cases v <;> first | rfl | exact absurd rfl hv

end Untagged

/-! ## Fields -/

section Fields

variable {known seen : List String} {check : String → Value → Except ShapeError Unit}
  {fields : List (String × Value)} {name : String}

theorem entriesHoldTag_textEntries :
    entriesHoldTag (textEntries fields) = false ↔ ∀ f ∈ fields, holdsTag f.2 = false := by
  induction fields with
  | nil => simp [entriesHoldTag]
  | cons f fields ih =>
    obtain ⟨name, v⟩ := f
    simp [entriesHoldTag, holdsTag, ih]

/-- The fields of entries are the entries themselves, if all keys are known names and none stands
    twice. -/
theorem readFields_eq_ok_iff {entries : List (Value × Value)}
    (hentries : entriesHoldTag entries = false) :
    readFields known check seen entries = .ok fields ↔ entries = textEntries fields ∧
      (∀ f ∈ fields, f.1 ∈ known ∧ f.1 ∉ seen ∧ check f.1 f.2 = .ok ()) ∧
        (fields.map Prod.fst).Nodup := by
  induction entries generalizing seen fields with
  | nil =>
    cases fields with
    | nil => simp [readFields]
    | cons f fields => simp [readFields, textEntries]
  | cons e rest ih =>
    obtain ⟨k, v⟩ := e
    simp only [entriesHoldTag, Bool.or_eq_false_iff] at hentries
    obtain ⟨⟨hk, hv⟩, hrest⟩ := hentries
    rw [readFields]
    constructor
    · intro h
      -- The checks of the entry in their order: of the kind of its key, of its name, that the
      -- name is a new one, and of the value.
      split at h
      · cases h
      rename_i name hname
      obtain rfl := (readKey_eq_ok_iff hk).mp hname
      split at h
      · cases h
      rename_i hknown
      split at h
      · cases h
      rename_i hseen
      split at h
      · cases h
      rename_i hcheck
      obtain ⟨fields', hfields, rfl⟩ := map_eq_ok_iff.mp h
      obtain ⟨rfl, hall, hnodup⟩ := (ih hrest).mp hfields
      simp only [List.mem_cons, not_or] at hall
      simp at hknown hseen
      refine ⟨rfl, List.forall_mem_cons.mpr ⟨⟨hknown, hseen, hcheck⟩, ?_⟩, ?_⟩
      · intro f hf
        obtain ⟨hf1, ⟨-, hf2⟩, hf3⟩ := hall f hf
        exact ⟨hf1, hf2, hf3⟩
      · -- What comes later was checked against a list of names with this one in it.
        rw [List.map_cons, List.nodup_cons]
        refine ⟨fun hmem => ?_, hnodup⟩
        obtain ⟨f, hf, hname⟩ := List.mem_map.mp hmem
        exact (hall f hf).2.1.1 hname
    · rintro ⟨heq, hall, hnodup⟩
      cases fields with
      | nil => cases heq
      | cons f fields =>
        obtain ⟨name, w⟩ := f
        rw [Yaml.textEntries_cons, List.cons.injEq, Prod.mk.injEq] at heq
        obtain ⟨⟨rfl, rfl⟩, rfl⟩ := heq
        obtain ⟨⟨hknown, hseen, hcheck⟩, hall⟩ := List.forall_mem_cons.mp hall
        rw [List.map_cons, List.nodup_cons] at hnodup
        have hfields : readFields known check (name :: seen) (textEntries fields) = .ok fields := by
          refine (ih hrest).mpr ⟨rfl, fun f hf => ?_, hnodup.2⟩
          obtain ⟨hf1, hf2, hf3⟩ := hall f hf
          refine ⟨hf1, ?_, hf3⟩
          rw [List.mem_cons, not_or]
          exact ⟨fun hname => hnodup.1 (List.mem_map.mpr ⟨f, hf, hname⟩), hf2⟩
        have hkey : readKey (.string name) = .ok name := (readKey_eq_ok_iff hk).mpr rfl
        simp [hkey, hknown, hseen, hcheck, hfields, Except.map]

/-- The values that are read as records of known fields: records, and null for no fields. -/
theorem readRecord_eq_ok_iff {record : String} {v : Value} (hv : holdsTag v = false) :
    readRecord record known check v = .ok fields ↔
      (IsRecord known fields v ∨ v = .null ∧ fields = []) ∧
        ∀ f ∈ fields, check f.1 f.2 = .ok () := by
  rw [readRecord, untag_of_holdsTag hv]
  cases v with
  | mapping entries =>
    simp only [holdsTag] at hv
    simp only [readFields_eq_ok_iff hv]
    constructor
    · rintro ⟨rfl, hall, hnodup⟩
      exact ⟨.inl ⟨rfl, fun f hf => (hall f hf).1, hnodup⟩, fun f hf => (hall f hf).2.2⟩
    · rintro ⟨⟨hentries, hknown, hnodup⟩ | ⟨hnull, -⟩, hcheck⟩
      · exact ⟨Value.mapping.inj hentries,
          fun f hf => ⟨hknown f hf, List.not_mem_nil, hcheck f hf⟩, hnodup⟩
      · cases hnull
  | null =>
    constructor
    · intro h
      cases h
      exact ⟨.inr ⟨rfl, rfl⟩, nofun⟩
    · rintro ⟨⟨hentries, -, -⟩ | ⟨-, rfl⟩, -⟩
      · cases hentries
      · rfl
  | _ =>
    refine iff_of_false nofun ?_
    rintro ⟨⟨hentries, -, -⟩ | ⟨hnull, -⟩, -⟩
    · cases hentries
    · cases hnull

theorem field?_eq_none_iff : field? fields name = none ↔ ∀ v, (name, v) ∉ fields := by
  simp only [field?, Option.map_eq_none_iff, List.find?_eq_none, beq_iff_eq]
  grind

theorem field?_eq_some_iff (hnodup : (fields.map Prod.fst).Nodup) {v : Value} :
    field? fields name = some v ↔ (name, v) ∈ fields := by
  induction fields with
  | nil => simp [field?]
  | cons f fields ih =>
    rw [List.map_cons, List.nodup_cons] at hnodup
    have ih := ih hnodup.2
    obtain ⟨other, w⟩ := f
    simp only [field?] at ih
    by_cases hname : other = name
    · subst hname
      have hno : (other, v) ∉ fields := fun h => hnodup.1 (List.mem_map.mpr ⟨_, h, rfl⟩)
      simp [field?, hno, eq_comm]
    · simp [field?, hname, Ne.symm hname, ih]

theorem textField_eq_ok_iff (hnodup : (fields.map Prod.fst).Nodup)
    (htags : ∀ f ∈ fields, holdsTag f.2 = false) {s : String} :
    textField fields name = .ok s ↔ (name, .string s) ∈ fields := by
  rw [textField, ← field?_eq_some_iff hnodup]
  split
  · rename_i v hv
    have hmem := (field?_eq_some_iff hnodup).mp hv
    rw [readText_eq_ok_iff (htags _ hmem), hv, Option.some.injEq]
  · rename_i hnone
    simp [hnone]

/-- What is read of a field that may be absent. -/
def optionalField {α : Type} (read : Value → Except ShapeError (Option α))
    (fields : List (String × Value)) (name : String) : Except ShapeError (Option α) :=
  match field? fields name with
  | some v => read v
  | none => .ok none

theorem optionalField_eq_ok_iff {α : Type} {stands : String → α → Prop}
    {read : Value → Except ShapeError (Option α)} (hread : ReadsOptionally stands read)
    (hnodup : (fields.map Prod.fst).Nodup) (htags : ∀ f ∈ fields, holdsTag f.2 = false)
    {o : Option α} :
    optionalField read fields name = .ok o ↔ Optionally stands fields name o := by
  unfold optionalField
  split
  · rename_i v hv
    have hmem := (field?_eq_some_iff hnodup).mp hv
    rw [hread v o (htags _ hmem)]
    constructor
    · rintro (⟨rfl, rfl⟩ | ⟨s, a, rfl, ha, rfl⟩)
      · exact .null hmem
      · exact .given hmem ha
    · intro h
      -- No other value stands under the name.
      have hunique {w : Value} (hw : (name, w) ∈ fields) : v = w := by
        rw [← field?_eq_some_iff hnodup, hv] at hw
        exact Option.some.inj hw
      cases h with
      | absent hno => exact absurd hmem (hno v)
      | null hnull => exact .inl ⟨hunique hnull, rfl⟩
      | given hs ha => exact .inr ⟨_, _, hunique hs, ha, rfl⟩
  · rename_i hnone
    have hno := field?_eq_none_iff.mp hnone
    constructor
    · intro h
      cases h
      exact .absent hno
    · intro h
      cases h with
      | absent => rfl
      | null hnull => exact absurd hnull (hno _)
      | given hs => exact absurd hs (hno _)

theorem IsRecord.untagged {v : Value} (h : IsRecord known fields v) (hv : holdsTag v = false) :
    ∀ f ∈ fields, holdsTag f.2 = false := by
  rw [h.entries, holdsTag] at hv
  exact entriesHoldTag_textEntries.mp hv

/-- No two values stand under one name. -/
theorem IsRecord.unique {v w w' : Value} (h : IsRecord known fields v) (hw : (name, w) ∈ fields)
    (hw' : (name, w') ∈ fields) : w = w' := by
  rw [← field?_eq_some_iff h.nodup] at hw hw'
  exact Option.some.inj (hw.symm.trans hw')

/-- A record with a field that must be there is never null. -/
theorem readRecord_textField_eq_ok_iff {record : String} {v : Value} (hv : holdsTag v = false)
    {s : String} :
    readRecord record known check v = .ok fields ∧ textField fields name = .ok s ↔
      IsRecord known fields v ∧ (∀ f ∈ fields, check f.1 f.2 = .ok ()) ∧
        (name, .string s) ∈ fields := by
  rw [readRecord_eq_ok_iff hv]
  constructor
  · rintro ⟨⟨hrecord | ⟨-, rfl⟩, hcheck⟩, hfield⟩
    · exact ⟨hrecord, hcheck, (textField_eq_ok_iff hrecord.nodup (hrecord.untagged hv)).mp hfield⟩
    · cases hfield
  · rintro ⟨hrecord, hcheck, hfield⟩
    exact ⟨⟨.inl hrecord, hcheck⟩,
      (textField_eq_ok_iff hrecord.nodup (hrecord.untagged hv)).mpr hfield⟩

end Fields

end Params

end GameInstaller
