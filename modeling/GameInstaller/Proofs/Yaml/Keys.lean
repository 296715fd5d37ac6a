import GameInstaller.Yaml.Reader

/-!
# Keys of mappings

Mappings with text keys, and mappings without two keys that are the same.  Every mapping that a
document denotes is of the second kind, so a text is the key of at most one of its entries.

* `textEntries`    entries with texts as keys
* `DistinctKeys`   a value has no two keys that are the same, if it is a mapping

## Key results

- `ofText?_distinctKeys`: the value of a document has no two keys that are the same
- `mem_unique`: a text is the key of at most one entry
-/

namespace GameInstaller.Yaml

/-- Entries with texts as keys. -/
def textEntries (fields : List (String × Value)) : List (Value × Value) :=
  fields.map fun (key, v) => (.string key, v)

@[simp] theorem textEntries_nil : textEntries [] = [] := rfl

@[simp] theorem textEntries_cons (key : String) (v : Value) (fields : List (String × Value)) :
    textEntries ((key, v) :: fields) = (.string key, v) :: textEntries fields := rfl

@[simp] theorem textEntries_append (fields more : List (String × Value)) :
    textEntries (fields ++ more) = textEntries fields ++ textEntries more := List.map_append

theorem mem_textEntries {fields : List (String × Value)} {key : String} {v : Value} :
    (.string key, v) ∈ textEntries fields ↔ (key, v) ∈ fields := by
  simp [textEntries]

theorem textEntries_inj {fields more : List (String × Value)} :
    textEntries fields = textEntries more ↔ fields = more := by
  refine List.map_inj_right fun e e' h => ?_
  obtain ⟨hkey, hv⟩ := Prod.mk.inj h
  exact Prod.ext (Value.string.inj hkey) hv

/-- Entries that all have texts as keys. -/
theorem exists_textEntries {entries : List (Value × Value)}
    (h : ∀ e ∈ entries, ∃ key, e.1 = .string key) : ∃ fields, entries = textEntries fields := by
  induction entries with
  | nil => exact ⟨[], rfl⟩
  | cons e rest ih =>
    obtain ⟨key, hkey⟩ := h e List.mem_cons_self
    obtain ⟨fields, rfl⟩ := ih fun e' he' => h e' (List.mem_cons_of_mem _ he')
    exact ⟨(key, e.2) :: fields, by simp [← hkey]⟩

namespace Value

/-- The value has no two keys that are the same, if it is a mapping. -/
def DistinctKeys : Value → Prop
  | mapping entries => entries.Pairwise fun e e' => e'.1.same e.1 = false
  | _ => True

@[simp] theorem same_string (k : String) : (string k).same (.string k) = true := by
  simp [same]

/-- A text is the key of at most one entry. -/
theorem DistinctKeys.mem_unique {before after : List (Value × Value)} {key : String} {v w : Value}
    (h : (mapping (before ++ (.string key, v) :: after)).DistinctKeys) :
    (.string key, w) ∉ before ∧ (.string key, w) ∉ after := by
  obtain ⟨-, hafter, hbefore⟩ := List.pairwise_append.mp h
  constructor
  · intro hmem
    simpa using hbefore _ hmem _ List.mem_cons_self
  · intro hmem
    simpa using (List.pairwise_cons.mp hafter).1 _ hmem

/-! ## Looking keys up -/

theorem mem_of_get? {entries : List (Value × Value)} {key : String} {v : Value}
    (h : get? entries key = some v) : (.string key, v) ∈ entries := by
  fun_induction get? entries key with
  | case1 => cases h
  | case2 v rest =>
    obtain rfl := Option.some.inj h
    exact List.mem_cons_self
  | case3 k v rest hk ih => exact List.mem_cons_of_mem _ (ih h)
  | case4 e rest he ih => exact List.mem_cons_of_mem _ (ih h)

theorem get?_eq_none_iff {entries : List (Value × Value)} {key : String} :
    get? entries key = none ↔ ∀ v, (.string key, v) ∉ entries := by
  fun_induction get? entries key with
  | case1 => simp
  | case2 v rest => exact ⟨nofun, fun h => absurd List.mem_cons_self (h v)⟩
  | case3 k v rest hk ih => simp [ih, Ne.symm hk]
  | case4 e rest he ih =>
    refine ih.trans ⟨fun h v hmem => ?_, fun h v hmem => h v (List.mem_cons_of_mem _ hmem)⟩
    rcases List.mem_cons.mp hmem with rfl | hmem
    · exact he key v rfl
    · exact h v hmem

/-- The first entry with the key decides. -/
theorem get?_at {front : List (String × Value)} {key : String} (h : ∀ e ∈ front, e.1 ≠ key)
    (v : Value) (rest : List (Value × Value)) :
    get? (textEntries front ++ (.string key, v) :: rest) key = some v := by
  induction front with
  | nil => simp [get?]
  | cons e front ih =>
    obtain ⟨hne, hfront⟩ := List.forall_mem_cons.mp h
    obtain ⟨k, w⟩ := e
    rw [textEntries_cons, List.cons_append, get?, if_neg hne, ih hfront]

/-- Of distinct keys each leads to its value. -/
theorem DistinctKeys.get?_of_mem {entries : List (Value × Value)} {key : String} {v : Value}
    (hd : (mapping entries).DistinctKeys) (h : (.string key, v) ∈ entries) :
    get? entries key = some v := by
  cases hg : get? entries key with
  | none => exact absurd h (get?_eq_none_iff.mp hg v)
  | some w =>
    obtain ⟨before, after, rfl⟩ := List.append_of_mem h
    obtain ⟨hbefore, hafter⟩ := hd.mem_unique (w := w)
    have hw := mem_of_get? hg
    rw [List.mem_append, List.mem_cons, Prod.mk.injEq] at hw
    rcases hw with hw | ⟨-, rfl⟩ | hw
    · exact absurd hw hbefore
    · rfl
    · exact absurd hw hafter

end Value

/-! ## Documents -/

namespace Document

/-- The reader lets a mapping pass when its keys are distinct. -/
theorem distinctKeys_iff {seen entries : List (Value × Value)} :
    distinctKeys seen entries = true ↔
      (∀ e ∈ entries, ∀ s ∈ seen, e.1.same s.1 = false) ∧
        (Value.mapping entries).DistinctKeys := by
  induction entries generalizing seen with
  | nil => simp [distinctKeys, Value.DistinctKeys]
  | cons e rest ih =>
    obtain ⟨k, v⟩ := e
    rw [distinctKeys, Bool.and_eq_true, ih]
    simp only [Value.DistinctKeys, List.pairwise_cons, List.forall_mem_cons, Bool.not_eq_true',
      List.any_eq_false]
    grind

theorem wrap_distinctKeys (tag : Option (List Char)) {v : Value} (h : v.DistinctKeys) :
    (wrap tag v).DistinctKeys := by
  unfold wrap
  split
  · trivial
  · exact h

theorem distinctKeys_of_map {α : Type} {f : α → Value} {o : Option α} {v : Value}
    (h : o.map f = some v) (hf : ∀ a, (f a).DistinctKeys) : v.DistinctKeys := by
  obtain ⟨a, -, rfl⟩ := Option.map_eq_some_iff.mp h
  exact hf a

/-- A plain scalar is no mapping. -/
theorem plain_distinctKeys {text : List Char} {v : Value} (h : Plain.value? text = some v) :
    v.DistinctKeys := by
  unfold Plain.value? at h
  dsimp only at h
  split at h
  · cases h; trivial
  split at h
  · cases h; trivial
  split at h
  · exact distinctKeys_of_map h fun _ => trivial
  split at h <;> (cases h; trivial)

/-- A scalar is no mapping. -/
theorem scalarValue_distinctKeys {tag : Option (List Char)} {plain : Bool} {text : List Char}
    {v : Value} (h : scalarValue tag plain text = some v) : v.DistinctKeys := by
  unfold scalarValue at h
  dsimp only at h
  split at h
  · exact distinctKeys_of_map h fun _ => trivial
  -- What is left is a scalar without tag, and one case for each core tag.
  split at h
  · unfold untagged at h
    split at h
    · exact plain_distinctKeys h
    · cases h; trivial
  split at h
  · exact distinctKeys_of_map h fun _ => trivial
  split at h
  · obtain ⟨n, -, hn⟩ := Option.bind_eq_some_iff.mp h
    exact distinctKeys_of_map hn fun _ => trivial
  split at h
  · exact distinctKeys_of_map h fun _ => trivial
  split at h
  · split at h <;> (cases h; try trivial)
  · cases h; trivial

/-- What is read of a node has no two keys that are the same. -/
theorem value_distinctKeys {d : Document} {depth jumps jumps' : Nat} {n : Node} {v : Value}
    (h : d.value depth n jumps = some (v, jumps')) : v.DistinctKeys := by
  unfold value at h
  dsimp only at h
  split at h
  · cases h
  split at h
  · cases h
  · obtain ⟨w, hw, hv⟩ := Option.map_eq_some_iff.mp h
    obtain rfl := congrArg Prod.fst hv
    exact scalarValue_distinctKeys hw
  · split at h
    · cases h
    · obtain ⟨read, -, hv⟩ := Option.map_eq_some_iff.mp h
      obtain rfl := congrArg Prod.fst hv
      exact wrap_distinctKeys _ trivial
  · split at h
    · cases h
    split at h
    · cases h
    split at h
    · cases h
      exact wrap_distinctKeys _ (distinctKeys_iff.mp ‹_›).2
    · cases h

end Document

/-- The value of a document has no two keys that are the same. -/
theorem Value.ofText?_distinctKeys {text : List Char} {v : Value}
    (h : Value.ofText? text = some v) : v.DistinctKeys := by
  unfold Value.ofText? at h
  split at h
  · cases h
  · rename_i d _
    split at h
    · cases h
      trivial
    · rename_i n _
      obtain ⟨⟨w, jumps⟩, hw, rfl⟩ := Option.map_eq_some_iff.mp h
      exact Document.value_distinctKeys hw

end GameInstaller.Yaml
