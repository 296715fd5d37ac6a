import GameInstaller.Yaml.Node
import GameInstaller.Yaml.Reader
import Mathlib.Data.List.Forall2

/-!
# Values of block collections

A token is read as a scalar, and the tokens of the members of a block collection, between those that
open and close it, as the collection.  A node without aliases and tags has the same value in every
document, and no alias is followed for it: that of its scalar, or that of its members.  When one member
has no value, the whole has none.

* `Node.WrittenBy`  tokens that are read as a node
* `Node.Has`        the value that a node has, if any, where so many collections may open
* `Token.Denotes`   the value that tokens write, if any

## Key results

- `Node.writtenBy_scalar`, `Node.writtenBy_sequence`, `Node.writtenBy_mapping`: how nodes are written
- `Document.ofTokens?_of_writtenBy`: a document of one node
- `Token.denotes_plain`, `Token.denotes_quoted`, `Token.denotes_sequence`, `Token.denotes_mapping`: what
  tokens write
- `Value.ofText?_of_denotes`: the value of a text
-/

/-! ## Trees -/

namespace GameInstaller.Yaml

open Document Document.Reader

/-- Whether a token starts a node that is neither left out nor a sequence without a start. -/
def Token.opensNode : Token → Bool
  | .scalar .. => true
  | .blockSequence => true
  | .blockMapping => true
  | _ => false

theorem endsBlockValue_of_opensNode {t : Token} (h : t.opensNode = true) :
    endsBlockValue t = false := by
  cases t <;> first | rfl | cases h

/-- The tokens of items that are written with these tokens each. -/
def Token.ofItems (tss : List (List Token)) : List Token := tss.flatMap (.blockEntry :: ·)

/-- The tokens of entries whose keys and values are written with these tokens. -/
def Token.ofEntries (tss : List (List Token × List Token)) : List Token :=
  tss.flatMap fun ts => .key :: ts.1 ++ .value :: ts.2

@[simp] theorem Token.ofItems_cons (ts : List Token) (tss : List (List Token)) :
    Token.ofItems (ts :: tss) = .blockEntry :: (ts ++ Token.ofItems tss) := rfl

@[simp] theorem Token.ofEntries_cons (ks vs : List Token) (tss : List (List Token × List Token)) :
    Token.ofEntries ((ks, vs) :: tss) = .key :: (ks ++ .value :: (vs ++ Token.ofEntries tss)) := by
  simp [ofEntries]

/-- Tokens that are read as a node where block collections may stand. -/
structure Node.WrittenBy (n : Node) (ts : List Token) : Prop where
  opens : ∃ t rest, ts = t :: rest ∧ t.opensNode = true
  /-- Reading them takes no more fuel than there are tokens, and counts the parts of the node. -/
  read : ∃ parts, ∀ (flat : Bool) (fuel : Nat) (r : Reader) (rest : List Token), ts.length < fuel →
    r.tokens = ts ++ rest →
      node fuel true flat r = some (n, { r with tokens := rest, size := r.size + parts })

namespace Node

theorem writtenBy_scalar (plain : Bool) (text : List Char) :
    WrittenBy (.scalar none plain text) [.scalar plain text] := by
  refine ⟨⟨_, _, rfl, rfl⟩, 1, fun flat fuel r rest hfuel hr => ?_⟩
  obtain ⟨fuel, rfl⟩ := Nat.exists_eq_add_of_le' (show 1 ≤ fuel by omega)
  obtain ⟨tokens, handles, names, anchored, size⟩ := r
  obtain rfl : tokens = .scalar plain text :: rest := hr
  simp [node, peek, properties, keep, drop, count]

/-- Items are read one after another, up to the end of the sequence. -/
theorem blockItems_writtenBy {tss : List (List Token)} {items : List Node}
    (h : List.Forall₂ WrittenBy items tss) : ∃ parts, ∀ (acc : List Node) (fuel : Nat) (r : Reader)
      (rest : List Token), (Token.ofItems tss).length + 1 < fuel →
      r.tokens = Token.ofItems tss ++ .blockEnd :: rest →
        blockItems fuel none acc r = some (.sequence none (acc.reverse ++ items),
          { r with tokens := rest, size := r.size + parts }) := by
  induction h with
  | nil =>
    refine ⟨0, fun acc fuel r rest hfuel hr => ?_⟩
    obtain ⟨fuel, rfl⟩ := Nat.exists_eq_add_of_le' (show 1 ≤ fuel by omega)
    obtain ⟨tokens, handles, names, anchored, size⟩ := r
    obtain rfl : tokens = .blockEnd :: rest := hr
    simp [blockItems, peek, drop]
  | @cons item ts items tss hitem _ ih =>
    obtain ⟨⟨t, ts, rfl, ht⟩, parts, hitem⟩ := hitem
    obtain ⟨parts', hitems⟩ := ih
    refine ⟨parts + parts', fun acc fuel r rest hfuel hr => ?_⟩
    simp only [Token.ofItems_cons, List.length_append, List.length_cons] at hfuel
    obtain ⟨fuel, rfl⟩ := Nat.exists_eq_add_of_le' (show 1 ≤ fuel by omega)
    obtain ⟨tokens, handles, names, anchored, size⟩ := r
    obtain rfl : tokens = .blockEntry :: (t :: ts ++
      (Token.ofItems tss ++ .blockEnd :: rest)) := by simpa using hr
    have hread := hitem false fuel ⟨t :: ts ++ (Token.ofItems tss ++ .blockEnd :: rest),
      handles, names, anchored, size⟩ _ (by simp only [List.length_cons]; omega) rfl
    have hrest := hitems (item :: acc) fuel ⟨Token.ofItems tss ++ .blockEnd :: rest,
      handles, names, anchored, size + parts⟩ rest (by omega) rfl
    -- The next token opens a node, so the entry is not an empty one.
    rw [blockItems]
    simp only [peek, drop, List.headD_cons, List.tail_cons, List.cons_append] at hread ⊢
    rw [hread]
    cases t <;> simp_all [Token.opensNode, Nat.add_assoc]

/-- Entries are read one after another, up to the end of the mapping. -/
theorem blockEntries_writtenBy {tss : List (List Token × List Token)} {entries : List (Node × Node)}
    (h : List.Forall₂ (fun e ts => WrittenBy e.1 ts.1 ∧ WrittenBy e.2 ts.2) entries tss) :
    ∃ parts, ∀ (acc : List (Node × Node)) (fuel : Nat) (r : Reader) (rest : List Token),
      (Token.ofEntries tss).length + 1 < fuel →
      r.tokens = Token.ofEntries tss ++ .blockEnd :: rest →
        blockEntries fuel none acc r = some (.mapping none (acc.reverse ++ entries),
          { r with tokens := rest, size := r.size + parts }) := by
  induction h with
  | nil =>
    refine ⟨0, fun acc fuel r rest hfuel hr => ?_⟩
    obtain ⟨fuel, rfl⟩ := Nat.exists_eq_add_of_le' (show 1 ≤ fuel by omega)
    obtain ⟨tokens, handles, names, anchored, size⟩ := r
    obtain rfl : tokens = .blockEnd :: rest := hr
    simp [blockEntries, peek, drop]
  | @cons entry ts entries tss hentry _ ih =>
    obtain ⟨key, value⟩ := entry
    obtain ⟨ks, vs⟩ := ts
    obtain ⟨⟨⟨t, ks, rfl, ht⟩, parts, hkey⟩, ⟨t', vs, rfl, ht'⟩, parts', hvalue⟩ := hentry
    obtain ⟨parts'', hentries⟩ := ih
    refine ⟨parts + parts' + parts'', fun acc fuel r rest hfuel hr => ?_⟩
    simp only [Token.ofEntries_cons, List.length_append, List.length_cons] at hfuel
    obtain ⟨fuel, rfl⟩ := Nat.exists_eq_add_of_le' (show 1 ≤ fuel by omega)
    obtain ⟨tokens, handles, names, anchored, size⟩ := r
    let behind := Token.ofEntries tss ++ .blockEnd :: rest
    obtain rfl : tokens = .key :: (t :: ks ++ .value :: (t' :: vs ++ behind)) := by
      simpa [behind] using hr
    have hreadKey := hkey true fuel ⟨t :: ks ++ .value :: (t' :: vs ++ behind), handles, names,
      anchored, size⟩ _ (by simp only [List.length_cons]; omega) rfl
    have hreadValue := hvalue true fuel ⟨t' :: vs ++ behind, handles, names, anchored, size + parts⟩ _
      (by simp only [List.length_cons]; omega) rfl
    have hrest := hentries ((key, value) :: acc) fuel
      ⟨behind, handles, names, anchored, size + parts + parts'⟩ rest (by omega) rfl
    simp only [List.cons_append] at hreadKey hreadValue ⊢
    simp [blockEntries, peek, drop, endsBlockValue_of_opensNode ht, endsBlockValue_of_opensNode ht',
      hreadKey, hreadValue]
    simpa [Nat.add_assoc] using hrest

theorem writtenBy_sequence {tss : List (List Token)} {items : List Node}
    (h : List.Forall₂ WrittenBy items tss) : WrittenBy (.sequence none items)
      (.blockSequence :: (Token.ofItems tss ++ [.blockEnd])) := by
  obtain ⟨parts, hitems⟩ := blockItems_writtenBy h
  refine ⟨⟨_, _, rfl, rfl⟩, 2 + parts, fun flat fuel r rest hfuel hr => ?_⟩
  simp only [List.length_cons, List.length_append, List.length_nil] at hfuel
  obtain ⟨fuel, rfl⟩ := Nat.exists_eq_add_of_le' (show 1 ≤ fuel by omega)
  obtain ⟨tokens, handles, names, anchored, size⟩ := r
  obtain rfl : tokens = .blockSequence :: (Token.ofItems tss ++ .blockEnd :: rest) := by
    simpa using hr
  have hread := hitems [] fuel ⟨Token.ofItems tss ++ .blockEnd :: rest, handles, names,
    anchored, size + 2⟩ rest (by omega) rfl
  simp [node, peek, properties, keep, drop, count, hread, Nat.add_assoc]

theorem writtenBy_mapping {tss : List (List Token × List Token)} {entries : List (Node × Node)}
    (h : List.Forall₂ (fun e ts => WrittenBy e.1 ts.1 ∧ WrittenBy e.2 ts.2) entries tss) :
    WrittenBy (.mapping none entries)
      (.blockMapping :: (Token.ofEntries tss ++ [.blockEnd])) := by
  obtain ⟨parts, hentries⟩ := blockEntries_writtenBy h
  refine ⟨⟨_, _, rfl, rfl⟩, 2 + parts, fun flat fuel r rest hfuel hr => ?_⟩
  simp only [List.length_cons, List.length_append, List.length_nil] at hfuel
  obtain ⟨fuel, rfl⟩ := Nat.exists_eq_add_of_le' (show 1 ≤ fuel by omega)
  obtain ⟨tokens, handles, names, anchored, size⟩ := r
  obtain rfl : tokens = .blockMapping :: (Token.ofEntries tss ++
    .blockEnd :: rest) := by simpa using hr
  have hread := hentries [] fuel ⟨Token.ofEntries tss ++
    .blockEnd :: rest, handles, names, anchored, size + 2⟩ rest (by omega) rfl
  simp [node, peek, properties, keep, drop, count, hread, Nat.add_assoc]

end Node

/-- The document of a node, and nothing else. -/
theorem Document.ofTokens?_of_writtenBy {n : Node} {ts : List Token} (h : n.WrittenBy ts) :
    ∃ size, ofTokens? (ts ++ [Token.streamEnd]) = some ⟨some n, [], size⟩ := by
  obtain ⟨⟨t, rest, rfl, ht⟩, parts, hread⟩ := h
  -- The fuel of a document is more than four times its tokens.
  have hnode := hread false (4 * (t :: rest ++ [Token.streamEnd]).length + 4)
    ⟨t :: rest ++ [Token.streamEnd], defaultHandles, [], [], 0⟩ [.streamEnd] (by simp; omega) rfl
  refine ⟨parts, ?_⟩
  simp only [List.cons_append] at hnode ⊢
  cases t <;> simp_all [Token.opensNode, ofTokens?, directives, content, atStreamEnd]

end GameInstaller.Yaml

/-! ## Values -/

namespace GameInstaller.Yaml

open Document (readAll distinctKeys untagged)

/-- The value of a node, if it has one, in every document, and without an alias being followed. -/
def Node.Has (depth : Nat) (n : Node) (v : Option Value) : Prop :=
  ∀ (d : Document) (jumps : Nat), d.value depth n jumps = v.map fun v => (v, jumps)

/-- Members are read one after another, up to the first that has no value. -/
theorem Document.readAll_eq {α β : Type} {f : α → Nat → Reading β} {members : List α}
    {values : List (Option β)}
    (h : List.Forall₂ (fun a b => ∀ jumps, f a jumps = b.map fun b => (b, jumps)) members values)
    (jumps : Nat) : readAll f members jumps = (values.mapM id).map fun bs => (bs, jumps) := by
  induction h with
  | nil => rfl
  | @cons a b members values ha _ ih =>
    rw [readAll, ha, List.mapM_cons]
    cases b with
    | none => rfl
    | some b =>
      simp only [Option.map_some, ih]
      cases values.mapM id <;> rfl

namespace Node

variable {depth : Nat}

theorem has_scalar (plain : Bool) (text : List Char) :
    Has depth (.scalar none plain text) (untagged plain text) := by
  intro d jumps
  rw [Document.value]
  rfl

theorem has_sequence {items : List Node} {values : List (Option Value)}
    (h : List.Forall₂ (Has depth) items values) :
    Has (depth + 1) (.sequence none items) ((values.mapM id).map .sequence) := by
  intro d jumps
  have hitems := Document.readAll_eq (h.imp fun n v hn => hn d) jumps
  rw [Document.value]
  simp only [hitems]
  cases values.mapM id <;> rfl

/-- The value of an entry, when both parts have one. -/
def pair? : Option Value × Option Value → Option (Value × Value)
  | (some k, some v) => some (k, v)
  | _ => none

theorem has_mapping {entries : List (Node × Node)} {values : List (Option Value × Option Value)}
    (h : List.Forall₂ (fun e v => Has depth e.1 v.1 ∧ Has depth e.2 v.2) entries values) :
    Has (depth + 1) (.mapping none entries)
      ((values.mapM pair?).bind fun es => if distinctKeys [] es then some (.mapping es) else none) := by
  intro d jumps
  have hentries (f : Node × Node → Nat → Document.Reading (Value × Value))
      (hf : ∀ (e : Node × Node) (v : Option Value × Option Value),
        Has depth e.1 v.1 ∧ Has depth e.2 v.2 →
          ∀ jumps, f e jumps = (pair? v).map fun p => (p, jumps)) :
      readAll f entries jumps = (values.mapM pair?).map fun es => (es, jumps) := by
    rw [Document.readAll_eq ((List.forall₂_map_right_iff (f := pair?)).mpr (h.imp hf)),
      List.mapM_map]
    rfl
  rw [Document.value]
  dsimp only
  rw [hentries]
  case hf =>
    -- Key and value of an entry are read in turn, so that a missing key ends it.
    rintro e ⟨k, v⟩ he jumps
    simp only [he.1 d jumps]
    cases k with
    | none => cases v <;> rfl
    | some k =>
      simp only [Option.map_some, he.2 d jumps]
      cases v <;> rfl
  cases values.mapM pair? with
  | none => rfl
  | some es =>
    simp only [Option.map_some, Option.bind_some]
    cases distinctKeys [] es <;> rfl

end Node

/-- The value that tokens write, if they write one, where so many collections may open. -/
def Token.Denotes (depth : Nat) (ts : List Token) (v : Option Value) : Prop :=
  ∃ n : Node, n.WrittenBy ts ∧ n.Has depth v

namespace Token

variable {depth : Nat}

theorem denotes_plain (text : List Char) :
    Denotes depth [.scalar true text] (Plain.value? text) :=
  ⟨_, Node.writtenBy_scalar true text, Node.has_scalar true text⟩

theorem denotes_quoted (text : List Char) :
    Denotes depth [.scalar false text] (some (.string (String.ofList text))) :=
  ⟨_, Node.writtenBy_scalar false text, Node.has_scalar false text⟩

theorem denotes_sequence {tss : List (List Token)} {values : List (Option Value)}
    (h : List.Forall₂ (Denotes depth) tss values) :
    Denotes (depth + 1) (.blockSequence :: (ofItems tss ++ [.blockEnd]))
      ((values.mapM id).map .sequence) := by
  obtain ⟨items, hwritten, hhas⟩ : ∃ items : List Node,
      List.Forall₂ Node.WrittenBy items tss ∧ List.Forall₂ (Node.Has depth) items values := by
    induction h with
    | nil => exact ⟨[], .nil, .nil⟩
    | cons hitem _ ih =>
      obtain ⟨item, hwritten, hhas⟩ := hitem
      obtain ⟨items, hwritten', hhas'⟩ := ih
      exact ⟨item :: items, .cons hwritten hwritten', .cons hhas hhas'⟩
  exact ⟨_, Node.writtenBy_sequence hwritten, Node.has_sequence hhas⟩

/-- A sequence whose items all have a value. -/
theorem denotes_items {tss : List (List Token)} {items : List Value}
    (h : List.Forall₂ (fun ts v => Denotes depth ts (some v)) tss items) :
    Denotes (depth + 1) (.blockSequence :: (ofItems tss ++ [.blockEnd]))
      (some (.sequence items)) := by
  have hall : (items.map some).mapM id = some items := by
    rw [List.mapM_map]
    exact (List.mapM_pure (m := Option)).trans (congrArg some (List.map_id items))
  have hsequence := denotes_sequence (List.forall₂_map_right_iff.mpr h)
  rwa [hall] at hsequence

/-- The values that the tokens of entries write. -/
inductive DenoteEntries (depth : Nat) :
    List (List Token × List Token) → List (Option Value × Option Value) → Prop
  | nil : DenoteEntries depth [] []
  | cons {ks vs : List Token} {k v : Option Value} {tss : List (List Token × List Token)}
      {values : List (Option Value × Option Value)} (key : Denotes depth ks k)
      (value : Denotes depth vs v) (rest : DenoteEntries depth tss values) :
      DenoteEntries depth ((ks, vs) :: tss) ((k, v) :: values)

variable {tss : List (List Token × List Token)} {values : List (Option Value × Option Value)}

theorem denotes_mapping (h : DenoteEntries depth tss values) :
    Denotes (depth + 1) (.blockMapping :: (ofEntries tss ++ [.blockEnd]))
      ((values.mapM Node.pair?).bind fun es =>
        if distinctKeys [] es then some (.mapping es) else none) := by
  obtain ⟨entries, hwritten, hhas⟩ : ∃ entries : List (Node × Node),
      List.Forall₂ (fun e ts => Node.WrittenBy e.1 ts.1 ∧ Node.WrittenBy e.2 ts.2) entries tss ∧
      List.Forall₂ (fun e v => Node.Has depth e.1 v.1 ∧ Node.Has depth e.2 v.2) entries values := by
    induction h with
    | nil => exact ⟨[], .nil, .nil⟩
    | cons key value _ ih =>
      obtain ⟨k, hkwritten, hkhas⟩ := key
      obtain ⟨v, hvwritten, hvhas⟩ := value
      obtain ⟨entries, hwritten, hhas⟩ := ih
      exact ⟨(k, v) :: entries, .cons ⟨hkwritten, hvwritten⟩ hwritten, .cons ⟨hkhas, hvhas⟩ hhas⟩
  exact ⟨_, Node.writtenBy_mapping hwritten, Node.has_mapping hhas⟩

/-- A mapping whose keys and values all have a value. -/
theorem denotes_entries {es : List (Value × Value)} (h : DenoteEntries depth tss values)
    (hall : values.mapM Node.pair? = some es) (hkeys : distinctKeys [] es = true) :
    Denotes (depth + 1) (.blockMapping :: (ofEntries tss ++ [.blockEnd])) (some (.mapping es)) := by
  have hmapping := denotes_mapping h
  rwa [hall, Option.bind_some, if_pos hkeys] at hmapping

end Token

/-- The value of a text with these tokens. -/
theorem Value.ofText?_of_denotes {text : List Char} {ts : List Token} {v : Option Value}
    (htokens : Token.ofText text = some (ts ++ [.streamEnd])) (h : Token.Denotes 128 ts v) :
    Value.ofText? text = v := by
  obtain ⟨n, hwritten, hhas⟩ := h
  obtain ⟨size, hdocument⟩ := Document.ofTokens?_of_writtenBy hwritten
  rw [Value.ofText?, Document.ofText?, htokens, Option.bind_some, hdocument]
  simp only [hhas _ _, Option.map_map]
  cases v <;> rfl

end GameInstaller.Yaml
