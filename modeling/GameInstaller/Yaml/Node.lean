import GameInstaller.Yaml.Token

/-! # Nodes of a YAML document

The tree that the tokens of a stream write: scalars, sequences and mappings with their tags, and
aliases that stand for anchored nodes.

An anchor gets the number of distinct anchor names seen before it; the node of a number is the one
that was given it last.

* `Document.ofText?`  the document of a stream that holds at most one -/

namespace GameInstaller.Yaml

/-- A node of a document. -/
inductive Node where
  /-- A scalar; `plain` when it stands without quotes and is no block scalar. -/
  | scalar (tag : Option (List Char)) (plain : Bool) (text : List Char)
  | sequence (tag : Option (List Char)) (items : List Node)
  | mapping (tag : Option (List Char)) (entries : List (Node × Node))
  | alias (anchor : Nat)
  deriving Repr, Inhabited

/-- An anchored node. -/
structure Anchored where
  /-- The number of its anchor. -/
  anchor : Nat
  /-- How many parts of the document stand before it. -/
  place : Nat
  node : Node
  deriving Inhabited

/-- A document: its root, unless the stream is empty, and its anchored nodes. -/
structure Document where
  root : Option Node
  anchored : List Anchored
  /-- How many scalars, aliases and starts and ends of collections the document has. -/
  size : Nat
  deriving Inhabited

namespace Document

/-- The reader of a document: the tokens that are left, and what was declared so far. -/
structure Reader where
  tokens : List Token
  /-- What the tag handles stand for. -/
  handles : List (List Char × List Char)
  /-- The number of each anchor name. -/
  names : List (List Char × Nat)
  anchored : List Anchored
  size : Nat

/-- A part of the document, if the tokens write one. -/
abbrev Part (α : Type) := Option (α × Reader)

namespace Reader

/-- The next token. -/
def peek (r : Reader) : Token := r.tokens.headD .streamEnd

/-- Without the next token. -/
def drop (r : Reader) : Reader := { r with tokens := r.tokens.tail }

/-- Count `n` more parts. -/
def count (r : Reader) (n : Nat) : Reader := { r with size := r.size + n }

/-- A scalar that is not written. -/
def empty (r : Reader) : Part Node := some (.scalar none true [], r.count 1)

/-- Give the next anchor number to a name; the result is that number and the place. -/
def declare (r : Reader) (name : List Char) : (Nat × Nat) × Reader :=
  let n := r.names.length
  ((n, r.size), { r with names := (name, n) :: r.names.filter fun (m, _) => m != name })

/-- Keep a node under its anchor number. -/
def keep (r : Reader) (anchor : Option (Nat × Nat)) (node : Node) : Node × Reader :=
  match anchor with
  | some (n, place) => (node, { r with anchored := ⟨n, place, node⟩ :: r.anchored })
  | none => (node, r)

/-- The whole tag of a handle and suffix. -/
def wholeTag (r : Reader) (handle suffix : List Char) : Option (List Char) :=
  if handle.isEmpty then some suffix
  else (r.handles.find? fun (h, _) => h == handle).map fun (_, stands) => stands ++ suffix

/-- Anchor and tag in front of a node, in either order. -/
def properties (r : Reader) : Part (Option (List Char) × Option (List Char)) :=
  match r.tokens with
  | .anchor a :: .tag h s :: rest =>
    (r.wholeTag h s).map fun t => ((some a, some t), { r with tokens := rest })
  | .tag h s :: .anchor a :: rest =>
    (r.wholeTag h s).map fun t => ((some a, some t), { r with tokens := rest })
  | .anchor a :: rest => some ((some a, none), { r with tokens := rest })
  | .tag h s :: rest => (r.wholeTag h s).map fun t => ((none, some t), { r with tokens := rest })
  | _ => some ((none, none), r)

end Reader

open Reader

/-- Whether a token ends an entry of a block mapping. -/
def endsBlockValue : Token → Bool
  | .key => true
  | .value => true
  | .blockEnd => true
  | _ => false

mutual

/-- A node; `block` when block collections may stand here, `flat` when a sequence may stand at the
    indentation of the mapping it belongs to. -/
def node : Nat → Bool → Bool → Reader → Part Node
  | 0, _, _, _ => none
  | fuel + 1, block, flat, r =>
    match r.peek with
    | .alias name =>
      match r.names.find? fun (m, _) => m == name with
      | some (_, n) => some (.alias n, r.drop.count 1)
      | none => none
    | _ =>
      match r.properties with
      | none => none
      | some ((name, tag), r) =>
        let (anchor, r) : Option (Nat × Nat) × Reader := match name with
          | some a => let (n, r) := r.declare a; (some n, r)
          | none => (none, r)
        let done (p : Part Node) : Part Node := p.map fun (n, r) => r.keep anchor n
        match r.peek with
        | .blockEntry => if flat then done (flatItems fuel tag [] (r.count 2)) else none
        | .scalar plain text =>
          let p : Node := if tag == some ['!'] then .scalar none plain text else .scalar tag plain text
          done (some (p, r.drop.count 1))
        | .flowSequence => done (flowItems fuel tag true [] (r.drop.count 2))
        | .flowMapping => done (flowEntries fuel tag true [] (r.drop.count 2))
        | .blockSequence => if block then done (blockItems fuel tag [] (r.drop.count 2)) else bare fuel name tag anchor r
        | .blockMapping => if block then done (blockEntries fuel tag [] (r.drop.count 2)) else bare fuel name tag anchor r
        | _ => bare fuel name tag anchor r

/-- An anchor or tag with nothing behind it is an empty scalar. -/
def bare : Nat → Option (List Char) → Option (List Char) → Option (Nat × Nat) → Reader → Part Node
  | _, name, tag, anchor, r =>
    if name.isNone && tag.isNone then none
    else some ((r.count 1).keep anchor (.scalar tag true []))

/-- Items of a block sequence. -/
def blockItems : Nat → Option (List Char) → List Node → Reader → Part Node
  | 0, _, _, _ => none
  | fuel + 1, tag, acc, r =>
    match r.peek with
    | .blockEntry =>
      let r := r.drop
      let item := match r.peek with
        | .blockEntry => r.empty
        | .blockEnd => r.empty
        | _ => node fuel true false r
      match item with
      | some (n, r) => blockItems fuel tag (n :: acc) r
      | none => none
    | .blockEnd => some (.sequence tag acc.reverse, r.drop)
    | _ => none

/-- Items of a block sequence at the indentation of its mapping. -/
def flatItems : Nat → Option (List Char) → List Node → Reader → Part Node
  | 0, _, _, _ => none
  | fuel + 1, tag, acc, r =>
    match r.peek with
    | .blockEntry =>
      let r := r.drop
      let item :=
        if r.peek == .blockEntry || endsBlockValue r.peek then r.empty else node fuel true false r
      match item with
      | some (n, r) => flatItems fuel tag (n :: acc) r
      | none => none
    | _ => some (.sequence tag acc.reverse, r)

/-- Entries of a block mapping. -/
def blockEntries : Nat → Option (List Char) → List (Node × Node) → Reader → Part Node
  | 0, _, _, _ => none
  | fuel + 1, tag, acc, r =>
    match r.peek with
    | .key =>
      let r := r.drop
      match if endsBlockValue r.peek then r.empty else node fuel true true r with
      | none => none
      | some (k, r) =>
        let value := match r.peek with
          | .value =>
            let r := r.drop
            if endsBlockValue r.peek then r.empty else node fuel true true r
          | _ => r.empty
        match value with
        | some (v, r) => blockEntries fuel tag ((k, v) :: acc) r
        | none => none
    | .blockEnd => some (.mapping tag acc.reverse, r.drop)
    | _ => none

/-- Items of a flow sequence; an item `key: value` is a mapping of one entry. -/
def flowItems : Nat → Option (List Char) → Bool → List Node → Reader → Part Node
  | 0, _, _, _, _ => none
  | fuel + 1, tag, first, acc, r =>
    let entry : Part Unit := match r.peek with
      | .flowSequenceEnd => some ((), r)
      | .flowEntry => if first then some ((), r) else some ((), r.drop)
      | _ => if first then some ((), r) else none
    match entry with
    | none => none
    | some (_, r) =>
      match r.peek with
      | .flowSequenceEnd => some (.sequence tag acc.reverse, r.drop)
      | .key =>
        match flowPair fuel (r.drop.count 2) with
        | some (n, r) => flowItems fuel tag false (n :: acc) r
        | none => none
      | _ =>
        match node fuel false false r with
        | some (n, r) => flowItems fuel tag false (n :: acc) r
        | none => none

/-- The one entry of a mapping that is an item of a flow sequence. -/
def flowPair : Nat → Reader → Part Node
  | 0, _ => none
  | fuel + 1, r =>
    let stops (t : Token) : Bool := t == .flowEntry || t == .flowSequenceEnd
    let key := if r.peek == .value || stops r.peek then r.drop.empty else node fuel false false r
    match key with
    | none => none
    | some (k, r) =>
      let value :=
        if r.peek == .value then
          (if stops r.drop.peek then r.drop.empty else node fuel false false r.drop)
        else r.empty
      value.map fun (v, r) => (.mapping none [(k, v)], r)

/-- Entries of a flow mapping; a node without a key mark has no value. -/
def flowEntries : Nat → Option (List Char) → Bool → List (Node × Node) → Reader → Part Node
  | 0, _, _, _, _ => none
  | fuel + 1, tag, first, acc, r =>
    let entry : Part Unit := match r.peek with
      | .flowMappingEnd => some ((), r)
      | .flowEntry => if first then some ((), r) else some ((), r.drop)
      | _ => if first then some ((), r) else none
    let stops (t : Token) : Bool := t == .flowEntry || t == .flowMappingEnd
    match entry with
    | none => none
    | some (_, r) =>
      match r.peek with
      | .flowMappingEnd => some (.mapping tag acc.reverse, r.drop)
      | .key =>
        let r := r.drop
        let key := if r.peek == .value || stops r.peek then r.empty else node fuel false false r
        match key with
        | none => none
        | some (k, r) =>
          let value :=
            if r.peek == .value then
              (if stops r.drop.peek then r.drop.empty else node fuel false false r.drop)
            else r.empty
          match value with
          | some (v, r) => flowEntries fuel tag false ((k, v) :: acc) r
          | none => none
      | _ =>
        match node fuel false false r with
        | some (k, r) =>
          match r.empty with
          | some (v, r) => flowEntries fuel tag false ((k, v) :: acc) r
          | none => none
        | none => none

end

/-- The directives in front of a document: at most one version, which is 1.1 or 1.2, and each
    handle once. -/
def directives : List (List Char × List Char) → Bool → List Token →
    Option (List (List Char × List Char) × List Token)
  | handles, versioned, .version major minor :: r =>
    if versioned || major ≠ 1 || (minor ≠ 1 && minor ≠ 2) then none else directives handles true r
  | handles, versioned, .tagHandle h s :: r =>
    if handles.any fun (g, _) => g == h then none else directives ((h, s) :: handles) versioned r
  | handles, _, r => some (handles, r)

/-- What the handles `!` and `!!` stand for unless a directive says otherwise. -/
def defaultHandles : List (List Char × List Char) :=
  [(['!'], ['!']), (['!', '!'], "tag:yaml.org,2002:".toList)]

/-- Whether nothing but document end marks is left. -/
def atStreamEnd : List Token → Bool
  | [.streamEnd] => true
  | .documentEnd :: r => atStreamEnd r
  | _ => false

/-- The document that starts right here. -/
def content (handles : List (List Char × List Char)) (started : Bool) (tokens : List Token) :
    Option Document :=
  let r : Reader := { tokens, handles := handles ++ defaultHandles, names := [], anchored := [], size := 0 }
  let bare := match r.peek with
    | .documentStart => true
    | .documentEnd => true
    | .streamEnd => true
    | .version .. => true
    | .tagHandle .. => true
    | _ => false
  match if started && bare then r.empty else node (4 * tokens.length + 4) true false r with
  | some (root, r) =>
    if atStreamEnd r.tokens then some { root := some root, anchored := r.anchored, size := r.size } else none
  | none => none

/-- The document of a token sequence, if there is at most one. -/
def ofTokens? (tokens : List Token) : Option Document :=
  match directives [] false tokens with
  | none => none
  | some (handles, rest) =>
    match rest with
    | .documentStart :: r => content handles true r
    | [.streamEnd] =>
      if rest.length = tokens.length then some { root := none, anchored := [], size := 1 } else none
    | _ => if rest.length = tokens.length then content handles false rest else none

/-- The node that an anchor number stands for: of those that were given it, the last to start. -/
def anchored? (d : Document) (anchor : Nat) : Option Node :=
  let later (best : Option Anchored) (a : Anchored) : Option Anchored :=
    if a.anchor ≠ anchor then best
    else match best with
      | some b => if b.place < a.place then some a else best
      | none => some a
  (d.anchored.foldl later none).map (·.node)

/-- The document of a stream, if there is at most one. -/
def ofText? (text : List Char) : Option Document :=
  (Token.ofText text).bind ofTokens?

end Document

end GameInstaller.Yaml
