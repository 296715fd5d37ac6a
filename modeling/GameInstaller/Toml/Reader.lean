import GameInstaller.Toml.Scalar

/-! # Reading TOML

A document is a sequence of lines: entries, table headers and headers of table arrays.  No table is
defined twice and no entry is given twice; a table that a dotted key opened is closed to headers,
and a table that a header opened is closed to dotted keys.  Collections nest at most 80 deep. -/

namespace GameInstaller.Toml

/-- How a table came to be. -/
inductive Origin where
  /-- A header of its own. -/
  | header
  /-- Named on the way to the table of a header. -/
  | passing
  /-- Named on the way to an entry. -/
  | dotted
  deriving DecidableEq

/-- What a table under construction holds under a key. -/
inductive Item where
  | value (v : Value)
  | table (origin : Origin) (entries : List (String × Item))
  /-- An array of tables, the last one first. -/
  | tables (all : List (List (String × Item)))
  deriving Inhabited

/-- Entries of a table under construction. -/
abbrev Entries := List (String × Item)

mutual

/-- The value of an item. -/
def Item.toValue : Item → Value
  | .value v => v
  | .table _ es => .table (entriesToValues es)
  | .tables all => .array (tablesToValues all [])

/-- The values of entries. -/
def entriesToValues : Entries → List (String × Value)
  | [] => []
  | (k, i) :: r => (k, i.toValue) :: entriesToValues r

/-- The values of an array of tables, the first one first. -/
def tablesToValues : List Entries → List Value → List Value
  | [], acc => acc
  | es :: r, acc => tablesToValues r (.table (entriesToValues es) :: acc)

end

/-- The item under a key. -/
def item? (es : Entries) (key : String) : Option Item := (es.find? fun (k, _) => k == key).map (·.2)

/-- Entries with an item put under a key. -/
def putItem (key : String) (i : Item) : Entries → Entries
  | [] => [(key, i)]
  | (k, j) :: r => if k = key then (k, i) :: r else (k, j) :: putItem key i r

/-- Change the table that a path of keys leads to, making the tables on the way. -/
def descend (dotted : Bool) (change : Option Origin → Entries → Option Entries) :
    List String → Option Origin → Entries → Option Entries
  | [], origin, es => change origin es
  | k :: r, _, es =>
    let made : Origin := if dotted then .dotted else .passing
    match (item? es k).getD (.table made []) with
    | .value _ => none
    | .tables [] => none
    | .tables (last :: before) =>
      (descend dotted change r (some .header) last).map fun es' => putItem k (.tables (es' :: before)) es
    | .table o inner =>
      if dotted && o = .header then none
      else (descend dotted change r (some o) inner).map fun es' => putItem k (.table o es') es

/-- Put the value of an entry under a path of keys. -/
def putEntry (path : List String) (v : Value) (es : Entries) : Option Entries :=
  match path.getLast? with
  | none => none
  | some key =>
    let way := path.dropLast
    descend true (fun origin es =>
      if !way.isEmpty && origin != some .dotted then none
      else if (item? es key).isSome then none
      else some (es ++ [(key, .value v)])) way none es

/-- Open the table of a header. -/
def openTable (path : List String) (es : Entries) : Option Entries :=
  match path.getLast? with
  | none => none
  | some key =>
    descend false (fun _ es =>
      match item? es key with
      | none => some (es ++ [(key, .table .header [])])
      | some (.table .passing inner) => some (putItem key (.table .header inner) es)
      | some _ => none) path.dropLast none es

/-- Open one more table of an array of tables. -/
def openArrayTable (path : List String) (es : Entries) : Option Entries :=
  match path.getLast? with
  | none => none
  | some key =>
    descend false (fun _ es =>
      match item? es key with
      | none => some (es ++ [(key, .tables [[]])])
      | some (.tables all) => some (putItem key (.tables ([] :: all)) es)
      | some _ => none) path.dropLast none es

/-- Put an entry into the table that the last header opened. -/
def putUnder (header path : List String) (v : Value) (es : Entries) : Option Entries :=
  descend false (fun _ es => putEntry path v es) header none es

/-! ## Keys -/

/-- Past spaces and tabs. -/
def skipSpace (cs : List Char) : List Char := cs.dropWhile fun c => c == ' ' || c == '\t'

/-- A character of a bare key. -/
def isBareChar (c : Char) : Bool := c.isAlphanum || c == '-' || c == '_'

/-- One part of a key. -/
def simpleKey (cs : List Char) : Step String :=
  match cs with
  | c :: _ =>
    if c = '"' || c = '\'' then (readLineText cs).map fun (k, r) => (String.ofList k, r)
    else
      let k := cs.takeWhile isBareChar
      if k.isEmpty then none else some (String.ofList k, cs.dropWhile isBareChar)
  | [] => none

/-- The most keys in a dotted key, and the most levels of collections. -/
def maxDepth : Nat := 80

/-- A key: parts with dots between them. -/
def key : Nat → List String → List Char → Step (List String)
  | 0, _, _ => none
  | fuel + 1, acc, cs =>
    match simpleKey (skipSpace cs) with
    | none => none
    | some (k, r) =>
      match skipSpace r with
      | '.' :: r => key fuel (k :: acc) r
      | r => if acc.length < maxDepth then some ((k :: acc).reverse, r) else none

/-! ## Values -/

/-- Past a comment, up to the end of its line. -/
def skipComment (cs : List Char) : Option (List Char) :=
  match cs with
  | '#' :: r =>
    let rest := r.dropWhile isPlain
    if rest.isEmpty || (newline? rest).isSome then some rest else none
  | _ => some cs

/-- Past white space, line breaks and comments inside an array. -/
def skipLines : Nat → List Char → Option (List Char)
  | 0, cs => some cs
  | fuel + 1, cs =>
    match skipComment (skipSpace cs) with
    | none => none
    | some r =>
      match newline? r with
      | some r => skipLines fuel r
      | none => some r

mutual

/-- A value; `depth` is how many more collections may open. -/
def value : Nat → Nat → List Char → Step Value
  | 0, _, _ => none
  | fuel + 1, depth, cs =>
    match cs with
    | [] => none
    | c :: r =>
      if c = '"' || c = '\'' then (readText cs).map fun (s, r) => (.text (String.ofList s), r)
      else if c = '[' then (if depth = 0 then none else items fuel (depth - 1) [] r)
      else if c = '{' then
        if depth = 0 then none
        else match skipSpace r with
          | '}' :: r => some (.table [], r)
          | r => pairs fuel (depth - 1) [] r
      else scalar cs

/-- The items of an array from one of them on. -/
def items : Nat → Nat → List Value → List Char → Step Value
  | 0, _, _, _ => none
  | fuel + 1, depth, acc, cs =>
    match skipLines (cs.length + 1) cs with
    | none => none
    | some (']' :: r) => some (.array acc.reverse, r)
    | some r =>
      match value fuel depth r with
      | none => none
      | some (v, r) =>
        match skipLines (r.length + 1) r with
        | some (',' :: r) => items fuel depth (v :: acc) r
        | some (']' :: r) => some (.array (v :: acc).reverse, r)
        | _ => none

/-- The entries of an inline table from one of them on. -/
def pairs : Nat → Nat → Entries → List Char → Step Value
  | 0, _, _, _ => none
  | fuel + 1, depth, acc, cs =>
    match key (cs.length + 1) [] cs with
    | some (path, '=' :: r) =>
      match value fuel depth (skipSpace r) with
      | none => none
      | some (v, r) =>
        match putEntry path v acc with
        | none => none
        | some acc =>
          match skipSpace r with
          | ',' :: r => pairs fuel depth acc r
          | '}' :: r => some (.table (entriesToValues acc), r)
          | _ => none
    | _ => none

end

/-! ## Documents -/

/-- Past the end of a line: spaces, a comment, and a line break or the end of the text. -/
def lineEnd (cs : List Char) : Option (List Char) :=
  match skipComment (skipSpace cs) with
  | none => none
  | some r => if r.isEmpty then some [] else newline? r

/-- One line: the keys of the table that is open after it, the document, and the rest. -/
def line (header : List String) (es : Entries) (cs : List Char) :
    Option (List String × Entries × List Char) :=
  match cs with
  | '[' :: '[' :: r =>
    match key (r.length + 1) [] r with
    | some (path, ']' :: ']' :: r) =>
      (openArrayTable path es).bind fun es => (lineEnd r).map fun r => (path, es, r)
    | _ => none
  | '[' :: r =>
    match key (r.length + 1) [] r with
    | some (path, ']' :: r) =>
      (openTable path es).bind fun es => (lineEnd r).map fun r => (path, es, r)
    | _ => none
  | _ =>
    match key (cs.length + 1) [] cs with
    | some (path, '=' :: r) =>
      match value (2 * r.length + 2) maxDepth (skipSpace r) with
      | none => none
      | some (v, r) =>
        (putUnder header path v es).bind fun es => (lineEnd r).map fun r => (header, es, r)
    | _ => none

/-- The lines of a document from one of them on. -/
def document : Nat → List String → Entries → List Char → Option Entries
  | 0, _, _, _ => none
  | fuel + 1, header, es, cs =>
    let cs := skipSpace cs
    match cs with
    | [] => some es
    | '#' :: _ =>
      match lineEnd cs with
      | some r => document fuel header es r
      | none => none
    | _ =>
      match newline? cs with
      | some r => document fuel header es r
      | none =>
        match line header es cs with
        | some (header, es, r) => document fuel header es r
        | none => none

/-- The table that a text writes, if it is a TOML document. -/
def read? (text : List Char) : Option (List (String × Value)) :=
  let body := match text with
    | '\uFEFF' :: r => r
    | _ => text
  (document (body.length + 2) [] [] body).map entriesToValues

end GameInstaller.Toml
