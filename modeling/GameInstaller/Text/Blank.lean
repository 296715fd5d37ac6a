/-! # Blank characters

A character is blank when it has the Unicode property `White_Space`.  Recipe fields, slugs,
command output and journal lines are trimmed by this one notion, so that a field holding only a
no-break space counts as missing while one holding a zero-width space does not.

* `isBlank`    the property itself, as a table of ranges
* `trim`       a text without the blanks at its two ends
* `allBlank`   whether nothing is left of a text once it is trimmed -/

namespace GameInstaller.Text

/-- Ranges of the Unicode property `White_Space`, in increasing order. -/
def blankRanges : List (Nat × Nat) :=
  [(0x0009, 0x000D), (0x0020, 0x0020), (0x0085, 0x0085), (0x00A0, 0x00A0), (0x1680, 0x1680),
   (0x2000, 0x200A), (0x2028, 0x2029), (0x202F, 0x202F), (0x205F, 0x205F), (0x3000, 0x3000)]

/-- Whether `c` has the Unicode property `White_Space`. -/
def isBlank (c : Char) : Bool :=
  blankRanges.any fun (lo, hi) => lo ≤ c.toNat && c.toNat ≤ hi

/-- A list of characters without those at either end that satisfy `p`. -/
def trimBoth (p : Char → Bool) (cs : List Char) : List Char :=
  ((cs.dropWhile p).reverse.dropWhile p).reverse

/-- A text without the blanks at its two ends. -/
def trim (s : String) : String :=
  String.ofList (trimBoth isBlank s.toList)

/-- Whether a text has no character that is not blank. -/
def allBlank (s : String) : Bool :=
  s.toList.all isBlank

/-- The maximal runs of characters that are not blank, left to right. -/
def words (cs : List Char) : List (List Char) :=
  go [] cs
where
  /-- `cur` holds the word under way, last character first. -/
  go (cur : List Char) : List Char → List (List Char)
    | [] => if cur.isEmpty then [] else [cur.reverse]
    | c :: r =>
      if isBlank c then (if cur.isEmpty then go [] r else cur.reverse :: go [] r)
      else go (c :: cur) r

/-! ## Lines of a text

A line ends at a newline; one carriage return right before that newline belongs to the line end.
What follows the last newline is a line of its own unless it is empty, and keeps a carriage return
it may end in. -/

/-- The pieces of a text between its separators.  There is always at least one piece. -/
def pieces (sep : Char) : List Char → List (List Char)
  | [] => [[]]
  | c :: r =>
    match pieces sep r with
    | [] => [[c]]
    | p :: ps => if c = sep then [] :: p :: ps else (c :: p) :: ps

/-- A line without the carriage return that ends it, if one does. -/
def dropReturn (line : List Char) : List Char :=
  match line.reverse with
  | '\r' :: r => r.reverse
  | _ => line

/-- The lines among the pieces between newlines: every piece but the last was ended by a newline. -/
def closedLines : List (List Char) → List (List Char)
  | [] => []
  | [p] => if p.isEmpty then [] else [p]
  | p :: ps => dropReturn p :: closedLines ps

/-- The lines of a text. -/
def lines (cs : List Char) : List (List Char) :=
  closedLines (pieces '\n' cs)

end GameInstaller.Text
