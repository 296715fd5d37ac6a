/-! # Patterns

Patterns of file names and of `case`: `*` stands for any text, `?` for any character, and brackets
for one of a set.  A quoted character stands for itself. -/

namespace GameInstaller.Shell

/-- A character of an expanded word, and whether it was quoted. -/
structure Mark where
  char : Char
  quoted : Bool
  deriving DecidableEq, Repr

/-- An expanded word. -/
abbrev Field := List Mark

/-- The text of an expanded word. -/
def Field.text (f : Field) : String := String.ofList (f.map (·.char))

/-- Whether a mark is this character, unquoted. -/
def Mark.isPlain (m : Mark) (c : Char) : Bool := m.char == c && !m.quoted

/-- The marks of a set up to the bracket that ends it, and what follows; a bracket right at the
    start belongs to the set. -/
def setEnd (first : Bool) : Field → Option (Field × Field)
  | [] => none
  | m :: r =>
    if m.isPlain ']' && !first then some ([], r)
    else (setEnd false r).map fun (s, r) => (m :: s, r)

/-- Whether a set has a character. -/
def setHas (c : Char) : Field → Bool
  | a :: m :: b :: r =>
    if m.isPlain '-' then (a.char ≤ c && c ≤ b.char) || setHas c r
    else a.char == c || setHas c (m :: b :: r)
  | a :: r => a.char == c || setHas c r
  | [] => false

/-- Whether a set that may be negated admits a character. -/
def admits (set : Field) (c : Char) : Bool :=
  match set with
  | m :: r => if m.isPlain '!' then !setHas c r else setHas c set
  | [] => false

/-- Whether a pattern covers the whole of a text. -/
def covers (fuel : Nat) (p : Field) (cs : List Char) : Bool :=
  match fuel with
  | 0 => false
  | fuel + 1 =>
    match p with
    | [] => cs.isEmpty
    | m :: p' =>
      if m.isPlain '*' then
        covers fuel p' cs || (match cs with
          | [] => false
          | _ :: r => covers fuel p r)
      else
        match cs with
        | [] => false
        | c :: r =>
          if m.isPlain '?' then covers fuel p' r
          else if m.isPlain '[' then
            match setEnd true p' with
            | some (set, p'') => admits set c && covers fuel p'' r
            | none => c == '[' && covers fuel p' r
          else m.char == c && covers fuel p' r

/-- Whether a field is a pattern that covers a text. -/
def Field.covers (p : Field) (text : String) : Bool :=
  Shell.covers (p.length + text.length + 1) p text.toList

/-- Whether a field has a character of patterns. -/
def Field.isPattern (f : Field) : Bool :=
  f.any fun m => m.isPlain '*' || m.isPlain '?' || m.isPlain '['

end GameInstaller.Shell
