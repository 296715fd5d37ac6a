import GameInstaller.Decimal.Shortest
import GameInstaller.Json.Value
import GameInstaller.Text.Hex

/-! # Writing JSON

Two layouts of one value: `compact`, on one line without spaces, and `pretty`, one entry a line
indented by two spaces a level. -/

namespace GameInstaller.Json

open GameInstaller.Decimal

/-- Numbers are written out from 10⁻⁵ up to below 10¹⁶, an exponent has its sign, and what is no
    finite number is null. -/
def numberStyle : Style := ⟨some 16, some 4, true, "null", "null", "null"⟩

/-- The text of a number. -/
def numberText : Number → String
  | .natural n => toString n
  | .negative n => toString n
  | .real x => numberStyle.text x

/-- A character inside quotes: quotes, backslashes and control characters are escaped. -/
def escapeChar (c : Char) : List Char :=
  match c with
  | '"' => ['\\', '"']
  | '\\' => ['\\', '\\']
  | '\x08' => ['\\', 'b']
  | '\x0c' => ['\\', 'f']
  | '\n' => ['\\', 'n']
  | '\r' => ['\\', 'r']
  | '\t' => ['\\', 't']
  | c =>
    if c.toNat < 0x20 then
      ['\\', 'u', '0', '0', Text.hexDigit (c.toNat / 16), Text.hexDigit (c.toNat % 16)]
    else [c]

/-- A text in quotes. -/
def quoted (s : String) : String :=
  String.ofList ('"' :: s.toList.flatMap escapeChar ++ ['"'])

mutual

/-- A value on one line. -/
def Value.compact : Value → String
  | .null => "null"
  | .bool true => "true"
  | .bool false => "false"
  | .number n => numberText n
  | .string s => quoted s
  | .array items => "[" ++ compactItems items ++ "]"
  | .object entries => "\x7b" ++ compactEntries entries ++ "\x7d"

/-- Items separated by commas. -/
def compactItems : List Value → String
  | [] => ""
  | [v] => v.compact
  | v :: r => v.compact ++ "," ++ compactItems r

/-- Entries separated by commas. -/
def compactEntries : List (String × Value) → String
  | [] => ""
  | [(k, v)] => quoted k ++ ":" ++ v.compact
  | (k, v) :: r => quoted k ++ ":" ++ v.compact ++ "," ++ compactEntries r

end

/-- A line break followed by the indentation of a level. -/
def lineBreak (level : Nat) : String :=
  String.ofList ('\n' :: List.replicate (2 * level) ' ')

mutual

/-- A value laid out over lines, inside `level` others. -/
def Value.layout (level : Nat) : Value → String
  | .array [] => "[]"
  | .array items => "[" ++ layoutItems (level + 1) items ++ lineBreak level ++ "]"
  | .object [] => "\x7b\x7d"
  | .object entries => "\x7b" ++ layoutEntries (level + 1) entries ++ lineBreak level ++ "\x7d"
  | v => v.compact

/-- Items, each on lines of its own. -/
def layoutItems (level : Nat) : List Value → String
  | [] => ""
  | [v] => lineBreak level ++ v.layout level
  | v :: r => lineBreak level ++ v.layout level ++ "," ++ layoutItems level r

/-- Entries, each on lines of its own. -/
def layoutEntries (level : Nat) : List (String × Value) → String
  | [] => ""
  | [(k, v)] => lineBreak level ++ quoted k ++ ": " ++ v.layout level
  | (k, v) :: r => lineBreak level ++ quoted k ++ ": " ++ v.layout level ++ "," ++ layoutEntries level r

end

/-- A value laid out over lines. -/
def Value.pretty (v : Value) : String := v.layout 0

end GameInstaller.Json
