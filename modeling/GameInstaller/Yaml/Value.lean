import GameInstaller.Decimal.Binary64
import GameInstaller.Decimal.Shortest
import GameInstaller.Text.Escaped

/-! # YAML values

The values that a YAML document denotes.  A mapping keeps its entries in authored order and has no
two keys that are the same.

* `same`        equality of values as keys: numbers by value, mappings up to order
* `get?`        the value of a mapping under a text key
* `scalarText`  the text of a scalar
* `display`     the form in which a message shows a value that is no scalar -/

namespace GameInstaller.Yaml

open GameInstaller.Decimal

/-- A YAML value. -/
inductive Value where
  | null
  | bool (b : Bool)
  | number (n : Number)
  | string (s : String)
  | sequence (items : List Value)
  | mapping (entries : List (Value × Value))
  | tagged (tag : String) (content : Value)
  deriving Repr, Inhabited

/-- Whether two numbers are the same key: no number is the same as itself, and the two zeros are
    the same. -/
def sameNumber : Number → Number → Bool
  | .real x, .real y =>
    x = y || (match x, y with
      | .finite _ 0 _, .finite _ 0 _ => true
      | _, _ => false)
  | a, b => a = b

/-- A tag without its exclamation mark. -/
def bareTag (tag : String) : String :=
  match tag.toList with
  | '!' :: c :: r => String.ofList (c :: r)
  | _ => tag

mutual

/-- Whether two values are the same key. -/
def Value.same : Value → Value → Bool
  | .null, .null => true
  | .bool a, .bool b => a == b
  | .number a, .number b => sameNumber a b
  | .string a, .string b => a == b
  | .sequence as, .sequence bs => sameItems as bs
  | .mapping as, .mapping bs => as.length == bs.length && sameEntries as bs
  | .tagged t a, .tagged u b => bareTag t == bareTag u && a.same b
  | _, _ => false

/-- Whether two sequences are the same item by item. -/
def sameItems : List Value → List Value → Bool
  | [], [] => true
  | a :: as, b :: bs => a.same b && sameItems as bs
  | _, _ => false

/-- Whether each entry of the first list is an entry of the second. -/
def sameEntries : List (Value × Value) → List (Value × Value) → Bool
  | [], _ => true
  | (k, v) :: r, bs => bs.any (fun (k', v') => k.same k' && v.same v') && sameEntries r bs

end

namespace Value

/-- The value of a mapping under a text key. -/
def get? (entries : List (Value × Value)) (key : String) : Option Value :=
  match entries with
  | [] => none
  | (.string k, v) :: r => if k = key then some v else get? r key
  | _ :: r => get? r key

/-- How messages name the kind of a value. -/
def kind : Value → String
  | null => "null"
  | bool _ => "a boolean"
  | number _ => "a number"
  | string _ => "a string"
  | sequence _ => "a list"
  | mapping _ => "a mapping"
  | tagged .. => "a tagged value"

end Value

/-- Numbers are written out from 10⁻⁵ up to below 10¹⁶. -/
def numberStyle : Style := ⟨some 16, some 4, false, ".nan", ".inf", "-.inf"⟩

/-- The text of a number. -/
def numberText : Number → String
  | .natural n => toString n
  | .negative n => toString n
  | .real x => numberStyle.text x

/-- The text of a boolean. -/
def boolText (b : Bool) : String := if b then "true" else "false"

mutual

/-- A value as messages show it. -/
def Value.display : Value → String
  | .null => "Null"
  | .bool b => "Bool(" ++ boolText b ++ ")"
  | .number n => "Number(" ++ numberText n ++ ")"
  | .string s => "String(" ++ Text.escaped s ++ ")"
  | .sequence items => "Sequence [" ++ displayItems items ++ "]"
  | .mapping entries => "Mapping \x7b" ++ displayEntries entries ++ "\x7d"
  | .tagged tag v =>
    "TaggedValue \x7b tag: !" ++ bareTag tag ++ ", value: " ++ v.display ++ " \x7d"

/-- A key as messages show it. -/
def Value.displayKey : Value → String
  | .bool b => boolText b
  | .number n => numberText n
  | .string s => Text.escaped s
  | v => v.display

/-- Items separated by commas. -/
def displayItems : List Value → String
  | [] => ""
  | [v] => v.display
  | v :: r => v.display ++ ", " ++ displayItems r

/-- Entries separated by commas. -/
def displayEntries : List (Value × Value) → String
  | [] => ""
  | [(k, v)] => k.displayKey ++ ": " ++ v.display
  | (k, v) :: r => k.displayKey ++ ": " ++ v.display ++ ", " ++ displayEntries r

end

/-- The text of a scalar; any other value as messages show it. -/
def Value.scalarText : Value → String
  | .string s => s
  | .number n => numberText n
  | .bool b => boolText b
  | .null => ""
  | v => v.display

end GameInstaller.Yaml
