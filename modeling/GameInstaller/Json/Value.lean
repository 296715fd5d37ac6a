import GameInstaller.Decimal.Binary64

/-! # JSON values

Values of a JSON document.  Objects keep their entries as written, repeated keys included, so that
a reader of objects can refuse a repeated key. -/

namespace GameInstaller.Json

open GameInstaller.Decimal

/-- A JSON value. -/
inductive Value where
  | null
  | bool (b : Bool)
  | number (n : Number)
  | string (s : String)
  | array (items : List Value)
  | object (entries : List (String × Value))
  deriving Repr, Inhabited

namespace Value

/-- The whole number `n` as a value. -/
def nat (n : Nat) : Value := .number (.natural n)

/-- The first entry of an object under a key. -/
def get? (v : Value) (key : String) : Option Value :=
  match v with
  | object entries => (entries.find? fun (k, _) => k == key).map (·.2)
  | _ => none

/-- A string value, or null. -/
def ofOption (s : Option String) : Value :=
  match s with
  | some s => string s
  | none => null

end Value

end GameInstaller.Json
