/-! # Arithmetic of scripts

What stands in `$((…))` is an expression over 64-bit integers.  A name stands for the number that is
the value of its variable, and for zero if that is blank.

* `Term`          a number or an operator
* `arithmetic`    the value of an expression; nothing when it is none -/

namespace GameInstaller.Shell

/-- A number or an operator of an expression. -/
inductive Term where
  | number (n : Int)
  | operator (name : String)
  deriving DecidableEq, Repr

/-- Operators of two operands, the loosest level first. -/
def operatorLevels : List (List String) :=
  [["||"], ["&&"], ["|"], ["^"], ["&"], ["==", "!="], ["<=", ">=", "<", ">"], ["<<", ">>"],
   ["+", "-"], ["*", "/", "%"]]

/-- Names of operators, longer ones before their beginnings. -/
def operatorNames : List String :=
  ["||", "&&", "==", "!=", "<=", ">=", "<<", ">>", "|", "^", "&", "<", ">", "+", "-", "*", "/",
   "%", "!", "~", "(", ")"]

/-- The integer of 64 bits that an integer wraps to. -/
def wrapped (n : Int) : Int := Int.bmod n 18446744073709551616

/-- Truth as a number. -/
def truth (b : Bool) : Int := if b then 1 else 0

/-- The value of a digit in a base up to 16. -/
def digitIn (base : Nat) (c : Char) : Option Nat :=
  let value :=
    if c.isDigit then some (c.toNat - '0'.toNat)
    else if 'a' ≤ c && c ≤ 'f' then some (c.toNat - 'a'.toNat + 10)
    else if 'A' ≤ c && c ≤ 'F' then some (c.toNat - 'A'.toNat + 10)
    else none
  value.filter (· < base)

/-- A number that is written with digits of a base. -/
def numberIn (base : Nat) (cs : List Char) : Option Int := do
  let digits ← cs.mapM (digitIn base)
  pure (wrapped (Int.ofNat (digits.foldl (fun n d => n * base + d) 0)))

/-- A number: in base 16 after `0x`, in base 8 after `0`, else in base 10. -/
def literal (cs : List Char) : Option Int :=
  match cs with
  | '0' :: 'x' :: d :: r => numberIn 16 (d :: r)
  | '0' :: d :: r => numberIn 8 (d :: r)
  | cs => numberIn 10 cs

/-- The number that is the value of a variable. -/
def valueAsNumber (value : String) : Option Int :=
  match value.toList with
  | [] => some 0
  | '-' :: cs => (literal cs).map (-·)
  | cs => literal cs

/-- The terms of an expression; `valueOf` gives the values of variables. -/
def terms (valueOf : String → String) (fuel : Nat) (cs : List Char) : Option (List Term) :=
  match fuel with
  | 0 => none
  | fuel + 1 =>
    match cs with
    | [] => some []
    | c :: r =>
      if c = ' ' || c = '\t' || c = '\n' then terms valueOf fuel r
      else if c.isAlphanum || c = '_' then
        let word := cs.takeWhile fun c => c.isAlphanum || c == '_'
        let value :=
          if c.isDigit then literal word else valueAsNumber (valueOf (String.ofList word))
        match value with
        | some n => (terms valueOf fuel (cs.drop word.length)).map (.number n :: ·)
        | none => none
      else
        match operatorNames.find? fun name => name.toList.isPrefixOf cs with
        | some name => (terms valueOf fuel (cs.drop name.length)).map (.operator name :: ·)
        | none => none

/-- The value of an operator of two operands; nothing for a division by zero. -/
def applied (name : String) (a b : Int) : Option Int :=
  match name with
  | "||" => some (truth (a != 0 || b != 0))
  | "&&" => some (truth (a != 0 && b != 0))
  | "|" => some (Int64.ofInt a ||| Int64.ofInt b).toInt
  | "^" => some (Int64.ofInt a ^^^ Int64.ofInt b).toInt
  | "&" => some (Int64.ofInt a &&& Int64.ofInt b).toInt
  | "==" => some (truth (a = b))
  | "!=" => some (truth (a ≠ b))
  | "<=" => some (truth (a ≤ b))
  | ">=" => some (truth (a ≥ b))
  | "<" => some (truth (a < b))
  | ">" => some (truth (a > b))
  | "<<" => some (Int64.ofInt a <<< Int64.ofInt b).toInt
  | ">>" => some (Int64.ofInt a >>> Int64.ofInt b).toInt
  | "+" => some (wrapped (a + b))
  | "-" => some (wrapped (a - b))
  | "*" => some (wrapped (a * b))
  | "/" => if b = 0 then none else some (wrapped (a.tdiv b))
  | "%" => if b = 0 then none else some (a.tmod b)
  | _ => none

mutual

/-- The value of operands joined by the operators of some levels, and the terms behind it. -/
def valueAt (fuel : Nat) (levels : List (List String)) (ts : List Term) :
    Option (Int × List Term) :=
  match fuel, levels with
  | 0, _ => none
  | fuel + 1, [] => operand fuel ts
  | fuel + 1, names :: tighter => do
    let (a, r) ← valueAt fuel tighter ts
    joinedTo fuel names tighter a r

/-- The value of what is joined to `a` by operators of one level. -/
def joinedTo (fuel : Nat) (names : List String) (tighter : List (List String)) (a : Int)
    (ts : List Term) : Option (Int × List Term) :=
  match fuel, ts with
  | fuel + 1, .operator name :: r =>
    if names.contains name then do
      let (b, r) ← valueAt fuel tighter r
      joinedTo fuel names tighter (← applied name a b) r
    else some (a, .operator name :: r)
  | _, ts => some (a, ts)

/-- The value of a single operand: a number, or an expression in parentheses, behind its signs. -/
def operand (fuel : Nat) (ts : List Term) : Option (Int × List Term) :=
  match fuel, ts with
  | _, .number n :: r => some (n, r)
  | fuel + 1, .operator name :: r =>
    match name with
    | "(" => do
      match ← valueAt fuel operatorLevels r with
      | (n, .operator ")" :: r) => some (n, r)
      | _ => none
    | "-" => (operand fuel r).map fun (n, r) => (wrapped (-n), r)
    | "+" => operand fuel r
    | "!" => (operand fuel r).map fun (n, r) => (truth (n = 0), r)
    | "~" => (operand fuel r).map fun (n, r) => (-n - 1, r)
    | _ => none
  | _, _ => none

end

/-- The value of an expression; nothing when the text is none. -/
def arithmetic (valueOf : String → String) (cs : List Char) : Option Int := do
  let ts ← terms valueOf (cs.length + 1) cs
  if ts.isEmpty then some 0
  else
    match ← valueAt ((ts.length + 1) * 24) operatorLevels ts with
    | (n, []) => some n
    | _ => none

end GameInstaller.Shell
