import GameInstaller.Yaml.Value

/-! # Plain scalars as values

What a plain scalar denotes: null, a boolean, a number, or else its own text.  Whole numbers may be
written in base sixteen, eight or two; one that starts with a zero and has more digits is text.  A
whole number that needs more than 64 but at most 128 bits is refused. -/

namespace GameInstaller.Yaml

open GameInstaller.Decimal

namespace Plain

/-- The value of a digit in the bases up to sixteen. -/
def digit? (base : Nat) (c : Char) : Option Nat :=
  (Text.hexValue? c).bind fun v => if v < base then some v else none

/-- The whole number that a nonempty list of digits writes. -/
def natural? (base : Nat) (ds : List Char) : Option Nat :=
  if ds.isEmpty then none
  else ds.foldl (fun acc d => acc.bind fun n => (digit? base d).map (base * n + ·)) (some 0)

/-- The digits after a base mark `0x`, `0o` or `0b`, with the base. -/
def based? : List Char → Option (Nat × List Char)
  | '0' :: 'x' :: r => some (16, r)
  | '0' :: 'o' :: r => some (8, r)
  | '0' :: 'b' :: r => some (2, r)
  | _ => none

/-- Whether a list of characters starts with a sign. -/
def signed : List Char → Bool
  | '+' :: _ => true
  | '-' :: _ => true
  | _ => false

/-- Without a sign in front. -/
def unsigned : List Char → List Char
  | '+' :: r => r
  | '-' :: r => r
  | cs => cs

/-- Whether digits are led by a zero that keeps them from being a number. -/
def zeroLed (cs : List Char) : Bool :=
  match unsigned cs with
  | '0' :: r => !r.isEmpty && r.all Char.isDigit
  | _ => false

/-- A whole number that is not negative and below `limit`. -/
def positive? (limit : Nat) (cs : List Char) : Option Nat :=
  let body := match cs with
    | '+' :: r => r
    | _ => cs
  let fits (n : Option Nat) : Option Nat := n.bind fun n => if n < limit then some n else none
  let decimal := if signed body || zeroLed cs then none else fits (natural? 10 body)
  match based? body with
  | some (base, ds) =>
    if signed ds then none
    else (fits (natural? base ds)).orElse fun _ => decimal
  | none => decimal

/-- The magnitude, at most `limit`, of a whole number with a minus sign. -/
def negative? (limit : Nat) (cs : List Char) : Option Nat :=
  match cs with
  | '-' :: body =>
    let fits (n : Option Nat) : Option Nat := n.bind fun n => if n ≤ limit then some n else none
    let decimal := if zeroLed cs then none else fits (natural? 10 body)
    match based? body with
    | some (base, ds) => (fits (natural? base ds)).orElse fun _ => decimal
    | none => decimal
  | _ => none

/-- Whole digits, digits after the point, and exponent of a decimal number. -/
def decimalParts? (cs : List Char) : Option (List Char × List Char × Int) :=
  let whole := cs.takeWhile Char.isDigit
  let rest := cs.dropWhile Char.isDigit
  let (fraction, rest) := match rest with
    | '.' :: r => (r.takeWhile Char.isDigit, r.dropWhile Char.isDigit)
    | _ => ([], rest)
  if whole.isEmpty && fraction.isEmpty then none
  else
    let exponent (r : List Char) : Option (List Char × List Char × Int) :=
      match natural? 10 (unsigned r) with
      | none => none
      | some e => some (whole, fraction, if r.head? == some '-' then -(e : Int) else e)
    match rest with
    | [] => some (whole, fraction, 0)
    | 'e' :: r => exponent r
    | 'E' :: r => exponent r
    | _ => none

/-- A number that is not whole. -/
def real? (cs : List Char) : Option Binary64 :=
  let text := String.ofList cs
  let body := match cs with
    | '+' :: r => r
    | _ => cs
  if cs.head? == some '+' && signed body then none
  else if [".inf", ".Inf", ".INF"].contains (String.ofList body) then some (.infinite false)
  else if ["-.inf", "-.Inf", "-.INF"].contains text then some (.infinite true)
  else if [".nan", ".NaN", ".NAN"].contains text then some .nan
  else
    match decimalParts? (unsigned body) with
    | none => none
    | some (whole, fraction, e) =>
      let digits := (whole ++ fraction).foldl (fun n d => 10 * n + (d.toNat - 48)) 0
      let x := Binary64.ofDecimal (body.head? == some '-') digits (e - fraction.length)
      if x.isFinite then some x else none

/-- Null spellings. -/
def isNull (text : String) : Bool := ["", "null", "Null", "NULL", "~"].contains text

/-- Boolean spellings. -/
def bool? (text : String) : Option Bool :=
  if ["true", "True", "TRUE"].contains text then some true
  else if ["false", "False", "FALSE"].contains text then some false
  else none

/-- A whole number by its text: `none` when it is no whole number, `some none` when it is one of
    more than 64 and at most 128 bits. -/
def whole? (cs : List Char) : Option (Option Number) :=
  match positive? (Nat.pow 2 64) cs with
  | some n => some (some (.natural n))
  | none =>
    match negative? (Nat.pow 2 63) cs with
    | some 0 => some (some (.natural 0))
    | some n => some (some (.negative (-(n : Int))))
    | none =>
      if (positive? (Nat.pow 2 128) cs).isSome || (negative? (Nat.pow 2 127) cs).isSome then some none else none

/-- The value of a plain scalar; none when it is refused. -/
def value? (cs : List Char) : Option Value :=
  let text := String.ofList cs
  if isNull text then some .null
  else match bool? text with
    | some b => some (.bool b)
    | none =>
      match whole? cs with
      | some r => r.map .number
      | none =>
        match if zeroLed cs then none else real? cs with
        | some x => some (.number (.real x))
        | none => some (.string text)

end Plain

end GameInstaller.Yaml
