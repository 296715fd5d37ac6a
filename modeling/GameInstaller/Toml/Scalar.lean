import GameInstaller.Decimal.Binary64
import GameInstaller.Toml.Text

/-! # Values of TOML

What a value is, and how those besides texts and collections are read. -/

/-! ## TOML values

The values of a TOML document.  Tables keep their entries in the order in which the document gives
them and have no key twice. -/

namespace GameInstaller.Toml

open GameInstaller.Decimal

/-- A TOML value. -/
inductive Value where
  | text (s : String)
  | integer (n : Int)
  | float (x : Decimal.Binary64)
  | boolean (b : Bool)
  /-- A date, a time of day, or both; kept as written. -/
  | moment (written : String)
  | array (items : List Value)
  | table (entries : List (String × Value))
  deriving Repr, Inhabited

/-- The value of a table under a key. -/
def get? (entries : List (String × Value)) (key : String) : Option Value :=
  (entries.find? fun (k, _) => k == key).map (·.2)

/-! ## Numbers, booleans and moments of TOML

Everything that a value may be besides a text or a collection.  Digits may be parted by single
underscores; a moment is checked against the calendar. -/

/-- Digits of a class with single underscores between them; at least one. -/
def digits (isDigit : Char → Bool) : List Char → Step (List Char)
  | [] => none
  | c :: r => if isDigit c then some (more (r.length + 1) [c] r) else none
where
  more : Nat → List Char → List Char → List Char × List Char
    | 0, acc, cs => (acc.reverse, cs)
    | fuel + 1, acc, cs =>
      match cs with
      | '_' :: d :: r => if isDigit d then more fuel (d :: acc) r else (acc.reverse, cs)
      | d :: r => if isDigit d then more fuel (d :: acc) r else (acc.reverse, cs)
      | [] => (acc.reverse, [])

/-- The number that digits write. -/
def digitsValue (base : Nat) (ds : List Char) : Nat :=
  ds.foldl (fun n d => base * n + (Text.hexValue? d).getD 0) 0

/-- A sign, if there is one, and whether it is a minus. -/
def sign : List Char → Bool × List Char
  | '+' :: r => (false, r)
  | '-' :: r => (true, r)
  | cs => (false, cs)

/-- Whether a whole number fits 64 bits with a sign. -/
def fits (n : Int) : Bool := -(Nat.pow 2 63) ≤ n && n < Nat.pow 2 63

/-- Decimal digits without a leading zero. -/
def decimalDigits (cs : List Char) : Step (List Char) :=
  match cs with
  | '0' :: r => some (['0'], r)
  | _ => digits Char.isDigit cs

/-- A number in base sixteen, eight or two, after its mark. -/
def basedInteger (base : Nat) (cs : List Char) : Step Value :=
  match digits (fun c => (Text.hexValue? c).any (· < base)) cs with
  | none => none
  | some (ds, r) =>
    let n := digitsValue base ds
    if fits n then some (.integer n, r) else none

/-- The exponent of a number. -/
def exponent (cs : List Char) : Step Int :=
  match cs with
  | c :: r =>
    if c = 'e' || c = 'E' then
      let (minus, r) := sign r
      (digits Char.isDigit r).map fun (ds, r) =>
        (if minus then -(digitsValue 10 ds : Int) else digitsValue 10 ds, r)
    else none
  | [] => none

/-- A number that is not whole: one with a fraction, an exponent or both. -/
def float (cs : List Char) : Step Value :=
  let (minus, body) := sign cs
  match body with
  | 'i' :: 'n' :: 'f' :: r => some (.float (.infinite minus), r)
  | 'n' :: 'a' :: 'n' :: r => some (.float .nan, r)
  | _ =>
    match decimalDigits body with
    | none => none
    | some (whole, r) =>
      let make (fraction : List Char) (e : Int) (r : List Char) : Step Value :=
        let x := Binary64.ofDecimal minus (digitsValue 10 (whole ++ fraction)) (e - fraction.length)
        if x.isFinite then some (.float x, r) else none
      match r with
      | '.' :: r' =>
        match digits Char.isDigit r' with
        | none => none
        | some (fraction, r') =>
          match exponent r' with
          | some (e, r') => make fraction e r'
          | none =>
            match r' with
            | 'e' :: _ => none
            | 'E' :: _ => none
            | _ => make fraction 0 r'
      | _ =>
        match exponent r with
        | some (e, r) => make [] e r
        | none => none

/-- A whole number. -/
def integer (cs : List Char) : Step Value :=
  match cs with
  | '0' :: 'x' :: r => basedInteger 16 r
  | '0' :: 'o' :: r => basedInteger 8 r
  | '0' :: 'b' :: r => basedInteger 2 r
  | _ =>
    let (minus, body) := sign cs
    match decimalDigits body with
    | none => none
    | some (ds, r) =>
      let n : Int := if minus then -(digitsValue 10 ds : Int) else digitsValue 10 ds
      if fits n then some (.integer n, r) else none

/-! ## Moments -/

/-- Exactly `n` decimal digits, as a number in a range. -/
def fixed (n low high : Nat) (cs : List Char) : Step Nat :=
  let ds := cs.take n
  if ds.length = n && ds.all Char.isDigit then
    let v := digitsValue 10 ds
    if low ≤ v && v ≤ high then some (v, cs.drop n) else none
  else none

/-- Days of a month. -/
def daysInMonth (year month : Nat) : Nat :=
  if month = 2 then (if (year % 4 = 0 ∧ year % 100 ≠ 0) ∨ year % 400 = 0 then 29 else 28)
  else if [4, 6, 9, 11].contains month then 30 else 31

/-- A date. -/
def date (cs : List Char) : Option (List Char) := do
  let (year, r) ← fixed 4 0 9999 cs
  let r ← r.head?.bind fun c => if c = '-' then some r.tail else none
  let (month, r) ← fixed 2 1 12 r
  let r ← r.head?.bind fun c => if c = '-' then some r.tail else none
  let (day, r) ← fixed 2 1 31 r
  if day ≤ daysInMonth year month then some r else none

/-- A time of day. -/
def time (cs : List Char) : Option (List Char) := do
  let (_, r) ← fixed 2 0 23 cs
  let r ← r.head?.bind fun c => if c = ':' then some r.tail else none
  let (_, r) ← fixed 2 0 59 r
  let r ← r.head?.bind fun c => if c = ':' then some r.tail else none
  let (_, r) ← fixed 2 0 60 r
  match r with
  | '.' :: d :: r' => if d.isDigit then some (r'.dropWhile Char.isDigit) else some r
  | _ => some r

/-- A distance from UTC, which may be left out. -/
def offset (cs : List Char) : List Char :=
  match cs with
  | 'Z' :: r => r
  | 'z' :: r => r
  | c :: r =>
    if c = '+' || c = '-' then
      match fixed 2 0 23 r with
      | some (_, ':' :: r') =>
        match fixed 2 0 59 r' with
        | some (_, r'') => r''
        | none => cs
      | _ => cs
    else cs
  | [] => cs

/-- A date, a time of day, or a date and time with or without distance from UTC. -/
def moment (cs : List Char) : Step Value :=
  let written (rest : List Char) : Step Value :=
    some (.moment (String.ofList (cs.take (cs.length - rest.length))), rest)
  match date cs with
  | some r =>
    match r with
    | c :: r' =>
      if c = 'T' || c = 't' || c = ' ' then
        match time r' with
        | some r'' => written (offset r'')
        | none => if c = ' ' then written r else none
      else written r
    | [] => written r
  | none =>
    match time cs with
    | some r => written r
    | none => none

/-- A value that is neither text nor collection. -/
def scalar (cs : List Char) : Step Value :=
  match cs with
  | 't' :: 'r' :: 'u' :: 'e' :: r => some (.boolean true, r)
  | 'f' :: 'a' :: 'l' :: 's' :: 'e' :: r => some (.boolean false, r)
  | _ => ((moment cs).orElse fun _ => float cs).orElse fun _ => integer cs

end GameInstaller.Toml
