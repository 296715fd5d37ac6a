import GameInstaller.Decimal.Binary64

/-! # Shortest decimal digits

The fewest digits that read back as a given number, and among those the nearest to it.  For each
count of digits the two neighbours of the number on that decimal grid are tried; the first grid
that has a neighbour inside the interval of reals that round to the number wins. -/

namespace GameInstaller.Decimal

/-- A decimal fraction `digits · 10 ^ power`. -/
structure Fraction where
  digits : Nat
  power : Int
  deriving DecidableEq, Repr

namespace Shortest

/-- The interval of reals that round to `m · 2 ^ e`, and that number itself, all over one
    denominator. -/
structure Interval where
  low : Nat
  value : Nat
  high : Nat
  den : Nat
  /-- Whether the ends round to the number too. -/
  closed : Bool

/-- The interval of a finite number that is not zero.  Below a power of two the gap is half as
    wide. -/
def Interval.of (m : Nat) (e : Int) : Interval :=
  let lowerGap := if m = Nat.pow 2 52 ∧ Binary64.leastExponent < e then 1 else 2
  let (scale, den) := Binary64.ratio 1 (e - 2)
  ⟨(4 * m - lowerGap) * scale, 4 * m * scale, (4 * m + 2) * scale, den, m % 2 = 0⟩

/-- Whether `n · 10 ^ power` lies in the interval. -/
def Interval.holds (i : Interval) (n : Nat) (power : Int) : Bool :=
  let (a, b) := if power < 0 then (n * i.den, Nat.pow 10 (-power).toNat) else (n * Nat.pow 10 power.toNat * i.den, 1)
  if i.closed then i.low * b ≤ a && a ≤ i.high * b else i.low * b < a && a < i.high * b

/-- The neighbours of the number on the grid `10 ^ power`: the whole part, and whether the rest is
    less than, equal to or more than half a step. -/
def Interval.below (i : Interval) (power : Int) : Nat × Ordering :=
  let (a, b) := if power < 0 then (i.value * Nat.pow 10 (-power).toNat, i.den) else (i.value, i.den * Nat.pow 10 power.toNat)
  (a / b, compare (2 * (a % b)) b)

/-- The point of the grid to write, if one reads back; of two the nearer, at a tie the even one. -/
def Interval.point (i : Interval) (power : Int) : Option Nat :=
  let (n, half) := i.below power
  match i.holds n power && n != 0, i.holds (n + 1) power with
  | true, true =>
    match half with
    | .lt => some n
    | .gt => some (n + 1)
    | .eq => some (if n % 2 = 0 then n else n + 1)
  | true, false => some n
  | false, true => some (n + 1)
  | false, false => none

/-- Try the grids from `power` downwards, `fuel` of them. -/
def search (i : Interval) : Nat → Int → Fraction
  | 0, power => ⟨(i.below power).1, power⟩
  | fuel + 1, power =>
    match i.point power with
    | some n => ⟨n, power⟩
    | none => search i fuel (power - 1)

/-- Digits without the zeros they end in. -/
def dropZeros : Nat → Fraction → Fraction
  | 0, f => f
  | fuel + 1, f => if f.digits % 10 = 0 ∧ f.digits ≠ 0 then dropZeros fuel ⟨f.digits / 10, f.power + 1⟩ else f

end Shortest

/-- The shortest decimal fraction that reads back as `m · 2 ^ e`, for `m` not zero. -/
def shortest (m : Nat) (e : Int) : Fraction :=
  let i := Shortest.Interval.of m e
  let whole := i.value / i.den
  let top : Int :=
    if whole = 0 then -((Nat.toDigits 10 (i.den / i.value)).length : Int) + 1
    else (Nat.toDigits 10 whole).length
  Shortest.dropZeros 400 (Shortest.search i 20 top)

/-! ## Decimal text

How a format writes a number: a record of the format's choices, and one function that writes the
shortest digits by them. -/

/-- The choices of a format. -/
structure Style where
  /-- The most digits before the point that are written out; none is no limit. -/
  maxWhole : Option Nat
  /-- The most zeros between point and first digit that are written out; none is no limit. -/
  maxZeros : Option Nat
  /-- Whether an exponent that is not negative has a plus sign. -/
  plus : Bool
  /-- The texts of no number, infinity and negative infinity. -/
  nan : String
  inf : String
  negInf : String

/-- Digits of `f` in front of its power of ten. -/
def Fraction.text (f : Fraction) : List Char := Nat.toDigits 10 f.digits

/-- The magnitude of a fraction with the decimal point after `f.text.length + f.power` digits. -/
def Style.magnitude (st : Style) (f : Fraction) : List Char :=
  let ds := f.text
  let point : Int := ds.length + f.power
  let positional :=
    if 0 < point then st.maxWhole.all fun n => point ≤ n
    else st.maxZeros.all fun n => -point ≤ n
  if positional then
    if f.power ≥ 0 then ds ++ List.replicate f.power.toNat '0' ++ ['.', '0']
    else if 0 < point then ds.take point.toNat ++ '.' :: ds.drop point.toNat
    else '0' :: '.' :: List.replicate (-point).toNat '0' ++ ds
  else
    let mantissa := match ds with
      | [] => []
      | [d] => [d]
      | d :: r => d :: '.' :: r
    let e := point - 1
    let sign := if e < 0 then ['-'] else if st.plus then ['+'] else []
    mantissa ++ 'e' :: sign ++ Nat.toDigits 10 e.natAbs

/-- The text of a number. -/
def Style.text (st : Style) : Binary64 → String
  | .nan => st.nan
  | .infinite negative => if negative then st.negInf else st.inf
  | .finite negative m e =>
    let body := if m = 0 then ['0', '.', '0'] else st.magnitude (shortest m e)
    String.ofList (if negative then '-' :: body else body)

end GameInstaller.Decimal
