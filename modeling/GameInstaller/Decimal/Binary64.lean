/-! # Binary floating point

The numbers of IEEE 754 binary64 as data: a sign, a whole mantissa and a power of two.  Every
arithmetic result is the nearest such number to an exact quotient of whole numbers, a tie going to
the even mantissa, so one function `ofRatio` carries all the rounding.

* `ofRatio`    the number nearest to a quotient
* `ofDecimal`  the number nearest to a decimal fraction
* `mul`, `div`, `add`  arithmetic, by way of the exact quotient -/

namespace GameInstaller.Decimal

/-- A binary64 number.  A finite one is `mantissa · 2 ^ exponent`, with
    `mantissa < 2 ^ 53` and `-1074 ≤ exponent`; above the least exponent `2 ^ 52 ≤ mantissa`. -/
inductive Binary64 where
  | nan
  | infinite (negative : Bool)
  | finite (negative : Bool) (mantissa : Nat) (exponent : Int)
  deriving DecidableEq, Repr, Inhabited

namespace Binary64

/-- The exponent of the numbers next to zero. -/
def leastExponent : Int := -1074

/-- The exponent of the largest numbers. -/
def greatestExponent : Int := 971

/-- Zero, with a sign. -/
def zero (negative : Bool) : Binary64 := .finite negative 0 leastExponent

/-- The whole number nearest to `num / den`, a tie going to the even one. -/
def roundQuotient (num den : Nat) : Nat :=
  let q := num / den
  let twice := 2 * (num % den)
  if twice < den then q
  else if den < twice then q + 1
  else if q % 2 = 0 then q else q + 1

/-- `num / den` divided by `2 ^ e`, as numerator and denominator. -/
def scaled (num den : Nat) (e : Int) : Nat × Nat :=
  if e < 0 then (num * Nat.pow 2 (-e).toNat, den) else (num, den * Nat.pow 2 e.toNat)

/-- The exponent at which `num / den` has a mantissa of 53 bits, or the least one. -/
def exponentOf (num den : Nat) : Int :=
  let guess : Int := (num.log2 : Int) - (den.log2 : Int) - 53
  let (n, d) := scaled num den guess
  let e := if Nat.pow 2 53 * d ≤ n then guess + 1 else guess
  max e leastExponent

/-- The number nearest to `num / den`. -/
def ofRatio (negative : Bool) (num den : Nat) : Binary64 :=
  if num = 0 then zero negative
  else
    let e := exponentOf num den
    let (n, d) := scaled num den e
    let m := roundQuotient n d
    let (m, e) := if m = Nat.pow 2 53 then (Nat.pow 2 52, e + 1) else (m, e)
    if greatestExponent < e then .infinite negative else .finite negative m e

/-- The number nearest to `digits · 10 ^ power`.  Powers far outside the range of the numbers are
    decided without computing them. -/
def ofDecimal (negative : Bool) (digits : Nat) (power : Int) : Binary64 :=
  if digits = 0 then zero negative
  else
    let places : Int := (Nat.toDigits 10 digits).length + power
    if 400 < places then .infinite negative
    else if places < -400 then zero negative
    else if power < 0 then ofRatio negative digits (Nat.pow 10 (-power).toNat)
    else ofRatio negative (digits * Nat.pow 10 power.toNat) 1

/-- The number nearest to a whole number. -/
def ofNat (n : Nat) : Binary64 := ofRatio false n 1

/-- Whether the sign is set; a value without sign has none. -/
def isNegative : Binary64 → Bool
  | nan => false
  | infinite s => s
  | finite s _ _ => s

/-- Whether the number is neither infinite nor the value that is no number. -/
def isFinite : Binary64 → Bool
  | finite .. => true
  | _ => false

/-- The opposite number. -/
def neg : Binary64 → Binary64
  | nan => nan
  | infinite s => infinite !s
  | finite s m e => finite (!s) m e

/-- The magnitude `m · 2 ^ e` as numerator and denominator. -/
def ratio (m : Nat) (e : Int) : Nat × Nat :=
  if e < 0 then (m, Nat.pow 2 (-e).toNat) else (m * Nat.pow 2 e.toNat, 1)

/-- The product, rounded once. -/
def mul : Binary64 → Binary64 → Binary64
  | finite s m e, finite t n f =>
    let (a, b) := ratio m e
    let (c, d) := ratio n f
    ofRatio (s != t) (a * c) (b * d)
  | nan, _ => nan
  | _, nan => nan
  | infinite s, finite t n _ => if n = 0 then nan else infinite (s != t)
  | finite s m _, infinite t => if m = 0 then nan else infinite (s != t)
  | infinite s, infinite t => infinite (s != t)

/-- The quotient, rounded once. -/
def div : Binary64 → Binary64 → Binary64
  | finite s m e, finite t n f =>
    if n = 0 then (if m = 0 then nan else infinite (s != t))
    else
      let (a, b) := ratio m e
      let (c, d) := ratio n f
      ofRatio (s != t) (a * d) (b * c)
  | nan, _ => nan
  | _, nan => nan
  | infinite s, finite t _ _ => infinite (s != t)
  | finite s _ _, infinite t => zero (s != t)
  | infinite _, infinite _ => nan

/-- The sum of two numbers that are not negative, rounded once. -/
def addMagnitudes : Binary64 → Binary64 → Binary64
  | finite _ m e, finite _ n f =>
    let (a, b) := ratio m e
    let (c, d) := ratio n f
    ofRatio false (a * d + c * b) (b * d)
  | nan, _ => nan
  | _, nan => nan
  | infinite _, _ => infinite false
  | _, infinite _ => infinite false

/-- Seconds of a span of nanoseconds: the whole seconds plus the fraction, each rounded. -/
def seconds (nanos : Nat) : Binary64 :=
  addMagnitudes (ofNat (nanos / 1000000000)) (ofRatio false (nanos % 1000000000) 1000000000)

end Binary64

/-! ## Numbers of data formats

A number as the data formats keep it: whole numbers that fit 64 bits exactly, all others as
binary64. -/

/-- A number of a data format. -/
inductive Number where
  /-- A whole number below 2⁶⁴. -/
  | natural (n : Nat)
  /-- A negative whole number not below -2⁶³. -/
  | negative (n : Int)
  | real (x : Binary64)
  deriving DecidableEq, Repr, Inhabited

end GameInstaller.Decimal
