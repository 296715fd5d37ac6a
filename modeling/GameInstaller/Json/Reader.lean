import GameInstaller.Json.Value
import GameInstaller.Text.Hex

/-! # Reading JSON

A reader for whole JSON texts.  It nests at most 127 deep, refuses control characters inside
strings and lone surrogates in escapes, and reads a number by its first nineteen or twenty
significant digits: those give a 64-bit whole number, which is scaled by a power of ten and
rounded at each of the two steps. -/

namespace GameInstaller.Json

open GameInstaller.Decimal

namespace Reader

/-- What is left of the input after a part of it was read; nothing when it could not be read. -/
abbrev Step (α : Type) := Option (α × List Char)

def isSpace (c : Char) : Bool := c == ' ' || c == '\n' || c == '\t' || c == '\r'

def isDigit (c : Char) : Bool := '0' ≤ c && c ≤ '9'

def digitValue (c : Char) : Nat := c.toNat - 48

def skipSpace (cs : List Char) : List Char := cs.dropWhile isSpace

/-- The largest significand. -/
def maxSignificand : Nat := Nat.pow 2 64 - 1

/-- The largest power of ten that is a finite number. -/
def maxPower : Nat := 308

/-- `10 ^ n` as a number. -/
def powerOfTen (n : Nat) : Binary64 := .ofNat (Nat.pow 10 n)

/-- Divide by `10 ^ 308` while more than that is left to divide by. -/
def shrink : Nat → Binary64 → Nat → Binary64
  | 0, x, _ => x
  | fuel + 1, x, n =>
    if n ≤ maxPower then x.div (powerOfTen n)
    else if x = .zero false then x
    else shrink fuel (x.div (powerOfTen maxPower)) (n - maxPower)

/-- A significand scaled by a power of ten; nothing when the result is too large. -/
def ofParts (negative : Bool) (significand : Nat) (power : Int) : Option Binary64 :=
  let x := Binary64.ofNat significand
  let scaled? : Option Binary64 :=
    if power < 0 then some (shrink 8 x (-power).toNat)
    else if power ≤ maxPower then
      let y := x.mul (powerOfTen power.toNat)
      if y.isFinite then some y else none
    else if significand = 0 then some x else none
  scaled?.map fun y => if negative then y.neg else y

/-- Digits taken into a significand until it would pass 64 bits: the significand, how many digits
    were taken, and the rest. -/
def takeDigits : Nat → Nat → List Char → Nat × Nat × List Char
  | sig, count, [] => (sig, count, [])
  | sig, count, c :: r =>
    if isDigit c && sig * 10 + digitValue c ≤ maxSignificand then
      takeDigits (sig * 10 + digitValue c) (count + 1) r
    else (sig, count, c :: r)

/-- The exponent after `e`, and the scaled number. -/
def exponentPart (negative : Bool) (sig : Nat) (power : Int) (cs : List Char) : Step Number :=
  let (down, cs) := match cs with
    | '+' :: r => (false, r)
    | '-' :: r => (true, r)
    | _ => (false, cs)
  let ds := cs.takeWhile isDigit
  let rest := cs.dropWhile isDigit
  if ds.isEmpty then none
  else
    let e := ds.foldl (fun n c => n * 10 + digitValue c) 0
    if Nat.pow 2 31 ≤ e then
      if sig ≠ 0 ∧ !down then none else some (.real (.zero negative), rest)
    else
      (ofParts negative sig (if down then power - e else power + e)).map fun x => (.real x, rest)

/-- What follows the digits of a number that is no whole number. -/
def finish (negative : Bool) (sig : Nat) (power : Int) : List Char → Step Number
  | 'e' :: r => exponentPart negative sig power r
  | 'E' :: r => exponentPart negative sig power r
  | rest => (ofParts negative sig power).map fun x => (.real x, rest)

/-- The digits after a decimal point; there has to be one. -/
def fractionPart (negative : Bool) (sig : Nat) (power : Int) (cs : List Char) : Step Number :=
  let (sig', count, rest) := takeDigits sig 0 cs
  match rest with
  | c :: _ =>
    if isDigit c then finish negative sig' (power - count) (rest.dropWhile isDigit)
    else if count = 0 then none else finish negative sig' (power - count) rest
  | [] => if count = 0 then none else finish negative sig' (power - count) rest

/-- A number, its sign already read. -/
def number (negative : Bool) : List Char → Step Number
  | [] => none
  | c :: r =>
    if !isDigit c then none
    else
      let (sig, _, rest) := if c = '0' then (0, 1, r) else takeDigits 0 0 (c :: r)
      match rest with
      | '.' :: r' => fractionPart negative sig 0 r'
      | 'e' :: r' => exponentPart negative sig 0 r'
      | 'E' :: r' => exponentPart negative sig 0 r'
      | d :: r' =>
        if isDigit d then
          if c = '0' then none
          else
            let more := (d :: r').takeWhile isDigit
            match (d :: r').dropWhile isDigit with
            | '.' :: r'' => fractionPart negative sig more.length r''
            | rest' => finish negative sig more.length rest'
        else some (whole sig, rest)
      | [] => some (whole sig, rest)
where
  /-- A whole number; negative zero and those below -2⁶³ have no exact form. -/
  whole (sig : Nat) : Number :=
    if !negative then .natural sig
    else if sig = 0 ∨ Nat.pow 2 63 < sig then .real (Binary64.ofNat sig).neg
    else .negative (-(sig : Int))

/-- The value of four hexadecimal digits. -/
def hex4 : List Char → Step Nat
  | a :: b :: c :: d :: r =>
    match Text.hexValue? a, Text.hexValue? b, Text.hexValue? c, Text.hexValue? d with
    | some a, some b, some c, some d => some (((a * 16 + b) * 16 + c) * 16 + d, r)
    | _, _, _, _ => none
  | _ => none

/-- The character of an escape whose `\u` was read; a high surrogate takes a low one with it. -/
def unicodeEscape (cs : List Char) : Step Char :=
  match hex4 cs with
  | none => none
  | some (n, r) =>
    if 0xD800 ≤ n ∧ n < 0xDC00 then
      match r with
      | '\\' :: 'u' :: r =>
        match hex4 r with
        | none => none
        | some (m, r) =>
          if 0xDC00 ≤ m ∧ m < 0xE000 then
            some (Char.ofNat (0x10000 + (n - 0xD800) * 1024 + (m - 0xDC00)), r)
          else none
      | _ => none
    else if 0xDC00 ≤ n ∧ n < 0xE000 then none
    else some (Char.ofNat n, r)

/-- The character a backslash stands before. -/
def escape : List Char → Step Char
  | '"' :: r => some ('"', r)
  | '\\' :: r => some ('\\', r)
  | '/' :: r => some ('/', r)
  | 'b' :: r => some ('\x08', r)
  | 'f' :: r => some ('\x0c', r)
  | 'n' :: r => some ('\n', r)
  | 'r' :: r => some ('\r', r)
  | 't' :: r => some ('\t', r)
  | 'u' :: r => unicodeEscape r
  | _ => none

/-- The rest of a string after its opening quote; `acc` holds what was read, last first. -/
def stringBody : Nat → List Char → List Char → Step String
  | 0, _, _ => none
  | _, _, [] => none
  | fuel + 1, acc, c :: r =>
    if c = '"' then some (String.ofList acc.reverse, r)
    else if c = '\\' then
      match escape r with
      | some (d, r') => stringBody fuel (d :: acc) r'
      | none => none
    else if c.toNat < 0x20 then none
    else stringBody fuel (c :: acc) r

/-- The string whose opening quote was read. -/
def string (cs : List Char) : Step String := stringBody (cs.length + 1) [] cs

mutual

/-- One value; `depth` is how many more levels may open. -/
def value : Nat → Nat → List Char → Step Value
  | 0, _, _ => none
  | fuel + 1, depth, cs =>
    match skipSpace cs with
    | 'n' :: 'u' :: 'l' :: 'l' :: r => some (.null, r)
    | 't' :: 'r' :: 'u' :: 'e' :: r => some (.bool true, r)
    | 'f' :: 'a' :: 'l' :: 's' :: 'e' :: r => some (.bool false, r)
    | '"' :: r => (string r).map fun (s, r) => (.string s, r)
    | '-' :: r => (number true r).map fun (n, r) => (.number n, r)
    | '[' :: r =>
      if depth ≤ 1 then none
      else match skipSpace r with
        | ']' :: r => some (.array [], r)
        | r => items fuel (depth - 1) [] r
    | '{' :: r =>
      if depth ≤ 1 then none
      else match skipSpace r with
        | '}' :: r => some (.object [], r)
        | r => entries fuel (depth - 1) [] r
    | r => (number false r).map fun (n, r) => (.number n, r)

/-- The items of an array from one of them on. -/
def items : Nat → Nat → List Value → List Char → Step Value
  | 0, _, _, _ => none
  | fuel + 1, depth, acc, cs =>
    match value fuel depth cs with
    | none => none
    | some (v, r) =>
      match skipSpace r with
      | ',' :: r => items fuel depth (v :: acc) r
      | ']' :: r => some (.array (v :: acc).reverse, r)
      | _ => none

/-- The entries of an object from one of them on. -/
def entries : Nat → Nat → List (String × Value) → List Char → Step Value
  | 0, _, _, _ => none
  | fuel + 1, depth, acc, cs =>
    match skipSpace cs with
    | '"' :: r =>
      match string r with
      | none => none
      | some (k, r) =>
        match skipSpace r with
        | ':' :: r =>
          match value fuel depth r with
          | none => none
          | some (v, r) =>
            match skipSpace r with
            | ',' :: r => entries fuel depth ((k, v) :: acc) r
            | '}' :: r => some (.object ((k, v) :: acc).reverse, r)
            | _ => none
        | _ => none
    | _ => none

end

end Reader

/-- The value of a whole text, if it is a JSON text. -/
def read? (text : List Char) : Option Value :=
  match Reader.value (2 * text.length + 2) 128 text with
  | some (v, rest) => if (Reader.skipSpace rest).isEmpty then some v else none
  | none => none

end GameInstaller.Json
