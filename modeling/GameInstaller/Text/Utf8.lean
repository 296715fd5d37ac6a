/-! # Reading bytes as text

Two readings of a byte sequence as UTF-8: `strict?`, which refuses any ill-formed sequence, and
`lossy`, which writes one U+FFFD for each maximal ill-formed stretch (a truncated sequence counts
once, any other stray byte on its own). -/

namespace GameInstaller.Text

/-- The text of well-formed UTF-8. -/
def strict? (bytes : ByteArray) : Option String :=
  String.fromUTF8? bytes

/-- The range that the second byte of a sequence must lie in, and the number of bytes after the
    first, by the sequence's first byte. -/
def sequenceShape (b : UInt8) : Option (Nat × Nat × Nat) :=
  if 0xC2 ≤ b ∧ b ≤ 0xDF then some (1, 0x80, 0xBF)
  else if b = 0xE0 then some (2, 0xA0, 0xBF)
  else if b = 0xED then some (2, 0x80, 0x9F)
  else if 0xE1 ≤ b ∧ b ≤ 0xEF then some (2, 0x80, 0xBF)
  else if b = 0xF0 then some (3, 0x90, 0xBF)
  else if 0xF1 ≤ b ∧ b ≤ 0xF3 then some (3, 0x80, 0xBF)
  else if b = 0xF4 then some (3, 0x80, 0x8F)
  else none

/-- A sequence that is under way: the bits so far, how many bytes are due, and the range for the
    next one. -/
structure Pending where
  bits : Nat
  due : Nat
  low : Nat
  high : Nat

/-- One character per well-formed sequence, U+FFFD per maximal ill-formed stretch. -/
def lossyChars : Option Pending → List UInt8 → List Char
  | none, [] => []
  | some _, [] => ['\uFFFD']
  | none, b :: r =>
    if b < 0x80 then Char.ofNat b.toNat :: lossyChars none r
    else match sequenceShape b with
      | none => '\uFFFD' :: lossyChars none r
      | some (due, low, high) =>
        let kept := b.toNat % (if due = 1 then 32 else if due = 2 then 16 else 8)
        lossyChars (some ⟨kept, due, low, high⟩) r
  | some p, b :: r =>
    if p.low ≤ b.toNat ∧ b.toNat ≤ p.high then
      let bits := p.bits * 64 + b.toNat % 64
      if p.due ≤ 1 then Char.ofNat bits :: lossyChars none r
      else lossyChars (some ⟨bits, p.due - 1, 0x80, 0xBF⟩) r
    else if b < 0x80 then '\uFFFD' :: Char.ofNat b.toNat :: lossyChars none r
    else match sequenceShape b with
      | none => '\uFFFD' :: '\uFFFD' :: lossyChars none r
      | some (due, low, high) =>
        let kept := b.toNat % (if due = 1 then 32 else if due = 2 then 16 else 8)
        '\uFFFD' :: lossyChars (some ⟨kept, due, low, high⟩) r

/-- A byte sequence as text, ill-formed stretches replaced by U+FFFD. -/
def lossy (bytes : ByteArray) : String :=
  match strict? bytes with
  | some s => s
  | none => String.ofList (lossyChars none bytes.toList)

/-! ## Code page 437

The 256 characters of the code page, by which names in older archives are read. -/

/-- The characters of the bytes from 128 on. -/
def upperCp437 : Array Char :=
  ("ÇüéâäàåçêëèïîìÄÅÉæÆôöòûùÿÖÜ¢£¥₧ƒáíóúñÑªº¿⌐¬½¼¡«»░▒▓│┤╡╢╖╕╣║╗╝╜╛┐└┴┬├─┼╞╟╚╔╩╦╠═╬╧╨╤╥╙╘╒╓╫╪┘┌█▄▌▐▀"
    ++ "αßΓπΣσµτΦΘΩδ∞φε∩≡±≥≤⌠⌡÷≈°∙·√ⁿ²■\u00a0").toList.toArray

/-- The character of a byte. -/
def cp437Char (b : UInt8) : Char :=
  if b < 128 then Char.ofNat b.toNat else upperCp437.getD (b.toNat - 128) ' '

/-- The text of bytes. -/
def cp437 (bytes : List UInt8) : String := String.ofList (bytes.map cp437Char)

end GameInstaller.Text
