import GameInstaller.Digest.Blake3
import GameInstaller.Digest.Blocks
import GameInstaller.Text.Hex

/-! # Digest algorithms

The algorithms a checksum step may name, the digests they give, and digests written as
`<algorithm>:<hex>`. -/

namespace GameInstaller.Digest

/-- A digest algorithm. -/
inductive Algorithm where
  | sha256
  | blake3
  | md5
  deriving DecidableEq, Repr

namespace Algorithm

/-- The name before the colon of a written digest. -/
def label : Algorithm → String
  | sha256 => "sha256"
  | blake3 => "blake3"
  | md5 => "md5"

/-- The algorithm of a label; letter case counts. -/
def ofLabel? : String → Option Algorithm
  | "sha256" => some sha256
  | "blake3" => some blake3
  | "md5" => some md5
  | _ => none

/-- How many hexadecimal digits a digest of this algorithm has. -/
def hexLength : Algorithm → Nat
  | sha256 => 64
  | blake3 => 64
  | md5 => 32

/-- The bytes of the digest of a message. -/
def digest : Algorithm → ByteArray → List UInt8
  | sha256 => Sha256.digest
  | blake3 => Blake3.digest
  | md5 => Md5.digest

/-- The digest of a message in lowercase hexadecimal. -/
def hexDigest (alg : Algorithm) (data : ByteArray) : String :=
  Text.hexText (alg.digest data)

end Algorithm

/-- Why a text is not a digest. -/
inductive ExpectedError where
  /-- There is no colon. -/
  | noColon (text : String)
  /-- The label before the first colon names no algorithm. -/
  | unknownAlgorithm (label : String)
  /-- What follows the colon is not the algorithm's number of hexadecimal digits. -/
  | notHex (algorithm : Algorithm)
  deriving DecidableEq, Repr

/-- The wording of the reason. -/
def ExpectedError.message : ExpectedError → String
  | noColon text => s!"digest '{text}' must be <algorithm>:<hex>"
  | unknownAlgorithm label =>
    s!"unsupported digest algorithm '{label}' (use sha256, blake3, or md5)"
  | notHex alg => alg.label ++ " digest must be " ++ toString alg.hexLength ++ " hex characters"

/-- A digest that a file is expected to have. -/
structure Expected where
  algorithm : Algorithm
  /-- Lowercase hexadecimal, as many digits as the algorithm gives. -/
  hex : String
  deriving DecidableEq, Repr

namespace Expected

/-- The text before and after the first colon. -/
def splitColon : List Char → Option (List Char × List Char)
  | [] => none
  | c :: r => if c = ':' then some ([], r) else (splitColon r).map fun (a, b) => (c :: a, b)

/-- Read `<algorithm>:<hex>`; the digits are kept in lowercase. -/
def parse (s : String) : Except ExpectedError Expected :=
  match splitColon s.toList with
  | none => .error (.noColon s)
  | some (label, hex) =>
    match Algorithm.ofLabel? (String.ofList label) with
    | none => .error (.unknownAlgorithm (String.ofList label))
    | some alg =>
      if hex.length = alg.hexLength ∧ hex.all Text.isHexDigit then
        .ok ⟨alg, String.ofList (hex.map Char.toLower)⟩
      else .error (.notHex alg)

/-- The written form, `<algorithm>:<hex>`. -/
def display (e : Expected) : String :=
  e.algorithm.label ++ ":" ++ e.hex

end Expected

end GameInstaller.Digest
