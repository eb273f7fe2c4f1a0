/-!
# Octet strings

Octet strings are lists, most significant octet first where they stand for numbers. `toNat` and
`ofNat` are the big-endian reading and writing used by hashes, ciphers and DER integers.
-/
namespace CertRotation

abbrev Bytes := List UInt8

/-- The pieces of `n` items that follow one another in a list, the last one possibly shorter. -/
def chunks {α : Type} (n : Nat) : List α → List (List α)
  | [] => []
  | x :: xs => (x :: xs.take (n - 1)) :: chunks n (xs.drop (n - 1))
termination_by l => l.length
decreasing_by simp only [List.length_drop, List.length_cons]; omega

namespace Bytes

/-- The number whose base 256 digits are `b`. -/
def toNat (b : Bytes) : Nat := b.foldl (fun n x => n * 256 + x.toNat) 0

/-- The lowest `width` base 256 digits of `n`. -/
def ofNat (width n : Nat) : Bytes :=
  match width with
  | 0 => []
  | w + 1 => UInt8.ofNat (n >>> (8 * w)) :: ofNat w n

/-- How many base 256 digits `n` has; zero has none. -/
def width (n : Nat) : Nat := if n = 0 then 0 else Nat.log2 n / 8 + 1

/-- The base 256 digits of `n`, at least one. -/
def minimal (n : Nat) : Bytes := ofNat (max 1 (width n)) n

/-- Octet by octet exclusive or, as long as the shorter argument. -/
def xor (a b : Bytes) : Bytes := List.zipWith (· ^^^ ·) a b

/-- The sixteen digits of base 16. -/
def lowerDigits : List Char := "0123456789abcdef".toList

def upperDigits : List Char := "0123456789ABCDEF".toList

def octetText (digits : List Char) (x : UInt8) : String :=
  String.ofList [digits.getD (x.toNat / 16) '0', digits.getD (x.toNat % 16) '0']

def hex (b : Bytes) : String := String.join (b.map (octetText lowerDigits))

/-- Upper-case base 16 text without separators. -/
def upperHex (b : Bytes) : String := String.join (b.map (octetText upperDigits))

/-- Upper-case base 16 text, octets separated by colons. -/
def colonHex (b : Bytes) : String := ":".intercalate (b.map (octetText upperDigits))

/-- The octets of the UTF-8 form of `s`. -/
def ofString (s : String) : Bytes := s.toUTF8.toList

end Bytes
end CertRotation
