import CertRotation.Bytes

/-!
# Base 64

The standard alphabet with canonical padding. Decoding reports the first fault with its place: symbols of
the complete groups first, then the last group.
-/
namespace CertRotation.Base64

/-- Why text is no base 64. Offsets count octets of the text without blanks. -/
inductive Error where
  | symbol (octet : UInt8) (offset : Nat)
  | length (n : Nat)
  | lastSymbol (octet : UInt8) (offset : Nat)
  | padding
  deriving DecidableEq, Repr

def Error.message : Error → String
  | symbol b i => s!"Invalid symbol {b.toNat}, offset {i}."
  | length n => s!"Invalid input length: {n}"
  | lastSymbol b i => s!"Invalid last symbol {b.toNat}, offset {i}."
  | padding => "Invalid padding"

def alphabet : List Char := "ABCDEFGHIJKLMNOPQRSTUVWXYZabcdefghijklmnopqrstuvwxyz0123456789+/".toList

def pad : UInt8 := 61

def value? (b : UInt8) : Option UInt8 :=
  if 65 ≤ b ∧ b ≤ 90 then some (b - 65)
  else if 97 ≤ b ∧ b ≤ 122 then some (b - 71)
  else if 48 ≤ b ∧ b ≤ 57 then some (b + 4)
  else if b = 43 then some 62
  else if b = 47 then some 63
  else none

def symbol (v : UInt8) : Char := alphabet.getD (v.toNat % 64) 'A'

/-- Three octets to four symbols; one or two octets at the end are filled up with padding. -/
def encode : Bytes → List Char
  | [] => []
  | [a] => [symbol (a >>> 2), symbol (a <<< 4), '=', '=']
  | [a, b] => [symbol (a >>> 2), symbol ((a <<< 4) ||| (b >>> 4)), symbol (b <<< 2), '=']
  | a :: b :: c :: rest =>
    symbol (a >>> 2) :: symbol ((a <<< 4) ||| (b >>> 4)) :: symbol ((b <<< 2) ||| (c >>> 6)) :: symbol c ::
      encode rest

/-- The values of all symbols; `offset` is the place of the first. -/
def values (offset : Nat) : Bytes → Except Error (List UInt8)
  | [] => .ok []
  | b :: rest =>
    match value? b with
    | none => .error (.symbol b offset)
    | some v => (values (offset + 1) rest).map (v :: ·)

/-- Four values to three octets, three to two, two to one. -/
def pack : List UInt8 → Bytes
  | a :: b :: c :: d :: rest =>
    ((a <<< 2) ||| (b >>> 4)) :: ((b <<< 4) ||| (c >>> 2)) :: ((c <<< 6) ||| d) :: pack rest
  | [a, b, c] => [(a <<< 2) ||| (b >>> 4), (b <<< 4) ||| (c >>> 2)]
  | [a, b] => [(a <<< 2) ||| (b >>> 4)]
  | _ => []

/-- Bits of the last value that no octet takes. -/
def spareBits : List UInt8 → UInt8
  | [_, b] => b &&& 0x0f
  | [_, _, c] => c &&& 0x03
  | _ => 0

/-- The last group: up to four symbols and padding signs, starting at `offset`. -/
def decodeLast (offset : Nat) (group : Bytes) : Except Error Bytes := do
  let symbols := group.takeWhile (· != pad)
  let padding := group.dropWhile (· != pad)
  let n := symbols.length
  let vs ← values offset symbols
  if padding ≠ [] ∧ (n < 2 ∨ padding.any (· != pad)) then throw (.symbol pad (offset + n))
  if group ≠ [] ∧ n < 2 then throw (.length (offset + n))
  if group.length % 4 ≠ 0 then throw .padding
  if spareBits vs ≠ 0 then throw (.lastSymbol (symbols.getLastD 0) (offset + n - 1))
  pure (pack vs)

/-- The octets that `text` stands for. -/
def decode (text : Bytes) : Except Error Bytes := do
  let extra := text.length % 4
  let last := text.getLastD pad
  if extra = 1 ∧ last ≠ pad ∧ value? last = none then throw (.symbol last (text.length - 1))
  let head := text.length - (if extra = 0 then 4 else extra)
  let vs ← values 0 (text.take head)
  let rest ← decodeLast head (text.drop head)
  pure (pack vs ++ rest)

end CertRotation.Base64
