import CertRotation.Bytes

/-!
# UTF-16, high octet first
-/
namespace CertRotation.Utf16

/-- The units of well-formed text, or `none` if a surrogate stands alone. -/
def decodeUnits? : List Nat → Option (List Char)
  | [] => some []
  | u :: rest =>
    if 0xd800 ≤ u ∧ u < 0xdc00 then
      match rest with
      | v :: rest' =>
        if 0xdc00 ≤ v ∧ v < 0xe000 then
          (decodeUnits? rest').map (Char.ofNat (0x10000 + (u - 0xd800) * 1024 + (v - 0xdc00)) :: ·)
        else none
      | [] => none
    else if 0xdc00 ≤ u ∧ u < 0xe000 then none
    else (decodeUnits? rest).map (Char.ofNat u :: ·)

/-- Two octets to a unit, or `none` for an odd number of octets. -/
def units? : Bytes → Option (List Nat)
  | [] => some []
  | [_] => none
  | a :: b :: rest => (units? rest).map ((256 * a.toNat + b.toNat) :: ·)

def decode? (b : Bytes) : Option String := ((units? b).bind decodeUnits?).map String.ofList

/-- Two octets to a unit; an odd octet at the end is a unit of its own. -/
def unevenUnits : Bytes → List Nat
  | [] => []
  | [a] => [a.toNat]
  | a :: b :: rest => (256 * a.toNat + b.toNat) :: unevenUnits rest

/-- Like `decode?`, but for any number of octets. -/
def decodeUneven? (b : Bytes) : Option String := (decodeUnits? (unevenUnits b)).map String.ofList

/-- Characters of the basic plane, without its last code point. -/
def isBasic (c : Char) : Bool := c.toNat < 0xffff

/-- The text, if all its characters are basic. -/
def decodeBasic? (b : Bytes) : Option String := (decode? b).filter fun s => s.toList.all isBasic

/-- The form of a text whose characters are all basic, or `none`. -/
def encodeBasic? (s : String) : Option Bytes :=
  if s.toList.all isBasic then some (s.toList.flatMap fun c => Bytes.ofNat 2 c.toNat) else none

end CertRotation.Utf16
