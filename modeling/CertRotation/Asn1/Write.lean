import CertRotation.Asn1.Oid

/-!
# DER, written
-/
namespace CertRotation.Der.Write

/-- A length in as few octets as possible. -/
def length (n : Nat) : Bytes :=
  if n < 0x80 then [UInt8.ofNat n]
  else
    let digits := Bytes.minimal n
    UInt8.ofNat (0x80 + digits.length) :: digits

def tlv (tag : UInt8) (contents : Bytes) : Bytes := tag :: length contents.length ++ contents

def sequence (items : List Bytes) : Bytes := tlv 0x30 items.flatten

def octetString (b : Bytes) : Bytes := tlv 0x04 b

def bitString (b : Bytes) : Bytes := tlv 0x03 (0 :: b)

def oid (o : Oid) : Bytes := tlv 0x06 o.contents

def null : Bytes := tlv 0x05 []

def natural (n : Nat) : Bytes :=
  let digits := Bytes.minimal n
  tlv 0x02 (if digits.headD 0 < 0x80 then digits else 0 :: digits)

/-- The items of a set in ascending order of their encodings. -/
def sortItems (items : List Bytes) : List Bytes := items.mergeSort fun a b => a ≤ b

def set (items : List Bytes) : Bytes := tlv 0x31 (sortItems items).flatten

/-- Context tag `n` around whole elements. -/
def explicit (n : UInt8) (items : Bytes) : Bytes := tlv (0xa0 ||| n) items

/-- Context tag `n` in place of a primitive tag. -/
def implicit (n : UInt8) (contents : Bytes) : Bytes := tlv (0x80 ||| n) contents

end CertRotation.Der.Write
