import CertRotation.Asn1.Der
import CertRotation.Asn1.Write
import CertRotation.Text.Utf16

/-!
# Attributes of stored items

Keys and certificates in a keystore carry a set of attributes. Three kinds matter: the name shown to people, the
identifier that ties a key to its certificate, and the mark of a certificate that is trusted on its own.
-/
namespace CertRotation.Keystore

/-- What the attributes of an item say. -/
structure Attributes where
  friendlyName : Option String := none
  localKeyId : Option Bytes := none
  /-- Trusted on its own, for any use. -/
  trusted : Bool := false
  deriving DecidableEq, Repr

namespace Attributes

def friendlyNameOid : Oid := .ofArcs [1, 2, 840, 113549, 1, 9, 20]
def localKeyIdOid : Oid := .ofArcs [1, 2, 840, 113549, 1, 9, 21]
def trustedUseOid : Oid := .ofArcs [2, 16, 840, 1, 113894, 746875, 1, 1]
def anyUseOid : Oid := .ofArcs [2, 5, 29, 37, 0]

structure Attribute where
  type : Oid
  values : List Der.Element
  deriving DecidableEq, Repr

def attributeReader : Der.Reader Attribute := Der.sequence do
  let type ← Der.oid
  let values ← Der.setOf Der.element
  pure ⟨type, values⟩

def value? (type : Oid) (l : List Attribute) : Option Der.Element :=
  (l.find? fun a => a.type = type).bind fun a => a.values.head?

/-- Values of another kind than the attribute's count as missing. -/
def ofList (l : List Attribute) : Attributes where
  friendlyName := (value? friendlyNameOid l).bind fun v =>
    if v.tag = 0x1e then Utf16.decodeBasic? v.contents else none
  localKeyId := (value? localKeyIdOid l).bind fun v => if v.tag = 0x04 then some v.contents else none
  trusted := value? trustedUseOid l = some ⟨0x06, anyUseOid.contents⟩

def reader : Der.Reader Attributes := do
  let l ← Der.setOf attributeReader
  pure (ofList l)

def encodeOne (type : Oid) (value : Bytes) : Bytes :=
  Der.Write.sequence [Der.Write.oid type, Der.Write.set [value]]

/-- The set of the attributes that are there, nothing if there are none. A name beyond the basic plane has no
encoding. -/
def encode? (a : Attributes) : Option Bytes := do
  let name ← match a.friendlyName with
    | none => some []
    | some s => (Utf16.encodeBasic? s).map fun b => [encodeOne friendlyNameOid (Der.Write.tlv 0x1e b)]
  let id := match a.localKeyId with
    | none => []
    | some b => [encodeOne localKeyIdOid (Der.Write.octetString b)]
  let use := if a.trusted then [encodeOne trustedUseOid (Der.Write.oid anyUseOid)] else []
  match name ++ id ++ use with
  | [] => some []
  | items => some (Der.Write.set items)

end Attributes
end CertRotation.Keystore
