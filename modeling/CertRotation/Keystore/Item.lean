import CertRotation.Certificate.Basic
import CertRotation.Keystore.Attributes
import CertRotation.Keystore.Protection

/-!
# Items of a keystore

Keystores keep their items in bags. Certificates and encrypted keys are read, all other bags are passed over.
-/
namespace CertRotation.Keystore

/-- A certificate with the names by which others refer to it. -/
structure StoredCertificate where
  der : Bytes
  subject : String
  issuer : String
  attributes : Attributes
  deriving DecidableEq, Repr

/-- Octets that follow the certificate are kept with it. -/
def StoredCertificate.ofDer? (der : Bytes) (attributes : Attributes) : Option StoredCertificate :=
  (Certificate.read? der).map fun (c, _) => ⟨der, c.subject.text, c.issuer.text, attributes⟩

structure StoredKey where
  key : Bytes
  attributes : Attributes
  deriving DecidableEq, Repr

inductive Item where
  | certificate (c : StoredCertificate)
  | key (k : StoredKey)
  deriving DecidableEq, Repr

/-! ## Reading -/

/-- An item as it is stored. -/
structure Bag where
  type : Oid
  value : Der.Element
  attributes : Attributes
  deriving DecidableEq, Repr

namespace Bag

def encryptedKeyOid : Oid := .ofArcs [1, 2, 840, 113549, 1, 12, 10, 1, 2]
def certificateOid : Oid := .ofArcs [1, 2, 840, 113549, 1, 12, 10, 1, 3]
def x509Oid : Oid := .ofArcs [1, 2, 840, 113549, 1, 9, 22, 1]

def reader : Der.Reader Bag := Der.sequence do
  let type ← Der.oid
  let value ← Der.element
  let attributes ← Der.optional 0x31 Attributes.reader
  pure ⟨type, value, attributes.getD {}⟩

/-- What `r` reads from the value, which stands under a context tag. -/
def within? {α : Type} (b : Bag) (r : Der.Reader α) : Option α :=
  if b.value.tag &&& 0xe0 = 0xa0 then r.whole? b.value.contents else none

def certificateFields : Der.Reader (Oid × Bytes) := do
  let type ← Der.oid
  match ← Der.explicit 0 Der.octetString with
  | some der => pure (type, der)
  | none => Der.refuse

def encryptedFields : Der.Reader (Der.Algorithm × Bytes) := do
  let a ← Der.algorithm
  let text ← Der.octetString
  pure (a, text)

def item? (b : Bag) (password : String) : Except Error (Option Item) :=
  if b.type = certificateOid then do
    let (type, der) ← orError .malformed (b.within? (Der.sequence certificateFields))
    if type ≠ x509Oid then throw .certificateType
    let c ← orError .certificate (StoredCertificate.ofDer? der b.attributes)
    pure (some (.certificate c))
  else if b.type = encryptedKeyOid then do
    let (a, text) ← orError .malformed (b.within? (Der.sequence encryptedFields))
    let key ← decrypt a password text
    pure (some (.key ⟨key, b.attributes⟩))
  else pure none

end Bag

def itemsOf (contents : Bytes) (password : String) : Except Error (List Item) := do
  let bags ← orError .malformed ((Der.sequence (Der.many Bag.reader)).whole? contents)
  let items ← bags.mapM fun b => b.item? password
  pure (items.filterMap id)

/-! ## Writing -/

def encodeBag? (type : Oid) (value : Bytes) (a : Attributes) : Option Bytes :=
  a.encode?.map fun attributes =>
    Der.Write.sequence [Der.Write.oid type, Der.Write.explicit 0 value, attributes]

def encodeCertificate? (der : Bytes) (a : Attributes) : Option Bytes :=
  encodeBag? Bag.certificateOid
    (Der.Write.sequence [Der.Write.oid Bag.x509Oid, Der.Write.explicit 0 (Der.Write.octetString der)]) a

def encodeKey? (seed : Pbes2.Seed) (password : String) (key : Bytes) (a : Attributes) : Option Bytes :=
  encodeBag? Bag.encryptedKeyOid
    (Der.Write.sequence [seed.algorithm, Der.Write.octetString (seed.encrypt (Bytes.ofString password) key)]) a

end CertRotation.Keystore
