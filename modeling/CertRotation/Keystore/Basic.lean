import CertRotation.Keystore.Entry

/-!
# Keystores in PKCS#12

A keystore file holds parts, each plain or encrypted, and perhaps a keyed hash over all of them.
`Keystore.read` gives the entries of a file, `Keystore.write` makes a file for one key and its certificates.
-/
namespace CertRotation.Keystore

def dataOid : Oid := .ofArcs [1, 2, 840, 113549, 1, 7, 1]
def encryptedDataOid : Oid := .ofArcs [1, 2, 840, 113549, 1, 7, 6]

/-- Contents with their type. -/
structure Part where
  type : Oid
  content : Der.Element
  deriving DecidableEq, Repr

def Part.reader : Der.Reader Part := Der.sequence do
  let type ← Der.oid
  match ← Der.explicit 0 Der.element with
  | some content => pure ⟨type, content⟩
  | none => Der.refuse

/-- All that a keystore file consists of. -/
structure Envelope where
  body : Part
  mac : Option Mac
  deriving DecidableEq, Repr

/-- Three is the only version. -/
def Envelope.reader : Der.Reader Envelope := Der.sequence do
  let version ← Der.natural
  Der.require (version = 3)
  let body ← Part.reader
  let mac ← Der.optional 0x30 Mac.reader
  pure ⟨body, mac⟩

/-! ## Reading -/

structure Encrypted where
  version : Nat
  algorithm : Der.Algorithm
  text : Bytes
  deriving DecidableEq, Repr

/-- The algorithm and the text of encrypted contents, whatever their type. -/
def Encrypted.contents : Der.Reader (Der.Algorithm × Bytes) := do
  let _ ← Der.oid
  let algorithm ← Der.algorithm
  match ← Der.implicit 0 with
  | some text => pure (algorithm, text)
  | none => Der.refuse

/-- Further attributes may follow and are passed over. -/
def Encrypted.fields : Der.Reader Encrypted := do
  let version ← Der.naturalBelow 6
  let (algorithm, text) ← Der.sequence Encrypted.contents
  let _ ← Der.optional 0xa1 Der.element
  pure ⟨version, algorithm, text⟩

/-- The octets of a part, decrypted if need be. -/
def Part.reveal (p : Part) (password : String) : Except Error Bytes :=
  if p.type = dataOid then
    orError .malformed (if p.content.tag = 0x04 then some p.content.contents else none)
  else if p.type = encryptedDataOid then do
    let e ← orError .malformed (p.content.within? 0x30 Encrypted.fields)
    if e.version ≠ 0 then throw .version
    decrypt e.algorithm password e.text
  else .error .contentType

/-- The octets of the body, once the keyed hash has been checked. -/
def Envelope.reveal (v : Envelope) (password : String) : Except Error Bytes := do
  match v.mac with
  | some m => m.check password v.body.content.contents
  | none => pure ()
  if v.body.type ≠ dataOid then throw .contentType
  orError .malformed (if v.body.content.tag = 0x04 then some v.body.content.contents else none)

/-- All items of a keystore in the order in which they are stored. -/
def readItems (b : Bytes) (password : String) : Except Error (List Item) := do
  let envelope ← orError .malformed (Envelope.reader.whole? b)
  let body ← envelope.reveal password
  let parts ← orError .malformed ((Der.sequence (Der.many Part.reader)).whole? body)
  let items ← parts.mapM fun p => do
    let contents ← p.reveal password
    itemsOf contents password
  pure items.flatten

def read (b : Bytes) (password : String) : Except Error Entries := do
  let items ← readItems b password
  pure (entriesOf items)

/-! ## Writing -/

/-- What has to be fresh in every file that is written. -/
structure Seeds where
  certificates : Pbes2.Seed
  key : Pbes2.Seed
  mac : Bytes
  deriving DecidableEq, Repr

def encodePlain (contents : Bytes) : Bytes :=
  Der.Write.sequence [Der.Write.oid dataOid, Der.Write.explicit 0 (Der.Write.octetString contents)]

def encodeEncrypted (seed : Pbes2.Seed) (password : String) (contents : Bytes) : Bytes :=
  Der.Write.sequence [Der.Write.oid encryptedDataOid, Der.Write.explicit 0
    (Der.Write.sequence [Der.Write.natural 0, Der.Write.sequence [Der.Write.oid dataOid, seed.algorithm,
      Der.Write.implicit 0 (seed.encrypt (Bytes.ofString password) contents)]])]

/-- A file around the parts, with a keyed hash. The password must fit its encoding. -/
def seal? (salt : Bytes) (password : String) (parts : List Bytes) : Option Bytes :=
  (passwordUnits? password).map fun units =>
    let body := Der.Write.sequence parts
    let mac : Mac := ⟨Mac.sha256Oid, Mac.compute sha256 units salt Pbes2.rounds body, salt, Pbes2.rounds⟩
    Der.Write.sequence [Der.Write.natural 3, encodePlain body, mac.encode]

/-- Octets that are not too many for one file. -/
def fitting? (file : Bytes) : Option Bytes := if file.length ≤ Der.maxLength then some file else none

/-- The attributes of the certificates next to a key: all are named by their subjects, and the first carries the
identifier of the key. -/
def chainAttributes (id : Bytes) : List StoredCertificate → List (Bytes × Attributes)
  | [] => []
  | leaf :: rest =>
    (leaf.der, { friendlyName := some leaf.subject, localKeyId := some id }) ::
      rest.map fun c => (c.der, { friendlyName := some c.subject })

/-- A file with one key under `label` and its certificates, the first of which belongs to the key. -/
def write (seeds : Seeds) (password label : String) (key id : Bytes) (certificates : List StoredCertificate) :
    Option Bytes := do
  let certificateBags ← (chainAttributes id certificates).mapM fun c => encodeCertificate? c.1 c.2
  let keyBag ← encodeKey? seeds.key password key { friendlyName := some label, localKeyId := some id }
  let file ← seal? seeds.mac password
    [encodeEncrypted seeds.certificates password (Der.Write.sequence certificateBags),
      encodePlain (Der.Write.sequence [keyBag])]
  fitting? file

end CertRotation.Keystore
