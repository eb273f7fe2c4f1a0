import CertRotation.Encryption.Pbes2
import CertRotation.Key.Curve
import CertRotation.Key.Rsa
import CertRotation.Pem.Basic
import CertRotation.Wording

/-!
# Private keys

A private key comes as PKCS#8, plain or encrypted, or in one of the two older forms for RSA and for elliptic
curves. Whatever it came as, `PrivateKey.encoded` is plain PKCS#8, and `publicKey` is what a certificate for it
must carry.
-/
namespace CertRotation

/-- What a key can be used with. -/
inductive KeyType where
  | rsa
  | p256
  | p384
  deriving DecidableEq, Repr

def KeyType.text : KeyType → String
  | rsa => "RSA"
  | p256 => "EC P-256"
  | p384 => "EC P-384"

/-- A key ready to be bundled. -/
structure PrivateKey where
  type : KeyType
  /-- Plain PKCS#8. -/
  encoded : Bytes
  /-- The public half as certificates encode it. -/
  publicKey : Bytes
  deriving DecidableEq, Repr

namespace PrivateKey

/-- Why a key could not be read. -/
inductive ParseError where
  | pem (e : Pem.Error)
  | pkcs8
  | pkcs1
  /-- The primes of an RSA key have a common divisor. -/
  | rsaPrimes
  /-- Written anew, an RSA key would be longer than an element can be. -/
  | rsaLength
  | curve
  | container
  | blockType (tag : String)
  deriving DecidableEq, Repr

def ParseError.message (w : Wording) : ParseError → String
  | pem e => s!"Failed to parse PEM: {e.message}"
  | pkcs8 => s!"Failed to parse PKCS#8 key: {w.der}"
  | pkcs1 => s!"Failed to parse PKCS#1 RSA key: {w.der}"
  | rsaPrimes => "Failed to convert RSA key to PKCS#8: PKCS#8 cryptographic key data malformed"
  | rsaLength => s!"Failed to convert RSA key to PKCS#8: PKCS#8 ASN.1 error: {w.der}"
  | curve => "Unsupported EC key (only P-256 and P-384 are supported)"
  | container => s!"Failed to parse encrypted PKCS#8 container: {w.der}"
  | blockType tag => s!"unsupported PEM block type {tag}"

/-- Why a key could not be decrypted. -/
inductive DecryptError where
  /-- Encrypted by the PEM layer. -/
  | legacy
  | noPassword
  | scheme (e : Pbes2.Error)
  /-- The plain text is no element of its own. -/
  | noElement
  | malformed (e : ParseError)
  deriving DecidableEq, Repr

def DecryptError.message (w : Wording) : DecryptError → String
  | legacy =>
    "legacy PEM encryption (Proc-Type: 4,ENCRYPTED) is not supported, convert the key to encrypted PKCS#8"
  | noPassword => "key is encrypted but no password was provided"
  | scheme e => e.message
  | noElement => s!"PKCS#8 ASN.1 error: {w.der}"
  | malformed e => s!"decrypted key is malformed ({e.message w})"

inductive Error where
  | parse (e : ParseError)
  | decrypt (e : DecryptError)
  /-- A well-formed key of another algorithm. -/
  | unsupported (algorithm : Oid)
  deriving DecidableEq, Repr

/-! ## Elliptic curve keys -/

def curveAlgorithm : Oid := .ofArcs [1, 2, 840, 10045, 2, 1]

/-- A key on some curve, as the older form keeps it: the secret number and perhaps the public point. -/
structure EcKey where
  secret : Bytes
  point : Option Bytes
  deriving DecidableEq, Repr

/-- The curve that the key may name is not looked at. -/
def ecFields : Der.Reader EcKey := do
  let version ← Der.natural
  Der.require (version = 1)
  let secret ← Der.octetString
  let _ ← Der.explicit 0 Der.oid
  let point ← Der.explicit 1 (do
    let contents ← Der.contentsOf 0x03
    Der.ofOption (Der.wholeBits? contents))
  pure ⟨secret, point⟩

/-- The public point of a sound key on `c`: its number is in range, and a point kept with it is its own. -/
def EcKey.point? (c : Curve) (k : EcKey) : Option (Nat × Nat × Nat) :=
  (c.secret? k.secret).bind fun n =>
    let xy := c.coordinates (c.multiply n)
    match k.point with
    | none => some (n, xy)
    | some p => if p = c.uncompressed xy ∨ p = c.compressed xy then some (n, xy) else none

def ecKey? (c : Curve) (b : Bytes) : Option (Nat × Nat × Nat) :=
  ((Der.sequence ecFields).whole? b).bind (EcKey.point? c)

def ecPublicKey (c : Curve) (xy : Nat × Nat) : Bytes :=
  Der.Write.sequence [Der.Write.sequence [Der.Write.oid curveAlgorithm, Der.Write.oid c.oid],
    Der.Write.bitString (c.uncompressed xy)]

/-- Plain PKCS#8 around an inner key. -/
def wrap (algorithm inner : Bytes) : Bytes :=
  Der.Write.sequence [Der.Write.natural 0, algorithm, Der.Write.octetString inner]

/-- The secret at its full size with the public point, under the name of the curve. -/
def ecEncode (c : Curve) (secret : Nat) (xy : Nat × Nat) : Bytes :=
  wrap (Der.Write.sequence [Der.Write.oid curveAlgorithm, Der.Write.oid c.oid])
    (Der.Write.sequence [Der.Write.natural 1, Der.Write.octetString (Bytes.ofNat c.size secret),
      Der.Write.explicit 1 (Der.Write.bitString (c.uncompressed xy))])

/-! ## Plain PKCS#8 -/

/-- A key of any algorithm. -/
structure Info where
  algorithm : Der.Algorithm
  key : Bytes
  deriving DecidableEq, Repr

/-- A public half belongs to version one and to no other; further fields are passed over. -/
def infoFields : Der.Reader Info := do
  let version ← Der.natural
  Der.require (version ≤ 1)
  let algorithm ← Der.algorithm
  let key ← Der.octetString
  let publicKey ← Der.implicit 1
  match publicKey with
  | none => Der.require (version = 0)
  | some contents => Der.require (version = 1 && (Der.wholeBits? contents).isSome)
  let _ ← Der.many (do
    let e ← Der.element
    Der.require (Der.isContext e.tag && e.tag &&& 0x20 != 0)
    Der.ofOption (Der.element.whole? e.contents))
  pure ⟨algorithm, key⟩

def info? (b : Bytes) : Option Info := (Der.sequence infoFields).whole? b

/-- The RSA key inside, if the algorithm says so. -/
def Info.rsa? (i : Info) : Option RsaKey :=
  if i.algorithm.oid = RsaKey.oid ∧ i.algorithm.parameters.any Der.Element.isNull then RsaKey.parse? i.key
  else none

/-- The public point on `c` of the key inside, if the algorithm names that curve. -/
def Info.ec? (c : Curve) (i : Info) : Option (Nat × Nat) :=
  if i.algorithm.oid = curveAlgorithm ∧
      (i.algorithm.parameters.any fun p => p.tag = 0x06 && Der.oid? p.contents = some c.oid) then
    (ecKey? c i.key).map (·.2)
  else none

/-- A key as plain PKCS#8, kept octet for octet. -/
def ofPkcs8 (b : Bytes) : Except Error PrivateKey :=
  match info? b with
  | none => .error (.parse .pkcs8)
  | some i =>
    match i.rsa?, i.ec? .p256, i.ec? .p384 with
    | some k, _, _ => .ok ⟨.rsa, b, k.publicKey⟩
    | none, some xy, _ => .ok ⟨.p256, b, ecPublicKey .p256 xy⟩
    | none, none, some xy => .ok ⟨.p384, b, ecPublicKey .p384 xy⟩
    | none, none, none => .error (.unsupported i.algorithm.oid)

/-! ## The other forms -/

/-- An RSA key in the older form, written anew as PKCS#8. -/
def ofPkcs1 (b : Bytes) : Except Error PrivateKey :=
  match RsaKey.parse? b with
  | none => .error (.parse .pkcs1)
  | some k =>
    match k.encode? with
    | none => .error (.parse .rsaPrimes)
    | some inner =>
      let encoded := wrap RsaKey.algorithm inner
      if encoded.length ≤ Der.maxLength then .ok ⟨.rsa, encoded, k.publicKey⟩ else .error (.parse .rsaLength)

/-- A curve key in the older form, written anew as PKCS#8. The first curve that it fits is taken. -/
def ofSec1 (b : Bytes) : Except Error PrivateKey :=
  match ecKey? .p256 b with
  | some (n, xy) => .ok ⟨.p256, ecEncode .p256 n xy, ecPublicKey .p256 xy⟩
  | none =>
    match ecKey? .p384 b with
    | some (n, xy) => .ok ⟨.p384, ecEncode .p384 n xy, ecPublicKey .p384 xy⟩
    | none => .error (.parse .curve)

def encryptedFields : Der.Reader (Pbes2.Scheme × Bytes) := do
  let a ← Der.algorithm
  let s ← Der.ofOption (Pbes2.scheme? a)
  let text ← Der.octetString
  pure (s, text)

def container? (b : Bytes) : Option (Pbes2.Scheme × Bytes) := (Der.sequence encryptedFields).whole? b

/-- Whether `b` is one sequence and nothing more. -/
def isSequence (b : Bytes) : Bool := ((Der.contentsOf 0x30).whole? b).isSome

/-- The octets of an encrypted key. Without a password the container is not looked at. -/
def decrypt (b : Bytes) (password : Option String) : Except Error Bytes :=
  match password.filter (· ≠ "") with
  | none => .error (.decrypt .noPassword)
  | some password =>
    match container? b with
    | none => .error (.parse .container)
    | some (scheme, text) =>
      match scheme.decrypt (Bytes.ofString password) text with
      | .error e => .error (.decrypt (.scheme e))
      | .ok plain => if isSequence plain then .ok plain else .error (.decrypt .noElement)

/-- A wrong password can leave well-formed padding, so a decrypted key that does not parse counts as not
decrypted. -/
def Error.ofDecrypted : Error → Error
  | .parse e => .decrypt (.malformed e)
  | e => e

def isLegacyEncrypted (p : Pem) : Bool :=
  match p.header? "Proc-Type" with
  | some v => (v.splitOn "ENCRYPTED").length ≠ 1
  | none => false

def ofBlock (p : Pem) (password : Option String) : Except Error PrivateKey :=
  if isLegacyEncrypted p then .error (.decrypt .legacy)
  else if p.tag = "PRIVATE KEY" then ofPkcs8 p.contents
  else if p.tag = "ENCRYPTED PRIVATE KEY" then do
    let plain ← decrypt p.contents password
    (ofPkcs8 plain).mapError Error.ofDecrypted
  else if p.tag = "RSA PRIVATE KEY" then ofPkcs1 p.contents
  else if p.tag = "EC PRIVATE KEY" then ofSec1 p.contents
  else .error (.parse (.blockType p.tag))

def parse (text : String) (password : Option String) : Except Error PrivateKey :=
  match Pem.parse text with
  | .error e => .error (.parse (.pem e))
  | .ok p => ofBlock p password

def matchesPublicKey (k : PrivateKey) (publicKey : Bytes) : Bool := k.publicKey = publicKey

end PrivateKey
end CertRotation
