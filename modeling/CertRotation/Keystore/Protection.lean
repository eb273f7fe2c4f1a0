import CertRotation.Cipher.Rc2
import CertRotation.Cipher.TripleDes
import CertRotation.Encryption.Pbes2
import CertRotation.KeyDerivation.Pkcs12
import CertRotation.Text.Utf16
import CertRotation.Wording

/-!
# Protection of keystores

A password protects a keystore twice: its contents are encrypted, and a keyed hash over all of it guards against
changes. Both come in several kinds; what is written uses one kind of each.
-/
namespace CertRotation.Keystore

/-- Why a keystore could not be read. -/
inductive Error where
  /-- No well-formed keystore. -/
  | malformed
  /-- A stored certificate is none. -/
  | certificate
  /-- The password has characters that its encoding cannot carry. -/
  | password
  | version
  | integrity
  | contentType
  | certificateType
  | scheme
  | parameters
  | padding
  | encryption (e : Pbes2.Error)
  deriving DecidableEq, Repr

def Error.message (w : Wording) : Error → String
  | malformed => w.keystore
  | certificate => w.keystore
  | password => w.keystore
  | version => "Invalid PFX version"
  | integrity => "MAC tag mismatch"
  | contentType => "Unsupported ContentType"
  | certificateType => "Unsupported certiticate type"
  | scheme => "Unsupported encryption scheme"
  | parameters => "Invalid parameters"
  | padding => "Unpad error"
  | encryption e => e.message

def orError {α : Type} (e : Error) : Option α → Except Error α
  | some a => .ok a
  | none => .error e

/-- The password as the older key derivation takes it: UTF-16 with a zero unit at the end. -/
def passwordUnits? (password : String) : Option Bytes :=
  (Utf16.encodeBasic? password).map fun b => b ++ [0, 0]

/-! ## Encryption -/

/-- Ciphers of the older kind. -/
inductive OldCipher where
  | tripleDes
  | rc2
  deriving DecidableEq, Repr

namespace OldCipher

def ofOid? (o : Oid) : Option OldCipher :=
  if o = .ofArcs [1, 2, 840, 113549, 1, 12, 1, 3] then some tripleDes
  else if o = .ofArcs [1, 2, 840, 113549, 1, 12, 1, 6] then some rc2
  else none

def keySize : OldCipher → Nat
  | tripleDes => 24
  | rc2 => 5

def cipher : OldCipher → (key : Bytes) → BlockCipher
  | tripleDes => TripleDes.cipher
  | rc2 => Rc2.cipher

/-- Key and initial vector come from the password alike. -/
def decrypt? (c : OldCipher) (password salt : Bytes) (rounds : Nat) (text : Bytes) : Option Bytes :=
  let key := Pkcs12Kdf.derive sha1 .key password salt rounds c.keySize
  let iv := Pkcs12Kdf.derive sha1 .iv password salt rounds 8
  Cbc.decrypt (c.cipher key) iv text

def parameters : Der.Reader (Bytes × Nat) := do
  let salt ← Der.octetString
  let rounds ← Der.integer32
  pure (salt, rounds.toNat)

end OldCipher

def decrypt (a : Der.Algorithm) (password : String) (text : Bytes) : Except Error Bytes :=
  if a.oid = Pbes2.schemeOid then do
    let _ ← orError .parameters a.parameters
    let s ← orError .malformed (Pbes2.scheme? a)
    (s.decrypt (Bytes.ofString password) text).mapError .encryption
  else do
    let c ← orError .scheme (OldCipher.ofOid? a.oid)
    let p ← orError .parameters a.parameters
    let (salt, rounds) ← orError .malformed (p.within? 0x30 OldCipher.parameters)
    let units ← orError .password (passwordUnits? password)
    orError .padding (c.decrypt? units salt rounds text)

/-! ## Integrity -/

/-- A keyed hash over the contents. -/
structure Mac where
  hash : Oid
  digest : Bytes
  salt : Bytes
  rounds : Int
  deriving DecidableEq, Repr

namespace Mac

def sha1Oid : Oid := .ofArcs [1, 3, 14, 3, 2, 26]
def sha256Oid : Oid := .ofArcs [2, 16, 840, 1, 101, 3, 4, 2, 1]

/-- The hash, its digest, the salt, and the rounds, one if they are not given. -/
def reader : Der.Reader Mac := Der.sequence do
  let (a, digest) ← Der.sequence do
    let a ← Der.algorithm
    let digest ← Der.octetString
    pure (a, digest)
  let salt ← Der.octetString
  let rounds ← Der.optional 0x02 Der.integer32
  pure ⟨a.oid, digest, salt, rounds.getD 1⟩

/-- The keyed hash of `contents` under a key derived from `password`. -/
def compute {σ : Type} (H : Hash σ) (password salt : Bytes) (rounds : Nat) (contents : Bytes) : Bytes :=
  hmac H (Pkcs12Kdf.derive H .mac password salt rounds H.digestSize) contents

def digestFor (hash : Oid) (password : String) (salt : Bytes) (rounds : Nat) (contents : Bytes) :
    Except Error Bytes :=
  if hash = sha1Oid then do
    let units ← orError .password (passwordUnits? password)
    pure (compute sha1 units salt rounds contents)
  else if hash = sha256Oid then do
    let units ← orError .password (passwordUnits? password)
    pure (compute sha256 units salt rounds contents)
  else .error .scheme

def check (m : Mac) (password : String) (contents : Bytes) : Except Error Unit := do
  let digest ← digestFor m.hash password m.salt m.rounds.toNat contents
  if digest = m.digest then pure () else throw .integrity

def encode (m : Mac) : Bytes :=
  Der.Write.sequence [
    Der.Write.sequence [Der.Write.sequence [Der.Write.oid m.hash, Der.Write.null], Der.Write.octetString m.digest],
    Der.Write.octetString m.salt, Der.Write.natural m.rounds.toNat]

end Mac
end CertRotation.Keystore
