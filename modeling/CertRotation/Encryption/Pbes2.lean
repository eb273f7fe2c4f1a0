import CertRotation.Asn1.Der
import CertRotation.Asn1.Write
import CertRotation.Cipher.Aes
import CertRotation.KeyDerivation.Scrypt

/-!
# Password based encryption of PKCS#5

The second scheme derives a key by an iterated keyed hash or by scrypt and encrypts with AES in blocks. The first
scheme is recognised, but its ciphers are too weak to be used.
-/
namespace CertRotation.Pbes2

/-- How the key comes from the password. -/
inductive Derivation where
  | pbkdf2 (salt : Bytes) (rounds : Nat) (keySize : Option Nat) (hash : HashName)
  | scrypt (salt : Bytes) (cost blockSize lanes : Nat) (keySize : Option Nat)
  deriving DecidableEq, Repr

inductive Scheme where
  /-- AES with a key of `keySize` octets. -/
  | aes (derivation : Derivation) (keySize : Nat) (iv : Bytes)
  /-- A cipher of the first scheme. -/
  | weak
  deriving DecidableEq, Repr

inductive Error where
  | unsupported (oid : Oid)
  | parameters (oid : Oid)
  /-- A wrong password, most of the time. -/
  | decryption
  | weak
  deriving DecidableEq, Repr

def Error.message : Error → String
  | unsupported o => s!"PKCS#5 algorithm {o.dotted} is unsupported"
  | parameters o => s!"PKCS#5 parameters for algorithm {o.dotted} are invalid"
  | decryption => "PKCS#5 encryption failed"
  | weak => "PKCS#5 encryption/decryption unsupported for PBES1 (won't fix)"

def schemeOid : Oid := .ofArcs [1, 2, 840, 113549, 1, 5, 13]
def pbkdf2Oid : Oid := .ofArcs [1, 2, 840, 113549, 1, 5, 12]
def scryptOid : Oid := .ofArcs [1, 3, 6, 1, 4, 1, 11591, 4, 11]

def hashes : List (Oid × HashName) :=
  [(.ofArcs [1, 2, 840, 113549, 2, 7], .sha1), (.ofArcs [1, 2, 840, 113549, 2, 8], .sha224),
   (.ofArcs [1, 2, 840, 113549, 2, 9], .sha256), (.ofArcs [1, 2, 840, 113549, 2, 10], .sha384),
   (.ofArcs [1, 2, 840, 113549, 2, 11], .sha512)]

def ciphers : List (Oid × Nat) :=
  [(.ofArcs [2, 16, 840, 1, 101, 3, 4, 1, 2], 16), (.ofArcs [2, 16, 840, 1, 101, 3, 4, 1, 22], 24),
   (.ofArcs [2, 16, 840, 1, 101, 3, 4, 1, 42], 32)]

def weakSchemes : List Oid :=
  [1, 3, 4, 6, 10, 11].map fun n => .ofArcs [1, 2, 840, 113549, 1, 5, n]

/-- The keyed hash, which needs empty parameters. -/
def hash? (a : Der.Algorithm) : Option HashName :=
  match a.parameters with
  | some p => if p.isNull then hashes.lookup a.oid else none
  | none => none

def pbkdf2Fields : Der.Reader Derivation := do
  let salt ← Der.octetString
  let rounds ← Der.naturalBelow 0x100000000
  let keySize ← Der.optional 0x02 (Der.naturalBelow 0x10000)
  let hash ← Der.optional 0x30 (do
    let a ← Der.algorithm
    Der.ofOption (hash? a))
  pure (.pbkdf2 salt rounds keySize (hash.getD .sha1))

def scryptFields : Der.Reader Derivation := do
  let salt ← Der.octetString
  let cost ← Der.naturalBelow 0x10000000000000000
  let blockSize ← Der.naturalBelow 0x10000
  let lanes ← Der.naturalBelow 0x10000
  let keySize ← Der.optional 0x02 (Der.naturalBelow 0x10000)
  pure (.scrypt salt cost blockSize lanes keySize)

def derivation? (a : Der.Algorithm) : Option Derivation :=
  a.parameters.bind fun p =>
    if a.oid = pbkdf2Oid then p.within? 0x30 pbkdf2Fields
    else if a.oid = scryptOid then p.within? 0x30 scryptFields
    else none

def cipher? (a : Der.Algorithm) : Option (Nat × Bytes) :=
  a.parameters.bind fun p =>
    if p.tag = 0x04 ∧ p.contents.length = 16 then (ciphers.lookup a.oid).map (·, p.contents) else none

def fields : Der.Reader Scheme := do
  let a ← Der.algorithm
  let b ← Der.algorithm
  let d ← Der.ofOption (derivation? a)
  let (keySize, iv) ← Der.ofOption (cipher? b)
  pure (.aes d keySize iv)

/-- A salt of eight octets and a number of rounds. -/
def weakFields : Der.Reader Scheme := do
  let salt ← Der.octetString
  Der.require (salt.length = 8)
  let _ ← Der.naturalBelow 0x10000
  pure .weak

def scheme? (a : Der.Algorithm) : Option Scheme :=
  a.parameters.bind fun p =>
    if a.oid = schemeOid then p.within? 0x30 fields
    else if weakSchemes.contains a.oid then p.within? 0x30 weakFields
    else none

/-- Derivation parameters that scrypt can work with. -/
def scryptIsSound (cost blockSize lanes : Nat) : Bool :=
  0 < cost && Nat.pow 2 (Nat.log2 cost) = cost && 0 < blockSize && 0 < lanes && Nat.log2 cost < 16 * blockSize &&
    blockSize * lanes < 0x40000000

def Derivation.keySize : Derivation → Option Nat
  | .pbkdf2 _ _ n _ => n
  | .scrypt _ _ _ _ n => n

def Derivation.oid : Derivation → Oid
  | .pbkdf2 .. => pbkdf2Oid
  | .scrypt .. => scryptOid

/-- A key of `size` octets. A stated key size must be the same, and SHA-1 is refused. -/
def Derivation.key (d : Derivation) (password : Bytes) (size : Nat) : Except Error Bytes :=
  if d.keySize.getD size ≠ size then .error (.parameters d.oid)
  else
    match d with
    | .pbkdf2 _ _ _ .sha1 => .error (.unsupported (.ofArcs [1, 2, 840, 113549, 2, 7]))
    | .pbkdf2 salt rounds _ hash => .ok (hash.pbkdf2 password salt rounds size)
    | .scrypt salt cost blockSize lanes _ =>
      if scryptIsSound cost blockSize lanes then .ok (Scrypt.derive password salt cost blockSize lanes size)
      else .error (.parameters scryptOid)

def Scheme.decrypt (s : Scheme) (password text : Bytes) : Except Error Bytes :=
  match s with
  | .weak => .error .weak
  | .aes d size iv => do
    let key ← d.key password size
    match Cbc.decrypt (Aes.cipher key) iv text with
    | some plain => .ok plain
    | none => .error .decryption

/-! ## Encryption -/

/-- The parts of an encryption that have to be fresh each time. -/
structure Seed where
  salt : Bytes
  iv : Bytes
  deriving DecidableEq, Repr

/-- The initial vector: the first sixteen octets of `iv`, zeros where it has fewer. -/
def Seed.vector (s : Seed) : Bytes := (s.iv ++ List.replicate 16 0).take 16

def rounds : Nat := 10000

def sha256Oid : Oid := .ofArcs [1, 2, 840, 113549, 2, 9]
def aes256Oid : Oid := .ofArcs [2, 16, 840, 1, 101, 3, 4, 1, 42]

/-- What is written is encrypted with AES under a key of 256 bits, derived with SHA-256. -/
def Seed.scheme (s : Seed) : Scheme := .aes (.pbkdf2 s.salt rounds none .sha256) 32 s.vector

def Seed.algorithm (s : Seed) : Bytes :=
  Der.Write.sequence [Der.Write.oid schemeOid, Der.Write.sequence [
    Der.Write.sequence [Der.Write.oid pbkdf2Oid, Der.Write.sequence [
      Der.Write.octetString s.salt, Der.Write.natural rounds,
      Der.Write.sequence [Der.Write.oid sha256Oid, Der.Write.null]]],
    Der.Write.sequence [Der.Write.oid aes256Oid, Der.Write.octetString s.vector]]]

def Seed.encrypt (s : Seed) (password plain : Bytes) : Bytes :=
  Cbc.encrypt (Aes.cipher (HashName.sha256.pbkdf2 password s.salt rounds 32)) s.vector plain

end CertRotation.Pbes2
