import CertRotation.Bundle.Format
import CertRotation.Certificate.Pem
import CertRotation.Certificate.Summary
import CertRotation.Key.PrivateKey
import CertRotation.Keystore.Basic

/-!
# Bundles

A bundle is a private key with its certificate and the issuers of that. `Bundle.decode` finds these parts in a
keystore whose certificates may stand in any order; `Bundle.encode` writes a keystore that holds them.
-/
namespace CertRotation

/-- A key, its certificate and further certificates, the issuers first. -/
structure Bundle where
  /-- Plain PKCS#8. -/
  privateKey : Bytes
  certificate : Bytes
  chain : List Bytes
  deriving DecidableEq, Repr

namespace Bundle

/-! ## Finding the leaf and the order -/

/-- The key, if it is one whose public half is known. -/
def inspectKey? (key : Bytes) : Option PrivateKey := (PrivateKey.ofPkcs8 key).toOption

def belongsTo (k : PrivateKey) (der : Bytes) : Bool :=
  match Certificate.parse der with
  | .ok c => k.matchesPublicKey c.publicKey
  | .error _ => false

/-- The place of the first certificate for the key, or the first place if there is none. -/
def leafIndex (key : Bytes) (certificates : List Bytes) : Nat :=
  match inspectKey? key with
  | none => 0
  | some k => (certificates.findIdx? (belongsTo k)).getD 0

/-- The encoded name of whoever issued the certificate at the front of `der`. -/
def issuerName? (der : Bytes) : Option Bytes := (Certificate.read? der).map fun (c, _) => c.issuer.raw

def subjectName? (der : Bytes) : Option Bytes := (Certificate.read? der).map fun (c, _) => c.subject.raw

/-- The first of `rest` whose subject is the issuer of `current`, other than `current` itself, with all the
others. -/
def takeIssuer? (current : Bytes) (rest : List Bytes) : Option (Bytes × List Bytes) :=
  match issuerName? current with
  | none => none
  | some issuer =>
    match rest.find? fun der => subjectName? der = some issuer && der ≠ current with
    | none => none
    | some next => some (next, rest.erase next)

theorem length_of_takeIssuer? {current next : Bytes} {rest others : List Bytes}
    (h : takeIssuer? current rest = some (next, others)) : others.length < rest.length := by
  unfold takeIssuer? at h
  split at h
  · simp at h
  · split at h
    · simp at h
    · rename_i hf
      have hmem := List.mem_of_find?_eq_some hf
      simp only [Option.some.injEq, Prod.mk.injEq] at h
      rw [← h.2, List.length_erase_of_mem hmem]
      exact Nat.sub_lt (List.length_pos_of_mem hmem) Nat.one_pos

/-- Follow the issuers from `leaf`; certificates off that way keep their order at the end. -/
def orderChain (leaf : Bytes) (rest : List Bytes) : List Bytes :=
  match _h : takeIssuer? leaf rest with
  | none => rest
  | some (next, others) => next :: orderChain next others
termination_by rest.length
decreasing_by exact length_of_takeIssuer? _h

/-! ## Entries -/

/-- Why entries make no bundle. -/
inductive EntriesError where
  | noPrivateKey
  | noCertificate
  deriving DecidableEq, Repr

def keyOf? : List Keystore.Entry → Option Bytes
  | [] => none
  | .keyChain key _ :: _ => some key
  | .certificate _ :: rest => keyOf? rest

/-- All certificates in order, those beside keys and those on their own. -/
def certificatesOf (entries : List Keystore.Entry) : List Bytes :=
  entries.flatMap fun
    | .keyChain _ certificates => certificates
    | .certificate der => [der]

def ofEntries (entries : List Keystore.Entry) : Except EntriesError Bundle :=
  match keyOf? entries with
  | none => .error .noPrivateKey
  | some key =>
    let certificates := (certificatesOf entries).eraseDups
    let i := leafIndex key certificates
    match certificates[i]? with
    | none => .error .noCertificate
    | some leaf => .ok ⟨key, leaf, orderChain leaf (certificates.eraseIdx i)⟩

/-! ## Keystores -/

/-- Parts of the material that a bundle is made of. -/
inductive Material where
  | certificate
  | privateKey
  deriving DecidableEq, Repr

def Material.text : Material → String
  | certificate => "certificate"
  | privateKey => "private key"

/-- Why a bundle could not be read. -/
inductive DecodeError where
  /-- The file may be of another format, if that can be told. -/
  | keystore (e : Keystore.Error) (format : Option Format)
  | entries (e : EntriesError)
  deriving DecidableEq, Repr

def DecodeError.message (w : Wording) : DecodeError → String
  | keystore e none => e.message w
  | keystore e (some f) => s!"{e.message w} (file looks like {f.text})"
  | entries .noPrivateKey => "bundle contains no private key"
  | entries .noCertificate => "bundle contains no certificate"

/-- Why a bundle could not be written. -/
inductive EncodeError where
  | key (algorithm : Oid)
  /-- What is to be stored as a certificate is none. -/
  | certificate
  /-- The password or a subject does not fit the encoding of keystores. -/
  | keystore
  deriving DecidableEq, Repr

def EncodeError.message (w : Wording) : EncodeError → String
  | key o => s!"unsupported private key algorithm {o.dotted}"
  | certificate => s!"Failed to load certificate for PKCS#12: {w.certificate}"
  | keystore => w.keystore

inductive Error where
  | missingPassword
  | missingMaterial (m : Material)
  | certificate (e : Certificate.Error)
  | chainEntry (index : Nat) (e : Certificate.Error)
  | keyParse (e : PrivateKey.ParseError)
  | keyDecrypt (e : PrivateKey.DecryptError)
  | keyMismatch
  | encode (e : EncodeError)
  | decode (e : DecodeError)
  deriving DecidableEq, Repr

def Error.message (w : Wording) : Error → String
  | missingPassword => "PKCS#12 password is required"
  | missingMaterial m => s!"certificate and private key are required for PKCS#12: {m.text} is empty"
  | certificate e => e.message w
  | chainEntry i e => s!"chain certificate #{i} is invalid: {e.message w}"
  | keyParse e => s!"failed to parse private key: {e.message w}"
  | keyDecrypt e => s!"failed to decrypt private key: {e.message w}"
  | keyMismatch => "private key does not match the leaf certificate"
  | encode e => s!"PKCS#12 encode error: {e.message w}"
  | decode e => s!"failed to decode PKCS#12 bundle: {e.message w}"

def Error.ofKey : PrivateKey.Error → Error
  | .parse e => .keyParse e
  | .decrypt e => .keyDecrypt e
  | .unsupported o => .encode (.key o)

/-- Another format than the expected one, if `data` has it. -/
def otherFormat? (data : Bytes) : Option Format := (Format.detect? data).filter (· ≠ .pkcs12)

def decode (data : Bytes) (password : String) : Except Error Bundle :=
  match Keystore.read data password with
  | .error e => .error (.decode (.keystore e (otherFormat? data)))
  | .ok entries => (ofEntries (entries.map (·.2))).mapError fun e => .decode (.entries e)

def label : String := "certificate"

def stored (der : Bytes) : Except Error Keystore.StoredCertificate :=
  match Keystore.StoredCertificate.ofDer? der {} with
  | some c => .ok c
  | none => .error (.encode .certificate)

/-- A keystore file that holds the bundle. The digest of its certificate ties the key to it. -/
def encode (seeds : Keystore.Seeds) (b : Bundle) (password : String) : Except Error Bytes := do
  if password = "" then throw .missingPassword
  let certificates ← (b.certificate :: b.chain).mapM stored
  match Keystore.write seeds password label b.privateKey (sha256.digest b.certificate) certificates with
  | some data => pure data
  | none => throw (.encode .keystore)

/-! ## Summaries -/

def summaryOf (der : Bytes) : Except Error Certificate.Summary :=
  (Certificate.summary der).mapError fun e => .certificate (.certificate e)

def leafSummary (b : Bundle) : Except Error Certificate.Summary := summaryOf b.certificate

def chainSummaries (b : Bundle) : Except Error (List Certificate.Summary) := b.chain.mapM summaryOf

end Bundle
end CertRotation
