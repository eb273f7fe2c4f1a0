import CertRotation.Bundle.Basic

/-!
# Packaging PEM material

`Material` as it comes from PEM files is checked part by part and then written as one keystore. Nothing is written
unless every certificate and the key are sound and belong together.
-/
namespace CertRotation

/-- Certificate, key and chain as PEM text. -/
structure PemMaterial where
  certificate : String
  privateKey : String
  /-- Issuers, that of the leaf first. -/
  chain : List String := []
  /-- Password of an encrypted key; if it is missing, the bundle's is tried. -/
  keyPassword : Option String := none
  deriving DecidableEq, Repr

namespace PemMaterial

/-- The certificates of a chain, or the first fault with its place; `index` is the place of the first entry. -/
def decodeChainFrom (index : Nat) : List String → Except Bundle.Error (List Bytes)
  | [] => .ok []
  | text :: rest => do
    let der ← (Certificate.ofPem text).mapError (.chainEntry index)
    let ders ← decodeChainFrom (index + 1) rest
    pure (der :: ders)

def decodeChain (chain : List String) : Except Bundle.Error (List Bytes) := decodeChainFrom 0 chain

/-- Whether an encoded certificate carries the public half of `k`. -/
def keysMatch (der : Bytes) (k : PrivateKey) : Except Bundle.Error Bool := do
  let c ← (Certificate.parse der).mapError fun e => .certificate (.certificate e)
  pure (k.matchesPublicKey c.publicKey)

def parseKey (m : PemMaterial) (password : String) : Except Bundle.Error PrivateKey :=
  (PrivateKey.parse m.privateKey (some (m.keyPassword.getD password))).mapError Bundle.Error.ofKey

def toBundle (m : PemMaterial) (password : String) : Except Bundle.Error Bundle := do
  if password = "" then throw .missingPassword
  if Text.isBlankText m.certificate then throw (.missingMaterial .certificate)
  if Text.isBlankText m.privateKey then throw (.missingMaterial .privateKey)
  let leaf ← (Certificate.ofPem m.certificate).mapError .certificate
  let chain ← decodeChain m.chain
  let key ← m.parseKey password
  if ¬ (← keysMatch leaf key) then throw .keyMismatch
  pure ⟨key.encoded, leaf, chain⟩

def package (seeds : Keystore.Seeds) (m : PemMaterial) (password : String) : Except Bundle.Error Bytes := do
  let b ← m.toBundle password
  b.encode seeds password

end PemMaterial
end CertRotation
