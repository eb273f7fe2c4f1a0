import CertRotation.Certificate.Basic
import CertRotation.Pem.Blocks
import CertRotation.Wording

/-!
# Certificates in PEM

`Certificate.ofPem` takes the first block of a text, which must hold exactly one certificate. That the armour is
wrong and that its contents are wrong are told apart.
-/
namespace CertRotation.Certificate

def pemTag : String := "CERTIFICATE"

/-- Why a text holds no certificate. -/
inductive Error where
  | pem (e : Pem.Error)
  | blockType (tag : String)
  | certificate (e : ParseError)
  /-- The file at `path` is cut off or malformed. -/
  | file (path : String) (e : Pem.BlocksError)
  deriving DecidableEq, Repr

def ParseError.message (w : Wording) : ParseError → String
  | malformed => w.certificate
  | trailing n => s!"{n} trailing bytes after certificate"

def Error.message (w : Wording) : Error → String
  | pem e => s!"missing certificate PEM: {e.message}"
  | blockType tag => s!"missing certificate PEM: expected a {pemTag} block, found {tag}"
  | certificate e => s!"failed to parse certificate bytes to X.509 certificate: {e.message w}"
  | file path e => s!"missing certificate PEM: {path}: {e.message}"

/-- The encoded certificate in the first block of `text`. -/
def ofPem (text : String) : Except Error Bytes := do
  let block ← (Pem.parse text).mapError .pem
  if block.tag ≠ pemTag then throw (.blockType block.tag)
  let _ ← (parse block.contents).mapError .certificate
  pure block.contents

end CertRotation.Certificate
