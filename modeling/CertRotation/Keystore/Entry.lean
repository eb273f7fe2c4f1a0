import CertRotation.Keystore.Item

/-!
# Entries of a keystore

Items stand side by side; entries tell what belongs together. A key belongs to the first certificate with its
identifier, and with that certificate go its issuers as far as they are stored. Entries have aliases, and are kept
in their order.
-/
namespace CertRotation.Keystore

/-- A key with its certificates, or a certificate of its own. -/
inductive Entry where
  | keyChain (key : Bytes) (certificates : List Bytes)
  | certificate (der : Bytes)
  deriving DecidableEq, Repr

abbrev Entries := List (String × Entry)

def insert (label : String) (e : Entry) : Entries → Entries
  | [] => [(label, e)]
  | (a, x) :: rest =>
    if label < a then (label, e) :: (a, x) :: rest
    else if label = a then (label, e) :: rest
    else (a, x) :: insert label e rest

/-- The certificates on the way from one issued by `issuer` to a self-issued one. Each is the first with the
wanted subject; one with the subject of the leaf ends the way. At most `fuel` are taken. -/
def issuers (candidates : List StoredCertificate) (leafSubject : String) :
    (fuel : Nat) → (issuer : String) → List StoredCertificate
  | 0, _ => []
  | fuel + 1, issuer =>
    match candidates.find? fun c => c.subject = issuer with
    | none => []
    | some c =>
      if c.subject = leafSubject then []
      else if c.issuer = c.subject then [c]
      else c :: issuers candidates leafSubject fuel c.issuer

/-- A leaf and its issuers among the certificates that are not trusted on their own. Every step leads to another
subject, so that their number bounds the steps. -/
def chainFrom (certificates : List StoredCertificate) (leaf : StoredCertificate) : List StoredCertificate :=
  let candidates := certificates.filter fun c => !c.attributes.trusted
  leaf :: issuers candidates leaf.subject candidates.length leaf.issuer

def ownCertificate? (certificates : List StoredCertificate) (k : StoredKey) : Option StoredCertificate :=
  match k.attributes.localKeyId with
  | none => none
  | some id => certificates.find? fun c => c.attributes.localKeyId = some id

/-- The entry of a key, named by itself or by its certificate. A key without a certificate has none. -/
def entryOfKey? (certificates : List StoredCertificate) (k : StoredKey) : Option (String × Entry) :=
  (ownCertificate? certificates k).map fun leaf =>
    (k.attributes.friendlyName.getD leaf.subject,
      .keyChain k.key ((chainFrom certificates leaf).map (·.der)))

/-- The entry of a certificate that is trusted on its own and belongs to no key. -/
def entryOfCertificate? (c : StoredCertificate) : Option (String × Entry) :=
  if c.attributes.trusted ∧ c.attributes.localKeyId = none then
    some (c.attributes.friendlyName.getD c.subject, .certificate c.der)
  else none

def certificatesOf (items : List Item) : List StoredCertificate :=
  items.filterMap fun
    | .certificate c => some c
    | .key _ => none

def keysOf (items : List Item) : List StoredKey :=
  items.filterMap fun
    | .key k => some k
    | .certificate _ => none

def entriesOf (items : List Item) : Entries :=
  let certificates := certificatesOf items
  let named := (keysOf items).filterMap (entryOfKey? certificates) ++ certificates.filterMap entryOfCertificate?
  named.foldl (fun entries e => insert e.1 e.2 entries) []

end CertRotation.Keystore
