import CertRotation.Asn1.Tolerant
import CertRotation.Text.Utf8
import CertRotation.Text.Utf16

/-!
# Distinguished names

A name is a list of sets of attributes. `Name.text` writes it from the most significant part on, with keys
for the attribute types it knows.
-/
namespace CertRotation.Certificate

open Asn1

structure Attribute where
  type : Oid
  /-- The tag number of the value. -/
  form : Nat
  value : Bytes
  deriving DecidableEq, Repr

structure Name where
  /-- The attribute sets, most significant first. -/
  parts : List (List Attribute)
  /-- The encoding from which the parts were read, without anything that follows the last of them. -/
  raw : Bytes
  deriving DecidableEq, Repr

def shortKeys : List (Oid × String) :=
  [(.ofArcs [2, 5, 4, 3], "CN"), (.ofArcs [2, 5, 4, 6], "C"), (.ofArcs [2, 5, 4, 7], "L"),
   (.ofArcs [2, 5, 4, 8], "ST"), (.ofArcs [2, 5, 4, 10], "O"), (.ofArcs [2, 5, 4, 11], "OU"),
   (.ofArcs [0, 9, 2342, 19200300, 100, 1, 25], "DC"), (.ofArcs [1, 2, 840, 113549, 1, 9, 1], "Email")]

def longKeys : List (Oid × String) :=
  [(.ofArcs [2, 5, 4, 0], "objectClass"), (.ofArcs [2, 5, 4, 1], "aliasedEntryName"),
   (.ofArcs [2, 5, 4, 2], "knowledgeInformation"), (.ofArcs [2, 5, 4, 4], "surname"),
   (.ofArcs [2, 5, 4, 5], "serialNumber"), (.ofArcs [2, 5, 4, 9], "streetAddress"),
   (.ofArcs [2, 5, 4, 12], "title"), (.ofArcs [2, 5, 4, 13], "description"),
   (.ofArcs [2, 5, 4, 14], "searchGuide"), (.ofArcs [2, 5, 4, 15], "businessCategory"),
   (.ofArcs [2, 5, 4, 17], "postalCode"), (.ofArcs [2, 5, 4, 41], "name"),
   (.ofArcs [2, 5, 4, 42], "givenName"), (.ofArcs [2, 5, 4, 43], "initials"),
   (.ofArcs [2, 5, 4, 44], "generationQualifier"), (.ofArcs [2, 5, 4, 45], "uniqueIdentifier"),
   (.ofArcs [2, 5, 4, 46], "dnQualifier"),
   (.ofArcs [0, 9, 2342, 19200300, 100, 1, 1], "uid"),
   (.ofArcs [1, 2, 840, 113549, 1, 9, 2], "unstructuredName"),
   (.ofArcs [1, 2, 840, 113549, 1, 9, 3], "contentType"),
   (.ofArcs [1, 2, 840, 113549, 1, 9, 4], "id-messageDigest"),
   (.ofArcs [1, 2, 840, 113549, 1, 9, 5], "signing-time"),
   (.ofArcs [1, 2, 840, 113549, 1, 9, 7], "challengePassword"),
   (.ofArcs [1, 2, 840, 113549, 1, 9, 14], "extensionRequest"),
   (.ofArcs [1, 2, 840, 113549, 1, 9, 15], "smime-capabilities"),
   (.ofArcs [1, 2, 840, 113549, 1, 9, 20], "friendlyName"),
   (.ofArcs [1, 2, 840, 113549, 1, 1, 1], "rsaEncryption"),
   (.ofArcs [1, 2, 840, 113549, 1, 1, 2], "md2WithRSAEncryption"),
   (.ofArcs [1, 2, 840, 113549, 1, 1, 3], "md4WithRSAEncryption"),
   (.ofArcs [1, 2, 840, 113549, 1, 1, 4], "md5WithRSAEncryption"),
   (.ofArcs [1, 2, 840, 113549, 1, 1, 5], "sha1WithRSAEncryption"),
   (.ofArcs [1, 2, 840, 113549, 1, 1, 10], "rsassa-pss"),
   (.ofArcs [1, 2, 840, 113549, 1, 1, 11], "sha256WithRSAEncryption"),
   (.ofArcs [1, 2, 840, 113549, 1, 1, 12], "sha384WithRSAEncryption"),
   (.ofArcs [1, 2, 840, 113549, 1, 1, 13], "sha512WithRSAEncryption"),
   (.ofArcs [1, 2, 840, 113549, 1, 1, 14], "sha224WithRSAEncryption"),
   (.ofArcs [1, 2, 840, 113549, 1, 7, 1], "pkcs7-data"),
   (.ofArcs [1, 2, 840, 113549, 1, 7, 2], "pkcs7-signedData"),
   (.ofArcs [1, 2, 840, 10040, 4, 1], "dsa"), (.ofArcs [1, 2, 840, 10045, 2, 1], "id-ecPublicKey"),
   (.ofArcs [1, 2, 840, 10045, 3, 1, 7], "prime256v1"), (.ofArcs [1, 3, 132, 0, 34], "secp384r1"),
   (.ofArcs [1, 3, 132, 0, 35], "secp521r1"),
   (.ofArcs [1, 2, 840, 10045, 4, 3, 2], "ecdsa-with-SHA256"),
   (.ofArcs [1, 2, 840, 10045, 4, 3, 3], "ecdsa-with-SHA384"),
   (.ofArcs [1, 2, 840, 10045, 4, 3, 4], "ecdsa-with-SHA512"),
   (.ofArcs [1, 3, 6, 1, 4, 1, 311, 60, 2, 1, 1], "msJurisdictionLocality"),
   (.ofArcs [1, 3, 6, 1, 4, 1, 311, 60, 2, 1, 2], "msJurisdictionStateOrProvince"),
   (.ofArcs [1, 3, 6, 1, 4, 1, 311, 60, 2, 1, 3], "msJurisdictionCountry"),
   (.ofArcs [1, 3, 6, 1, 5, 5, 7, 1, 1], "authorityInfoAccess"),
   (.ofArcs [2, 5, 29, 14], "subjectKeyIdentifier"), (.ofArcs [2, 5, 29, 15], "keyUsage"),
   (.ofArcs [2, 5, 29, 17], "subjectAltName"), (.ofArcs [2, 5, 29, 18], "issuerAltName"),
   (.ofArcs [2, 5, 29, 19], "basicConstraints"), (.ofArcs [2, 5, 29, 20], "crlNumber"),
   (.ofArcs [2, 5, 29, 21], "reasonCode"), (.ofArcs [2, 5, 29, 24], "invalidityDate"),
   (.ofArcs [2, 5, 29, 30], "nameConstraints"), (.ofArcs [2, 5, 29, 31], "crlDistributionPoints"),
   (.ofArcs [2, 5, 29, 32], "certificatePolicies"), (.ofArcs [2, 5, 29, 33], "policyMappings"),
   (.ofArcs [2, 5, 29, 35], "authorityKeyIdentifier"), (.ofArcs [2, 5, 29, 36], "policyConstraints"),
   (.ofArcs [2, 5, 29, 37], "extendedKeyUsage"), (.ofArcs [2, 5, 29, 54], "inhibitAnyPolicy")]

/-- The short key, else the registered name, else the arcs. -/
def attributeKey (o : Oid) : String :=
  match shortKeys.lookup o with
  | some k => k
  | none => (longKeys.lookup o).getD s!"OID({o.text})"

/-- Tag numbers whose values are text in UTF-8. -/
def textForms : List Nat := [7, 12, 18, 19, 20, 21, 22, 25, 26, 27]

/-- The tag number of text in UTF-16. -/
def wideForm : Nat := 30

/-- Text as it is, any other value in base 16; `none` if text is ill formed. -/
def Attribute.valueText? (a : Attribute) : Option String :=
  if textForms.contains a.form then Utf8.decode? a.value
  else if a.form = wideForm then Utf16.decodeUneven? a.value
  else some (Bytes.upperHex a.value)

def Attribute.text? (a : Attribute) : Option String := a.valueText?.map fun v => attributeKey a.type ++ "=" ++ v

/-- All parts as text, or `none` if one value has none. -/
def Name.text? (n : Name) : Option String := do
  let parts ← n.parts.mapM fun attributes => do
    let texts ← attributes.mapM Attribute.text?
    pure (" + ".intercalate texts)
  pure (", ".intercalate parts)

/-- The name on one line. Nothing is escaped, so different names may look alike. -/
def Name.text (n : Name) : String := n.text?.getD "<X509Error: Invalid X.509 name>"

def oidElement : Reader Oid := do
  let e ← numbered 6
  require (!e.header.constructed)
  pure ⟨e.contents⟩

def typeAndValue : Reader Attribute := inside 16 do
  let type ← oidElement
  let value ← element
  pure ⟨type, value.header.number, value.contents⟩

/-- A set with at least one attribute; what follows the attributes is ignored. -/
def attributeSet : Reader (List Attribute) := inside 17 fun b => do
  let (attributes, rest) ← (many typeAndValue b.length).run b
  if attributes = [] then none else some (attributes, rest)

/-- A name ends before the first element that is no attribute set. -/
def name : Reader Name := fun b => do
  let (e, rest) ← (numbered 16).run b
  let (parts, unread) ← (many attributeSet e.contents.length).run e.contents
  some (⟨parts, b.take (b.length - rest.length - unread.length)⟩, rest)

end CertRotation.Certificate
