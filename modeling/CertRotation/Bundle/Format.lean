import CertRotation.Certificate.Basic
import CertRotation.Pem.Basic
import CertRotation.Text.Utf8

/-!
# Formats of certificate files

`Format.detect?` guesses from the octets alone: text with a BEGIN marker, an element that soon names plain data as
bundles do, or a certificate.
-/
namespace CertRotation

/-- What a file with certificates may be. -/
inductive Format where
  | pem
  | der
  | pkcs12
  deriving DecidableEq, Repr

namespace Format

def text : Format → String
  | pem => "PEM"
  | der => "DER"
  | pkcs12 => "PKCS#12"

/-- Whether `pattern` stands somewhere in `s`. -/
def contains {α : Type} [BEq α] (pattern : List α) : List α → Bool
  | [] => pattern.isEmpty
  | x :: s => pattern.isPrefixOf (x :: s) || contains pattern s

def dataOid : Bytes := [0x06, 0x09, 0x2a, 0x86, 0x48, 0x86, 0xf7, 0x0d, 0x01, 0x07, 0x01]

def looksLikePem (b : Bytes) : Bool :=
  match Utf8.decode? b with
  | some s => contains Pem.beginMarker s.toList
  | none => false

/-- A sequence with the identifier of plain data among its first fifty octets. -/
def looksLikePkcs12 (b : Bytes) : Bool :=
  4 < b.length && b.headD 0 = 0x30 && contains dataOid (b.take 50)

/-- What `b` seems to be. A certificate may be followed by anything. -/
def detect? (b : Bytes) : Option Format :=
  if looksLikePem b then some pem
  else if looksLikePkcs12 b then some pkcs12
  else if (Certificate.read? b).isSome then some der
  else none

end Format
end CertRotation
