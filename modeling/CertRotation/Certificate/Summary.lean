import CertRotation.Certificate.Basic
import CertRotation.Hash.Hmac

/-!
# What certificates say about themselves

A `Certificate.Summary` holds what people are shown of a certificate and what the renewal decision looks at.
-/
namespace CertRotation.Certificate

/-- The parts of a certificate that rotation looks at, as text and instants. -/
structure Summary where
  subject : String
  issuer : String
  serial : String
  /-- The SHA-256 digest of the encoded certificate. -/
  thumbprint : String
  notBefore : Instant
  notAfter : Instant
  deriving DecidableEq, Repr

/-- The summary of the certificate that makes up all of `der`. -/
def summary (der : Bytes) : Except ParseError Summary := do
  let c ← parse der
  pure ⟨c.subject.text, c.issuer.text, c.serialText, Bytes.colonHex (sha256.digest der), c.notBefore, c.notAfter⟩

namespace Summary

/-- Whole seconds between the two ends of the validity. -/
def lifetime (s : Summary) : Int := Int.tdiv (s.notAfter.nanos - s.notBefore.nanos) Instant.perSecond

/-- A certificate is no longer valid at its last instant. -/
def isExpiredAt (s : Summary) (t : Instant) : Bool := decide (s.notAfter ≤ t)

/-- Whole days left, rounded toward zero; negative once a day has passed since expiry. -/
def daysLeft (s : Summary) (t : Instant) : Int := Int.tdiv (s.notAfter.nanos - t.nanos) Instant.perDay

def isSelfSigned (s : Summary) : Bool := s.subject = s.issuer

end Summary
end CertRotation.Certificate
