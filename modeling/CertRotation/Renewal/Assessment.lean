import CertRotation.Renewal.Threshold

/-!
# Assessing an installed certificate
-/
namespace CertRotation

/-- What is installed, seen from the renewal decision. -/
inductive Assessment where
  | missing
  | renewalDue (c : Certificate.Summary)
  | valid (c : Certificate.Summary)
  deriving DecidableEq, Repr

namespace Assessment

def ofSummary (t : Threshold) (c : Certificate.Summary) (now : Instant) : Assessment :=
  if t.isDue c now then .renewalDue c else .valid c

def needsInstall : Assessment → Bool
  | valid _ => false
  | _ => true

def certificate? : Assessment → Option Certificate.Summary
  | missing => none
  | renewalDue c => some c
  | valid c => some c

def status : Assessment → String
  | missing => "missing"
  | renewalDue _ => "renewal_due"
  | valid _ => "valid"

def text : Assessment → String
  | missing => "no certificate installed"
  | renewalDue c => s!"renewal due (expires {c.notAfter.displayText})"
  | valid c => s!"valid until {c.notAfter.displayText}"

end Assessment
end CertRotation
