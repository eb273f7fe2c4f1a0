import CertRotation.Files.Fault

/-!
# Wording

What messages say about octets or text that a format's parser refuses, and about faults of the system. The messages
themselves name the format and the place; the record below only fills in the detail.
-/
namespace CertRotation

/-- The details of failures, one for each kind of source. -/
structure Wording where
  der : String := "malformed DER"
  certificate : String := "malformed certificate"
  keystore : String := "malformed PKCS#12 data"
  settings : String := "malformed TOML"
  fault : Files.Fault → String := Files.Fault.text

end CertRotation
