import CertRotation.Main
import CertRotation.Proofs.Asn1.DerRoundTrip
import CertRotation.Proofs.Bundle.Entries
import CertRotation.Proofs.Bundle.Leaf
import CertRotation.Proofs.Bundle.Packaging
import CertRotation.Proofs.Bundle.RoundTrip
import CertRotation.Proofs.Bundle.Sources
import CertRotation.Proofs.Bundle.Stages
import CertRotation.Proofs.Bundle.Truncation
import CertRotation.Proofs.Cipher.AesField
import CertRotation.Proofs.Cipher.AesInverse
import CertRotation.Proofs.Cipher.CbcInverse
import CertRotation.Proofs.Encryption.SchemeRoundTrip
import CertRotation.Proofs.Files.BackupNames
import CertRotation.Proofs.Files.Following
import CertRotation.Proofs.Files.FreshNames
import CertRotation.Proofs.Files.Lookup
import CertRotation.Proofs.Files.Places
import CertRotation.Proofs.Files.Staging
import CertRotation.Proofs.Key.Normalisation
import CertRotation.Proofs.Keystore.AttributesRoundTrip
import CertRotation.Proofs.Keystore.Capacity
import CertRotation.Proofs.Keystore.FileRoundTrip
import CertRotation.Proofs.Keystore.ItemRoundTrip
import CertRotation.Proofs.Keystore.WriteRead
import CertRotation.Proofs.Numbers
import CertRotation.Proofs.Pem.Base64RoundTrip
import CertRotation.Proofs.Pem.HeaderLines
import CertRotation.Proofs.Pem.Regions
import CertRotation.Proofs.Pem.RoundTrip
import CertRotation.Proofs.Pem.Scanning
import CertRotation.Proofs.Pem.WholeFiles
import CertRotation.Proofs.Rotation.Assessing
import CertRotation.Proofs.Rotation.CycleSteps
import CertRotation.Proofs.Rotation.Installed
import CertRotation.Proofs.Rotation.Moments
import CertRotation.Proofs.Rotation.Safety
import CertRotation.Proofs.Text.PlainText
import CertRotation.Proofs.Text.Utf16RoundTrip
import CertRotation.Proofs.Traversal
import CertRotation.Proofs.Files.Ways
import CertRotation.Proofs.Keystore.Sizes
import CertRotation.Proofs.Rotation.Completion
import CertRotation.Proofs.Rotation.Interference
import CertRotation.Proofs.Rotation.Independence
import CertRotation.Proofs.Rotation.Protocol
import CertRotation.Proofs.Rotation.Footprint
import CertRotation.Proofs.Bundle.CanonicalForm
import CertRotation.Proofs.Bundle.Issuers
import CertRotation.Proofs.Bundle.KeyFiles
import CertRotation.Proofs.Bundle.StoredKey
import CertRotation.Proofs.Certificate.Names
import CertRotation.Proofs.Key.Containers
import CertRotation.Proofs.Key.Inverse
import CertRotation.Proofs.Pem.Joining
import CertRotation.Proofs.Text.Trimming
import CertRotation.Proofs.Renewal.Grammar
import CertRotation.Proofs.Renewal.Windows
import CertRotation.Proofs.Certificate.Validity
import CertRotation.Proofs.Renewal.Clock
import CertRotation.Proofs.Asn1.DerExact
import CertRotation.Proofs.Key.PlainForm
import CertRotation.Proofs.Bundle.ChainOrder
import CertRotation.Proofs.Bundle.EntryNumbers
import CertRotation.Proofs.Bundle.MissingLeaf
import CertRotation.Proofs.Encryption.SchemeForm
import CertRotation.Proofs.Key.EncryptedForm
import CertRotation.Proofs.Pem.MarkedEntries
import CertRotation.Proofs.Bundle.Formats
import CertRotation.Proofs.Bundle.StorageOrder
import CertRotation.Proofs.Renewal.CanonicalText
import CertRotation.Proofs.Settings.AcceptedRuns
import CertRotation.Proofs.Settings.Validation
import CertRotation.Proofs.Text.WellFormed
import CertRotation.Proofs.Asn1.OidText
import CertRotation.Proofs.Certificate.NameTexts
import CertRotation.Proofs.Certificate.PartTexts
import CertRotation.Proofs.Console.Expiry
import CertRotation.Proofs.Files.AllOrNothing
import CertRotation.Proofs.Files.Entries
import CertRotation.Proofs.Settings.Loading
import CertRotation.Proofs.Text.OneForm
import CertRotation.Proofs.Pem.Pieces
import CertRotation.Proofs.Rotation.Instructions
