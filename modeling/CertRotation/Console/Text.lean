import CertRotation.Rotation.Cycle

/-!
# Text output

The lines that tell a user what goes on. A sign in front says whether something went well, needs attention or is just
said.
-/
namespace CertRotation.Console

def success (s : String) : String := s!"✓ {s}"

def warning (s : String) : String := s!"! {s}"

def info (s : String) : String := s!"ℹ {s}"

/-- The title of a section between empty lines. -/
def header (title : String) : List String := ["", s!"━━━ {title} ━━━", ""]

def expiryText (days : Int) : String :=
  if days < 0 then s!"Expired {-days} days ago"
  else if days = 0 then "Expires today!"
  else if days ≤ 7 then s!"{days} days (critical)"
  else if days ≤ 30 then s!"{days} days (warning)"
  else s!"{days} days"

def certificateLines (label : String) (now : Instant) (c : Certificate.Summary) : List String :=
  [s!"  {label}",
   s!"    Subject:     {c.subject}",
   s!"    Issuer:      {c.issuer}",
   s!"    Serial:      {c.serial}",
   s!"    Valid From:  {c.notBefore.displayText}",
   s!"    Valid Until: {c.notAfter.displayText}",
   s!"    Expires In:  {expiryText (c.daysLeft now)}",
   s!"    SHA-256:     {c.thumbprint}"] ++
  if c.isSelfSigned then ["    Self-signed"] else []

def chainLines (now : Instant) (index : Nat) : List Certificate.Summary → List String
  | [] => []
  | c :: rest => "" :: certificateLines s!"Chain [{index}]" now c ++ chainLines now (index + 1) rest

def bundleLines (file : String) (now : Instant) (leaf : Certificate.Summary) (chain : List Certificate.Summary) :
    List String :=
  header s!"PKCS#12 Bundle: {file}" ++ certificateLines "Certificate" now leaf ++ chainLines now 0 chain

def assessmentLine (now : Instant) : Assessment → String
  | .missing => warning "No certificate installed, install needed"
  | .renewalDue c => warning s!"Certificate is due for renewal ({expiryText (c.daysLeft now)})"
  | .valid c => success s!"Certificate is valid, no renewal needed ({expiryText (c.daysLeft now)})"

def backupLine : Rotation.Backup → String
  | .skipped => info "No existing certificate, no backup taken"
  | .created path _ => success s!"Backed up to {path}"

def hookName : Rotation.Hook → String
  | .afterInstall => "After-install action"
  | .validation => "Install validation"

/-- What is said about an event, if anything. -/
def eventLine? (now : Instant) : Rotation.Event → Option String
  | .checkBypassed => some (info "Renewal check bypassed (--force)")
  | .checkStarted => none
  | .checkComplete a => some (assessmentLine now a)
  | .upToDate => some (info "Nothing to do")
  | .backupComplete b => some (backupLine b)
  | .installStarted => none
  | .installComplete bytes => some (success s!"Bundle written ({bytes} bytes)")
  | .hookComplete h o =>
    if o.stdout = "" then some (success s!"{hookName h} completed")
    else some (success s!"{hookName h} completed: {o.stdout}")
  | .hookSkipped _ => none

def reportLine (r : Rotation.Report) : String :=
  match r.action with
  | .installed => success s!"Installed certificate at {r.target}"
  | .skipped => success s!"Certificate at {r.target} is up to date"

end CertRotation.Console
