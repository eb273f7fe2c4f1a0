import CertRotation.Pem.Basic

/-!
# Whole PEM files

`Pem.blocks` reads all blocks of a file and refuses one that seems to be cut off: every BEGIN marker must have
started a block.
-/
namespace CertRotation.Pem

/-- Why the blocks of a file could not all be read. -/
inductive BlocksError where
  | block (e : Error)
  /-- More or fewer markers than blocks. -/
  | truncated (markers complete : Nat)
  deriving DecidableEq, Repr

def BlocksError.message : BlocksError → String
  | block e => e.message
  | truncated markers complete =>
    s!"found {markers} BEGIN markers but only {complete} complete PEM blocks (truncated file?)"

/-- How many blocks were read before the fault. -/
def BlocksError.complete : BlocksError → Nat
  | block _ => 0
  | truncated _ n => n

/-- How often `pattern` occurs in a text without overlaps. -/
def countOccurrences (pattern : List Char) : List Char → Nat
  | [] => 0
  | c :: rest =>
    if pattern.isPrefixOf (c :: rest) then countOccurrences pattern (rest.drop (pattern.length - 1)) + 1
    else countOccurrences pattern rest
termination_by s => s.length
decreasing_by all_goals simp only [List.length_drop, List.length_cons]; omega

def blocks (text : String) : Except BlocksError (List Pem) :=
  match parseMany text with
  | .error e => .error (.block e)
  | .ok bs =>
    let markers := countOccurrences beginMarker text.toList
    if markers = bs.length then .ok bs else .error (.truncated markers bs.length)

end CertRotation.Pem
