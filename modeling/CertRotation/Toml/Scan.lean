/-!
# Blanks, line ends and comments of TOML
-/
namespace CertRotation.Toml

def isSpace (c : Char) : Bool := c = ' ' || c = '\t'

def skipSpaces (cs : List Char) : List Char := cs.dropWhile isSpace

def newline? : List Char → Option (List Char)
  | '\n' :: rest => some rest
  | '\r' :: '\n' :: rest => some rest
  | _ => none

/-- Characters other than controls. A tab counts for none. -/
def isPlain (c : Char) : Bool := c = '\t' || (' ' ≤ c && c ≠ '\x7f')

def skipComment : List Char → List Char
  | '#' :: rest => rest.dropWhile isPlain
  | cs => cs

/-- What follows the end of the line, of which only blanks and a comment are left. -/
def lineEnd? (cs : List Char) : Option (List Char) :=
  match skipComment (skipSpaces cs) with
  | [] => some []
  | rest => newline? rest

def skipGaps (cs : List Char) : List Char :=
  match cs with
  | ' ' :: rest => skipGaps rest
  | '\t' :: rest => skipGaps rest
  | '\n' :: rest => skipGaps rest
  | '\r' :: '\n' :: rest => skipGaps rest
  | '#' :: rest => skipGaps (rest.dropWhile isPlain)
  | rest => rest
termination_by cs.length
decreasing_by
  all_goals simp only [List.length_cons]
  case _ => omega
  case _ => omega
  case _ => omega
  case _ => omega
  case _ => exact Nat.lt_succ_of_le (List.dropWhile_sublist isPlain).length_le

end CertRotation.Toml
