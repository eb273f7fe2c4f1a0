import CertRotation.Renewal.Assessment

/-!
# JSON output

Values are printed over several lines with two blanks for each level; empty arrays and objects stay on one line.
Fields keep their order.
-/
namespace CertRotation.Console

inductive Json where
  | bool (b : Bool)
  | string (s : String)
  | array (items : List Json)
  | object (fields : List (String × Json))

namespace Json

def hexDigits (n : Nat) : List Char :=
  let digits := Nat.toDigits 16 n
  List.replicate (4 - digits.length) '0' ++ digits

/-- A character inside a string. Only quotes, backslashes and controls are escaped. -/
def escape (c : Char) : List Char :=
  match c with
  | '"' => ['\\', '"']
  | '\\' => ['\\', '\\']
  | '\x08' => ['\\', 'b']
  | '\t' => ['\\', 't']
  | '\n' => ['\\', 'n']
  | '\x0c' => ['\\', 'f']
  | '\r' => ['\\', 'r']
  | _ => if c.toNat < 0x20 then '\\' :: 'u' :: hexDigits c.toNat else [c]

def quote (s : String) : String := String.ofList ('"' :: s.toList.flatMap escape ++ ['"'])

def indentation (level : Nat) : String := String.ofList (List.replicate (2 * level) ' ')

/-- Items between two signs, each on a line of its own. -/
def block (first last : String) (level : Nat) (items : List String) : String :=
  if items = [] then first ++ last
  else
    let inner := "\n" ++ indentation (level + 1)
    first ++ inner ++ ("," ++ inner).intercalate items ++ "\n" ++ indentation level ++ last

mutual

/-- The text of a value that starts at some level. -/
def prettyAt (level : Nat) : Json → String
  | bool true => "true"
  | bool false => "false"
  | string s => quote s
  | array items => block "[" "]" level (prettyItems (level + 1) items)
  | object fields => block "\x7b" "\x7d" level (prettyFields (level + 1) fields)

def prettyItems (level : Nat) : List Json → List String
  | [] => []
  | j :: rest => prettyAt level j :: prettyItems level rest

def prettyFields (level : Nat) : List (String × Json) → List String
  | [] => []
  | (name, j) :: rest => (quote name ++ ": " ++ prettyAt level j) :: prettyFields level rest

end

def pretty (j : Json) : String := prettyAt 0 j

end Json

/-! ## Results -/

def summaryJson (c : Certificate.Summary) : Json :=
  .object [("subject", .string c.subject), ("issuer", .string c.issuer), ("serial", .string c.serial),
    ("thumbprint", .string c.thumbprint), ("not_before", .string c.notBefore.jsonText),
    ("not_after", .string c.notAfter.jsonText)]

def assessmentJson (a : Assessment) : Json :=
  .object (("status", .string a.status) :: (a.certificate?.map fun c => ("validity", summaryJson c)).toList)

def checkJson (file renewBefore : String) (a : Assessment) : Json :=
  .object [("file", .string file), ("renew_before", .string renewBefore), ("needs_install", .bool a.needsInstall),
    ("outcome", assessmentJson a)]

def inspectJson (file : String) (leaf : Certificate.Summary) (chain : List Certificate.Summary) : Json :=
  .object [("file", .string file), ("certificate", summaryJson leaf), ("chain", .array (chain.map summaryJson))]

end CertRotation.Console
