/-!
# TOML values

A document is a table whose tables remember how they came about, because that decides what later lines may add to
them.
-/
namespace CertRotation.Toml

/-- How a table came about. -/
inductive Origin where
  /-- Written between braces. -/
  | inline
  /-- From a header of its own. -/
  | header
  /-- Only on the way to longer headers. -/
  | implicit
  /-- From dotted keys. -/
  | dotted
  deriving DecidableEq, Repr

inductive Value where
  | string (s : String)
  | integer (n : Int)
  | float (text : String)
  | boolean (b : Bool)
  | dateTime (text : String)
  | array (items : List Value)
  | table (origin : Origin) (entries : List (String × Value))
  /-- Tables under one repeated header. -/
  | tables (elements : List (List (String × Value)))
  deriving Repr

/-- The contents of a table in the order in which they were written. -/
abbrev Entries := List (String × Value)

def Value.elements? : Value → Option (List Value)
  | array items => some items
  | tables ts => some (ts.map (.table .header))
  | _ => none

end CertRotation.Toml
