/-!
# Paths as text

Paths are kept as they were written. Names are separated by slashes; empty names and dots count for nothing when the
parent of a path is taken, but stay where they are.
-/
namespace CertRotation.Path

def isAbsolute (path : String) : Bool := path.toList.head? = some '/'

/-- The pieces between slashes, some perhaps empty. -/
def splitFrom (name : List Char) : List Char → List (List Char)
  | [] => [name.reverse]
  | '/' :: rest => name.reverse :: splitFrom [] rest
  | c :: rest => splitFrom (c :: name) rest

def names (path : String) : List String := ((splitFrom [] path.toList).filter (· ≠ [])).map String.ofList

def endsWithSlash (path : String) : Bool := path.toList.getLast? = some '/'

/-- Drop what counts for nothing at the end of a reversed path: slashes, and dots after one. `atStart` tells whether a
dot may also stand first. -/
def trimEnd (atStart : Bool) : List Char → List Char
  | '/' :: rest => trimEnd atStart rest
  | '.' :: '/' :: rest => trimEnd atStart rest
  | ['.'] => if atStart then [] else ['.']
  | s => s

/-- The path without its last name, or `none` if it has none. -/
def parent? (path : String) : Option String :=
  let s := path.toList
  let start := match s with
    | '/' :: _ => 1
    | ['.'] => 1
    | '.' :: '/' :: _ => 1
    | _ => 0
  let isRooted := isAbsolute path
  let body := trimEnd isRooted (s.drop start).reverse
  if body = [] then if isRooted ∨ start = 0 then none else some ""
  else some (String.ofList (s.take start ++ (trimEnd isRooted (body.dropWhile (· ≠ '/'))).reverse))

/-- `path` seen from `base`. An absolute path stays as it is. -/
def join (base path : String) : String :=
  if isAbsolute path ∨ base = "" then path
  else if endsWithSlash base then base ++ path
  else base ++ "/" ++ path

/-- The path that leads through these names from the root. -/
def absolute (names : List String) : String := "/" ++ "/".intercalate names

/-- Where the copy of a file is kept that is about to be replaced. -/
def backup (path : String) : String := path ++ ".bak"

end CertRotation.Path
