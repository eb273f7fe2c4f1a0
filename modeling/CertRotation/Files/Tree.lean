import CertRotation.Bytes
import CertRotation.Files.Fault
import CertRotation.Files.Path
import CertRotation.Text.Utf8

/-!
# File trees

A file tree says what stands at each location. `FileTree.resolve` follows a path through directories and symbolic
links to what it denotes. There are no faults of permission or of devices: every regular file can be read, and every
directory searched and changed, whatever its mode, which is kept but forbids nothing here.
-/
namespace CertRotation

/-- The names from the root down. The root itself is the empty location. -/
abbrev Location := List String

/-- What stands at a location. -/
inductive Node where
  | file (contents : Bytes) (mode : Nat)
  | directory
  | link (target : String)
  deriving DecidableEq, Repr

/-- Nodes at their locations, and the directory from which relative paths start. Whoever looks at a tree may read and
change everything in it. -/
structure FileTree where
  nodes : List (Location × Node)
  working : Location
  deriving Repr

namespace FileTree

def node? (t : FileTree) (l : Location) : Option Node := if l = [] then some .directory else t.nodes.lookup l

def erase (t : FileTree) (l : Location) : FileTree := { t with nodes := t.nodes.filter fun e => e.1 ≠ l }

def set (t : FileTree) (l : Location) (n : Node) : FileTree := { t with nodes := (l, n) :: (t.erase l).nodes }

/-- Every name that is part of a place or of the target of a link. -/
def mentioned (t : FileTree) : List String :=
  t.nodes.flatMap fun e => e.1 ++ match e.2 with
    | .link target => Path.names target
    | _ => []

/-! ## Following paths -/

/-- What a path denotes: a node, or a name that is free in a directory. -/
inductive Target where
  | present (place : Location) (n : Node)
  | absent (directory : Location) (name : String)
  deriving DecidableEq, Repr

def maxLinks : Nat := 40

/-- Octets in a name, and in a path with its end mark. -/
def maxName : Nat := 255
def maxPath : Nat := 4096

/-- Follow `names` from `place`. A link at the end is followed if `follow` says so or if it has to be a directory. -/
def walk (t : FileTree) (follow : Bool) (links : Nat) (mustBeDirectory : Bool) (place : Location) :
    List String → Except Files.Fault Target
  | [] => .ok (.present place .directory)
  | name :: rest =>
    if name = "." then walk t follow links mustBeDirectory place rest
    else if name = ".." then walk t follow links mustBeDirectory place.dropLast rest
    else if maxName < name.utf8ByteSize then .error .nameTooLong
    else
      let here := place ++ [name]
      match t.node? here with
      | none => if rest = [] then .ok (.absent place name) else .error .notFound
      | some .directory => walk t follow links mustBeDirectory here rest
      | some (.file b m) =>
        if rest = [] ∧ ¬ mustBeDirectory then .ok (.present here (.file b m)) else .error .notADirectory
      | some (.link target) =>
        if rest = [] ∧ ¬ mustBeDirectory ∧ ¬ follow then .ok (.present here (.link target))
        else
          match links with
          | 0 => .error .tooManyLinks
          | left + 1 =>
            walk t follow left (mustBeDirectory || (rest.isEmpty && Path.endsWithSlash target))
              (if Path.isAbsolute target then [] else place) (Path.names target ++ rest)
termination_by names => (links, names.length)

def check (path : String) : Except Files.Fault Unit :=
  if path.toList.contains '\x00' then .error .nulInPath
  else if path = "" then .error .notFound
  else if maxPath ≤ path.utf8ByteSize then .error .nameTooLong
  else .ok ()

def start (t : FileTree) (path : String) : Location := if Path.isAbsolute path then [] else t.working

/-- What `path` denotes, links followed. -/
def resolve (t : FileTree) (path : String) : Except Files.Fault Target := do
  check path
  walk t true maxLinks (Path.endsWithSlash path) (t.start path) (Path.names path)

def stat (t : FileTree) (path : String) : Except Files.Fault (Location × Node) := do
  match ← t.resolve path with
  | .present l n => pure (l, n)
  | .absent .. => throw .notFound

def directoryAt (t : FileTree) (start : Location) (names : List String) : Except Files.Fault Location := do
  match ← walk t true maxLinks true start names with
  | .present l _ => pure l
  | .absent .. => throw .notFound

/-- The directory and the name that `path` ends in. The name itself is not followed. -/
def entryAt (t : FileTree) (path : String) : Except Files.Fault (Location × String) := do
  check path
  let names := Path.names path
  match names.getLast? with
  | none => throw .busy
  | some name =>
    let directory ← t.directoryAt (t.start path) names.dropLast
    if name = "." ∨ name = ".." then throw .busy
    if maxName < name.utf8ByteSize then throw .nameTooLong
    pure (directory, name)

/-- Where a file can be renamed to under the name `path`. -/
def renameTarget (t : FileTree) (path : String) : Except Files.Fault Location := do
  let (directory, name) ← t.entryAt path
  if Path.endsWithSlash path then throw .notADirectory
  let target := directory ++ [name]
  if t.node? target = some .directory then throw .isADirectory
  pure target

/-! ## Reading -/

def read (t : FileTree) (path : String) : Except Files.Fault Bytes := do
  match ← t.stat path with
  | (_, .file b _) => pure b
  | _ => throw .isADirectory

def readText (t : FileTree) (path : String) : Except Files.Fault String := do
  match Utf8.decode? (← t.read path) with
  | some s => pure s
  | none => throw .notText

/-- Whether there is a file. Anything but a missing path that keeps it from being looked at is a fault. -/
def fileExists (t : FileTree) (path : String) : Except Files.Fault Bool :=
  match t.stat path with
  | .ok (_, .file ..) => .ok true
  | .ok _ => .ok false
  | .error .notFound => .ok false
  | .error e => .error e

def exists? (t : FileTree) (path : String) : Bool :=
  match t.stat path with
  | .ok _ => true
  | .error _ => false

end FileTree
end CertRotation
