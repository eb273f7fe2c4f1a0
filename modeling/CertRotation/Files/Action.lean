import CertRotation.Files.Tree

/-!
# Actions on files

Files are changed in primitive steps. An `Action` gives a result together with the steps that it takes, so that every
state between two steps can be talked about. `copyFile` and `writeFile` prepare a new file beside the old one and put
it in place by the last step.
-/
namespace CertRotation.Files

/-- What can be done to a tree at once. -/
inductive Step where
  /-- An empty file that only its owner may use. -/
  | create (place : Location)
  | write (place : Location) (contents : Bytes)
  | chmod (place : Location) (mode : Nat)
  /-- Put a file in the place of another, all at once. -/
  | rename (source target : Location)
  | remove (place : Location)
  | makeDirectory (place : Location)
  deriving DecidableEq, Repr

/-- The mode of a file that only its owner may read and write. -/
def privateMode : Nat := 0o600

def Step.apply (t : FileTree) : Step → FileTree
  | .create place => t.set place (.file [] privateMode)
  | .write place contents =>
    match t.node? place with
    | some (.file _ mode) => t.set place (.file contents mode)
    | _ => t
  | .chmod place mode =>
    match t.node? place with
    | some (.file contents _) => t.set place (.file contents mode)
    | _ => t
  | .rename source target =>
    match t.node? source with
    | some n => (t.erase source).set target n
    | none => t
  | .remove place => t.erase place
  | .makeDirectory place => t.set place .directory

def after (t : FileTree) (steps : List Step) : FileTree := steps.foldl Step.apply t

/-- The trees before, between and after some steps. -/
def states (t : FileTree) : List Step → List FileTree
  | [] => [t]
  | s :: rest => t :: states (s.apply t) rest

/-- A computation on a tree: the steps that it takes and what comes out. -/
def Action (α : Type) := FileTree → List Step × Except Failure α

namespace Action
variable {α β : Type}

def run (a : Action α) (t : FileTree) : List Step × Except Failure α := a t

def finalTree (a : Action α) (t : FileTree) : FileTree := after t (a t).1

def pure (a : α) : Action α := fun _ => ([], .ok a)

def fail (path : String) (fault : Fault) : Action α := fun _ => ([], .error ⟨path, fault⟩)

def step (s : Step) : Action Unit := fun _ => ([s], .ok ())

/-- The second computation sees the tree that the first leaves behind, unless that fails. -/
def bind (a : Action α) (f : α → Action β) : Action β := fun t =>
  match a t with
  | (steps, .error e) => (steps, .error e)
  | (steps, .ok x) =>
    let (more, r) := f x (after t steps)
    (steps ++ more, r)

instance : Monad Action where
  pure := Action.pure
  bind := Action.bind

def look (path : String) (f : FileTree → Except Fault α) : Action α := fun t => ([], about path (f t))

end Action

/-! ## Putting files in place -/

/-- The name of the new file number `n`. -/
def temporaryName (n : Nat) : String := s!".tmp{n}"

/-- The first temporary name that is not among `used`; one of `used.length + 1` names is free. -/
def freshName (used : List String) : String :=
  temporaryName (((List.range (used.length + 1)).find? fun n => ¬ temporaryName n ∈ used).getD 0)

/-- The directory in which a file for `path` is prepared. -/
def stagingDirectory (path : String) : String :=
  match Path.parent? path with
  | some d => if d = "" then "." else d
  | none => "."

-- Irreducible, since a proof that looks for the place would spell this text out otherwise.
/-- The path by which a new file beside `path` is created. It starts from the root and ends in a name of ten octets; which
one makes no difference to whether such a path can be used. -/
@[irreducible] def stagingPath (t : FileTree) (path : String) : String :=
  Path.join (Path.join (Path.absolute t.working) (stagingDirectory path)) ".tmp000000"

/-- The location of a new file beside `path`. Nothing is called like it, no link mentions it, and neither does
`path`. -/
def stagingPlace (t : FileTree) (path : String) : Except Fault Location := do
  let directory := stagingDirectory path
  FileTree.check (stagingPath t path)
  let d ← t.directoryAt (t.start directory) (Path.names directory)
  pure (d ++ [freshName (Path.names path ++ t.mentioned)])

/-- Prepare a new file beside `path` and hand it to `body`. If that fails, the new file is removed. -/
def staged {α : Type} (path : String) (body : Location → Action α) : Action α := fun t =>
  match stagingPlace t path with
  | .error e => ([], .error ⟨stagingDirectory path, e⟩)
  | .ok place =>
    match body place (Step.apply t (.create place)) with
    | (steps, .ok a) => (.create place :: steps, .ok a)
    | (steps, .error e) => (.create place :: steps ++ [.remove place], .error e)

def commit (place : Location) (path : String) : Action Unit := do
  let target ← Action.look path fun t => t.renameTarget path
  Action.step (.rename place target)

/-- Copy a file with its mode and count its octets. A directory can be opened but not copied, which shows once the copy
has been prepared. -/
def copyFile (source path : String) : Action Nat := do
  let (_, node) ← Action.look source fun t => t.stat source
  staged path fun place => do
    match node with
    | .file contents mode =>
      Action.step (.write place contents)
      Action.step (.chmod place mode)
      commit place path
      return contents.length
    | _ => Action.fail path .isADirectory

/-- Write a file that only its owner may use, all of it or nothing. -/
def writeFile (path : String) (contents : Bytes) : Action Unit :=
  staged path fun place => do
    Action.step (.chmod place privateMode)
    Action.step (.write place contents)
    commit place path

end CertRotation.Files
