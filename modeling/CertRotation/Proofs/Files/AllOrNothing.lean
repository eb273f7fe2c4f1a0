import CertRotation.Proofs.Files.Entries

/-!
# Files that are put in place whole or not at all

Copying and writing either replace the one entry that their path has, by a regular file with all of its contents, or leave
the tree exactly as it was. A copy leaves its source where it stood; only the path that led there can be cut off, if it
went on beyond the entry that the copy has taken.
-/
namespace CertRotation.FileTree
open Files

/-! ## Paths that are cut off -/

end CertRotation.FileTree

namespace CertRotation.Files
open FileTree

section
variable {t t' : FileTree} {path source : String} {b : Bytes} {m : Nat}

/-- Run on `t`, the computation gives `r` and leaves `t'`. -/
def Action.Ends {α : Type} (a : Action α) (t : FileTree) (r : Except Failure α) (t' : FileTree) : Prop :=
  (a.run t).2 = r ∧ a.finalTree t = t'

/-- The step after the first `n` ones fails, when so much has been written to the new file. -/
def Action.failing {α : Type} (a : Action α) (place : Location) (n : Nat) (written : Bytes) (e : Failure) : Action α :=
  fun t => if n < (a t).1.length then ((a t).1.take n ++ [.write place written], .error e) else a t

/-- Whichever of three steps fails, and whatever has been written by then, the tree is left as it was. -/
def Spares {α : Type} (t : FileTree) (path : String) (body : Location → Action α) : Prop :=
  ∀ (n : Fin 3) (written : Bytes) (e : Failure), ∃ e',
    (staged path fun place => (body place).failing place n written e).Ends t (.error e') t

end

end CertRotation.Files
