import CertRotation.Files.Action

/-!
# What single steps change

A step changes the tree at one location, and a rename at two. `DiffersAt` says that all other locations are as before.
-/
namespace CertRotation.FileTree

/-! ## Nodes after a change -/

theorem lookup_filter_ne {nodes : List (Location × Node)} {l x : Location} (h : x ≠ l) :
    (nodes.filter fun e => e.1 ≠ l).lookup x = nodes.lookup x := by
  induction nodes with
  | nil => rfl
  | cons e nodes ih =>
    obtain ⟨k, n⟩ := e
    by_cases hk : k = l
    · have hx : (x == k) = false := by simpa [hk] using h
      simp only [List.filter_cons, ne_eq, hk, not_true_eq_false, decide_false, Bool.false_eq_true, if_false]
      rw [List.lookup_cons, ← hk, hx]
      exact hk ▸ ih
    · simp only [List.filter_cons, ne_eq, hk, not_false_eq_true, decide_true, if_true, List.lookup_cons]
      rw [← ih]

theorem lookup_filter_self (nodes : List (Location × Node)) (l : Location) :
    (nodes.filter fun e => e.1 ≠ l).lookup l = none := by
  rw [List.lookup_eq_none_iff]
  intro e he
  have hne : e.1 ≠ l := by simpa using (List.mem_filter.mp he).2
  simpa using fun h => hne h.symm

theorem node?_erase_self (t : FileTree) {l : Location} (h : l ≠ []) : (t.erase l).node? l = none := by
  rw [node?, if_neg h]
  exact lookup_filter_self t.nodes l

theorem node?_erase_of_ne (t : FileTree) {l x : Location} (h : x ≠ l) : (t.erase l).node? x = t.node? x := by
  unfold node?
  split
  · rfl
  · exact lookup_filter_ne h

theorem node?_set_self (t : FileTree) {l : Location} (n : Node) (h : l ≠ []) : (t.set l n).node? l = some n := by
  rw [node?, if_neg h]
  simp [set]

theorem node?_set_of_ne (t : FileTree) {l x : Location} (n : Node) (h : x ≠ l) :
    (t.set l n).node? x = t.node? x := by
  rw [← node?_erase_of_ne t h]
  unfold node?
  split
  · rfl
  · have hx : (x == l) = false := by simpa using h
    simp [set, List.lookup_cons, hx]

/-! ## Trees that differ in one place -/

/-- All locations but `l` hold in `t'` what they hold in `t`. -/
def DiffersAt (t t' : FileTree) (l : Location) : Prop :=
  t'.working = t.working ∧ ∀ x, x ≠ l → t'.node? x = t.node? x

namespace DiffersAt
variable {t t' t'' : FileTree} {l : Location}

theorem refl (t : FileTree) (l : Location) : DiffersAt t t l := ⟨rfl, fun _ _ => rfl⟩

theorem symm (h : DiffersAt t t' l) : DiffersAt t' t l := ⟨h.1.symm, fun x hx => (h.2 x hx).symm⟩

theorem trans (h : DiffersAt t t' l) (h' : DiffersAt t' t'' l) : DiffersAt t t'' l :=
  ⟨h'.1.trans h.1, fun x hx => (h'.2 x hx).trans (h.2 x hx)⟩

theorem set (h : DiffersAt t t' l) (n : Node) : DiffersAt t (t'.set l n) l :=
  ⟨h.1, fun x hx => (node?_set_of_ne t' n hx).trans (h.2 x hx)⟩

theorem erase (h : DiffersAt t t' l) : DiffersAt t (t'.erase l) l :=
  ⟨h.1, fun x hx => (node?_erase_of_ne t' hx).trans (h.2 x hx)⟩

end DiffersAt
end CertRotation.FileTree

namespace CertRotation.Files
open FileTree

/-! ## Steps on a new file -/

def Step.IsAt (l : Location) : Step → Prop
  | .create place | .write place _ | .chmod place _ | .remove place | .makeDirectory place => place = l
  | .rename .. => False

theorem apply_differs (t : FileTree) {s : Step} {l : Location} (h : s.IsAt l) : DiffersAt t (s.apply t) l := by
  cases s with
  | create place =>
    obtain rfl : place = l := h
    exact (DiffersAt.refl t place).set _
  | write place contents =>
    obtain rfl : place = l := h
    simp only [Step.apply]
    split
    · exact (DiffersAt.refl t place).set _
    · exact DiffersAt.refl t place
  | chmod place mode =>
    obtain rfl : place = l := h
    simp only [Step.apply]
    split
    · exact (DiffersAt.refl t place).set _
    · exact DiffersAt.refl t place
  | rename source target => exact h.elim
  | remove place =>
    obtain rfl : place = l := h
    exact (DiffersAt.refl t place).erase
  | makeDirectory place =>
    obtain rfl : place = l := h
    exact (DiffersAt.refl t place).set _

theorem node?_apply_create (t : FileTree) {l : Location} (h : l ≠ []) :
    (Step.apply t (.create l)).node? l = some (.file [] privateMode) := node?_set_self t _ h

theorem node?_apply_write {t : FileTree} {l : Location} {b : Bytes} {mode : Nat} (c : Bytes) (h : l ≠ [])
    (hn : t.node? l = some (.file b mode)) : (Step.apply t (.write l c)).node? l = some (.file c mode) := by
  simp only [Step.apply, hn]
  exact node?_set_self t _ h

theorem node?_apply_chmod {t : FileTree} {l : Location} {b : Bytes} {mode : Nat} (m : Nat) (h : l ≠ [])
    (hn : t.node? l = some (.file b mode)) : (Step.apply t (.chmod l m)).node? l = some (.file b m) := by
  simp only [Step.apply, hn]
  exact node?_set_self t _ h

/-- A new file that is put in place: nothing is left of it where it was prepared. -/
theorem apply_rename {t t' : FileTree} {source target : Location} {n : Node} (hs : source ≠ []) (ht : target ≠ [])
    (hfree : t.node? source = none) (hd : DiffersAt t t' source)
    (hn : t'.node? source = some n) :
    DiffersAt t (Step.apply t' (.rename source target)) target ∧
      (Step.apply t' (.rename source target)).node? target = some n := by
  simp only [Step.apply, hn]
  refine ⟨⟨hd.1, fun x hx => ?_⟩, node?_set_self _ n ht⟩
  rw [node?_set_of_ne _ n hx]
  by_cases hxs : x = source
  · rw [hxs, node?_erase_self _ hs, hfree]
  · rw [node?_erase_of_ne _ hxs, hd.2 x hxs]

end CertRotation.Files
