import CertRotation.Proofs.Files.BackupNames
import CertRotation.Proofs.Files.Staging

/-!
# Entries of paths

The entry of a path is the last name in its directory, where a file comes that is renamed to the path. What a path shows
once a file has come there depends on whether following it leads on beyond that entry: such a path is cut off.
-/
namespace CertRotation.FileTree

/-- The entry of `path` is at `l`. -/
def IsEntry (t : FileTree) (path : String) (l : Location) : Prop :=
  ∃ d name, t.entryAt path = .ok (d, name) ∧ l = d ++ [name]

/-- Following `path` does not go on beyond the entry of `other`. -/
def NotBeyond (t : FileTree) (path other : String) : Prop := ∀ l, t.IsEntry other l → (l, false) ∉ t.trailOf path

/-- At the entry that `path` has in `t` this file stands in `t'`. -/
def Stands (t t' : FileTree) (path : String) (b : Bytes) (m : Nat) : Prop :=
  ∃ l, t.IsEntry path l ∧ t'.node? l = some (.file b m)

/-- The way to a backup is that to its file. -/
theorem directoryTrail_backup {t : FileTree} {file : String} (hcheck : check file = .ok ())
    (hslash : Path.endsWithSlash file = false) : t.directoryTrail (Path.backup file) = t.directoryTrail file := by
  have hstart : t.start (Path.backup file) = t.start file := by
    have habsolute : Path.isAbsolute (Path.backup file) = Path.isAbsolute file := by
      cases h : file.toList <;> simp [Path.isAbsolute, Path.backup, h]
    rw [start, start, habsolute]
  obtain ⟨init, last, hnames, hbackup, hempty⟩ := Path.names_backup file
  have hne : file ≠ "" := by
    intro hnil
    rw [hnil] at hcheck
    simp [check] at hcheck
  rw [if_neg (by simp [hempty, hne, hslash])] at hnames
  rw [directoryTrail, directoryTrail, hstart, hnames, hbackup, List.dropLast_concat, List.dropLast_concat]

theorem endsWithSlash_of_view {t : FileTree} {path : String} {b : Bytes} {m : Nat} (h : t.view path = .ok (.file b m)) :
    Path.endsWithSlash path = false := by
  obtain ⟨l, hstat⟩ := view_eq_ok.mp h
  cases hslash : Path.endsWithSlash path with
  | false => rfl
  | true =>
    obtain ⟨-, hwalk⟩ := stat_eq_ok.mp hstat
    exact absurd (hslash ▸ hwalk) (walk_ne_file t true maxLinks _ _ l b m)

end CertRotation.FileTree

namespace CertRotation.Files
open FileTree

/-! ## Trees in which a file has been placed -/

section
variable {t t' : FileTree} {path : String} {b : Bytes} {m : Nat}

theorem Placed.isEntry (h : Placed t t' path b m) : t.Stands t' path b m := by
  obtain ⟨d, name, hentry, -, hn⟩ := h.place
  exact ⟨_, ⟨d, name, hentry, rfl⟩, hn⟩

theorem Placed.node?_eq (h : Placed t t' path b m) {l : Location} (hl : ¬ t.IsEntry path l) :
    t'.node? l = t.node? l := by
  obtain ⟨d, name, hentry, hd, -⟩ := h.place
  exact hd.2 l fun heq => hl ⟨d, name, hentry, heq⟩

theorem Placed.working_eq (h : Placed t t' path b m) : t'.working = t.working := by
  obtain ⟨d, name, -, hd, -⟩ := h.place
  exact hd.1

theorem Placed.direct (h : Placed t t' path b m) {p : String} (hp : t.Direct p) : t'.Direct p := by
  obtain ⟨d, name, -, hd, hn⟩ := h.place
  exact direct_of_file hd hn hp

/-- A copy of a file does not change what its path shows. -/
theorem Placed.view_eq {p : String} (h : Placed t t' path b m) (hview : t.view p = .ok (.file b m))
    (hp : t.NotBeyond p path) : t'.view p = t.view p := by
  obtain ⟨d, name, hentry, hd, hn⟩ := h.place
  cases (view_of_file hd hn (hp _ ⟨d, name, hentry, rfl⟩)).2 with
  | inl hsame => exact hsame
  | inr hleads =>
    cases hleads.2 with
    | inl hshown => exact hshown.trans hview.symm
    | inr hcut => exact absurd hview (hcut.2 b m)

/-- No path gets a new entry by a file that has been placed. -/
theorem Placed.isEntry_before (h : Placed t t' path b m) {p : String} {l : Location} (hl : t'.IsEntry p l) :
    t.IsEntry p l := by
  obtain ⟨d, name, -, hd, hn⟩ := h.place
  obtain ⟨d', name', hentry, rfl⟩ := hl
  exact ⟨d', name', entryAt_of_file hd hn hentry, rfl⟩

end

end CertRotation.Files
