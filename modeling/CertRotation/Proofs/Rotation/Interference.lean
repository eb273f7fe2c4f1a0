import CertRotation.Proofs.Files.Ways
import CertRotation.Proofs.Keystore.Sizes
import CertRotation.Proofs.Rotation.Assessing
import CertRotation.Proofs.Rotation.Completion
import CertRotation.Proofs.Rotation.Safety

/-!
# What cycles can do to each other

A cycle changes files in two places only, and it looks at nothing but its target and its sources. Whatever else has
changed, it succeeds where it has succeeded before and leaves the same bundle but for its random seeds.
-/
namespace CertRotation.Installation
open Files FileTree Rotation

/-- The places at which a cycle puts files. -/
def Touches (i : Installation) (t : FileTree) (l : Location) : Prop := ∃ path ∈ i.paths, t.PlaceOf path l

/-- Neither the target nor the backup is a link. -/
def Unlinked (i : Installation) (t : FileTree) : Prop := ∀ path ∈ i.paths, t.Unlinked path

/-- Both trees have the same file at the target, or bundles of the same material that differ in their seeds. -/
def Alike (i : Installation) (t t' : FileTree) : Prop :=
  (∃ b m, t.view i.file = .ok (.file b m) ∧ t'.view i.file = .ok (.file b m)) ∨
    ∃ (m : PemMaterial) (seeds seeds' : Keystore.Seeds) (data data' : Bytes),
      m.package seeds i.password = .ok data ∧ m.package seeds' i.password = .ok data' ∧
        t.view i.file = .ok (.file data privateMode) ∧ t'.view i.file = .ok (.file data' privateMode)

section
variable {i : Installation} {load : FileTree → Except Error PemMaterial} {s : Surroundings} {o : Options}
variable {t t' t₁ : FileTree} {data : Bytes} {seeds seeds' : Keystore.Seeds}

/-- Likeness depends on the file at the target only. -/
theorem Alike.congr (h : i.Alike t t') (hview : ∀ b m, t'.view i.file = .ok (.file b m) → t₁.view i.file = .ok (.file b m)) :
    i.Alike t t₁ := by
  rcases h with ⟨b, m, hfirst, hsecond⟩ | ⟨m, seeds, seeds', data, data', hdata, hdata', hfirst, hsecond⟩
  · exact .inl ⟨b, m, hfirst, hview b m hsecond⟩
  · exact .inr ⟨m, seeds, seeds', data, data', hdata, hdata', hfirst, hview _ _ hsecond⟩

theorem touches_iff (h : SameWays t t') {l : Location} : i.Touches t' l ↔ i.Touches t l := by
  simp only [Touches, h.placeOf_iff]

theorem Unlinked.congr (hu : i.Unlinked t) (h : SameWays t t') : i.Unlinked t' := fun path hp => h.unlinked (hu path hp)

/-! ## Elsewhere -/

/-- At every moment of a cycle a regular file is where it was, unless the cycle puts files there. -/
theorem Moment.stat_file {q : String} {l : Location} {b : Bytes} {m : Nat} (h : i.Moment load t t')
    (hu : i.Unlinked t) (hl : ¬ i.Touches t l) (hstat : t.stat q = .ok (l, .file b m)) :
    t'.stat q = .ok (l, .file b m) := by
  have hufile := hu _ i.file_mem_paths
  have hubackup := hu _ i.backup_mem_paths
  have hfile : ¬ t.PlaceOf i.file l := fun h => hl ⟨_, i.file_mem_paths, h⟩
  have hbackup : ¬ t.PlaceOf (Path.backup i.file) l := fun h => hl ⟨_, i.backup_mem_paths, h⟩
  cases h with
  | preparing h hp => exact h.stat_file hstat
  | backedUp hv hplaced h => exact h.stat_file (hplaced.stat_file hubackup hbackup hstat)
  | installed hv hload hpackage h => exact h.stat_file hufile hfile hstat
  | replaced hv hplaced hload hpackage h =>
    have hways := hplaced.sameWays hubackup
    exact h.stat_file (hways.unlinked hufile) (fun hp => hfile (hways.placeOf_iff.mp hp))
      (hplaced.stat_file hubackup hbackup hstat)

/-! ## Backing up and writing -/

/-- A backup is made if the target can be looked at and, where it is a file, the backup can be written. -/
theorem exists_backup_iff : (∃ steps made, i.backup t = (steps, .ok made)) ↔
    t.fileExists i.file = .ok false ∨ t.fileExists i.file = .ok true ∧ Writable t (Path.backup i.file) := by
  rw [backup_apply]
  cases hexists : t.fileExists i.file with
  | error e => simp [about, Except.mapError]
  | ok there =>
    cases there with
    | false => simp [about, Except.mapError]
    | true =>
      obtain ⟨l, b, m, hstat⟩ : ∃ l b m, t.stat i.file = .ok (l, .file b m) := by
        unfold FileTree.fileExists at hexists
        split at hexists
        · exact ⟨_, _, _, ‹_›⟩
        all_goals simp at hexists
      rcases copyFile_cases (Path.backup i.file) hstat with ⟨hnot, steps, e, hcopy, -⟩ | ⟨hw, steps, hcopy, -⟩
      · simp [about, Except.mapError, hcopy, hnot]
      · simp [about, Except.mapError, hcopy, hw]

theorem exists_writeFile_iff (path : String) (data : Bytes) (t : FileTree) :
    (∃ steps, writeFile path data t = (steps, .ok ())) ↔ Writable t path := by
  rcases writeFile_cases path data t with ⟨hnot, steps, e, hwrite, -⟩ | ⟨hw, steps, hwrite, -⟩
  · simp [hwrite, hnot]
  · simp [hwrite, hw]

/-- Nothing but the backup is changed. -/
theorem backup_ways {steps : List Step} {made : Backup} (hu : i.Unlinked t) (h : i.backup t = (steps, .ok made)) :
    SameWays t (after t steps) ∧
      ∀ l, ¬ t.PlaceOf (Path.backup i.file) l → (after t steps).node? l = t.node? l := by
  rcases backup_cases i t with ⟨r, hnone, -⟩ | ⟨b, m, -, ⟨-, steps', e, hup, -⟩ | ⟨-, steps', made', hput, hputs⟩⟩
  · obtain ⟨rfl, -⟩ := Prod.mk.inj (h.symm.trans hnone)
    exact ⟨SameWays.refl t, fun _ _ => rfl⟩
  · simp [h] at hup
  · obtain ⟨rfl, -⟩ := Prod.mk.inj (h.symm.trans hput)
    exact ⟨hputs.1.sameWays (hu _ i.backup_mem_paths), fun l hl => hputs.1.node?_of_ne hl⟩

namespace Rewrites

/-- Nothing but target and backup is changed, and no way. -/
theorem ways (h : i.Rewrites data t t') (hu : i.Unlinked t) :
    SameWays t t' ∧ ∀ l, ¬ i.Touches t l → t'.node? l = t.node? l := by
  obtain ⟨steps, made, more, hbackup, hwrite, rfl⟩ := h
  obtain ⟨hways, hkept⟩ := backup_ways hu hbackup
  have hplaced := placed_of_writeFile hwrite
  refine ⟨hways.trans (hplaced.sameWays (hways.unlinked (hu _ i.file_mem_paths))), fun l hl => ?_⟩
  have hfile : ¬ (after t steps).PlaceOf i.file l := fun h => hl ⟨_, i.file_mem_paths, hways.placeOf_iff.mp h⟩
  exact (hplaced.node?_of_ne hfile).trans (hkept l fun h => hl ⟨_, i.backup_mem_paths, h⟩)

/-- What has been written is seen at the target. -/
theorem view (h : i.Rewrites data t t') (hu : i.Unlinked t) : t'.view i.file = .ok (.file data privateMode) := by
  obtain ⟨steps, made, more, hbackup, hwrite, rfl⟩ := h
  have hplaced := placed_of_writeFile hwrite
  have hu' := (backup_ways hu hbackup).1.unlinked (hu _ i.file_mem_paths)
  obtain ⟨d, name, hentry, -, hn⟩ := hplaced.place
  exact view_of_entry ((hplaced.sameWays hu').entryAt hentry) hplaced.endsWithSlash hn

/-- What was at the target is seen at the backup. -/
theorem view_backup {b : Bytes} {m : Nat} (h : i.Rewrites data t t') (hu : i.Unlinked t)
    (hview : t.view i.file = .ok (.file b m)) : t'.view (Path.backup i.file) = .ok (.file b m) := by
  obtain ⟨steps, made, more, hbackup, hwrite, rfl⟩ := h
  have hplaced := placed_of_writeFile hwrite
  obtain ⟨hways, -⟩ := backup_ways hu hbackup
  rcases backup_cases i t with ⟨r, -, hnot⟩ | ⟨c, k, hv, ⟨-, steps', e, hup, -⟩ | ⟨-, steps', made', hput, hputs⟩⟩
  · exact absurd hview (hnot b m)
  · simp [hbackup] at hup
  · obtain ⟨rfl, -⟩ := Prod.mk.inj (hbackup.symm.trans hput)
    obtain ⟨rfl, rfl⟩ : c = b ∧ k = m := by simpa using Except.ok.inj (hv.symm.trans hview)
    obtain ⟨d, name, hentry, -, hn⟩ := hputs.1.place
    have hseen := view_of_entry (hways.entryAt hentry) (Path.endsWithSlash_backup i.file) hn
    obtain ⟨l, hstat⟩ := view_eq_ok.mp hseen
    have hl := (hways.unlinked (hu _ i.backup_mem_paths)).placeOf_of_stat hstat
    refine view_eq_ok.mpr ⟨l, hplaced.stat_file (hways.unlinked (hu _ i.file_mem_paths)) (fun hfile => ?_) hstat⟩
    obtain ⟨d₁, name₁, hentry₁, rfl⟩ := hl
    obtain ⟨d₂, name₂, hentry₂, hsame⟩ := hfile
    exact entry_ne_backup hplaced.endsWithSlash hentry₂ hentry₁ hsame

end Rewrites

/-- A bundle can be written where the target can be looked at and both places can be written. -/
theorem exists_rewrites_iff (data : Bytes) (hu : i.Unlinked t) : (∃ t', i.Rewrites data t t') ↔
    (t.fileExists i.file = .ok false ∨ t.fileExists i.file = .ok true ∧ Writable t (Path.backup i.file)) ∧
      Writable t i.file := by
  rw [← exists_backup_iff]
  constructor
  · rintro ⟨t', steps, made, more, hbackup, hwrite, -⟩
    exact ⟨⟨steps, made, hbackup⟩,
      (backup_ways hu hbackup).1.symm.writable ((exists_writeFile_iff _ _ _).mp ⟨more, hwrite⟩)⟩
  · rintro ⟨⟨steps, made, hbackup⟩, hw⟩
    obtain ⟨more, hwrite⟩ := (exists_writeFile_iff i.file data _).mpr ((backup_ways hu hbackup).1.writable hw)
    exact ⟨_, steps, made, more, hbackup, hwrite, rfl⟩

/-! ## Whole cycles -/

theorem assess_congr (h : t'.stat i.file = t.stat i.file) (text : String) (now : Instant) :
    i.assess text now t' = i.assess text now t := by
  simp only [assess, FileTree.fileExists, read, FileTree.read, h]

/-- A file that needs no installation is there. -/
theorem view_of_assess {text : String} {now : Instant} {a : Assessment} (h : i.assess text now t = .ok a)
    (hneeds : a.needsInstall = false) : ∃ b m, t.view i.file = .ok (.file b m) := by
  cases hparse : Threshold.parse text with
  | error e => simp [assess_of_parse_error now t hparse] at h
  | ok threshold =>
    rcases hasFile_or t i.file with ⟨b, l, m, hstat⟩ | hnone | ⟨e, he, hfault⟩
    · exact ⟨b, m, view_eq_ok.mpr ⟨l, hstat⟩⟩
    · obtain rfl := Except.ok.inj ((assess_of_hasNoFile hparse hnone).symm.trans h)
      simp [Assessment.needsInstall] at hneeds
    · simp [assess_of_fault hparse he hfault] at h

namespace Completes

theorem ways (h : i.Completes s load o seeds t t') (hu : i.Unlinked t) :
    SameWays t t' ∧ ∀ l, ¬ i.Touches t l → t'.node? l = t.node? l := by
  cases h with
  | upToDate => exact ⟨SameWays.refl t, fun _ _ => rfl⟩
  | installs hdue h => exact h.rewrites.ways hu

/-- In the end a file stands at the target. -/
theorem view (h : i.Completes s load o seeds t t') (hu : i.Unlinked t) : ∃ b m, t'.view i.file = .ok (.file b m) := by
  cases h with
  | upToDate hforce hassess hneeds => exact view_of_assess hassess hneeds
  | installs hdue h => exact ⟨_, _, h.rewrites.view hu⟩

theorem placeOf (h : i.Completes s load o seeds t t') (hu : i.Unlinked t) : ∃ l, t.PlaceOf i.file l := by
  obtain ⟨b, m, hview⟩ := h.view hu
  obtain ⟨l, hstat⟩ := view_eq_ok.mp hview
  obtain ⟨l', hplace, -⟩ := placeOf_of_stat hstat
  exact ⟨l', (h.ways hu).1.placeOf_iff.mp hplace⟩

/-- A cycle that succeeds on one tree succeeds on all that agree with it on the ways, the target, the material and the
hooks, under all seeds of the same sizes, and leaves the same at the target. -/
theorem transport (h : i.Completes s load o seeds t t₁) (hu : i.Unlinked t) (hsizes : seeds.SameSizes seeds')
    (hways : SameWays t t') (hstat : t'.stat i.file = t.stat i.file) (hload : ∀ m, load t = .ok m → load t' = .ok m)
    (hpasses : ∀ data' t₁', i.Rewrites data' t' t₁' → i.Alike t₁ t₁' → s.Passes i t₁ → s.Passes i t₁') :
    ∃ t₁', i.Completes s load o seeds' t' t₁' ∧ i.Alike t₁ t₁' := by
  have hassess := assess_congr hstat o.renewBefore o.now
  cases h with
  | upToDate hforce ha hneeds =>
    obtain ⟨b, m, hview⟩ := view_of_assess ha hneeds
    have hview' : t'.view i.file = .ok (.file b m) := by rw [FileTree.view, hstat]; exact hview
    exact ⟨t', .upToDate hforce (hassess.trans ha) hneeds, .inl ⟨b, m, hview, hview'⟩⟩
  | @installs m data _ hdue h =>
    obtain ⟨data', hdata'⟩ := PemMaterial.package_congr hsizes h.package
    have hexists : t'.fileExists i.file = t.fileExists i.file := by rw [FileTree.fileExists, FileTree.fileExists, hstat]
    obtain ⟨hbackup, hw⟩ := (exists_rewrites_iff data hu).mp ⟨_, h.rewrites⟩
    obtain ⟨t₁', hrewrites⟩ := (exists_rewrites_iff data' (hu.congr hways)).mpr
      ⟨hbackup.imp (hexists.trans ·) (And.imp (hexists.trans ·) hways.writable), hways.writable hw⟩
    have halike : i.Alike t₁ t₁' := .inr ⟨m, seeds, seeds', data, data', h.package, hdata', h.rewrites.view hu,
      hrewrites.view (hu.congr hways)⟩
    have hdue' := hdue.imp_right (Exists.imp fun a => And.imp_left (hassess.trans ·))
    refine ⟨t₁', .installs hdue' ⟨hload m h.load, h.password, hdata', hrewrites, hpasses _ _ hrewrites halike h.passes⟩, halike⟩

end Completes

end
end CertRotation.Installation
