import CertRotation.Proofs.Bundle.Packaging
import CertRotation.Proofs.Files.Staging
import CertRotation.Proofs.Rotation.CycleSteps

/-!
# The moments of a cycle

Every moment of a cycle is one of four: a file is being prepared, or the backup is made, or the bundle is installed
without a backup or after one.
-/
namespace CertRotation.Installation
open Files FileTree Rotation

/-- The files at a moment of a cycle that has started with the files `t`. -/
inductive Moment (i : Installation) (load : FileTree → Except Error PemMaterial) (t : FileTree) : FileTree → Prop
  /-- A file is prepared for the target, or for its backup if something is at the target. -/
  | preparing {p : String} {t' : FileTree} (h : Beside t t' p)
      (hp : p = i.file ∨ p = Path.backup i.file ∧ ∃ n, t.view i.file = .ok n) : Moment i load t t'
  /-- The backup is made, and perhaps a bundle is prepared. -/
  | backedUp {b : Bytes} {m : Nat} {t₁ t' : FileTree} (hv : t.view i.file = .ok (.file b m))
      (hbackup : Placed t t₁ (Path.backup i.file) b m) (h : Beside t₁ t' i.file) : Moment i load t t'
  /-- The bundle is installed where no file was. -/
  | installed {m : PemMaterial} {seeds : Keystore.Seeds} {data : Bytes} {t' : FileTree}
      (hv : ∀ b m, t.view i.file ≠ .ok (.file b m)) (hload : load t = .ok m)
      (hpackage : m.package seeds i.password = .ok data) (h : Placed t t' i.file data privateMode) : Moment i load t t'
  /-- The bundle is installed after the backup has been made. -/
  | replaced {b : Bytes} {k : Nat} {m : PemMaterial} {seeds : Keystore.Seeds} {data : Bytes} {t₁ t' : FileTree}
      (hv : t.view i.file = .ok (.file b k)) (hbackup : Placed t t₁ (Path.backup i.file) b k)
      (hload : load t = .ok m) (hpackage : m.package seeds i.password = .ok data)
      (h : Placed t₁ t' i.file data privateMode) : Moment i load t t'

section
variable {i : Installation} {load : FileTree → Except Error PemMaterial} {t t' : FileTree}

/-! ## Backing up -/

theorem backup_apply (i : Installation) (t : FileTree) :
    i.backup t = match about i.file (t.fileExists i.file) with
      | .error e => ([], .error e)
      | .ok false => ([], .ok .skipped)
      | .ok true => match copyFile i.file (Path.backup i.file) t with
        | (steps, .error e) => (steps, .error e)
        | (steps, .ok n) => (steps, .ok (.created (Path.backup i.file) n)) := by
  simp only [backup, Action.bind_apply, Action.look_apply]
  rcases about i.file (t.fileExists i.file) with e | there
  · rfl
  · cases there with
    | false => rfl
    | true =>
      simp only [if_true, after, List.foldl, Action.bind_apply, List.nil_append]
      rcases copyFile i.file (Path.backup i.file) t with ⟨steps, e | n⟩
      · rfl
      · show (steps ++ [], _) = _
        rw [List.append_nil]
        rfl

/-- A regular file is copied, and without one there is no backup. -/
theorem backup_cases (i : Installation) (t : FileTree) :
    (∃ r, i.backup t = ([], r) ∧ ∀ b m, t.view i.file ≠ .ok (.file b m)) ∨
      ∃ b m, t.view i.file = .ok (.file b m) ∧
        ((¬ Writable t (Path.backup i.file) ∧ ∃ steps e, i.backup t = (steps, .error e) ∧
            GivesUp t (Path.backup i.file) steps) ∨
          Writable t (Path.backup i.file) ∧ ∃ steps backup, i.backup t = (steps, .ok backup) ∧
            Puts t (Path.backup i.file) b m steps) := by
  rw [backup_apply]
  cases hstat : t.stat i.file with
  | error e =>
    left
    cases e <;> simp [FileTree.fileExists, hstat, about, Except.mapError, view, Except.map]
  | ok r =>
    obtain ⟨l, n⟩ := r
    cases n with
    | directory => left; simp [FileTree.fileExists, hstat, about, Except.mapError, view, Except.map]
    | link target => left; simp [FileTree.fileExists, hstat, about, Except.mapError, view, Except.map]
    | file b m =>
      right
      refine ⟨b, m, by simp [view, hstat, Except.map], ?_⟩
      simp only [FileTree.fileExists, hstat, about, Except.mapError]
      rcases copyFile_cases (Path.backup i.file) hstat with ⟨hnot, steps, e, hcopy, hup⟩ | ⟨hwritable, steps, hcopy, hput⟩
      · exact .inl ⟨hnot, steps, e, by rw [hcopy], hup⟩
      · exact .inr ⟨hwritable, steps, _, by rw [hcopy], hput⟩

/-! ## Moments of a run -/

theorem moment_refl (i : Installation) (load : FileTree → Except Error PemMaterial) (t : FileTree) :
    i.Moment load t t := .preparing (beside_refl t i.file) (.inl rfl)

theorem backup_moment {steps : List Step} {r : Except Failure Backup} (h : i.backup t = (steps, r)) :
    ∀ t' ∈ states t steps, i.Moment load t t' := by
  intro t' ht
  rcases backup_cases i t with ⟨r', hnone, -⟩ |
    ⟨b, m, hv, ⟨-, steps', e, hup, hgives⟩ | ⟨-, steps', backup, hput, hputs⟩⟩
  · obtain ⟨rfl, -⟩ := Prod.mk.inj (h.symm.trans hnone)
    obtain rfl := List.mem_singleton.mp ht
    exact moment_refl i load t'
  · obtain ⟨rfl, -⟩ := Prod.mk.inj (h.symm.trans hup)
    exact .preparing (hgives t' ht) (.inr ⟨rfl, _, hv⟩)
  · obtain ⟨rfl, -⟩ := Prod.mk.inj (h.symm.trans hput)
    rcases hputs.2 t' ht with hbeside | rfl
    · exact .preparing hbeside (.inr ⟨rfl, _, hv⟩)
    · exact .backedUp hv hputs.1 (beside_refl _ i.file)

theorem install_moment {m : PemMaterial} {seeds : Keystore.Seeds} {data : Bytes} {backup : Backup}
    {steps more : List Step} {r : Except Failure Unit} (hload : load t = .ok m)
    (hpackage : m.package seeds i.password = .ok data) (hbackup : i.backup t = (steps, .ok backup))
    (h : writeFile i.file data (after t steps) = (more, r)) :
    ∀ t' ∈ states (after t steps) more, i.Moment load t t' := by
  intro t' ht
  have hwritten : Beside (after t steps) t' i.file ∨ Placed (after t steps) t' i.file data privateMode := by
    rcases writeFile_cases i.file data (after t steps) with
      ⟨-, more', e, hwrite, hgives⟩ | ⟨-, more', hwrite, hputs⟩
    · obtain ⟨rfl, -⟩ := Prod.mk.inj (h.symm.trans hwrite)
      exact .inl (hgives t' ht)
    · obtain ⟨rfl, -⟩ := Prod.mk.inj (h.symm.trans hwrite)
      rcases hputs.2 t' ht with hbeside | rfl
      · exact .inl hbeside
      · exact .inr hputs.1
  rcases backup_cases i t with ⟨r', hnone, hv⟩ |
    ⟨b, k, hv, ⟨-, steps', e, hup, -⟩ | ⟨-, steps', backup', hput, hputs⟩⟩
  · obtain ⟨rfl, -⟩ := Prod.mk.inj (hbackup.symm.trans hnone)
    rcases hwritten with hbeside | hplaced
    · exact .preparing hbeside (.inl rfl)
    · exact .installed hv hload hpackage hplaced
  · simp [hbackup] at hup
  · obtain ⟨rfl, -⟩ := Prod.mk.inj (hbackup.symm.trans hput)
    rcases hwritten with hbeside | hplaced
    · exact .backedUp hv hputs.1 hbeside
    · exact .replaced hv hputs.1 hload hpackage hplaced

theorem outcome_moment {w w' : World} {r : Except Error Report} (h : Outcome i load w w' r) :
    ∃ steps, w.Moved w' steps ∧ ∀ t ∈ states w.files steps, i.Moment load w.files t := by
  rcases h with ⟨hmoved, -⟩ | ⟨m, steps, result, -, hbackup, hmoved, -⟩ |
    ⟨m, seeds, data, backup, steps, more, result, hload, hbackup, hpackage, hwrite, hmoved, -⟩
  · refine ⟨[], hmoved, fun t ht => ?_⟩
    obtain rfl := List.mem_singleton.mp ht
    exact moment_refl i load _
  · exact ⟨steps, hmoved, backup_moment hbackup⟩
  · refine ⟨steps ++ more, hmoved, fun t ht => ?_⟩
    rcases mem_states_append.mp ht with ht | ht
    · exact backup_moment hbackup t ht
    · exact install_moment hload hpackage hbackup hwrite t ht

end

/-! ## A run on samples -/

/-- No instruction does anything, and all seeds are the same. -/
def sampleSurroundings : Surroundings := ⟨fun _ => Bundle.sampleSeeds, fun _ _ => ([], .ok {})⟩

def sampleOptions : Options := { force := true, now := ⟨0⟩ }

/-- The bundle is installed at every target that can be written. -/
theorem exists_install_sample {i : Installation} {w : World} (hp : i.password = "password")
    (hw : Writable w.files i.file) : ∃ data more,
    i.install sampleSurroundings Bundle.sample w =
        (.ok data.length, World.advance { w with packaged := w.packaged + 1 } more) ∧
      Placed w.files (after w.files more) i.file data privateMode := by
  obtain ⟨data, hdata⟩ := Bundle.exists_package_sample
  rcases writeFile_cases i.file data w.files with ⟨hnot, -⟩ | ⟨-, more, hwrite, hputs⟩
  · exact absurd hw hnot
  · exact ⟨data, more, install_of_package (by simp [hp]) (by rw [hp]; exact hdata) hwrite, hputs.1⟩

/-- A forced cycle without hooks puts a bundle there. -/
theorem exists_runCycle_sample {i : Installation} {w : World} {steps : List Step} {made : Backup}
    (hp : i.password = "password") (ha : i.afterAction = none) (hv : i.validation = none)
    (hbackup : i.backup w.files = (steps, .ok made)) (hw : Writable (after w.files steps) i.file) :
    ∃ data report p, runCycle (i.installer sampleSurroundings) (observe fun _ => .ok Bundle.sample) sampleOptions
        ⟨w, []⟩ = (.ok report, p) ∧ report.action = .installed ∧
      Placed (after w.files steps) p.world.files i.file data privateMode := by
  obtain ⟨data, more, hinstall, hplaced⟩ := exists_install_sample (w := w.advance steps) hp hw
  have hhook : ∀ w', runInstruction sampleSurroundings none w' = (.ok none, w') := fun _ => rfl
  obtain ⟨report, events, hrun, hinstalled⟩ := runCycle_of_hooks (o := sampleOptions) (f := fun _ => .ok Bundle.sample)
    rfl rfl hbackup hinstall (ha ▸ hhook _) (hv ▸ hhook _)
  exact ⟨data, report, _, hrun, hinstalled, hplaced⟩

def sampleInstallation : Installation := { file := "a", password := "password" }

theorem names_sample : Path.names "a" = ["a"] ∧ Path.names (Path.backup "a") = ["a.bak"] := by decide

theorem short_sample : ¬ maxName < "a".utf8ByteSize ∧ ¬ maxName < "a.bak".utf8ByteSize := by decide

theorem start_of_working {t : FileTree} (h : t.working = []) (path : String) : t.start path = [] := by
  simp [start, h]

theorem exists_run_sample {t : FileTree} (hw : t.working = []) (hn : t.node? ["a"] = none) :
    ∃ data report p, runCycle (sampleInstallation.installer sampleSurroundings) (observe fun _ => .ok Bundle.sample)
        sampleOptions ⟨⟨t, [], [], 0⟩, []⟩ = (.ok report, p) ∧ report.action = .installed ∧
      t.entryAt "a" = .ok ([], "a") ∧ DiffersAt t p.world.files ["a"] ∧
      p.world.files.node? ["a"] = some (.file data privateMode) := by
  have hname : SingleName "a" := by decide
  have hbackup : sampleInstallation.backup t = ([], .ok .skipped) := by
    have hexists : t.fileExists sampleInstallation.file = .ok false := by
      show t.fileExists "a" = _
      simp [FileTree.fileExists, hname.stat_missing hw hn]
    rw [backup_apply, hexists]
    rfl
  have hentry : t.entryAt "a" = .ok ([], "a") := hname.entryAt hw
  have hwritable : Writable t "a" := writable_of_singleName hname hw (by simp [hn])
  obtain ⟨data, report, p, hrun, hinstalled, hplaced⟩ := exists_runCycle_sample (i := sampleInstallation)
    (w := ⟨t, [], [], 0⟩) rfl rfl rfl hbackup hwritable
  obtain ⟨d, name, hentry', hd, hfile⟩ := hplaced.place
  obtain ⟨rfl, rfl⟩ := Prod.mk.inj (Except.ok.inj (hentry.symm.trans hentry'))
  exact ⟨data, report, p, hrun, hinstalled, hentry, hd, hfile⟩

/-- A file cuts off what lies beyond it. -/
theorem stat_beyond_file {t : FileTree} {b : Bytes} {m : Nat} (path name last : String) (hworking : t.working = [])
    (hd : t.node? ["d"] = some .directory) (hfile : t.node? ["d", name] = some (.file b m))
    (hcheck : FileTree.check path = .ok ()) (hnames : Path.names path = ["d", name, last])
    (hshort : name = "a" ∨ name = "a.bak") : t.stat path = .error .notADirectory := by
  have hshort' : ¬ maxName < "d".utf8ByteSize := by decide
  simp only [stat, resolve, hcheck, hnames, start_of_working hworking]
  rcases hshort with rfl | rfl
  · simp [walk, hshort', short_sample, hd, hfile, bind, Except.bind]
  · simp [walk, hshort', short_sample, hd, hfile, bind, Except.bind]

end CertRotation.Installation
