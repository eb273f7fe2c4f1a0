import CertRotation.Proofs.Rotation.Assessing
import CertRotation.Proofs.Rotation.Moments

/-!
# What the next check sees

A bundle that has been installed is found by the next check with the leaf of its material, so that the next cycle does
nothing until that leaf is due. The entry of the target must not be a link on the way to its own directory, since the
bundle then cuts off its own path.
-/
namespace CertRotation.Installation
open Files FileTree Rotation

section
variable {s : Surroundings} {i : Installation} {t : FileTree}

/-! ## The leaf of packaged material -/

/-- Packaged material is decoded with a leaf that has a summary. -/
theorem decode_leaf {seeds : Keystore.Seeds} {m : PemMaterial} {data : Bytes} {password : String}
    (h : m.package seeds password = .ok data) :
    ∃ leaf v d, Certificate.ofPem m.certificate = .ok leaf ∧ Certificate.summary leaf = .ok v ∧
      Bundle.decode data password = .ok d ∧ d.certificate = leaf := by
  obtain ⟨b, hb, hdecode⟩ := Bundle.decode_of_package h
  obtain ⟨key, hleaf, -⟩ := Bundle.toBundle_eq_ok hb
  obtain ⟨block, -, hblock⟩ := bind_eq_ok.mp hleaf
  obtain ⟨-, hblock⟩ := guard_eq_ok.mp hblock
  obtain ⟨c, hparse, hcontents⟩ := bind_eq_ok.mp hblock
  rw [Except.ok.inj hcontents] at hparse
  obtain ⟨v, hsummary⟩ : ∃ v, Certificate.summary b.certificate = .ok v := by
    rw [Certificate.summary, mapError_eq_ok.mp hparse]
    exact ⟨_, rfl⟩
  exact ⟨_, v, _, hleaf, hsummary, hdecode, rfl⟩

/-- The decision about a bundle depends on its leaf alone. -/
theorem decision_of_leaf {data : Bytes} {d : Bundle} {v : Certificate.Summary} (threshold : Threshold) (now : Instant)
    (hd : Bundle.decode data i.password = .ok d) (hv : Certificate.summary d.certificate = .ok v) :
    i.decision threshold now data = .ok (if threshold.isDue v now then .renewalDue v else .valid v) := by
  have hleaf : d.leafSummary = .ok v := mapError_eq_ok.mpr hv
  simp only [decision, hd, hleaf, isDue_leafSummary hleaf]
  split <;> rfl

/-! ## The file that has been installed -/

/-- A backup leaves the way to the target alone. -/
theorem direct_of_backup {steps : List Step} {made : Backup} (hdirect : t.Direct i.file)
    (h : i.backup t = (steps, .ok made)) : (after t steps).Direct i.file := by
  rcases backup_cases i t with ⟨r', hnone, -⟩ | ⟨b, m, -, ⟨-, steps', e, hup, -⟩ | ⟨-, steps', made', hput, hputs⟩⟩
  · obtain ⟨rfl, -⟩ := Prod.mk.inj (h.symm.trans hnone)
    exact hdirect
  · simp [h] at hup
  · obtain ⟨rfl, -⟩ := Prod.mk.inj (h.symm.trans hput)
    obtain ⟨d, name, -, hd, hn⟩ := hputs.1.place
    exact direct_of_file hd hn hdirect

/-- What a cycle has installed stands at the target: a bundle of the material that it has loaded. -/
theorem hasFile_of_installed {f : FileTree → Except Error PemMaterial} {o : Options} {p p' : Progress World}
    {report : Report} (hq : s.Quiet) (h : runCycle (i.installer s) (observe f) o p = (.ok report, p'))
    (hinstalled : report.action = .installed) (hdirect : p.world.files.Direct i.file) :
    ∃ m seeds data, f p.world.files = .ok m ∧ m.package seeds i.password = .ok data ∧
      HasFile p'.world.files i.file data := by
  rcases runCycle_cases hq h with ⟨-, hskipped⟩ | ⟨m, steps, result, -, -, -, e, he⟩ |
    ⟨m, seeds, data, made, steps, more, result, hload, hbackup, hpackage, hwrite, hmoved, hreport⟩
  · simp [hskipped report rfl] at hinstalled
  · simp at he
  · refine ⟨m, seeds, data, hload, hpackage, ?_⟩
    obtain ⟨-, rfl⟩ := hreport report rfl
    have hdirect' := direct_of_backup hdirect hbackup
    rcases writeFile_cases i.file data (after p.world.files steps) with
      ⟨-, more', e, hwrite', -⟩ | ⟨-, more', hwrite', hputs⟩
    · simp [hwrite] at hwrite'
    · obtain ⟨rfl, -⟩ := Prod.mk.inj (hwrite.symm.trans hwrite')
      obtain ⟨l, hstat⟩ := view_eq_ok.mp (hputs.1.view hdirect')
      rw [hmoved.1, after_append]
      exact ⟨l, privateMode, hstat⟩

/-! ## The next cycle -/

/-- A cycle that finds a valid certificate does nothing else, whatever it could load. -/
theorem runCycle_of_valid {load : Effect World PemMaterial} {o : Options} {w : World} {v : Certificate.Summary}
    (hforce : o.force = false) (hassess : i.assess o.renewBefore o.now w.files = .ok (.valid v)) :
    runCycle (i.installer s) load o ⟨w, []⟩ =
      (.ok { target := i.file, check := some (.valid v) },
        ⟨w, [.checkStarted, .checkComplete (.valid v), .upToDate]⟩) := by
  have hobserve : (i.installer s).assess o.renewBefore o.now w = (.ok (.valid v), w) := by
    show (i.assess o.renewBefore o.now w.files, w) = _
    rw [hassess]
  simp only [runCycle, Rotation.check, hforce, Bool.false_eq_true, if_false, bind_apply, tell_apply, perform_apply,
    hobserve, pure_apply, Option.all_some, Assessment.needsInstall]
  rfl

/-- What a cycle has installed is seen by every later check: it finds the leaf of the material that was loaded, due or
not. A cycle that is not forced and finds it not due changes nothing, asks for no material and runs no hook. -/
theorem assess_of_installed {f : FileTree → Except Error PemMaterial} {o : Options} {w : World} {p : Progress World}
    {report : Report} (hq : s.Quiet) (h : runCycle (i.installer s) (observe f) o ⟨w, []⟩ = (.ok report, p))
    (hinstalled : report.action = .installed) (hdirect : w.files.Direct i.file) :
    ∃ m leaf v, f w.files = .ok m ∧ Certificate.ofPem m.certificate = .ok leaf ∧ Certificate.summary leaf = .ok v ∧
      ∀ text threshold now, Threshold.parse text = .ok threshold →
        i.assess text now p.world.files = .ok (if threshold.isDue v now then .renewalDue v else .valid v) ∧
        (threshold.isDue v now = false → ∀ (s' : Surroundings) (load : Effect World PemMaterial),
          runCycle (i.installer s') load ⟨text, false, now⟩ ⟨p.world, []⟩ =
            (.ok { target := i.file, check := some (.valid v) },
              ⟨p.world, [.checkStarted, .checkComplete (.valid v), .upToDate]⟩)) := by
  obtain ⟨m, seeds, data, hload, hpackage, hfile⟩ := hasFile_of_installed hq h hinstalled hdirect
  obtain ⟨leaf, v, d, hleaf, hsummary, hdecode, hd⟩ := decode_leaf hpackage
  refine ⟨m, leaf, v, hload, hleaf, hsummary, fun text threshold now hparse => ?_⟩
  have hassess : i.assess text now p.world.files = .ok (if threshold.isDue v now then .renewalDue v else .valid v) :=
    (assess_of_hasFile hparse hfile).trans (decision_of_leaf threshold now hdecode (hd ▸ hsummary))
  refine ⟨hassess, fun hdue s' load => runCycle_of_valid rfl ?_⟩
  rw [hassess, hdue]
  rfl

end

theorem parse_sample : Threshold.parse "30d" = .ok (.window 2592000) := by decide

theorem assess_of_installed_sample : ∃ report p v,
    runCycle (sampleInstallation.installer sampleSurroundings) (observe fun _ => .ok Bundle.sample) sampleOptions
      ⟨⟨⟨[], []⟩, [], [], 0⟩, []⟩ = (.ok report, p) ∧
    sampleInstallation.assess "30d" ⟨0⟩ p.world.files =
      .ok (if Threshold.isDue (.window 2592000) v ⟨0⟩ then .renewalDue v else .valid v) := by
  obtain ⟨data, report, p, hrun, hinstalled, hentry, -⟩ := exists_run_sample (t := ⟨[], []⟩) rfl rfl
  have hdirect : FileTree.Direct ⟨[], []⟩ sampleInstallation.file := SingleName.direct (by decide)
  obtain ⟨m, leaf, v, -, -, -, hassess⟩ := assess_of_installed (fun _ _ => rfl) hrun hinstalled hdirect
  exact ⟨report, p, v, hrun, (hassess "30d" _ ⟨0⟩ parse_sample).1⟩

/-! ### A bundle that cuts off its own path -/

/-- The entry of the target is a link to its own directory, and the target lies beyond it. -/
def looped : FileTree := ⟨[(["d"], .directory), (["d", "a"], .link ".")], []⟩

theorem descend_looped : descend looped maxLinks [] ["d", "a"] = .ok (["d"], 39) := by
  have hnodes : looped.node? ["d"] = some .directory ∧ looped.node? ["d", "a"] = some (.link ".") := by decide
  have hshort : ¬ maxName < "d".utf8ByteSize ∧ ¬ maxName < "a".utf8ByteSize := by decide
  have hdot : Path.names "." = ["."] ∧ Path.isAbsolute "." = false := by decide
  simp [descend, hshort, hnodes, hdot, maxLinks]

theorem names_looped : Path.names "d/a/a" = ["d", "a"] ++ ["a"] ∧ Path.endsWithSlash "d/a/a" = false := by decide

theorem link_looped : looped.node? ["d", "a"] = some (.link ".") := by decide

theorem entryAt_looped : looped.entryAt "d/a/a" = .ok (["d"], "a") :=
  entryAt_eq_ok.mpr
    ⟨rfl, _, 39, names_looped.1, start_of_working (t := looped) rfl _ ▸ descend_looped, by decide, short_sample.1⟩

theorem backup_looped {i : Installation} (hfile : i.file = "d/a/a") : i.backup looped = ([], .ok .skipped) := by
  have hdot : Path.names "." = ["."] ∧ Path.endsWithSlash "." = false ∧ Path.isAbsolute "." = false := by decide
  have hstat : looped.stat "d/a/a" = .ok (["d"], .directory) := by
    refine stat_eq_ok.mpr ⟨rfl, ?_⟩
    rw [names_looped.1, start_of_working (t := looped) rfl, names_looped.2, walk_append _ _ _ _ _ _ (by simp),
      descend_looped]
    simp [walk, short_sample, link_looped, hdot]
  have hexists : looped.fileExists "d/a/a" = .ok false := by simp [FileTree.fileExists, hstat]
  rw [backup_apply, hfile, hexists]
  rfl

theorem writable_looped : Writable looped "d/a/a" := by
  have hstaging : stagingDirectory "d/a/a" = "d/a" ∧ Path.names "d/a" = ["d", "a"] := by decide
  have hcheck : FileTree.check (stagingPath looped "d/a/a") = .ok () := by
    unfold stagingPath
    rfl
  refine ⟨⟨_, stagingPlace_eq_ok.mpr ⟨hcheck, ["d"], 39, ?_, rfl⟩⟩, ["d", "a"],
    renameTarget_eq_ok.mpr ⟨["d"], "a", entryAt_looped, names_looped.2, by simp [link_looped], rfl⟩⟩
  rw [hstaging.1, hstaging.2, start_of_working (t := looped) rfl, descend_looped]

/-- The bundle takes the place of the link. -/
theorem replaced_looped {t : FileTree} {data : Bytes} (h : Placed looped t "d/a/a" data privateMode) :
    DiffersAt looped t ["d", "a"] ∧ t.node? ["d", "a"] = some (.file data privateMode) := by
  obtain ⟨d, name, hentry, hd, hn⟩ := h.place
  obtain ⟨rfl, rfl⟩ := Prod.mk.inj (Except.ok.inj (entryAt_looped.symm.trans hentry))
  exact ⟨hd, hn⟩

/-- The path of the target does not lead to the bundle any more. -/
theorem stat_replaced {t : FileTree} {data : Bytes} (hd : DiffersAt looped t ["d", "a"])
    (hn : t.node? ["d", "a"] = some (.file data privateMode)) : t.stat "d/a/a" = .error .notADirectory := by
  have hdirectory : t.node? ["d"] = some .directory := (hd.2 _ (by decide)).trans (by decide)
  exact stat_beyond_file "d/a/a" "a" "a" hd.1 hdirectory hn rfl (by decide) (.inl rfl)

theorem exists_run_looped : ∃ data report p,
    runCycle (installer sampleSurroundings { file := "d/a/a", password := "password" })
      (observe fun _ => .ok Bundle.sample) sampleOptions ⟨⟨looped, [], [], 0⟩, []⟩ = (.ok report, p) ∧
    report.action = .installed ∧ DiffersAt looped p.world.files ["d", "a"] ∧
    p.world.files.node? ["d", "a"] = some (.file data privateMode) := by
  obtain ⟨data, report, p, hrun, hinstalled, hplaced⟩ := exists_runCycle_sample
    (i := { file := "d/a/a", password := "password" }) (w := ⟨looped, [], [], 0⟩) rfl rfl rfl (backup_looped rfl)
    writable_looped
  exact ⟨data, report, p, hrun, hinstalled, replaced_looped hplaced⟩

/-- A cycle may install a bundle that no later check can find. -/
theorem installed_cut_off : ∃ report p,
    runCycle (installer sampleSurroundings { file := "d/a/a", password := "password" })
      (observe fun _ => .ok Bundle.sample) sampleOptions ⟨⟨looped, [], [], 0⟩, []⟩ = (.ok report, p) ∧
    report.action = .installed ∧ ∀ text threshold now, Threshold.parse text = .ok threshold →
      assess { file := "d/a/a", password := "password" } text now p.world.files =
        .error (.files ⟨"d/a/a", .notADirectory⟩) := by
  obtain ⟨data, report, p, hrun, hinstalled, hd, hfile⟩ := exists_run_looped
  refine ⟨report, p, hrun, hinstalled, fun text threshold now hparse => ?_⟩
  exact assess_of_fault hparse (by decide) (stat_replaced hd hfile)

end CertRotation.Installation
