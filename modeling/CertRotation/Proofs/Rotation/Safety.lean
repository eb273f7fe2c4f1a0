import CertRotation.Proofs.Files.BackupNames
import CertRotation.Proofs.Rotation.Moments

/-!
# What a rotation keeps

At every moment of a cycle single locations hold what they shall, wherever links lead, and nothing is lost. What target
and backup show is kept too as long as their paths are separate: where the entry of one of them is a link through which
one of both paths leads on, a file that takes its place cuts off that path.
-/
namespace CertRotation.Installation
open Files FileTree Rotation

/-- The paths that a cycle puts files at. -/
def paths (i : Installation) : List String := [i.file, Path.backup i.file]

/-- What may have happened to single locations, wherever links lead. -/
structure Confined (i : Installation) (load : FileTree → Except Error PemMaterial) (t t' : FileTree) : Prop where
  /-- Besides a new file under a temporary name, only the entries of target and backup change, and to what they shall
  hold. -/
  changed : ∀ l, t'.node? l = t.node? l ∨ (t.node? l = none ∧ ∃ d n, l = d ++ [temporaryName n]) ∨
    (∃ d name b m, t.entryAt (Path.backup i.file) = .ok (d, name) ∧ l = d ++ [name] ∧
      t.view i.file = .ok (.file b m) ∧ t'.node? l = some (.file b m)) ∨
    ∃ d name m seeds data, t.entryAt i.file = .ok (d, name) ∧ l = d ++ [name] ∧ load t = .ok m ∧
      m.package seeds i.password = .ok data ∧ t'.node? l = some (.file data privateMode)
  /-- The file that was there before stands where it stood, or a copy stands at the entry of the backup. -/
  kept : ∀ l b m, t.stat i.file = .ok (l, .file b m) → t'.node? l = some (.file b m) ∨
    ∃ d name, t.entryAt (Path.backup i.file) = .ok (d, name) ∧ t'.node? (d ++ [name]) = some (.file b m)

/-- What target and backup may show. -/
structure Safe (i : Installation) (load : FileTree → Except Error PemMaterial) (t t' : FileTree) : Prop where
  /-- The target shows what it has shown, or a complete bundle of the material that the cycle has loaded. -/
  target : t'.view i.file = t.view i.file ∨ ∃ m seeds data, load t = .ok m ∧
    m.package seeds i.password = .ok data ∧ t'.view i.file = .ok (.file data privateMode)
  /-- The backup shows what it has shown, or what the target has shown; if there was no file to back up and the backup
  is a link to the target, then it may show the new bundle there, or that this is no directory if the link has to end in
  one. -/
  backup : t'.view (Path.backup i.file) = t.view (Path.backup i.file) ∨
    (∃ b m, t.view i.file = .ok (.file b m) ∧ t'.view (Path.backup i.file) = .ok (.file b m)) ∨
    (∀ b m, t.view i.file ≠ .ok (.file b m)) ∧ t.LeadsTo (Path.backup i.file) i.file ∧
      (t'.view (Path.backup i.file) = t'.view i.file ∨ t'.view (Path.backup i.file) = .error .notADirectory)
  /-- Nothing is lost. -/
  kept : ∀ b m, t.view i.file = .ok (.file b m) →
    t'.view i.file = .ok (.file b m) ∨ t'.view (Path.backup i.file) = .ok (.file b m)

section
variable {i : Installation} {load : FileTree → Except Error PemMaterial} {t t' : FileTree}

theorem file_mem_paths (i : Installation) : i.file ∈ i.paths := by simp [paths]

theorem backup_mem_paths (i : Installation) : Path.backup i.file ∈ i.paths := by simp [paths]

/-! ## Single locations -/

/-- The entries of target and backup have different names. -/
theorem entry_ne_backup {t₁ : FileTree} {d d' : Location} {name name' : String}
    (hslash : Path.endsWithSlash i.file = false) (hfile : t.entryAt i.file = .ok (d, name))
    (hbackup : t₁.entryAt (Path.backup i.file) = .ok (d', name')) : d' ++ [name'] ≠ d ++ [name] := by
  intro heq
  obtain rfl := List.head_eq_of_cons_eq (List.append_inj' heq rfl).2
  obtain ⟨hcheck, init, left, hnames, -⟩ := entryAt_eq_ok.mp hfile
  obtain ⟨-, init', left', hnames', -⟩ := entryAt_eq_ok.mp hbackup
  obtain ⟨start, last, hstart, hstart', hempty⟩ := Path.names_backup i.file
  have hne : i.file ≠ "" := by
    intro hnil
    rw [hnil] at hcheck
    simp [FileTree.check] at hcheck
  rw [if_neg (by simp [hempty, hne, hslash]), hnames] at hstart
  rw [hnames'] at hstart'
  obtain rfl := List.head_eq_of_cons_eq (List.append_inj' hstart rfl).2
  have hlength := congrArg String.length (List.head_eq_of_cons_eq (List.append_inj' hstart' rfl).2)
  simp at hlength

theorem Moment.confined (h : i.Moment load t t') : i.Confined load t t' := by
  cases h with
  | preparing h hp =>
    obtain ⟨place, hfresh, hd⟩ := h
    constructor
    · intro l
      by_cases hl : l = place
      · exact .inr (.inl (hl ▸ ⟨hfresh.node?_eq_none, hfresh.temporary⟩))
      · exact .inl (hd.2 l hl)
    · intro l b m hstat
      have hn := node?_of_walk_file (stat_eq_ok.mp hstat).2
      have hl : l ≠ place := fun heq => by simp [heq, hfresh.node?_eq_none] at hn
      exact .inl ((hd.2 l hl).trans hn)
  | @backedUp b m t₁ _ hv hbackup h =>
    obtain ⟨place, hfresh, hd⟩ := h
    obtain ⟨d, name, hentry, hd₁, hn₁⟩ := hbackup.place
    have hbackup : d ++ [name] ≠ place := fun heq => by simp [heq, hfresh.node?_eq_none] at hn₁
    have hn := (hd.2 _ hbackup).trans hn₁
    constructor
    · intro l
      by_cases hl : l = place
      · refine .inr (.inl ⟨?_, hl ▸ hfresh.temporary⟩)
        rw [← hd₁.2 l fun heq => hbackup (heq.symm.trans hl), hl, hfresh.node?_eq_none]
      · by_cases hl' : l = d ++ [name]
        · exact .inr (.inr (.inl ⟨d, name, b, m, hentry, hl', hv, hl' ▸ hn⟩))
        · exact .inl ((hd.2 l hl).trans (hd₁.2 l hl'))
    · intro l c k hstat
      have hsame := hv.symm.trans (view_eq_ok.mpr ⟨l, hstat⟩)
      exact .inr ⟨d, name, hentry, hn.trans (congrArg some (Except.ok.inj hsame))⟩
  | @installed m seeds data _ hv hload hpackage h =>
    obtain ⟨d, name, hentry, hd, hn⟩ := h.place
    constructor
    · intro l
      by_cases hl : l = d ++ [name]
      · exact .inr (.inr (.inr ⟨d, name, m, seeds, data, hentry, hl, hload, hpackage, hl ▸ hn⟩))
      · exact .inl (hd.2 l hl)
    · intro l b k hstat
      exact absurd (view_eq_ok.mpr ⟨l, hstat⟩) (hv b k)
  | @replaced b k m seeds data t₁ _ hv hbackup hload hpackage h =>
    obtain ⟨d, name, hentry, hd, hn⟩ := hbackup.place
    obtain ⟨d', name', hentry', hd', hn'⟩ := h.place
    have hne := entry_ne_backup h.endsWithSlash hentry' hentry
    have hn'' := (hd'.2 _ hne).trans hn
    constructor
    · intro l
      by_cases hl : l = d' ++ [name']
      · exact .inr (.inr (.inr ⟨d', name', m, seeds, data, entryAt_of_file hd hn hentry', hl, hload, hpackage,
          hl ▸ hn'⟩))
      · by_cases hl' : l = d ++ [name]
        · exact .inr (.inr (.inl ⟨d, name, b, k, hentry, hl', hv, hl' ▸ hn''⟩))
        · exact .inl ((hd'.2 l hl).trans (hd.2 l hl'))
    · intro l c j hstat
      have hsame := hv.symm.trans (view_eq_ok.mpr ⟨l, hstat⟩)
      exact .inr ⟨d, name, hentry, hn''.trans (congrArg some (Except.ok.inj hsame))⟩

/-! ## What target and backup show -/

/-- Neither path comes across a new file that is prepared for one of them. A new file for the backup is only prepared
when something is at the target. -/
theorem ne_of_fresh {p : String} {place : Location} (hf : Fresh t p place)
    (hp : p = i.file ∨ p = Path.backup i.file ∧ ∃ n, t.view i.file = .ok n) :
    ∀ q ∈ i.paths, ∀ r ∈ t.trailOf q, r.1 ≠ place := by
  have hbackup : ∀ n, temporaryName n ∈ Path.names (Path.backup i.file) → temporaryName n ∈ Path.names i.file := by
    intro n hn
    rcases Path.mem_names_backup hn with hn | ⟨s, hs⟩
    · exact hn
    · exact absurd hs (temporaryName_ne_append n s)
  intro q hq
  simp only [paths, List.mem_cons, List.not_mem_nil, or_false] at hq
  rcases hp with rfl | ⟨rfl, n, hv⟩
  · rcases hq with rfl | rfl
    · exact hf.ne_of_names fun _ hn => hn
    · exact hf.ne_of_names hbackup
  · rcases hq with rfl | rfl
    · exact hf.ne_of_view hv
    · exact hf.ne_of_names fun _ hn => hn

/-- Both paths show the same while a file is prepared. -/
theorem view_of_beside {p : String} (h : Beside t t' p)
    (hp : p = i.file ∨ p = Path.backup i.file ∧ ∃ n, t.view i.file = .ok n) :
    (∀ q ∈ i.paths, t'.view q = t.view q) ∧ (t.Separate i.paths → t'.Separate i.paths) := by
  obtain ⟨place, hf, hd⟩ := h
  have hoff : ∀ q ∈ i.paths, ∀ r ∈ t.trailOf q, t'.node? r.1 = t.node? r.1 := fun q hq r hr =>
    hd.2 r.1 (ne_of_fresh hf hp q hq r hr)
  exact ⟨fun q hq => (view_congr hd.1 (hoff q hq)).2, separate_congr hd.1 hoff⟩

/-- The backup does not change what the target shows. -/
theorem view_of_backup {b : Bytes} {m : Nat} (hs : t.Separate i.paths) (hv : t.view i.file = .ok (.file b m))
    (h : Placed t t' (Path.backup i.file) b m) : t'.view i.file = .ok (.file b m) := by
  rcases h.view_of_separate hs i.backup_mem_paths i.file_mem_paths with heq | ⟨-, heq | ⟨-, hnot⟩⟩
  · exact heq.trans hv
  · exact heq
  · exact absurd hv (hnot b m)

/-- A backup that is a regular file is no link to the target. -/
theorem not_leadsTo_of_file {d : Location} {name : String} {b : Bytes} {m : Nat}
    (hslash : Path.endsWithSlash i.file = false) (hentry : t.entryAt (Path.backup i.file) = .ok (d, name))
    (hn : t.node? (d ++ [name]) = some (.file b m)) : ¬ t.LeadsTo (Path.backup i.file) i.file := by
  rintro ⟨d', name', hentry', hmem⟩
  obtain ⟨-, init, left, hnames, hdescend, hdots, hlong⟩ := entryAt_eq_ok.mp hentry
  rw [trailOf, hnames, trail_append t _ _ init (by simp), hdescend] at hmem
  have hlast : (d' ++ [name'], true) ∈ trail t left d [name] := by simpa using hmem
  simp only [trail, not_or.mp hdots, hlong, hn, if_false, List.mem_singleton, Prod.mk.injEq] at hlast
  exact entry_ne_backup hslash hentry' hentry hlast.1.symm

theorem Moment.safe (h : i.Moment load t t') (hs : t.Separate i.paths) : i.Safe load t t' := by
  cases h with
  | preparing h hp =>
    have hsame := (view_of_beside h hp).1
    exact ⟨.inl (hsame _ i.file_mem_paths), .inl (hsame _ i.backup_mem_paths),
      fun b m hv => .inl ((hsame _ i.file_mem_paths).trans hv)⟩
  | @backedUp b m t₁ _ hv hbackup h =>
    have hsame := (view_of_beside h (.inl rfl)).1
    have htarget := (hsame _ i.file_mem_paths).trans (view_of_backup hs hv hbackup)
    have hcopy := (hsame _ i.backup_mem_paths).trans (hbackup.view (hs.direct i.backup_mem_paths))
    refine ⟨.inl (htarget.trans hv.symm), .inr (.inl ⟨b, m, hv, hcopy⟩), fun c k hc => .inl ?_⟩
    rw [htarget, ← hv, hc]
  | @installed m seeds data _ hv hload hpackage h =>
    have htarget := h.view (hs.direct i.file_mem_paths)
    refine ⟨.inr ⟨m, seeds, data, hload, hpackage, htarget⟩, ?_, fun b k hc => absurd hc (hv b k)⟩
    rcases h.view_of_separate hs i.file_mem_paths i.backup_mem_paths with heq | ⟨hleads, heq | ⟨heq, -⟩⟩
    · exact .inl heq
    · exact .inr (.inr ⟨hv, hleads, .inl (heq.trans htarget.symm)⟩)
    · exact .inr (.inr ⟨hv, hleads, .inr heq⟩)
  | @replaced b k m seeds data t₁ _ hv hbackup hload hpackage h =>
    have hs₁ := hbackup.separate hs i.backup_mem_paths
    have htarget := h.view (hs₁.direct i.file_mem_paths)
    obtain ⟨d, name, hentry, hn⟩ := hbackup.entry (hs.direct i.backup_mem_paths)
    have hcopy : t'.view (Path.backup i.file) = .ok (.file b k) := by
      rcases h.view_of_separate hs₁ i.file_mem_paths i.backup_mem_paths with heq | ⟨hleads, -⟩
      · exact heq.trans (hbackup.view (hs.direct i.backup_mem_paths))
      · exact absurd hleads (not_leadsTo_of_file h.endsWithSlash hentry hn)
    refine ⟨.inr ⟨m, seeds, data, hload, hpackage, htarget⟩, .inr (.inl ⟨b, k, hv, hcopy⟩), fun c j hc => .inr ?_⟩
    rw [hcopy, ← hv, hc]

theorem Moment.separate (h : i.Moment load t t') (hs : t.Separate i.paths) : t'.Separate i.paths := by
  cases h with
  | preparing h hp => exact (view_of_beside h hp).2 hs
  | backedUp hv hbackup h => exact (view_of_beside h (.inl rfl)).2 (hbackup.separate hs i.backup_mem_paths)
  | installed hv hload hpackage h => exact h.separate hs i.file_mem_paths
  | replaced hv hbackup hload hpackage h =>
    exact h.separate (hbackup.separate hs i.backup_mem_paths) i.file_mem_paths

end

/-! ## Sequences of cycles -/

structure Turn where
  surroundings : Surroundings
  load : FileTree → Except Error PemMaterial
  options : Options
  /-- Hooks write no files. -/
  quiet : surroundings.Quiet

def Turn.run (i : Installation) (w : World) (turn : Turn) : World :=
  (runCycle (i.installer turn.surroundings) (observe turn.load) turn.options ⟨w, []⟩).2.world

theorem Turn.run_moment (i : Installation) (w : World) (turn : Turn) :
    ∃ steps, w.Moved (turn.run i w) steps ∧ ∀ t ∈ states w.files steps, i.Moment turn.load w.files t :=
  outcome_moment (runCycle_cases turn.quiet rfl)

theorem separate_run {i : Installation} {w : World} (hs : w.files.Separate i.paths) (turns : List Turn) :
    (turns.foldl (Turn.run i) w).files.Separate i.paths := by
  induction turns generalizing w with
  | nil => exact hs
  | cons turn turns ih =>
    obtain ⟨steps, hmoved, hmoment⟩ := turn.run_moment i w
    have hlast := hmoment _ (after_mem_states w.files steps)
    rw [← hmoved.1] at hlast
    exact ih (hlast.separate hs)

/-- After any sequence of cycles, every moment of the next one keeps what the files have held: single locations without
any condition, and what target and backup show if their paths have been separate at first. -/
theorem cycles_safe (i : Installation) (w : World) (turns : List Turn) (turn : Turn) :
    ∃ steps, (turns.foldl (Turn.run i) w).Moved (turn.run i (turns.foldl (Turn.run i) w)) steps ∧
      ∀ t ∈ states (turns.foldl (Turn.run i) w).files steps,
        i.Confined turn.load (turns.foldl (Turn.run i) w).files t ∧
          (w.files.Separate i.paths → i.Safe turn.load (turns.foldl (Turn.run i) w).files t) := by
  obtain ⟨steps, hmoved, hmoment⟩ := turn.run_moment i (turns.foldl (Turn.run i) w)
  exact ⟨steps, hmoved, fun t ht => ⟨(hmoment t ht).confined, fun hs => (hmoment t ht).safe (separate_run hs turns)⟩⟩

def sampleTurn : Turn := ⟨sampleSurroundings, fun _ => .ok Bundle.sample, sampleOptions, fun _ _ => rfl⟩

def plain : FileTree := ⟨[(["a"], .file [1] 0o600)], []⟩

theorem separate_plain : plain.Separate sampleInstallation.paths := by
  have hnodes : plain.node? ["a"] = some (.file [1] 0o600) ∧ plain.node? ["a.bak"] = none := by decide
  have hstart : ∀ path, plain.start path = [] := start_of_working rfl
  have htrails : ∀ q ∈ sampleInstallation.paths, ∀ r ∈ plain.trailOf q, r.2 = true := by
    simp [paths, sampleInstallation, trailOf, names_sample, trail, short_sample, hnodes, hstart]
  intro p hp d name hentry q hq hmem
  simpa using htrails q hq _ hmem

theorem plain_safe : plain.Separate sampleInstallation.paths ∧ ∃ steps,
    World.Moved ⟨plain, [], [], 0⟩ (sampleTurn.run sampleInstallation ⟨plain, [], [], 0⟩) steps ∧
      ∀ t ∈ states plain steps, sampleInstallation.Confined (fun _ => .ok Bundle.sample) plain t ∧
        sampleInstallation.Safe (fun _ => .ok Bundle.sample) plain t := by
  obtain ⟨steps, hmoved, h⟩ := cycles_safe sampleInstallation ⟨plain, [], [], 0⟩ [] sampleTurn
  exact ⟨separate_plain, steps, hmoved, fun t ht => ⟨(h t ht).1, (h t ht).2 separate_plain⟩⟩

/-! ### Paths that are cut off -/

/-- The entry of the backup is a link, and the target lies beyond it. -/
def crossed : FileTree where
  nodes := [(["d"], .directory), (["d", "a"], .file [1] 0o600), (["d", "a.bak"], .link ".")]
  working := []

theorem descend_crossed : descend crossed maxLinks [] ["d", "a.bak"] = .ok (["d"], 39) := by
  have hnodes : crossed.node? ["d"] = some .directory ∧ crossed.node? ["d", "a.bak"] = some (.link ".") := by
    decide
  have hshort : ¬ maxName < "d".utf8ByteSize ∧ ¬ maxName < "a.bak".utf8ByteSize := by decide
  have hdot : Path.names "." = ["."] ∧ Path.isAbsolute "." = false := by decide
  simp [descend, hshort, hnodes, hdot, maxLinks]

theorem view_crossed : crossed.view "d/a.bak/a" = .ok (.file [1] 0o600) := by
  have hnames : Path.names "d/a.bak/a" = ["d", "a.bak"] ++ ["a"] := by decide
  have hslash : Path.endsWithSlash "d/a.bak/a" = false := by decide
  have hstart : crossed.start "d/a.bak/a" = [] := by decide
  have hfile : crossed.node? ["d", "a"] = some (.file [1] 0o600) := by decide
  have hshort : ¬ maxName < "a".utf8ByteSize := by decide
  refine view_eq_ok.mpr ⟨["d", "a"], stat_eq_ok.mpr ⟨rfl, ?_⟩⟩
  rw [hnames, hstart, hslash, walk_append _ _ _ _ _ _ (by simp), descend_crossed]
  simp [walk, hshort, hfile]

/-- The backup takes the place of the link. -/
theorem backup_crossed (i : Installation) (hi : i.file = "d/a.bak/a") : ∃ steps backup,
    i.backup crossed = (steps, .ok backup) ∧ (after crossed steps).working = [] ∧
      (after crossed steps).node? ["d"] = some .directory ∧
      (after crossed steps).node? ["d", "a.bak"] = some (.file [1] 0o600) := by
  have hnames : Path.names "d/a.bak/a.bak" = ["d", "a.bak"] ++ ["a.bak"] ∧ Path.names "d/a.bak" = ["d", "a.bak"] := by
    decide
  have hshort : ¬ maxName < "a.bak".utf8ByteSize := by decide
  have hstart : crossed.start "d/a.bak/a.bak" = [] ∧ crossed.start "d/a.bak" = [] := by decide
  have hstaging : stagingDirectory "d/a.bak/a.bak" = "d/a.bak" := by decide
  have hslash : Path.endsWithSlash "d/a.bak/a.bak" = false := by decide
  have hentry : crossed.entryAt "d/a.bak/a.bak" = .ok (["d"], "a.bak") :=
    entryAt_eq_ok.mpr ⟨rfl, _, 39, hnames.1, hstart.1 ▸ descend_crossed, by decide, hshort⟩
  have hcheck : FileTree.check (stagingPath crossed "d/a.bak/a.bak") = .ok () := by
    unfold stagingPath
    rfl
  have hdescend : descend crossed maxLinks (crossed.start (stagingDirectory "d/a.bak/a.bak"))
      (Path.names (stagingDirectory "d/a.bak/a.bak")) = .ok (["d"], 39) := by
    rw [hstaging, hnames.2, hstart.2, descend_crossed]
  have hwritable : Writable crossed (Path.backup i.file) := by
    rw [hi]
    exact ⟨⟨_, stagingPlace_eq_ok.mpr ⟨hcheck, ["d"], 39, hdescend, rfl⟩⟩, ["d", "a.bak"],
      renameTarget_eq_ok.mpr ⟨["d"], "a.bak", hentry, hslash, by decide, rfl⟩⟩
  rcases backup_cases i crossed with ⟨-, -, hnone⟩ | ⟨b, m, hv, ⟨hnot, -⟩ | ⟨-, steps, backup, hbackup, hputs⟩⟩
  · exact absurd (hi ▸ view_crossed) (hnone _ _)
  · exact absurd hwritable hnot
  · obtain ⟨d, name, hentry', hd, hn⟩ := hputs.1.place
    rw [hi] at hentry' hv
    obtain ⟨rfl, rfl⟩ := Prod.mk.inj (Except.ok.inj (hentry.symm.trans hentry'))
    obtain ⟨rfl, rfl⟩ := Node.file.inj (Except.ok.inj (view_crossed.symm.trans hv))
    exact ⟨steps, backup, hbackup, hd.1, (hd.2 _ (by decide)).trans (by decide), hn⟩

theorem run_crossed : (sampleTurn.run { file := "d/a.bak/a" } ⟨crossed, [], [], 0⟩).files.view "d/a.bak/a" =
      .error .notADirectory ∧
    (sampleTurn.run { file := "d/a.bak/a" } ⟨crossed, [], [], 0⟩).files.view (Path.backup "d/a.bak/a") =
      .error .notADirectory := by
  obtain ⟨steps, made, hbackup, hworking, hd, hfile⟩ := backup_crossed { file := "d/a.bak/a" } rfl
  have hrun : (sampleTurn.run { file := "d/a.bak/a" } ⟨crossed, [], [], 0⟩).files = after crossed steps := by
    have hact : act (Installation.backup { file := "d/a.bak/a" }) ⟨crossed, [], [], 0⟩ =
        (.ok made, World.advance ⟨crossed, [], [], 0⟩ steps) := by
      rw [act_apply, hbackup]
      rfl
    simp only [Turn.run, runCycle, Rotation.check, sampleTurn, sampleOptions, if_true, replace, bind_apply,
      perform_apply, tell_apply, pure_apply, observe, Option.all_none, installer, hact]
    rfl
  have htarget := stat_beyond_file "d/a.bak/a" "a.bak" "a" hworking hd hfile rfl (by decide) (.inr rfl)
  have hcopy := stat_beyond_file (Path.backup "d/a.bak/a") "a.bak" "a.bak" hworking hd hfile (by decide)
    (by decide) (.inr rfl)
  rw [hrun, view, view, htarget, hcopy]
  exact ⟨rfl, rfl⟩

/-- A backup that is a link to a target that is missing. -/
def dangling : FileTree := ⟨[(["a.bak"], .link "a")], []⟩

theorem view_dangling : dangling.view "a" = .error .notFound ∧
    dangling.view (Path.backup "a") = .error .notFound := by
  have hnodes : dangling.node? ["a"] = none ∧ dangling.node? ["a.bak"] = some (.link "a") := by decide
  have hcheck : FileTree.check "a" = .ok () ∧ FileTree.check (Path.backup "a") = .ok () :=
    ⟨rfl, by decide⟩
  have hstart : ∀ path, dangling.start path = [] := start_of_working rfl
  simp only [view, stat, resolve, hcheck, names_sample, hstart]
  constructor
  · simp [walk, short_sample, hnodes, bind, Except.bind, Except.map, throw, throwThe, MonadExceptOf.throw]
  · simp [walk, short_sample, hnodes, names_sample, maxLinks, bind, Except.bind, Except.map, throw, throwThe,
      MonadExceptOf.throw]

theorem run_dangling : ∃ data, (sampleTurn.run sampleInstallation ⟨dangling, [], [], 0⟩).files.view
    (Path.backup "a") = .ok (.file data privateMode) := by
  obtain ⟨data, report, p, hrun, -, -, hd, hfile⟩ := exists_run_sample (t := dangling) rfl (by decide)
  have hworld : sampleTurn.run sampleInstallation ⟨dangling, [], [], 0⟩ = p.world :=
    congrArg (fun r => r.2.world) hrun
  have hlink : p.world.files.node? ["a.bak"] = some (.link "a") := (hd.2 _ (by decide)).trans (by decide)
  have hslash : Path.endsWithSlash "a" = false := by decide
  refine ⟨data, ?_⟩
  rw [hworld]
  refine view_eq_ok.mpr ⟨["a"], stat_eq_ok.mpr ⟨by decide, ?_⟩⟩
  rw [names_sample.2, start_of_working hd.1, Path.endsWithSlash_backup]
  simp [walk, short_sample, hlink, names_sample, hfile, hslash, maxLinks]

/-- A cycle may cut off its target and the backup, so that the old bundle is found at neither, and a backup may show a
bundle although there was none before. -/
theorem target_and_backup_cut_off :
    (crossed.view "d/a.bak/a" = .ok (.file [1] 0o600) ∧
      (sampleTurn.run { file := "d/a.bak/a" } ⟨crossed, [], [], 0⟩).files.view "d/a.bak/a" = .error .notADirectory ∧
      (sampleTurn.run { file := "d/a.bak/a" } ⟨crossed, [], [], 0⟩).files.view (Path.backup "d/a.bak/a") =
        .error .notADirectory) ∧
    dangling.view "a" = .error .notFound ∧ dangling.view (Path.backup "a") = .error .notFound ∧
      ∃ data, (sampleTurn.run sampleInstallation ⟨dangling, [], [], 0⟩).files.view (Path.backup "a") =
        .ok (.file data privateMode) :=
  ⟨⟨view_crossed, run_crossed⟩, view_dangling.1, view_dangling.2, run_dangling⟩

end CertRotation.Installation
