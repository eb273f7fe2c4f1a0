import CertRotation.Proofs.Bundle.Stages
import CertRotation.Proofs.Rotation.Independence
import CertRotation.Proofs.Settings.Validation

/-!
# Runs of settings that were accepted

Settings that were accepted have a password and a threshold for every installation, and a cycle uses these. So whatever it
fails with, it does not fail on account of the settings: what goes wrong is in the files, in the material or in the hooks.
-/
namespace CertRotation

/-! ## Cycles -/

namespace Rotation

section
variable {σ α : Type} {P : Error → Prop} {i : Installer σ} {load : Effect σ PemMaterial} {o : Options}

theorem fails_tell (e : Event) : Fails P (tell e : Cycle σ Unit) := fun _ => .ok ()

theorem fails_perform {a : Effect σ α} (h : Fails P a) : Fails P (perform a) := fun p => h p.world

theorem fails_runHook {a : Effect σ (Option InstructionOutput)} (k : Hook) (h : Fails P a) : Fails P (runHook k a) :=
  (fails_perform h).bind fun v => (fails_tell _).bind fun _ => .pure v

theorem fails_check (h : Fails P (i.assess o.renewBefore o.now)) : Fails P (check i o) := by
  unfold check
  split
  · exact (fails_tell _).bind fun _ => .pure none
  · exact (fails_tell _).bind fun _ => (fails_perform h).bind fun a => (fails_tell _).bind fun _ => .pure (some a)

theorem fails_judge (h : ∀ out, P (.hook (.validationFailed out))) (v : Option InstructionOutput) :
    Fails P (judge v : Cycle σ Unit) := by
  unfold judge
  split
  · split
    · exact .throw (h _)
    · exact .pure ()
  · exact .pure ()

theorem fails_replace (hload : Fails P load) (hbackup : Fails P i.backup) (hinstall : ∀ m, Fails P (i.install m))
    (hafter : Fails P i.afterInstall) (hvalidate : Fails P i.validate) (hjudge : ∀ out, P (.hook (.validationFailed out)))
    (checked : Option Assessment) : Fails P (replace i load checked) := by
  refine (fails_perform hload).bind fun m => ?_
  refine (fails_perform hbackup).bind fun _ => (fails_tell _).bind fun _ => (fails_tell _).bind fun _ => ?_
  refine (fails_perform (hinstall m)).bind fun _ => (fails_tell _).bind fun _ => ?_
  -- of the two hooks only the second has a say
  refine (fails_runHook _ hafter).bind fun _ => (fails_runHook _ hvalidate).bind fun v => ?_
  exact (fails_judge hjudge v).bind fun _ => .pure _

/-- A cycle fails like one of its steps, or because the validation says no. -/
theorem fails_runCycle (hassess : Fails P (i.assess o.renewBefore o.now)) (hload : Fails P load)
    (hbackup : Fails P i.backup) (hinstall : ∀ m, Fails P (i.install m)) (hafter : Fails P i.afterInstall)
    (hvalidate : Fails P i.validate) (hjudge : ∀ out, P (.hook (.validationFailed out))) :
    Fails P (runCycle i load o) := by
  refine (fails_check hassess).bind fun checked => ?_
  split
  · exact fails_replace hload hbackup hinstall hafter hvalidate hjudge checked
  · exact (fails_tell _).bind fun _ => .pure _

end

/-! ## Installations -/

/-- An error that settings are to blame for: there is no password, or something else in them is missing or no threshold. -/
inductive Error.OnSettings : Error → Prop
  | password : OnSettings (.bundle .missingPassword)
  | settings (e : Settings.Error) : OnSettings (.settings e)

theorem Error.not_onSettings_files (f : Files.Failure) : ¬ (Error.files f).OnSettings := fun h => by cases h

theorem Error.not_onSettings_hook (e : HookError) : ¬ (Error.hook e).OnSettings := fun h => by cases h

theorem Error.not_onSettings_bundle {e : Bundle.Error} (h : e ≠ .missingPassword) : ¬ (Error.bundle e).OnSettings := by
  intro hblamed
  cases hblamed
  exact h rfl

theorem fails_act {α : Type} {P : Error → Prop} (h : ∀ f, P (.files f)) (a : Files.Action α) : Fails P (act a) :=
  fun _ => .mapError (.of_forall h _)

end Rotation

namespace Bundle

theorem faults_decode (data : Bytes) (password : String) : Faults (· ≠ .missingPassword) (decode data password) := by
  unfold decode
  split
  · exact .error (by simp)
  · exact .mapError (.of_forall (by simp) _)

theorem faults_leafSummary (b : Bundle) : Faults (· ≠ .missingPassword) b.leafSummary :=
  .mapError (.of_forall (by simp) _)

end Bundle

namespace PemSource

/-- Loading asks for no password. -/
theorem faults_load (s : PemSource) (t : FileTree) : Faults (· ≠ .bundle .missingPassword) (s.load t) := by
  have hread : ∀ path, Faults (· ≠ .bundle .missingPassword) (readText t path) := fun path =>
    .mapError (.of_forall (by simp) _)
  rw [load_eq]
  refine (hread _).bind fun text => .bind (.mapError (.of_forall (by simp) _)) fun blocks => .bind ?_ fun key =>
    .bind ?_ fun further => .ok _
  · unfold keyText
    split
    · exact hread _
    · exact .ok _
  · unfold furtherEntries
    split
    · exact (hread _).bind fun text => .bind (.mapError (.of_forall (by simp) _)) fun blocks => .ok _
    · exact .ok _

end PemSource

namespace PemMaterial

theorem password_of_fault {seeds : Keystore.Seeds} {m : PemMaterial} {password : String} {stage : Stage}
    (h : m.Fault seeds password stage .missingPassword) : password = "" := by
  cases stage with
  | password => exact h.1
  | key =>
    obtain ⟨x, -, hx⟩ := h
    cases x <;> cases hx
  | _ => simp [Fault] at h

/-- Packaging asks for a password only if there is none. -/
theorem faults_package (seeds : Keystore.Seeds) (m : PemMaterial) {password : String} (hp : password ≠ "") :
    Faults (· ≠ .missingPassword) (m.package seeds password) := by
  rintro x hx rfl
  obtain ⟨before, stage, after, -, -, hfault⟩ := (refuses_package seeds m password _).mp hx
  exact hp (password_of_fault hfault)

end PemMaterial

namespace Installation
open Rotation

section
variable {i : Installation}

/-- The threshold is the one that validation has looked at. -/
theorem Usable.faults_assess (h : i.Usable) (now : Instant) (t : FileTree) :
    Faults (¬ Error.OnSettings ·) (i.assess i.renewBefore now t) := by
  obtain ⟨body, threshold, hbody, hdenotes⟩ := h.threshold
  have hparse : Settings.parseThreshold "renew_before" i.renewBefore = .ok threshold :=
    mapError_eq_ok.mpr (Threshold.parse_of_denotes hbody hdenotes)
  unfold assess
  rw [hparse]
  refine .bind (.ok _) fun _ => .bind (.mapError (.of_forall Error.not_onSettings_files _)) fun there => ?_
  split
  · refine .bind (.bind (.mapError (.of_forall Error.not_onSettings_files _)) fun data => ?_) fun b => .bind ?_ fun c => .ok _
    · exact .mapError fun x hx => Error.not_onSettings_bundle (Bundle.faults_decode data i.password x hx)
    · exact .mapError fun x hx => Error.not_onSettings_bundle (Bundle.faults_leafSummary b x hx)
  · exact .ok _

/-- The password is there that packaging asks for. -/
theorem Usable.fails_install (h : i.Usable) (s : Surroundings) (m : PemMaterial) :
    Fails (¬ Error.OnSettings ·) (i.install s m) := by
  intro w
  rw [install_apply h.password]
  cases hpackage : m.package (s.seeds w.packaged) i.password with
  | error e => exact .error (Error.not_onSettings_bundle (PemMaterial.faults_package _ m h.password e hpackage))
  | ok data => exact (fails_act Error.not_onSettings_files _).bind (fun _ => .pure _) _

theorem fails_runInstruction (s : Surroundings) (instruction : Option String) :
    Fails (¬ Error.OnSettings ·) (runInstruction s instruction) := by
  unfold runInstruction
  split
  · exact .pure none
  · next t _ =>
    have hinstruct : Fails (¬ Error.OnSettings ·) (instruct s t) := fun w =>
      .mapError (.of_forall (fun _ => Error.not_onSettings_hook _) _)
    refine hinstruct.bind fun out => ?_
    split
    · exact .pure _
    · exact .throw (Error.not_onSettings_hook _)

theorem fails_loadHere (source : PemSource) : Fails (¬ Error.OnSettings ·) source.loadHere := fun w =>
  .mapError fun x hx => by
    cases x with
    | files f => exact Error.not_onSettings_files f
    | bundle e => exact Error.not_onSettings_bundle fun he => source.faults_load w.files _ hx (he ▸ rfl)

/-- No cycle of an installation that has all that it needs fails on account of the settings. -/
theorem Usable.fails_runCycle (h : i.Usable) (s : Surroundings) (source : PemSource) (force : Bool) (now : Instant) :
    Fails (¬ Error.OnSettings ·) (runCycle (i.installer s) source.loadHere ⟨i.renewBefore, force, now⟩) :=
  Rotation.fails_runCycle (fun w => h.faults_assess now w.files) (fails_loadHere source)
    (fails_act Error.not_onSettings_files _) (h.fails_install s) (fails_runInstruction s _) (fails_runInstruction s _)
    fun _ => Error.not_onSettings_hook _

end
end Installation

/-! ## Runs -/

namespace Console
open Rotation

/-- What a run of these entries may end with: an entry has no source, or its cycle fails, but not on account of the settings. -/
def Blameless (entries : List Settings.Entry) (f : Failure) : Prop :=
  ∃ e ∈ entries, f = .noSource e.installation.file ∧ e.source = none ∨
    ∃ x, f = .installation e.installation.file x ∧ ¬ x.OnSettings

section
variable {s : Surroundings} {now : Instant} {force : Bool}

theorem fails_say (P : Failure → Prop) (lines : List String) : Fails P (say lines) := fun _ => .ok ()

theorem fails_cycle {P : Failure → Prop} {wrap : Rotation.Error → Failure} {i : Installer World}
    {load : Effect World PemMaterial} {o : Options} (h : Fails (fun x => P (wrap x)) (runCycle i load o)) :
    Fails P (cycle wrap i load o) := by
  refine Fails.bind (fun session => ?_) fun r => fails_say P _
  exact .mapError (h ⟨session.world, []⟩)

theorem fails_installAll {entries : List Settings.Entry} (h : ∀ e ∈ entries, e.installation.Usable) :
    Fails (Blameless entries) (installAll s now force entries) := by
  induction entries with
  | nil => exact .pure ()
  | cons e entries ih =>
    obtain ⟨he, hrest⟩ := List.forall_mem_cons.mp h
    refine (fails_say _ _).bind fun _ => ?_
    split
    · next hsource => exact .throw ⟨e, List.mem_cons_self, .inl ⟨rfl, hsource⟩⟩
    · next source _ =>
      refine (fails_cycle fun w x hx => ?_).bind fun _ => (ih hrest).mono ?_
      · exact ⟨e, List.mem_cons_self, .inr ⟨x, rfl, he.fails_runCycle s source force now w x hx⟩⟩
      · exact fun f hf => hf.imp fun d hd => ⟨List.mem_cons_of_mem e hd.1, hd.2⟩

/-- The command runs the installations of the settings that it has loaded. -/
theorem faults_run {w : World} {config : Option String} {settings : Settings}
    (hload : Settings.load w.files config = .ok settings) (h : ∀ e ∈ settings.installations, e.installation.Usable) :
    Faults (Blameless settings.installations) (run s now w (.run config force)).result := by
  rw [(run_of_load s now force hload).1]
  exact .map _ (fails_installAll h ⟨w, []⟩)

end
end Console

theorem Settings.validate_of_load {t : FileTree} {config : Option String} {s : Settings}
    (h : Settings.load t config = .ok s) : s.validate = .ok () := by
  have hlast : ∀ r : Except Error Settings, (do let s' ← r; s'.validate; return s') = .ok s → s.validate = .ok () := by
    intro r hr
    obtain ⟨s', -, hr⟩ := bind_eq_ok.mp hr
    obtain ⟨_, hvalid, hr⟩ := bind_eq_ok.mp hr
    obtain rfl := Except.ok.inj hr
    exact hvalid
  unfold load at h
  split at h
  · exact hlast _ h
  · split at h
    · exact hlast _ h
    · exact hlast _ h

/-- Settings are valid exactly if every installation has a file, a password and a threshold, and otherwise the error is
that of the first field at fault of the first installation with one. It makes no difference whether paths have been resolved
before, which leaves everything but relative paths as it was. Once settings have been accepted, no cycle for one of their
entries fails on account of the settings, whatever the files are, and no more does a run of them. -/
theorem Settings.validated_blameless (s : Settings) :
    (s.validate = .ok () ↔ ∀ e ∈ s.installations, e.installation.Usable) ∧
    (∀ x, s.validate = .error x ↔ ∃ before e after, s.installations = before ++ e :: after ∧
      (∀ d ∈ before, d.installation.Usable) ∧ Offence before.length e.installation x) ∧
    (∀ base, (s.resolve base).validate = s.validate ∧
      List.Forall₂ DifferInPaths s.installations (s.resolve base).installations) ∧
    ∀ t config, Settings.load t config = .ok s → ∀ surroundings now force,
      (∀ e ∈ s.installations, ∀ source w x, (Console.turn surroundings now force e source w).1 = .error x →
        ¬ x.OnSettings) ∧
      ∀ w f, w.files = t → (Console.run surroundings now w (.run config force)).result = .error f →
        Console.Blameless s.installations f := by
  refine ⟨validateFrom_eq_ok, fun x => ?_, fun base => ⟨validate_resolve base s, differInPaths_resolve base s⟩,
    fun t config hload surroundings now force => ?_⟩
  · have herror := @validateFrom_eq_error 0 s.installations x
    simp only [Nat.zero_add] at herror
    exact herror
  · have husable := validateFrom_eq_ok.mp (validate_of_load hload)
    refine ⟨fun e he source w x hx => (husable e he).fails_runCycle surroundings source force now ⟨w, []⟩ x hx, ?_⟩
    rintro w f rfl hf
    exact Console.faults_run hload husable f hf

/-! ## A run without the files of its sources -/

namespace Console
open Files FileTree Rotation

theorem installAll_of_turn_error {s : Surroundings} {now : Instant} {force : Bool} {e : Settings.Entry}
    {source : PemSource} {session : Session} {x : Error} (hsource : e.source = some source)
    (h : (turn s now force e source session.world).1 = .error x) (rest : List Settings.Entry) :
    (installAll s now force (e :: rest) session).1 = .error (.installation e.installation.file x) := by
  obtain ⟨lines, hrun⟩ := installAll_single hsource s now force session
  show (installAll s now force ([e] ++ rest) session).1 = _
  rw [installAll_append, bind_apply, hrun, h]
  rfl

/-- The settings of two installations whose sources are missing, and a file that is no bundle at the target of the
second. -/
def unsupplied : FileTree :=
  ⟨[(["c"], .file (Bytes.ofString (sampleText "y")) 0), (["x"], .file [1] 0o644)], []⟩

theorem material_unsupplied : material sampleSource unsupplied = .error (.files ⟨"a", .notFound⟩) := by
  have hname : SingleName "a" := by decide
  have hread : unsupplied.readText sampleSource.certificate = .error .notFound := by
    show unsupplied.readText "a" = _
    simp [FileTree.readText, FileTree.read, hname.stat_missing (t := unsupplied) rfl rfl, bind, Except.bind]
  rw [material, PemSource.load_eq, PemSource.readText, hread]
  rfl

/-- Without the certificate, a forced cycle fails. -/
theorem turn_unsupplied (file : String) :
    (turn Installation.sampleSurroundings ⟨0⟩ true (sampleEntry file) sampleSource ⟨unsupplied, [], [], 0⟩).1 =
      .error (.files ⟨"a", .notFound⟩) := by
  simp only [turn, runCycle, Rotation.check, if_true, replace, bind_apply, tell_apply, perform_apply, pure_apply,
    Option.all_none, observe, material_unsupplied]

/-- So does any other that finds something else than a bundle. -/
theorem turn_unreadable : (turn Installation.sampleSurroundings ⟨0⟩ false (sampleEntry "x") sampleSource
    ⟨unsupplied, [], [], 0⟩).1 = .error (.bundle (.decode (.keystore .malformed none))) := by
  have hname : SingleName "x" := by decide
  have hassess : (sampleEntry "x").installation.assess "30d" ⟨0⟩ unsupplied =
      .error (.bundle (.decode (.keystore .malformed none))) := by
    have hparse : Threshold.parse "30d" = .ok (.window 2592000) := by decide
    have hdecode : Bundle.decode [1] "password" = .error (.decode (.keystore .malformed none)) := by decide +kernel
    have hfile : Installation.HasFile unsupplied (sampleEntry "x").installation.file [1] := ⟨_, _, hname.stat rfl rfl⟩
    rw [Installation.assess_of_hasFile hparse hfile]
    simp only [Installation.decision, sampleEntry, hdecode]
  have hthreshold : (sampleEntry "x").installation.renewBefore = "30d" := rfl
  simp only [turn, hthreshold, runCycle, Rotation.check, Bool.false_eq_true, if_false, bind_apply, tell_apply,
    perform_apply, Installation.installer, observe, hassess]

/-- These settings are accepted. What fails is a cycle that cannot decode what is installed, and a run that does not find
the certificate; neither blames the settings. -/
theorem validated_blameless_sample :
    Settings.load unsupplied (some "c") = .ok (sampleSettings "y") ∧
    sampleEntry "y" ∈ (sampleSettings "y").installations ∧ sampleEntry "x" ∈ (sampleSettings "y").installations ∧
    (∃ x, (turn Installation.sampleSurroundings ⟨0⟩ false (sampleEntry "x") sampleSource ⟨unsupplied, [], [], 0⟩).1 =
      .error x ∧ ¬ x.OnSettings) ∧
    ∃ f, (run Installation.sampleSurroundings ⟨0⟩ ⟨unsupplied, [], [], 0⟩ (.run (some "c") true)).result = .error f ∧
      Blameless (sampleSettings "y").installations f := by
  have hload : Settings.load unsupplied (some "c") = .ok (sampleSettings "y") :=
    load_sampleSettings "y" (.inl rfl) rfl rfl
  have hmem : sampleEntry "y" ∈ (sampleSettings "y").installations ∧
      sampleEntry "x" ∈ (sampleSettings "y").installations := by simp [sampleSettings]
  obtain ⟨-, -, -, haccepted⟩ := Settings.validated_blameless (sampleSettings "y")
  obtain ⟨hcycles, -⟩ := haccepted unsupplied (some "c") hload Installation.sampleSurroundings ⟨0⟩ false
  obtain ⟨-, hruns⟩ := haccepted unsupplied (some "c") hload Installation.sampleSurroundings ⟨0⟩ true
  have hrun : (run Installation.sampleSurroundings ⟨0⟩ ⟨unsupplied, [], [], 0⟩ (.run (some "c") true)).result =
      .error (.installation "y" (.files ⟨"a", .notFound⟩)) := by
    rw [(run_of_load _ _ _ hload).1]
    have hfirst : (installAll Installation.sampleSurroundings ⟨0⟩ true (sampleSettings "y").installations
        ⟨⟨unsupplied, [], [], 0⟩, []⟩).1 = .error (.installation "y" (.files ⟨"a", .notFound⟩)) :=
      installAll_of_turn_error rfl (turn_unsupplied "y") [sampleEntry "x"]
    rw [hfirst]
    rfl
  exact ⟨hload, hmem.1, hmem.2, ⟨_, turn_unreadable, hcycles _ hmem.2 _ _ _ turn_unreadable⟩, _, hrun,
    hruns _ _ rfl hrun⟩

end Console
end CertRotation
