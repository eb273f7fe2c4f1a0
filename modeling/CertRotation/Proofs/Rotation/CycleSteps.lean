import CertRotation.Proofs.Traversal
import CertRotation.Rotation.Target

/-!
# The steps of a cycle

As long as instructions leave the files alone, the steps that a cycle takes are those of its backup, followed by those
of the file that it writes. How far it gets depends on what succeeds.
-/
namespace CertRotation

/-- Instructions leave the files alone. -/
def Surroundings.Quiet (s : Surroundings) : Prop := ∀ instruction t, (s.runner instruction t).1 = []

/-- From `w` to `w'` exactly these steps have been taken. -/
def World.Moved (w w' : World) (steps : List Files.Step) : Prop :=
  w'.files = Files.after w.files steps ∧ w'.steps = w.steps ++ steps

theorem World.Moved.refl (w : World) : w.Moved w [] := ⟨rfl, by simp⟩

theorem World.Moved.trans {w w' w'' : World} {steps more : List Files.Step} (h : w.Moved w' steps)
    (h' : w'.Moved w'' more) : w.Moved w'' (steps ++ more) :=
  ⟨by rw [h'.1, h.1, Files.after, Files.after, Files.after, List.foldl_append], by rw [h'.2, h.2, List.append_assoc]⟩

theorem World.moved_advance (w : World) (steps : List Files.Step) : w.Moved (w.advance steps) steps := ⟨rfl, rfl⟩

namespace Rotation

section
variable {σ α : Type}

theorem perform_apply (a : Effect σ α) (p : Progress σ) :
    perform a p = ((a p.world).1, { p with world := (a p.world).2 }) := rfl

theorem tell_apply (e : Event) (p : Progress σ) : tell e p = (.ok (), { p with events := p.events ++ [e] }) := rfl

theorem act_apply (a : Files.Action α) (w : World) : act a w = ((a w.files).2.mapError .files, w.advance (a w.files).1) :=
  rfl

end

/-! ## Parts that leave the files alone -/

section
variable {s : Surroundings} {p p' : Progress World}

theorem instruct_moved (hq : s.Quiet) (instruction : String) (w : World) :
    w.Moved (instruct s instruction w).2 [] := by
  have hsteps := hq instruction w.files
  simp only [instruct, World.advance]
  rw [hsteps]
  exact ⟨rfl, rfl⟩

theorem runInstruction_moved (hq : s.Quiet) (instruction : Option String) (w : World) :
    w.Moved (Installation.runInstruction s instruction w).2 [] := by
  unfold Installation.runInstruction
  cases instruction.filter fun t => ! Text.isBlankText t with
  | none => exact World.Moved.refl w
  | some t =>
    have hmoved := instruct_moved hq t w
    dsimp only
    rw [bind_apply]
    rcases hi : instruct s t w with ⟨r, w'⟩
    rw [hi] at hmoved
    cases r with
    | error e => exact hmoved
    | ok o =>
      dsimp only
      split <;> exact hmoved

theorem runHook_moved (hq : s.Quiet) {h : Hook} {instruction : Option String}
    {r : Except Error (Option InstructionOutput)}
    (hrun : runHook h (Installation.runInstruction s instruction) p = (r, p')) : p.world.Moved p'.world [] := by
  have hmoved := runInstruction_moved hq instruction p.world
  rcases bind_apply_eq hrun with ⟨e, hperform, -⟩ | ⟨o, p₁, hperform, hrest⟩
  · rw [perform_apply] at hperform
    obtain ⟨-, rfl⟩ := Prod.mk.inj hperform
    exact hmoved
  · rw [perform_apply] at hperform
    obtain ⟨-, rfl⟩ := Prod.mk.inj hperform
    rw [bind_apply, tell_apply] at hrest
    obtain ⟨-, rfl⟩ := Prod.mk.inj hrest
    exact hmoved

theorem judge_world {o : Option InstructionOutput} {r : Except Error Unit} (h : judge o p = (r, p')) : p' = p := by
  unfold judge at h
  split at h
  · split at h
    · exact (Prod.mk.inj h).2.symm
    · exact (Prod.mk.inj h).2.symm
  · exact (Prod.mk.inj h).2.symm

theorem check_world {i : Installation} {o : Options} {r : Except Error (Option Assessment)}
    (h : check (i.installer s) o p = (r, p')) : p'.world = p.world := by
  unfold check at h
  split at h
  · rw [bind_apply, tell_apply] at h
    obtain ⟨-, rfl⟩ := Prod.mk.inj h
    rfl
  · rw [bind_apply, tell_apply] at h
    rcases bind_apply_eq h with ⟨e, hperform, -⟩ | ⟨a, p₁, hperform, hrest⟩
    · obtain ⟨-, rfl⟩ := Prod.mk.inj hperform
      rfl
    · obtain ⟨-, rfl⟩ := Prod.mk.inj hperform
      rw [bind_apply, tell_apply] at hrest
      obtain ⟨-, rfl⟩ := Prod.mk.inj hrest
      rfl

end

/-! ## Parts that act on files -/

section
variable {s : Surroundings} {i : Installation} {w w' : World}

/-- What is left of an installation once the material has been packaged. -/
def placePackage (i : Installation) : Except Bundle.Error Bytes → Effect World Nat
  | .error e => throw (.bundle e)
  | .ok data => do
    act (Files.writeFile i.file data)
    return data.length

theorem install_apply (hp : i.password ≠ "") (m : PemMaterial) :
    i.install s m w =
      placePackage i (m.package (s.seeds w.packaged) i.password) { w with packaged := w.packaged + 1 } := by
  rw [Installation.install, if_neg hp]
  rfl

/-- Either no bundle could be packaged, and nothing was written, or a bundle was handed over to be written. -/
theorem install_cases {m : PemMaterial} {r : Except Error Nat} (h : i.install s m w = (r, w')) :
    (w.Moved w' [] ∧ ∃ e, r = .error e) ∨
      ∃ seeds data steps result, m.package seeds i.password = .ok data ∧
        Files.writeFile i.file data w.files = (steps, result) ∧ w.Moved w' steps ∧
        ∀ n, r = .ok n → result = .ok () := by
  by_cases hp : i.password = ""
  · rw [Installation.install, if_pos hp] at h
    obtain ⟨rfl, rfl⟩ := Prod.mk.inj h
    exact .inl ⟨World.Moved.refl w, _, rfl⟩
  · obtain ⟨seeds, w₁, hseeds, hrest⟩ :
        ∃ seeds w₁, w.Moved w₁ [] ∧ placePackage i (m.package seeds i.password) w₁ = (r, w') :=
      ⟨s.seeds w.packaged, { w with packaged := w.packaged + 1 }, World.Moved.refl w, (install_apply hp m).symm.trans h⟩
    cases hpackage : m.package seeds i.password with
    | error e =>
      rw [hpackage] at hrest
      obtain ⟨rfl, rfl⟩ := Prod.mk.inj hrest
      exact .inl ⟨hseeds, _, rfl⟩
    | ok data =>
      rw [hpackage] at hrest
      rcases hwrite : Files.writeFile i.file data w.files with ⟨steps, result⟩
      have hact : act (Files.writeFile i.file data) w₁ = (result.mapError .files, w₁.advance steps) := by
        rw [act_apply, show w₁.files = w.files from hseeds.1, hwrite]
      have hmoved : w.Moved (w₁.advance steps) steps := hseeds.trans (World.moved_advance w₁ steps)
      refine .inr ⟨seeds, data, steps, result, hpackage, hwrite, ?_⟩
      rcases bind_apply_eq hrest with ⟨e, herror, rfl⟩ | ⟨u, w₂, hok, hrest⟩
      · obtain ⟨-, rfl⟩ := Prod.mk.inj (hact.symm.trans herror)
        exact ⟨hmoved, by simp⟩
      · obtain ⟨hresult, rfl⟩ := Prod.mk.inj (hact.symm.trans hok)
        obtain ⟨-, rfl⟩ := Prod.mk.inj hrest
        exact ⟨hmoved, fun _ _ => mapError_eq_ok.mp hresult⟩

/-- What a cycle does to the files. It changes nothing, and then it installs nothing either; or it loads material and
takes the steps of the backup; or, after a backup that has succeeded, also those that write a bundle of the material. -/
def Outcome (i : Installation) (f : FileTree → Except Error PemMaterial) (w w' : World)
    (r : Except Error Report) : Prop :=
  (w.Moved w' [] ∧ ∀ report, r = .ok report → report.action = .skipped) ∨
  (∃ m steps result, f w.files = .ok m ∧ i.backup w.files = (steps, result) ∧ w.Moved w' steps ∧ ∃ e, r = .error e) ∨
  ∃ m seeds data backup steps more result, f w.files = .ok m ∧ i.backup w.files = (steps, .ok backup) ∧
    m.package seeds i.password = .ok data ∧
    Files.writeFile i.file data (Files.after w.files steps) = (more, result) ∧ w.Moved w' (steps ++ more) ∧
    ∀ report, r = .ok report → report.action = .installed ∧ result = .ok ()

theorem finish_moved (hq : s.Quiet) {p p' : Progress World} {r : Except Error Report}
    {report : Option InstructionOutput → Option InstructionOutput → Report}
    (h : (do
      let afterInstall ← runHook .afterInstall (i.installer s).afterInstall
      let validation ← runHook .validation (i.installer s).validate
      judge validation
      return report afterInstall validation : Cycle World Report) p = (r, p')) :
    p.world.Moved p'.world [] ∧ ∀ x, r = .ok x → ∃ a v, x = report a v := by
  rcases bind_apply_eq h with ⟨e, hhook, rfl⟩ | ⟨a, p₁, hhook, h⟩
  · exact ⟨runHook_moved hq hhook, by simp⟩
  · have hfirst := runHook_moved hq hhook
    rcases bind_apply_eq h with ⟨e, hhook, rfl⟩ | ⟨v, p₂, hhook, h⟩
    · exact ⟨hfirst.trans (runHook_moved hq hhook), by simp⟩
    · have hboth := hfirst.trans (runHook_moved hq hhook)
      rcases bind_apply_eq h with ⟨e, hjudge, rfl⟩ | ⟨u, p₃, hjudge, h⟩
      · rw [judge_world hjudge]
        exact ⟨hboth, by simp⟩
      · rw [judge_world hjudge] at h
        obtain ⟨rfl, rfl⟩ := Prod.mk.inj h
        exact ⟨hboth, fun x hx => ⟨a, v, (Except.ok.inj hx).symm⟩⟩

theorem replace_cases (hq : s.Quiet) {f : FileTree → Except Error PemMaterial} {checked : Option Assessment}
    {p p' : Progress World} {r : Except Error Report}
    (h : replace (i.installer s) (observe f) checked p = (r, p')) : Outcome i f p.world p'.world r := by
  rcases bind_apply_eq h with ⟨e, hload, rfl⟩ | ⟨m, p₁, hload, h⟩
  · obtain ⟨-, rfl⟩ := Prod.mk.inj hload
    exact .inl ⟨World.Moved.refl _, by simp⟩
  obtain ⟨hm, rfl⟩ := Prod.mk.inj hload
  rcases hbackup : i.backup p.world.files with ⟨steps, result⟩
  have hact : perform (i.installer s).backup p =
      (result.mapError .files, { p with world := p.world.advance steps }) := by
    show perform (act i.backup) p = _
    rw [perform_apply, act_apply, hbackup]
  rcases bind_apply_eq h with ⟨e, herror, rfl⟩ | ⟨backup, p₂, hok, h⟩
  · obtain ⟨-, rfl⟩ := Prod.mk.inj (hact.symm.trans herror)
    exact .inr (.inl ⟨m, steps, result, hm, hbackup, World.moved_advance _ steps, e, rfl⟩)
  obtain ⟨hresult, rfl⟩ := Prod.mk.inj (hact.symm.trans hok)
  obtain rfl := mapError_eq_ok.mp hresult
  have hadvance := World.moved_advance p.world steps
  rcases hinstall : i.install s m (p.world.advance steps) with ⟨written, w₁⟩
  rw [bind_apply, tell_apply] at h
  dsimp only at h
  rw [bind_apply, tell_apply] at h
  dsimp only at h
  rw [bind_apply, perform_apply] at h
  simp only [Installation.installer, hinstall] at h
  cases written with
  | error e =>
    obtain ⟨rfl, rfl⟩ := Prod.mk.inj h
    rcases install_cases hinstall with ⟨hmoved, -⟩ | ⟨seeds, data, more, result, hpackage, hwrite, hmoved, hok⟩
    · refine .inr (.inl ⟨m, steps, _, hm, hbackup, ?_, e, rfl⟩)
      simpa using hadvance.trans hmoved
    · exact .inr (.inr ⟨m, seeds, data, backup, steps, more, result, hm, hbackup, hpackage, hwrite,
        hadvance.trans hmoved, by simp⟩)
  | ok n =>
    dsimp only at h
    rw [bind_apply, tell_apply] at h
    dsimp only at h
    obtain ⟨hfinish, hreport⟩ := finish_moved (i := i) hq h
    rcases install_cases hinstall with ⟨-, e, he⟩ | ⟨seeds, data, more, result, hpackage, hwrite, hmoved, hok⟩
    · simp at he
    · refine .inr (.inr ⟨m, seeds, data, backup, steps, more, result, hm, hbackup, hpackage, hwrite, ?_, ?_⟩)
      · simpa using (hadvance.trans hmoved).trans hfinish
      · intro report hok'
        obtain ⟨a, v, rfl⟩ := hreport report hok'
        exact ⟨rfl, hok n rfl⟩

theorem runCycle_cases (hq : s.Quiet) {f : FileTree → Except Error PemMaterial} {o : Options}
    {p p' : Progress World} {r : Except Error Report}
    (h : runCycle (i.installer s) (observe f) o p = (r, p')) : Outcome i f p.world p'.world r := by
  rcases bind_apply_eq h with ⟨e, hcheck, rfl⟩ | ⟨checked, p₁, hcheck, h⟩
  · rw [check_world hcheck]
    exact .inl ⟨World.Moved.refl _, by simp⟩
  · rw [← check_world hcheck]
    split at h
    · exact replace_cases hq h
    · rw [bind_apply, tell_apply] at h
      obtain ⟨rfl, rfl⟩ := Prod.mk.inj h
      refine .inl ⟨World.Moved.refl _, fun report hreport => ?_⟩
      obtain rfl := Except.ok.inj hreport
      rfl

/-! ## Cycles that succeed -/

/-- A bundle that can be packaged and written is installed. -/
theorem install_of_package {m : PemMaterial} {data : Bytes} {steps : List Files.Step} (hp : i.password ≠ "")
    (hpackage : m.package (s.seeds w.packaged) i.password = .ok data)
    (hwrite : Files.writeFile i.file data w.files = (steps, .ok ())) :
    i.install s m w = (.ok data.length, World.advance { w with packaged := w.packaged + 1 } steps) := by
  rw [install_apply hp, hpackage, placePackage, bind_apply, act_apply, hwrite]
  rfl

/-- A forced cycle gets through once its material is loaded, the backup made, the bundle installed and both hooks have come
off, as long as the validation prints nothing. -/
theorem runCycle_of_hooks {f : FileTree → Except Error PemMaterial} {o : Options} {m : PemMaterial}
    {backup : Backup} {steps : List Files.Step} {n : Nat} {w₁ w₂ : World} {a : Option InstructionOutput}
    (hforce : o.force = true) (hload : f w.files = .ok m) (hbackup : i.backup w.files = (steps, .ok backup))
    (hinstall : i.install s m (w.advance steps) = (.ok n, w'))
    (ha : Installation.runInstruction s i.afterAction w' = (.ok a, w₁))
    (hv : Installation.runInstruction s i.validation w₁ = (.ok none, w₂)) :
    ∃ report events, runCycle (i.installer s) (observe f) o ⟨w, []⟩ = (.ok report, ⟨w₂, events⟩) ∧
      report.action = .installed := by
  have hact : act i.backup w = (.ok backup, w.advance steps) := by
    rw [act_apply, hbackup]
    rfl
  simp only [runCycle, check, hforce, if_true, replace, bind_apply, perform_apply, tell_apply, pure_apply, observe,
    hload, Option.all_none, Installation.installer, hact, hinstall, runHook, ha, hv, judge]
  exact ⟨_, _, rfl, rfl⟩

end
end Rotation
end CertRotation
