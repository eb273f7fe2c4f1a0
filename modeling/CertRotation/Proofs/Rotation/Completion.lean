import CertRotation.Proofs.Rotation.Moments

/-!
# Cycles that succeed

A cycle succeeds in one of two ways: it finds that nothing has to be installed, or it loads material, backs up and writes
a bundle, and then the hooks pass. Which of them, and what files it leaves, depends on the files and the seeds alone.
-/
namespace CertRotation
open Files FileTree Rotation

/-- What comes of an instruction on the files `t`. -/
def Surroundings.answer (s : Surroundings) (instruction : Option String) (t : FileTree) :
    Except Error (Option InstructionOutput) :=
  (Installation.runInstruction s instruction { files := t }).1

/-- On the files `t` both hooks end well, and the validation does not say no. -/
def Surroundings.Passes (s : Surroundings) (i : Installation) (t : FileTree) : Prop :=
  ∃ a v, s.answer i.afterAction t = .ok a ∧ s.answer i.validation t = .ok v ∧
    ∀ o, v = some o → o.validationPassed ≠ some false

namespace Rotation

section
variable {σ α β : Type}

theorem tell_bind (e : Event) (f : Unit → Cycle σ α) (p : Progress σ) :
    (tell e >>= f) p = f () { p with events := p.events ++ [e] } := by
  rw [bind_apply, tell_apply]

theorem perform_eq_ok {a : Effect σ α} {x : α} {p p' : Progress σ} :
    perform a p = (.ok x, p') ↔ ∃ w, a p.world = (.ok x, w) ∧ p' = { p with world := w } := by
  rw [perform_apply]
  constructor
  · intro h
    obtain ⟨hx, rfl⟩ := Prod.mk.inj h
    exact ⟨_, Prod.ext hx rfl, rfl⟩
  · rintro ⟨w, ha, rfl⟩
    rw [ha]

theorem act_eq_ok {a : Files.Action α} {x : α} {w w' : World} :
    act a w = (.ok x, w') ↔ ∃ steps, a w.files = (steps, .ok x) ∧ w' = w.advance steps := by
  rw [act_apply]
  constructor
  · intro h
    obtain ⟨hx, rfl⟩ := Prod.mk.inj h
    exact ⟨_, Prod.ext rfl (mapError_eq_ok.mp hx), rfl⟩
  · rintro ⟨steps, ha, rfl⟩
    rw [ha]
    rfl

end
end Rotation

namespace Installation

/-- From the files `t` a backup is made and `data` is written, which leaves the files `t'`. -/
def Rewrites (i : Installation) (data : Bytes) (t t' : FileTree) : Prop :=
  ∃ steps made more, i.backup t = (steps, .ok made) ∧ writeFile i.file data (after t steps) = (more, .ok ()) ∧
    t' = after (after t steps) more

/-- From the files `t` a bundle of the loaded material is installed under `seeds`, which leaves the files `t'`. -/
structure Installs (s : Surroundings) (i : Installation) (load : FileTree → Except Error PemMaterial)
    (seeds : Keystore.Seeds) (m : PemMaterial) (data : Bytes) (t t' : FileTree) : Prop where
  load : load t = .ok m
  password : i.password ≠ ""
  package : m.package seeds i.password = .ok data
  rewrites : i.Rewrites data t t'
  passes : s.Passes i t'

/-- From the files `t` a cycle succeeds, which leaves the files `t'`. -/
inductive Completes (s : Surroundings) (i : Installation) (load : FileTree → Except Error PemMaterial) (o : Options)
    (seeds : Keystore.Seeds) (t : FileTree) : FileTree → Prop
  | upToDate {a : Assessment} (hforce : o.force = false) (hassess : i.assess o.renewBefore o.now t = .ok a)
      (hneeds : a.needsInstall = false) : Completes s i load o seeds t t
  | installs {m : PemMaterial} {data : Bytes} {t' : FileTree}
      (hdue : o.force = true ∨ ∃ a, i.assess o.renewBefore o.now t = .ok a ∧ a.needsInstall = true)
      (h : i.Installs s load seeds m data t t') : Completes s i load o seeds t t'

section
variable {s : Surroundings} {i : Installation} {load : FileTree → Except Error PemMaterial} {o : Options}
variable {w w' : World} {p p' : Progress World} {t' : FileTree}

/-! ## The parts of a cycle -/

theorem runInstruction_fst (s : Surroundings) (instruction : Option String) (w : World) :
    (runInstruction s instruction w).1 = s.answer instruction w.files := by
  unfold Surroundings.answer runInstruction
  cases instruction.filter fun t => ! Text.isBlankText t with
  | none => rfl
  | some t =>
    have hrun : ∀ w : World, (instruct s t w).1 = (s.runner t w.files).2.mapError fun fault => .hook (.spawn t fault) :=
      fun _ => rfl
    have hends : ∀ w : World, ((instruct s t >>= fun o : InstructionOutput =>
        if o.success then return some o else throw (Error.hook (.failed t o.statusText o.stderr)) :
          Effect World (Option InstructionOutput)) w).1 = (instruct s t w).1.bind fun o =>
            if o.success then .ok (some o) else .error (.hook (.failed t o.statusText o.stderr)) := by
      intro w
      rw [bind_apply]
      rcases instruct s t w with ⟨e | out, w'⟩
      · rfl
      · dsimp only [Except.bind]
        split <;> rfl
    dsimp only
    rw [hends, hends, hrun, hrun]

theorem runHook_apply (hq : s.Quiet) (h : Hook) (instruction : Option String) (p : Progress World) :
    ∃ p', p'.world.files = p.world.files ∧
      runHook h (runInstruction s instruction) p = (s.answer instruction p.world.files, p') := by
  rcases hrun : runHook h (runInstruction s instruction) p with ⟨r, p'⟩
  refine ⟨p', (runHook_moved hq hrun).1, Prod.ext ?_ rfl⟩
  rw [← runInstruction_fst, ← congrArg Prod.fst hrun, runHook, bind_apply, perform_apply]
  rcases runInstruction s instruction p.world with ⟨e | out, w⟩
  · rfl
  · rfl

theorem judge_eq_ok {v : Option InstructionOutput} {u : Unit} :
    judge v p = (.ok u, p') ↔ (∀ o, v = some o → o.validationPassed ≠ some false) ∧ p' = p := by
  unfold judge
  cases v with
  | none => exact ⟨fun h => ⟨by simp, (Prod.mk.inj h).2.symm⟩, fun h => h.2 ▸ rfl⟩
  | some o =>
    dsimp only
    by_cases ho : o.validationPassed = some false
    · rw [if_pos ho]
      exact ⟨fun h => absurd (Prod.mk.inj h).1 (by simp), fun h => absurd ho (h.1 o rfl)⟩
    · rw [if_neg ho]
      exact ⟨fun h => ⟨fun o' ho' => Option.some.inj ho' ▸ ho, (Prod.mk.inj h).2.symm⟩, fun h => h.2 ▸ rfl⟩

/-- After the bundle has been written, all depends on the hooks. -/
theorem finish_eq_ok (hq : s.Quiet) {f : Option InstructionOutput → Option InstructionOutput → Report} :
    (∃ x p', (do
        let afterInstall ← runHook .afterInstall (i.installer s).afterInstall
        let validation ← runHook .validation (i.installer s).validate
        judge validation
        return f afterInstall validation : Cycle World Report) p = (.ok x, p') ∧ p'.world.files = t') ↔
      t' = p.world.files ∧ s.Passes i p.world.files := by
  obtain ⟨p₁, hfiles₁, hfirst⟩ := runHook_apply hq .afterInstall i.afterAction p
  obtain ⟨p₂, hfiles₂, hsecond⟩ := runHook_apply hq .validation i.validation p₁
  rw [hfiles₁] at hsecond hfiles₂
  constructor
  · rintro ⟨x, p', h, rfl⟩
    obtain ⟨a, q₁, hafter, hrest⟩ := bind_apply_eq_ok.mp h
    obtain ⟨ha, rfl⟩ := Prod.mk.inj (hfirst.symm.trans hafter)
    obtain ⟨v, q₂, hvalidate, hjudged⟩ := bind_apply_eq_ok.mp hrest
    obtain ⟨hv, rfl⟩ := Prod.mk.inj (hsecond.symm.trans hvalidate)
    obtain ⟨u, q₃, hjudge, hreport⟩ := bind_apply_eq_ok.mp hjudged
    obtain ⟨hpassed, rfl⟩ := judge_eq_ok.mp hjudge
    obtain ⟨-, rfl⟩ := Prod.mk.inj hreport
    exact ⟨hfiles₂, a, v, ha, hv, hpassed⟩
  · rintro ⟨rfl, a, v, ha, hv, hpassed⟩
    exact ⟨f a v, p₂, bind_apply_eq_ok.mpr ⟨a, p₁, ha ▸ hfirst, bind_apply_eq_ok.mpr ⟨v, p₂, hv ▸ hsecond,
      bind_apply_eq_ok.mpr ⟨(), p₂, judge_eq_ok.mpr ⟨hpassed, rfl⟩, rfl⟩⟩⟩, hfiles₂⟩

theorem install_eq_ok {m : PemMaterial} {n : Nat} :
    i.install s m w = (.ok n, w') ↔ i.password ≠ "" ∧ ∃ data steps,
      m.package (s.seeds w.packaged) i.password = .ok data ∧ writeFile i.file data w.files = (steps, .ok ()) ∧
      n = data.length ∧ w' = World.advance { w with packaged := w.packaged + 1 } steps := by
  constructor
  · intro h
    by_cases hp : i.password = ""
    · rw [install, if_pos hp] at h
      cases (Prod.mk.inj h).1
    · refine ⟨hp, ?_⟩
      rw [install_apply hp] at h
      cases hpackage : m.package (s.seeds w.packaged) i.password with
      | error e =>
        rw [hpackage] at h
        cases (Prod.mk.inj h).1
      | ok data =>
        rw [hpackage] at h
        obtain ⟨u, w₁, hwrite, h⟩ := bind_apply_eq_ok.mp h
        rw [act_apply] at hwrite
        obtain ⟨hresult, rfl⟩ := Prod.mk.inj hwrite
        obtain ⟨hn, rfl⟩ := Prod.mk.inj h
        exact ⟨data, _, rfl, Prod.ext rfl (mapError_eq_ok.mp hresult), (Except.ok.inj hn).symm, rfl⟩
  · rintro ⟨hp, data, steps, hpackage, hwrite, rfl, rfl⟩
    exact install_of_package hp hpackage hwrite

theorem replace_eq_ok (hq : s.Quiet) {checked : Option Assessment} :
    (∃ report p', replace (i.installer s) (observe load) checked p = (.ok report, p') ∧ p'.world.files = t') ↔
      ∃ m data, i.Installs s load (s.seeds p.world.packaged) m data p.world.files t' := by
  constructor
  · rintro ⟨report, p', h, hfiles⟩
    obtain ⟨m, p₁, hload, hrest⟩ := bind_apply_eq_ok.mp h
    obtain ⟨hm, rfl⟩ := Prod.mk.inj hload
    obtain ⟨made, p₂, hbackup, hrest⟩ := bind_apply_eq_ok.mp hrest
    obtain ⟨w₂, hact, rfl⟩ := perform_eq_ok.mp hbackup
    obtain ⟨steps, hsteps, rfl⟩ := (act_eq_ok (a := i.backup)).mp hact
    rw [tell_bind, tell_bind] at hrest
    obtain ⟨n, p₃, hinstall, hrest⟩ := bind_apply_eq_ok.mp hrest
    obtain ⟨w₃, hput, rfl⟩ := perform_eq_ok.mp hinstall
    obtain ⟨hp, data, more, hpackage, hwrite, -, rfl⟩ := install_eq_ok.mp hput
    rw [tell_bind] at hrest
    obtain ⟨rfl, hpasses⟩ := (finish_eq_ok hq).mp ⟨report, p', hrest, hfiles⟩
    exact ⟨m, data, hm, hp, hpackage, ⟨steps, made, more, hsteps, hwrite, rfl⟩, hpasses⟩
  · rintro ⟨m, data, hm, hp, hpackage, ⟨steps, made, more, hsteps, hwrite, rfl⟩, hpasses⟩
    have hinstall : i.install s m (p.world.advance steps) =
        (.ok data.length, World.advance { p.world.advance steps with packaged := p.world.packaged + 1 } more) :=
      install_of_package hp hpackage hwrite
    obtain ⟨report, p', hfinish, hfiles⟩ := (finish_eq_ok hq (i := i)
      (p := ⟨World.advance { p.world.advance steps with packaged := p.world.packaged + 1 } more,
        p.events ++ [.backupComplete made] ++ [.installStarted] ++ [.installComplete data.length]⟩)
      (f := fun a v => ⟨i.file, .installed, checked, some made, some data.length, a, v⟩)).mpr ⟨rfl, hpasses⟩
    refine ⟨report, p', bind_apply_eq_ok.mpr ⟨m, p, congrArg (·, p) hm, bind_apply_eq_ok.mpr ⟨made, _,
      perform_eq_ok.mpr ⟨_, (act_eq_ok (a := i.backup)).mpr ⟨steps, hsteps, rfl⟩, rfl⟩, ?_⟩⟩, hfiles⟩
    rw [tell_bind, tell_bind]
    refine bind_apply_eq_ok.mpr ⟨data.length, _, perform_eq_ok.mpr ⟨_, hinstall, rfl⟩, ?_⟩
    rw [tell_bind]
    exact hfinish

/-- A cycle succeeds exactly in one of the two ways, whatever else has happened in the world. -/
theorem runCycle_eq_ok (hq : s.Quiet) :
    (∃ report p', runCycle (i.installer s) (observe load) o p = (.ok report, p') ∧ p'.world.files = t') ↔
      i.Completes s load o (s.seeds p.world.packaged) p.world.files t' := by
  by_cases hforce : o.force = true
  · have hcheck : check (i.installer s) o p = (.ok none, { p with events := p.events ++ [.checkBypassed] }) := by
      rw [Rotation.check, if_pos hforce, tell_bind]
      rfl
    simp only [runCycle, bind_apply, hcheck, Option.all_none, if_true]
    rw [replace_eq_ok hq]
    constructor
    · rintro ⟨m, data, h⟩
      exact .installs (.inl hforce) h
    · rintro (⟨hnot, -, -⟩ | ⟨-, h⟩)
      · simp [hforce] at hnot
      · exact ⟨_, _, h⟩
  · obtain ⟨events, hcheck⟩ : ∃ events, Rotation.check (i.installer s) o p =
        ((i.assess o.renewBefore o.now p.world.files).map some, ⟨p.world, events⟩) := by
      have hassess : (i.installer s).assess o.renewBefore o.now p.world =
          (i.assess o.renewBefore o.now p.world.files, p.world) := rfl
      rw [Rotation.check, if_neg hforce, tell_bind, bind_apply, perform_apply, hassess]
      cases i.assess o.renewBefore o.now p.world.files with
      | error e => exact ⟨_, rfl⟩
      | ok a => exact ⟨_, rfl⟩
    simp only [runCycle, bind_apply, hcheck]
    cases hassess : i.assess o.renewBefore o.now p.world.files with
    | error e =>
      constructor
      · rintro ⟨report, p', h, -⟩
        cases (Prod.mk.inj h).1
      · rintro (⟨-, hnot, -⟩ | ⟨hnot | ⟨a, hnot, -⟩, -⟩)
        · simp [hassess] at hnot
        · exact absurd hnot hforce
        · simp [hassess] at hnot
    | ok a =>
      cases hneeds : a.needsInstall with
      | true =>
        simp only [Except.map, Option.all_some, hneeds, if_true]
        rw [replace_eq_ok hq]
        constructor
        · rintro ⟨m, data, h⟩
          exact .installs (.inr ⟨a, hassess, hneeds⟩) h
        · rintro (⟨-, hok, hnot⟩ | ⟨-, h⟩)
          · obtain rfl := Except.ok.inj (hassess.symm.trans hok)
            simp [hneeds] at hnot
          · exact ⟨_, _, h⟩
      | false =>
        simp only [Except.map, Option.all_some, hneeds, Bool.false_eq_true, if_false, tell_bind]
        constructor
        · rintro ⟨report, p', h, rfl⟩
          obtain ⟨-, rfl⟩ := Prod.mk.inj h
          exact .upToDate (by simpa using hforce) hassess hneeds
        · rintro (⟨-, -, -⟩ | ⟨hnot | ⟨a', hok, hnot⟩, -⟩)
          · exact ⟨_, _, rfl, rfl⟩
          · exact absurd hnot hforce
          · obtain rfl := Except.ok.inj (hassess.symm.trans hok)
            simp [hneeds] at hnot

end
end Installation
end CertRotation
