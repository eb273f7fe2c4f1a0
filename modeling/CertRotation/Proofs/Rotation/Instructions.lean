import CertRotation.Proofs.Rotation.Footprint

/-!
# Instructions after an installation

A cycle hands nothing to the runner before its bundle is in place. Then the instruction of the first hook is called as it
is, and that of the second unless the first has failed, each once and not at all if it is missing or blank. Whether the
cycle succeeds is up to what the runner makes of these calls. `runCycle_instructions` says so for every runner, also for
one whose instructions write files.
-/
namespace CertRotation
open Files FileTree Rotation

namespace Rotation

theorem Deed.exists_of_stage_afterInstall {d : Deed} (h : d.stage = .afterInstall) : ∃ r, d = .hook .afterInstall r := by
  cases d with
  | hook k r =>
    cases k with
    | afterInstall => exact ⟨r, rfl⟩
    | validation => cases h
  | _ => cases h

theorem Deed.exists_of_stage_validate {d : Deed} (h : d.stage = .validate) : ∃ r, d = .hook .validation r := by
  cases d with
  | hook k r =>
    cases k with
    | afterInstall => cases h
    | validation => exact ⟨r, rfl⟩
  | _ => cases h

/-- The validation is the last step. -/
theorem Course.of_validate {deeds : List Deed} {e : Option Error} (h : Course .validate deeds e) :
    ∃ r, deeds = [.hook .validation r] ∧ e = (Deed.hook .validation r).ending := by
  generalize hstage : Stage.validate = stage at h
  cases h with
  | last =>
    obtain ⟨r, rfl⟩ := Deed.exists_of_stage_validate hstage.symm
    exact ⟨r, rfl, rfl⟩
  | step _ hs =>
    rw [← hstage] at hs
    cases hs

/-- It follows upon the first hook if that has come off. -/
theorem Course.of_afterInstall {deeds : List Deed} {e : Option Error} (h : Course .afterInstall deeds e) :
    ∃ r hooks, deeds = .hook .afterInstall r :: hooks ∧
      ((∃ x, r = .error x ∧ hooks = [] ∧ e = some x) ∨
        ∃ v r', r = .ok v ∧ hooks = [.hook .validation r'] ∧ e = (Deed.hook .validation r').ending) := by
  generalize hstage : Stage.afterInstall = stage at h
  cases h with
  | last h =>
    obtain ⟨r, rfl⟩ := Deed.exists_of_stage_afterInstall hstage.symm
    cases r with
    | error x => exact ⟨_, [], rfl, .inl ⟨x, rfl, rfl, rfl⟩⟩
    | ok v => cases h
  | step h hs rest =>
    obtain ⟨r, rfl⟩ := Deed.exists_of_stage_afterInstall hstage.symm
    obtain rfl := Option.some.inj hs
    obtain ⟨r', rfl, rfl⟩ := rest.of_validate
    cases r with
    | error x => cases h
    | ok v => exact ⟨_, _, rfl, .inr ⟨v, r', rfl, rfl, rfl⟩⟩

end Rotation

namespace Surroundings

/-- What the runner makes of a call. -/
def outcome (s : Surroundings) (c : Call) : Except Fault InstructionOutput := (s.runner c.instruction c.files).2

/-- The instruction has been started and has ended well. -/
def Succeeds (s : Surroundings) (c : Call) : Prop := ∃ out, s.outcome c = .ok out ∧ out.success = true

/-- The files `t` after these calls. -/
def filesAfter (s : Surroundings) (t : FileTree) (calls : List Call) : FileTree :=
  after t (calls.flatMap fun c => (s.runner c.instruction c.files).1)

end Surroundings

/-- The call of an instruction on the files `t`: as it is, unless it is missing or blank. -/
def callOf (instruction : Option String) (t : FileTree) : List Call :=
  (instruction.filter fun text => ! Text.isBlankText text).toList.map fun text => ⟨text, t⟩

namespace Installation

/-- How an installation goes on that has left the files `t`: these are the calls of its two hooks, and this is the result
of the cycle. -/
structure FollowedUp (s : Surroundings) (i : Installation) (t : FileTree) (first second : List Call)
    (r : Except Error Report) : Prop where
  firstCalls : first = callOf i.afterAction t
  /-- The second hook is run on what the first has left. -/
  secondCalls : (∀ c ∈ first, s.Succeeds c) → second = callOf i.validation (s.filesAfter t first)
  /-- If the first instruction does not end well, the second is not called. -/
  stopped : ∀ c ∈ first, ¬ s.Succeeds c → second = []
  /-- The cycle succeeds if all that is called ends well and the validation does not print `1`. -/
  ok_iff : (∃ report, r = .ok report) ↔ (∀ c ∈ first ++ second, s.Succeeds c) ∧
    ∀ c ∈ second, ∀ out, s.outcome c = .ok out → Text.trim out.stdout ≠ "1"
  unstarted : ∀ c ∈ first ++ second, ∀ fault, s.outcome c = .error fault →
    r = .error (.hook (.spawn c.instruction fault))
  /-- An instruction that fails is reported as failed, whatever it has printed. -/
  failed : ∀ c ∈ first ++ second, ∀ out, s.outcome c = .ok out → out.success = false →
    r = .error (.hook (.failed c.instruction out.statusText out.stderr))
  refused : ∀ c ∈ second, ∀ out, s.outcome c = .ok out → out.success = true → Text.trim out.stdout = "1" →
    r = .error (.hook (.validationFailed out.stdout))

/-- The calls of a cycle with this record that goes from the world `w` to `w'` and ends in `r`. -/
structure HandsOver (s : Surroundings) (i : Installation) (w w' : World) (deeds : List Deed)
    (r : Except Error Report) : Prop where
  /-- Nothing is called unless a bundle has been installed. -/
  idle : (∀ m n, .install m (.ok n) ∉ deeds) → w'.calls = w.calls
  /-- With a bundle installed, the hooks are run on the files `t`, in which the whole bundle stands at the target. -/
  installed : ∀ m n, .install m (.ok n) ∈ deeds → ∃ t seeds data first second,
    (m.package seeds i.password = .ok data ∧ n = data.length ∧ w.files.Stands t i.file data privateMode ∧
      (w.files.Direct i.file → t.view i.file = .ok (.file data privateMode))) ∧
    w'.calls = w.calls ++ (first ++ second) ∧ i.FollowedUp s t first second r ∧
    (s.Quiet → ∀ c ∈ first ++ second, c.files = t)

/-! ## A single hook -/

/-- What comes of a hook with these calls. -/
inductive HookEnds (s : Surroundings) : List Call → Except Error (Option InstructionOutput) → Prop
  | skipped : HookEnds s [] (.ok none)
  | unstarted {c : Call} {fault : Fault} (h : s.outcome c = .error fault) :
      HookEnds s [c] (.error (.hook (.spawn c.instruction fault)))
  | failed {c : Call} {out : InstructionOutput} (h : s.outcome c = .ok out) (hfails : out.success = false) :
      HookEnds s [c] (.error (.hook (.failed c.instruction out.statusText out.stderr)))
  | succeeded {c : Call} {out : InstructionOutput} (h : s.outcome c = .ok out) (hends : out.success = true) :
      HookEnds s [c] (.ok (some out))

section
variable {s : Surroundings} {i : Installation} {load : FileTree → Except Error PemMaterial}
variable {w w' : World} {deeds : List Deed} {e : Option Error}

/-- A hook calls its instruction, and nothing else. -/
theorem runInstruction_cases {instruction : Option String} {r : Except Error (Option InstructionOutput)}
    (h : runInstruction s instruction w = (r, w')) :
    w'.calls = w.calls ++ callOf instruction w.files ∧
      w'.files = s.filesAfter w.files (callOf instruction w.files) ∧ HookEnds s (callOf instruction w.files) r := by
  unfold runInstruction at h
  unfold callOf
  cases hgiven : instruction.filter fun text => ! Text.isBlankText text with
  | none =>
    rw [hgiven] at h
    obtain ⟨rfl, rfl⟩ := Prod.mk.inj h
    exact ⟨(List.append_nil _).symm, rfl, .skipped⟩
  | some text =>
    rw [hgiven] at h
    have hinstruct : instruct s text w = ((s.outcome ⟨text, w.files⟩).mapError fun fault => .hook (.spawn text fault),
        World.advance { w with calls := w.calls ++ [⟨text, w.files⟩] } (s.runner text w.files).1) := rfl
    have hfiles : s.filesAfter w.files [⟨text, w.files⟩] = after w.files (s.runner text w.files).1 :=
      congrArg _ (List.append_nil _)
    dsimp only at h
    rw [bind_apply, hinstruct] at h
    cases hout : s.outcome ⟨text, w.files⟩ with
    | error fault =>
      rw [hout] at h
      obtain ⟨rfl, rfl⟩ := Prod.mk.inj h
      exact ⟨rfl, hfiles.symm, .unstarted hout⟩
    | ok out =>
      rw [hout] at h
      dsimp only [Except.mapError] at h
      cases hends : out.success with
      | true =>
        rw [if_pos hends] at h
        obtain ⟨rfl, rfl⟩ := Prod.mk.inj h
        exact ⟨rfl, hfiles.symm, .succeeded hout hends⟩
      | false =>
        rw [if_neg (by simp [hends])] at h
        obtain ⟨rfl, rfl⟩ := Prod.mk.inj h
        exact ⟨rfl, hfiles.symm, .failed hout hends⟩

theorem succeeds_iff {c : Call} {out : InstructionOutput} (h : s.outcome c = .ok out) :
    s.Succeeds c ↔ out.success = true := by
  constructor
  · rintro ⟨out', hout', hends⟩
    obtain rfl := Except.ok.inj (h.symm.trans hout')
    exact hends
  · exact fun hends => ⟨out, h, hends⟩

theorem not_succeeds {c : Call} {fault : Fault} (h : s.outcome c = .error fault) : ¬ s.Succeeds c := by
  rintro ⟨out, hout, -⟩
  rw [h] at hout
  cases hout

theorem HookEnds.ok_iff {calls : List Call} {r : Except Error (Option InstructionOutput)} (h : HookEnds s calls r) :
    (∃ v, r = .ok v) ↔ ∀ c ∈ calls, s.Succeeds c := by
  cases h with
  | skipped => simp
  | unstarted h => simp [not_succeeds h]
  | failed h hfails => simp [succeeds_iff h, hfails]
  | succeeded h hends => simp [succeeds_iff h, hends]

/-- There is one call, if any. -/
theorem HookEnds.of_mem {calls : List Call} {r : Except Error (Option InstructionOutput)} (h : HookEnds s calls r)
    {c : Call} (hc : c ∈ calls) : HookEnds s [c] r := by
  have hone : calls = [c] := by
    cases h with
    | skipped => cases hc
    | unstarted | failed | succeeded => rw [List.mem_singleton.mp hc]
  exact hone ▸ h

theorem HookEnds.unstarted_eq {calls : List Call} {r : Except Error (Option InstructionOutput)}
    (h : HookEnds s calls r) {c : Call} (hc : c ∈ calls) {fault : Fault} (hout : s.outcome c = .error fault) :
    r = .error (.hook (.spawn c.instruction fault)) := by
  cases h.of_mem hc with
  | unstarted hfault => rw [Except.error.inj (hfault.symm.trans hout)]
  | failed hended | succeeded hended => cases hended.symm.trans hout

theorem HookEnds.ended_eq {calls : List Call} {r : Except Error (Option InstructionOutput)}
    (h : HookEnds s calls r) {c : Call} (hc : c ∈ calls) {out : InstructionOutput} (hout : s.outcome c = .ok out) :
    r = if out.success then .ok (some out) else .error (.hook (.failed c.instruction out.statusText out.stderr)) := by
  cases h.of_mem hc with
  | unstarted hfault => cases hfault.symm.trans hout
  | failed hended hfails =>
    obtain rfl := Except.ok.inj (hended.symm.trans hout)
    rw [if_neg (by simp [hfails])]
  | succeeded hended hends =>
    obtain rfl := Except.ok.inj (hended.symm.trans hout)
    rw [if_pos hends]

/-! ## Both hooks -/

/-- If the first hook fails, the second is not run. -/
theorem followedUp_of_error {t : FileTree} {calls : List Call} {x : Error} (hcalls : calls = callOf i.afterAction t)
    (h : HookEnds s calls (.error x)) : i.FollowedUp s t calls [] (.error x) := by
  have hno : ¬ ∀ c ∈ calls, s.Succeeds c := fun hall => by
    obtain ⟨v, hv⟩ := h.ok_iff.mpr hall
    cases hv
  constructor
  case firstCalls => exact hcalls
  case secondCalls => exact fun hall => absurd hall hno
  case stopped => exact fun _ _ _ => rfl
  case ok_iff =>
    rw [List.append_nil]
    refine iff_of_false ?_ fun hall => hno hall.1
    rintro ⟨report, hreport⟩
    cases hreport
  case unstarted =>
    intro c hc fault hout
    rw [List.append_nil] at hc
    cases h.unstarted_eq hc hout
    rfl
  case failed =>
    intro c hc out hout hfails
    rw [List.append_nil] at hc
    have hr := h.ended_eq hc hout
    rw [if_neg (by simp [hfails])] at hr
    cases hr
    rfl
  case refused => exact fun c hc => absurd hc List.not_mem_nil

/-- If it does not, what comes of the second one decides, and what that one has printed. -/
theorem followedUp_of_ok {t : FileTree} {first second : List Call} {v : Option InstructionOutput}
    {r : Except Error (Option InstructionOutput)} {result : Except Error Report} {report : Report}
    (hfirst : first = callOf i.afterAction t) (hsecond : second = callOf i.validation (s.filesAfter t first))
    (h : HookEnds s first (.ok v)) (h' : HookEnds s second r)
    (hresult : result = (Deed.hook .validation r).ending.elim (.ok report) .error) :
    i.FollowedUp s t first second result := by
  have hall : ∀ c ∈ first, s.Succeeds c := h.ok_iff.mp ⟨v, rfl⟩
  constructor
  case firstCalls => exact hfirst
  case secondCalls => exact fun _ => hsecond
  case stopped => exact fun c hc hno => absurd (hall c hc) hno
  case ok_iff =>
    rw [List.forall_mem_append, and_iff_right hall, hresult]
    cases h' with
    | skipped => simp [Deed.ending, Deed.error?]
    | unstarted h => simp [Deed.ending, Deed.error?, not_succeeds h]
    | failed h hfails => simp [Deed.ending, Deed.error?, succeeds_iff h, hfails]
    | @succeeded c out h hends =>
      by_cases hout : Text.trim out.stdout = "1"
      · simp [Deed.ending, hout, h]
      · simp [Deed.ending, hout, h, succeeds_iff h, hends]
  case unstarted =>
    intro c hc fault hout
    cases List.mem_append.mp hc with
    | inl hc => exact absurd (hall c hc) (not_succeeds hout)
    | inr hc =>
      rw [hresult, h'.unstarted_eq hc hout]
      rfl
  case failed =>
    intro c hc out hout hfails
    cases List.mem_append.mp hc with
    | inl hc => exact absurd ((succeeds_iff hout).mp (hall c hc)) (by simp [hfails])
    | inr hc =>
      rw [hresult, h'.ended_eq hc hout, if_neg (by simp [hfails])]
      rfl
  case refused =>
    intro c hc out hout hends hone
    rw [hresult, h'.ended_eq hc hout, if_pos hends, Deed.ending, if_pos hone]
    rfl

theorem followedUp_of_course {result : Except Error Report} {report : Report} (hcourse : Course .afterInstall deeds e)
    (h : Proceeds (i.installer s) (observe load) w deeds w') (hresult : result = e.elim (.ok report) .error) :
    ∃ first second, w'.calls = w.calls ++ (first ++ second) ∧ i.FollowedUp s w.files first second result := by
  obtain ⟨r, hooks, rfl, hnext⟩ := hcourse.of_afterInstall
  cases h with
  | @cons _ w₁ _ _ _ hd hproceeds =>
    obtain ⟨hcalls, hfiles, hends⟩ := runInstruction_cases hd
    cases hnext with
    | inl hfails =>
      obtain ⟨x, rfl, rfl, rfl⟩ := hfails
      cases hproceeds
      rw [hresult]
      exact ⟨_, [], by rw [hcalls, List.append_nil], followedUp_of_error rfl hends⟩
    | inr hgoes =>
      obtain ⟨v, r', rfl, rfl, rfl⟩ := hgoes
      cases hproceeds with
      | @cons _ w₂ _ _ _ hd' hlast =>
        cases hlast
        obtain ⟨hcalls', -, hends'⟩ := runInstruction_cases hd'
        rw [hfiles] at hcalls' hends'
        exact ⟨_, _, by rw [hcalls', hcalls, List.append_assoc], followedUp_of_ok rfl rfl hends hends' hresult⟩

/-! ## The steps before the hooks -/

theorem calls_advance (w : World) (steps : List Step) : (w.advance steps).calls = w.calls := rfl

theorem install_calls {m : PemMaterial} {r : Except Error Nat} (h : i.install s m w = (r, w')) : w'.calls = w.calls := by
  by_cases hp : i.password = ""
  · rw [install, if_pos hp] at h
    obtain ⟨-, rfl⟩ := Prod.mk.inj h
    rfl
  · rw [install_apply hp] at h
    cases hpackage : m.package (s.seeds w.packaged) i.password with
    | error e =>
      rw [hpackage] at h
      obtain ⟨-, rfl⟩ := Prod.mk.inj h
      rfl
    | ok data =>
      rw [hpackage] at h
      rcases bind_apply_eq h with ⟨x, hact, -⟩ | ⟨u, w₁, hact, hlength⟩
      · obtain ⟨-, rfl⟩ := Prod.mk.inj hact
        exact calls_advance _ _
      · obtain ⟨-, rfl⟩ := Prod.mk.inj hact
        obtain ⟨-, rfl⟩ := Prod.mk.inj hlength
        exact calls_advance _ _

/-- Only hooks call instructions. -/
theorem calls_of_leads {d : Deed} (hd : d.stage ≠ .afterInstall ∧ d.stage ≠ .validate)
    (h : d.Leads (i.installer s) (observe load) w w') : w'.calls = w.calls := by
  cases d with
  | assess renewBefore now r => rw [eq_of_leads (.inl rfl) h]
  | load r => rw [eq_of_leads (.inr rfl) h]
  | backup r =>
    obtain ⟨-, rfl⟩ := Prod.mk.inj h
    rfl
  | install m r => exact install_calls h
  | hook k r => cases k <;> simp [Deed.stage] at hd

/-- How far a cycle gets from the world `w`: it ends before a bundle is installed, and nothing has been called, or its
hooks start in the world `w₁`, where a bundle has been installed on files that keep what a backup of `t₀` leaves alone. -/
inductive Reaches (s : Surroundings) (i : Installation) (load : FileTree → Except Error PemMaterial) (t₀ : FileTree)
    (w w' : World) (deeds : List Deed) (e : Option Error) : Prop
  | short (hcalls : w'.calls = w.calls) (hnone : ∀ m n, .install m (.ok n) ∉ deeds)
  | hooks {m : PemMaterial} {n : Nat} {t : FileTree} {w₁ : World} {hooks : List Deed}
      (hinstalls : ∀ m' n', .install m' (.ok n') ∈ deeds ↔ m' = m ∧ n' = n) (hcalls : w₁.calls = w.calls)
      (hspares : i.Spares t₀ t) (hrenews : i.Renews m t w₁.files (.ok n)) (hcourse : Course .afterInstall hooks e)
      (hproceeds : Proceeds (i.installer s) (observe load) w₁ hooks w')

theorem reaches_of_install {t₀ : FileTree} (hspares : i.Spares t₀ w.files) (hcourse : Course .install deeds e)
    (h : Proceeds (i.installer s) (observe load) w deeds w') : i.Reaches s load t₀ w w' deeds e := by
  obtain ⟨d, hooks, rfl, hstage, hnext⟩ := hcourse.uncons
  obtain ⟨m, r, rfl⟩ := Deed.exists_of_stage_install hstage
  cases h with
  | @cons _ w₁ _ _ _ hd hproceeds =>
    have hcalls := install_calls hd
    have hrenews := install_renews hd
    cases r with
    | error x =>
      obtain ⟨-, rfl⟩ := hnext.resolve_right fun hgoes => by cases hgoes.1
      cases hproceeds
      exact .short hcalls (by simp)
    | ok n =>
      obtain ⟨-, s', hs', hcourse'⟩ := hnext.resolve_left fun hlast => by cases hlast.1
      obtain rfl := Option.some.inj hs'
      refine .hooks (fun m' n' => ?_) hcalls hspares hrenews hcourse' hproceeds
      -- a cycle does not come back to the installation
      have hno : .install m' (.ok n') ∉ hooks := fun hmem => by
        simpa [Deed.stage, Stage.onward] using hcourse'.stage_mem _ hmem
      rw [List.mem_cons, or_iff_left hno, Deed.install.injEq, Except.ok.injEq]

/-- A step before the installation calls nothing, so that a cycle gets as far as what follows. -/
theorem reaches_of_stage {stage next : Stage} {t₀ : FileTree}
    (hstage : stage = .assess ∨ stage = .load ∨ stage = .backup) (hs : stage.next? = some next)
    (hcourse : Course stage deeds e) (h : Proceeds (i.installer s) (observe load) w deeds w')
    (hnext : ∀ {d : Deed} {rest w₁}, d.stage = stage → d.Leads (i.installer s) (observe load) w w₁ → Course next rest e →
      Proceeds (i.installer s) (observe load) w₁ rest w' → i.Reaches s load t₀ w₁ w' rest e) :
    i.Reaches s load t₀ w w' deeds e := by
  obtain ⟨d, rest, rfl, rfl, hrest⟩ := hcourse.uncons
  have hno : ∀ m r, d ≠ .install m r := by
    rintro m r rfl
    simp [Deed.stage] at hstage
  cases h with
  | @cons _ w₁ _ _ _ hd hproceeds =>
    have hcalls : w₁.calls = w.calls := by
      refine calls_of_leads ?_ hd
      obtain h | h | h := hstage <;> simp [h]
    cases hrest with
    | inl hlast =>
      obtain ⟨-, rfl⟩ := hlast
      cases hproceeds
      refine .short hcalls fun m n hmem => ?_
      exact hno m _ (List.mem_singleton.mp hmem).symm
    | inr hgoes =>
      obtain ⟨-, s', hs', hcourse'⟩ := hgoes
      obtain rfl := Option.some.inj (hs.symm.trans hs')
      have hmem : ∀ m n, .install m (.ok n) ∈ d :: rest ↔ .install m (.ok n) ∈ rest := fun m n =>
        List.mem_cons.trans (or_iff_right fun heq => hno m _ heq.symm)
      cases hnext rfl hd hcourse' hproceeds with
      | short hsame hnone => exact .short (hsame.trans hcalls) fun m n => mt (hmem m n).mp (hnone m n)
      | hooks hinstalls hsame hspares hrenews hcourse hproceeds =>
        exact .hooks (fun m n => (hmem m n).trans (hinstalls m n)) (hsame.trans hcalls) hspares hrenews hcourse hproceeds

theorem reaches_of_load (hcourse : Course .load deeds e) (h : Proceeds (i.installer s) (observe load) w deeds w') :
    i.Reaches s load w.files w w' deeds e := by
  refine reaches_of_stage (.inr (.inl rfl)) rfl hcourse h fun hload hd hcourse' h' => ?_
  obtain rfl := eq_of_leads (.inr hload) hd
  refine reaches_of_stage (.inr (.inr rfl)) rfl hcourse' h' fun hbackup hd' hinstall hproceeds => ?_
  obtain ⟨r, rfl⟩ := Deed.exists_of_stage_backup hbackup
  obtain ⟨rfl, rfl⟩ := Prod.mk.inj hd'
  exact reaches_of_install (backup_backsUp rfl).spares hinstall hproceeds

theorem reaches_of_course {o : Options} (hcourse : Course (if o.force then .load else .assess) deeds e)
    (h : Proceeds (i.installer s) (observe load) w deeds w') : i.Reaches s load w.files w w' deeds e := by
  cases hforce : o.force with
  | true =>
    rw [hforce] at hcourse
    exact reaches_of_load hcourse h
  | false =>
    rw [hforce] at hcourse
    refine reaches_of_stage (.inl rfl) rfl hcourse h fun hassess hd hload hproceeds => ?_
    obtain rfl := eq_of_leads (.inl hassess) hd
    exact reaches_of_load hload hproceeds

/-! ## Whole cycles -/

theorem files_of_mem_callOf {instruction : Option String} {t : FileTree} {c : Call} (h : c ∈ callOf instruction t) :
    c.files = t := by
  obtain ⟨text, -, rfl⟩ := List.mem_map.mp h
  rfl

theorem filesAfter_eq (hq : s.Quiet) (t : FileTree) (calls : List Call) : s.filesAfter t calls = t := by
  have hnone : (calls.flatMap fun c => (s.runner c.instruction c.files).1) = [] :=
    List.flatMap_eq_nil_iff.mpr fun c _ => hq c.instruction c.files
  rw [Surroundings.filesAfter, hnone]
  rfl

/-- With quiet instructions all calls find the files that the installation has left. -/
theorem FollowedUp.files_eq {t : FileTree} {first second : List Call} {r : Except Error Report}
    (h : i.FollowedUp s t first second r) (hq : s.Quiet) : ∀ c ∈ first ++ second, c.files = t := by
  intro c hc
  cases List.mem_append.mp hc with
  | inl hc => exact files_of_mem_callOf (h.firstCalls ▸ hc)
  | inr hc =>
    have hall : ∀ d ∈ first, s.Succeeds d := fun d hd => by
      by_contra hno
      rw [h.stopped d hd hno] at hc
      cases hc
    rw [h.secondCalls hall, filesAfter_eq hq] at hc
    exact files_of_mem_callOf hc

theorem Reaches.handsOver {r : Except Error Report} {report : Report} (h : i.Reaches s load w.files w w' deeds e)
    (hr : r = e.elim (.ok report) .error) : i.HandsOver s w w' deeds r := by
  cases h with
  | short hcalls hnone =>
    exact ⟨fun _ => hcalls, fun m n hmem => absurd hmem (hnone m n)⟩
  | @hooks m n t w₁ hooks hinstalls hcalls hspares hrenews hcourse hproceeds =>
    obtain ⟨first, second, hcalled, hfollowed⟩ := followedUp_of_course hcourse hproceeds hr
    obtain ⟨seeds, data, hpackage, hn, hstands, hview⟩ := installed_of_renews hspares hrenews
    constructor
    case idle => exact fun hnone => absurd ((hinstalls m n).mpr ⟨rfl, rfl⟩) (hnone m n)
    case installed =>
      intro m' n' hmem
      obtain ⟨rfl, rfl⟩ := (hinstalls m' n').mp hmem
      exact ⟨w₁.files, seeds, data, first, second, ⟨hpackage, hn, hstands, hview⟩, by rw [hcalled, hcalls], hfollowed,
        hfollowed.files_eq⟩

/-- Whatever its hooks do, a cycle hands an instruction to the runner only on an installed bundle: those that are
configured, as they are, each at most once, and the second only if the first has not failed. From there on the cycle
succeeds exactly if all instructions end well and the validation does not say no. -/
theorem runCycle_instructions (s : Surroundings) (i : Installation) (load : FileTree → Except Error PemMaterial)
    (o : Options) (w : World) : ∃ r w' deeds events,
      runCycle (i.installer s).recorded (recording .load (observe load)) o ⟨(w, []), []⟩ =
        (r, ⟨(w', deeds), events⟩) ∧
      runCycle (i.installer s) (observe load) o ⟨w, []⟩ = (r, ⟨w', events⟩) ∧ i.HandsOver s w w' deeds r := by
  rcases hrun : runCycle (i.installer s).recorded (recording .load (observe load)) o ⟨(w, []), []⟩ with
    ⟨r, ⟨w', deeds⟩, events⟩
  have hplain := erases_runCycle (i.installer s) (observe load) o ⟨(w, []), []⟩
  rw [hrun] at hplain
  refine ⟨r, w', deeds, events, rfl, hplain, ?_⟩
  obtain ⟨deeds', e, hcourse, hadded, -, -, hr⟩ := runCycle_course hrun
  obtain rfl : deeds = deeds' := hadded.deeds.trans (List.nil_append _)
  exact (reaches_of_course hcourse hadded.proceeds).handsOver hr

end

/-- A target at `d/a/a` whose first hook looks for it. -/
def lookingFor : Installation := { file := "d/a/a", password := "password", afterAction := some "test -f d/a/a" }

/-- An instruction may be called on files in which the path of its target does not lead to the new bundle. -/
theorem called_cut_off : ∃ report w' events t,
    runCycle (lookingFor.installer sampleSurroundings) (observe fun _ => .ok Bundle.sample) sampleOptions
      ⟨⟨looped, [], [], 0⟩, []⟩ = (.ok report, ⟨w', events⟩) ∧
    report.action = .installed ∧ w'.calls = [⟨"test -f d/a/a", t⟩] ∧ t.view "d/a/a" = .error .notADirectory := by
  obtain ⟨data, more, hinstall, hplaced⟩ := exists_install_sample (i := lookingFor)
    (w := World.advance ⟨looped, [], [], 0⟩ []) rfl writable_looped
  have hcall : ∀ t, callOf lookingFor.afterAction t = [⟨"test -f d/a/a", t⟩] := by
    have hgiven : lookingFor.afterAction.filter (fun text => ! Text.isBlankText text) = some "test -f d/a/a" := by decide
    intro t
    rw [callOf, hgiven]
    rfl
  rcases hfirst : runInstruction sampleSurroundings lookingFor.afterAction
    (World.advance { World.advance ⟨looped, [], [], 0⟩ [] with packaged := 1 } more) with ⟨r, w₁⟩
  obtain ⟨hcalls, -, hends⟩ := runInstruction_cases hfirst
  obtain ⟨a, rfl⟩ := hends.ok_iff.mpr fun c _ => ⟨{}, rfl, rfl⟩
  obtain ⟨report, events, hrun, hinstalled⟩ := runCycle_of_hooks (o := sampleOptions) (f := fun _ => .ok Bundle.sample)
    (w := ⟨looped, [], [], 0⟩) rfl rfl (backup_looped rfl) hinstall hfirst rfl
  refine ⟨report, w₁, events, _, hrun, hinstalled, hcalls.trans (congrArg _ (hcall _)), ?_⟩
  obtain ⟨hd, hn⟩ := replaced_looped hplaced
  exact congrArg (Except.map _) (stat_replaced hd hn)

end Installation
end CertRotation
