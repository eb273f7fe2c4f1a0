import CertRotation.Proofs.Rotation.CycleSteps

/-!
# The protocol of a cycle

Whatever an installer does, a cycle asks it and the loader for one step after another, each only once the one before has
come off, and tells of the steps that have. `recorded` keeps what was asked for and what came of it, which makes no
difference to a cycle. `runCycle_protocol` says what such a record looks like, and that events, report and error are
those of the record.
-/
namespace CertRotation.Rotation

/-! ## Records -/

/-- What a cycle asks for. -/
inductive Stage where
  | assess
  | load
  | backup
  | install
  | afterInstall
  | validate
  deriving DecidableEq, Repr

/-- Something that was asked of an installer or a loader, and what came of it. -/
inductive Deed where
  | assess (renewBefore : String) (now : Instant) (r : Except Error Assessment)
  | load (r : Except Error PemMaterial)
  | backup (r : Except Error Backup)
  | install (m : PemMaterial) (r : Except Error Nat)
  | hook (h : Hook) (r : Except Error (Option InstructionOutput))

namespace Deed

def stage : Deed → Stage
  | assess .. => .assess
  | load _ => .load
  | backup _ => .backup
  | install .. => .install
  | hook .afterInstall _ => .afterInstall
  | hook .validation _ => .validate

def error? : Deed → Option Error
  | assess _ _ (.error e) => some e
  | load (.error e) => some e
  | backup (.error e) => some e
  | install _ (.error e) => some e
  | hook _ (.error e) => some e
  | _ => none

/-- Whether another step is to follow: this one has come off, found no bundle that stays, and is not the last. -/
def goesOn : Deed → Bool
  | assess _ _ (.ok a) => a.needsInstall
  | load (.ok _) => true
  | backup (.ok _) => true
  | install _ (.ok _) => true
  | hook .afterInstall (.ok _) => true
  | _ => false

/-- What is told of a step, which is nothing if it has failed. -/
def told : Deed → List Event
  | assess _ _ (.ok a) => .checkComplete a :: if a.needsInstall then [] else [.upToDate]
  | backup (.ok b) => [.backupComplete b, .installStarted]
  | install _ (.ok n) => [.installComplete n]
  | hook h (.ok (some o)) => [.hookComplete h o]
  | hook h (.ok none) => [.hookSkipped h]
  | _ => []

/-- The error of a cycle whose last step this is: that of the step, or that a validation says no. -/
def ending : Deed → Option Error
  | hook .validation (.ok (some o)) =>
    if Text.trim o.stdout = "1" then some (.hook (.validationFailed o.stdout)) else none
  | d => d.error?

end Deed

section
variable {σ α : Type}

/-- The installer or the loader leads from the world `w` to `w'` by this step, and this is what comes of it. -/
def Deed.Leads (i : Installer σ) (load : Effect σ PemMaterial) (w w' : σ) : Deed → Prop
  | .assess renewBefore now r => i.assess renewBefore now w = (r, w')
  | .load r => load w = (r, w')
  | .backup r => i.backup w = (r, w')
  | .install m r => i.install m w = (r, w')
  | .hook .afterInstall r => i.afterInstall w = (r, w')
  | .hook .validation r => i.validate w = (r, w')

/-- The steps lead from one world to another, each going on from where the one before has left off. -/
inductive Proceeds (i : Installer σ) (load : Effect σ PemMaterial) : σ → List Deed → σ → Prop
  | nil (w : σ) : Proceeds i load w [] w
  | cons {w w' w'' : σ} {d : Deed} {deeds : List Deed} (h : d.Leads i load w w')
      (rest : Proceeds i load w' deeds w'') : Proceeds i load w (d :: deeds) w''

/-- `a` in a world that keeps a record. -/
def recording (f : Except Error α → Deed) (a : Effect σ α) : Effect (σ × List Deed) α := fun w =>
  let (r, w') := a.run w.1
  (r, (w', w.2 ++ [f r]))

/-- An installer all of whose steps are recorded. -/
def Installer.recorded (i : Installer σ) : Installer (σ × List Deed) where
  target := i.target
  assess renewBefore now := recording (.assess renewBefore now) (i.assess renewBefore now)
  backup := recording .backup i.backup
  install m := recording (.install m) (i.install m)
  afterInstall := recording (.hook .afterInstall) i.afterInstall
  validate := recording (.hook .validation) i.validate

end

/-! ## What events tell -/

namespace Event

def check? : Event → Option Assessment
  | checkComplete a => some a
  | _ => none

def backup? : Event → Option Backup
  | backupComplete b => some b
  | _ => none

def bytes? : Event → Option Nat
  | installComplete n => some n
  | _ => none

def output? (h : Hook) : Event → Option InstructionOutput
  | hookComplete h' o => if h' = h then some o else none
  | _ => none

end Event

/-- The report that tells what `events` have told, and nothing else. -/
def Report.ofEvents (target : String) (events : List Event) : Report where
  target
  action := if (events.findSome? Event.bytes?).isSome then .installed else .skipped
  check := events.findSome? Event.check?
  backup := events.findSome? Event.backup?
  bundleBytes := events.findSome? Event.bytes?
  afterInstall := events.findSome? (Event.output? .afterInstall)
  validation := events.findSome? (Event.output? .validation)

/-- The stages of a cycle in their order. A forced one does not assess. -/
def stages (forced : Bool) : List Stage :=
  (if forced then [] else [.assess]) ++ [.load, .backup, .install, .afterInstall, .validate]

/-- How a cycle goes from one world to another: what is asked for, what is told, and what comes out. -/
structure Protocol {σ : Type} (i : Installer σ) (load : Effect σ PemMaterial) (o : Options) (w w' : σ)
    (deeds : List Deed) (events : List Event) (r : Except Error Report) : Prop where
  /-- Nothing but these steps changes the world. -/
  proceeds : Proceeds i load w deeds w'
  /-- The stages are passed in order, each once and none left out. -/
  order : deeds.map Deed.stage <+: stages o.force
  begins : deeds ≠ []
  /-- A step follows exactly if all before it have come off and one is to follow. -/
  follows : ∀ before d after, deeds = before ++ d :: after → (after ≠ [] ↔ d.goesOn = true)
  /-- The threshold and the instant of the options are assessed. -/
  assessed : ∀ renewBefore now r, .assess renewBefore now r ∈ deeds → renewBefore = o.renewBefore ∧ now = o.now
  /-- What has been loaded is installed. -/
  installed : ∀ m r, .install m r ∈ deeds → .load (.ok m) ∈ deeds
  /-- Of every step that has come off is told what came of it, in order. -/
  told : events = (if o.force then .checkBypassed else .checkStarted) :: deeds.flatMap Deed.told
  /-- A cycle succeeds if it finds a bundle that stays, or passes all stages and the validation does not say no. -/
  ok_iff : (∃ report, r = .ok report) ↔ .upToDate ∈ events ∨
    ∃ v, .hook .validation (.ok v) ∈ deeds ∧ ∀ out, v = some out → Text.trim out.stdout ≠ "1"
  report : ∀ report, r = .ok report → report = Report.ofEvents i.target events
  /-- A cycle fails with the error of the step that has failed, or because the validation says no. -/
  error_iff : ∀ e, r = .error e ↔ (∃ d ∈ deeds, d.error? = some e) ∨
    ∃ out, .hook .validation (.ok (some out)) ∈ deeds ∧ Text.trim out.stdout = "1" ∧
      e = .hook (.validationFailed out.stdout)

/-! ## Courses -/

namespace Stage

def next? : Stage → Option Stage
  | assess => some load
  | load => some backup
  | backup => some install
  | install => some afterInstall
  | afterInstall => some validate
  | validate => none

/-- The stage and all after it. -/
def onward : Stage → List Stage
  | assess => [assess, load, backup, install, afterInstall, validate]
  | load => [load, backup, install, afterInstall, validate]
  | backup => [backup, install, afterInstall, validate]
  | install => [install, afterInstall, validate]
  | afterInstall => [afterInstall, validate]
  | validate => [validate]

theorem onward_of_next? {s s' : Stage} (h : s.next? = some s') : s.onward = s :: s'.onward := by
  cases s <;> cases h <;> rfl

theorem onward_eq (s : Stage) : ∃ rest, s.onward = s :: rest := by
  cases s <;> exact ⟨_, rfl⟩

end Stage

/-- The deeds of a cycle from a stage on, and the error that they end in. -/
inductive Course : Stage → List Deed → Option Error → Prop
  | last {d : Deed} (h : d.goesOn = false) : Course d.stage [d] d.ending
  | step {d : Deed} {s : Stage} {deeds : List Deed} {e : Option Error} (h : d.goesOn = true)
      (hs : d.stage.next? = some s) (rest : Course s deeds e) : Course d.stage (d :: deeds) e

/-- Where a step follows there is no error, no bundle that stays and no verdict yet. -/
theorem Deed.of_goesOn {d : Deed} (h : d.goesOn = true) :
    d.error? = none ∧ .upToDate ∉ d.told ∧ ∀ v, d ≠ .hook .validation v := by
  cases d with
  | assess renewBefore now r =>
    cases r with
    | error e => cases h
    | ok a =>
      have ha : a.needsInstall = true := h
      exact ⟨rfl, by simp [told, ha], nofun⟩
  | load r =>
    cases r with
    | error e => cases h
    | ok m => exact ⟨rfl, by simp [told], nofun⟩
  | backup r =>
    cases r with
    | error e => cases h
    | ok b => exact ⟨rfl, by simp [told], nofun⟩
  | install m r =>
    cases r with
    | error e => cases h
    | ok n => exact ⟨rfl, by simp [told], nofun⟩
  | hook k r =>
    cases k with
    | validation => cases r <;> cases h
    | afterInstall =>
      cases r with
      | error e => cases h
      | ok v => exact ⟨rfl, by cases v <;> simp [told], nofun⟩

section
variable {s : Stage} {deeds : List Deed} {e : Option Error}

theorem Course.ne_nil (h : Course s deeds e) : deeds ≠ [] := by
  cases h with
  | last h => exact List.cons_ne_nil _ _
  | step h hs rest => exact List.cons_ne_nil _ _

theorem Course.order (h : Course s deeds e) : deeds.map Deed.stage <+: s.onward := by
  induction h with
  | @last d h =>
    obtain ⟨rest, hrest⟩ := d.stage.onward_eq
    rw [hrest, List.map_singleton]
    exact List.prefix_append [d.stage] rest
  | step h hs rest ih =>
    rw [Stage.onward_of_next? hs, List.map_cons, List.cons_prefix_cons]
    exact ⟨rfl, ih⟩

theorem Course.follows (h : Course s deeds e) :
    ∀ before d after, deeds = before ++ d :: after → (after ≠ [] ↔ d.goesOn = true) := by
  induction h with
  | last h =>
    intro before d after heq
    cases before with
    | nil =>
      obtain ⟨rfl, rfl⟩ := List.cons.inj heq
      simp [h]
    | cons b before => simp at heq
  | step h hs rest ih =>
    intro before d after heq
    cases before with
    | nil =>
      obtain ⟨rfl, rfl⟩ := List.cons.inj heq
      exact ⟨fun _ => h, fun _ => rest.ne_nil⟩
    | cons b before => exact ih before d after (List.cons.inj heq).2

/-- A course ends in the error of its only step that has failed, or in the verdict of the validation. -/
theorem Course.error_iff (h : Course s deeds e) (x : Error) :
    e = some x ↔ (∃ d ∈ deeds, d.error? = some x) ∨
      ∃ out, .hook .validation (.ok (some out)) ∈ deeds ∧ Text.trim out.stdout = "1" ∧
        x = .hook (.validationFailed out.stdout) := by
  induction h with
  | @last d h =>
    simp only [List.mem_singleton, exists_eq_left]
    unfold Deed.ending
    split
    · next o =>
      by_cases ho : Text.trim o.stdout = "1"
      · simp [Deed.error?, ho, eq_comm]
      · simp [Deed.error?, ho]
    · next hd =>
      refine (or_iff_left ?_).symm
      rintro ⟨out, hout, -⟩
      exact hd out hout.symm
  | @step d s deeds e h hs rest ih =>
    obtain ⟨herror, -, hhook⟩ := Deed.of_goesOn h
    have hmem : ∀ v, .hook .validation v ∈ d :: deeds ↔ .hook .validation v ∈ deeds := fun v =>
      List.mem_cons.trans (or_iff_right fun heq => hhook v heq.symm)
    rw [ih]
    simp only [hmem, List.mem_cons, exists_eq_or_imp, herror, reduceCtorEq, false_or]

/-- A course ends well if it finds a bundle that stays, or comes to a validation that does not say no. -/
theorem Course.ok_iff (h : Course s deeds e) :
    e = none ↔ .upToDate ∈ deeds.flatMap Deed.told ∨
      ∃ v, .hook .validation (.ok v) ∈ deeds ∧ ∀ out, v = some out → Text.trim out.stdout ≠ "1" := by
  induction h with
  | @last d h =>
    simp only [List.mem_singleton, List.flatMap_singleton]
    cases d with
    | assess renewBefore now r =>
      cases r with
      | error e => simp [Deed.ending, Deed.error?, Deed.told]
      | ok a =>
        have ha : a.needsInstall = false := h
        simp [Deed.ending, Deed.error?, Deed.told, ha]
    | load r =>
      cases r with
      | error e => simp [Deed.ending, Deed.error?, Deed.told]
      | ok m => cases h
    | backup r =>
      cases r with
      | error e => simp [Deed.ending, Deed.error?, Deed.told]
      | ok b => cases h
    | install m r =>
      cases r with
      | error e => simp [Deed.ending, Deed.error?, Deed.told]
      | ok n => cases h
    | hook k r =>
      cases r with
      | error e => simp [Deed.ending, Deed.error?, Deed.told]
      | ok v =>
        cases k with
        | afterInstall => cases h
        | validation =>
          cases v with
          | none => simp [Deed.ending, Deed.error?]
          | some o => simp [Deed.ending, Deed.told]
  | @step d s deeds e h hs rest ih =>
    obtain ⟨-, htold, hhook⟩ := Deed.of_goesOn h
    have hmem : ∀ v, .hook .validation v ∈ d :: deeds ↔ .hook .validation v ∈ deeds := fun v =>
      List.mem_cons.trans (or_iff_right fun heq => hhook v heq.symm)
    rw [ih]
    simp only [hmem, List.flatMap_cons, List.mem_append, htold, false_or]

end

/-! ## Runs with a record -/

/-- Between two moments of a cycle these deeds are done and recorded, and these events told. -/
structure Added {σ : Type} (i : Installer σ) (load : Effect σ PemMaterial) (p p' : Progress (σ × List Deed))
    (deeds : List Deed) (events : List Event) : Prop where
  proceeds : Proceeds i load p.world.1 deeds p'.world.1
  deeds : p'.world.2 = p.world.2 ++ deeds
  events : p'.events = p.events ++ events

theorem Proceeds.append {σ : Type} {i : Installer σ} {load : Effect σ PemMaterial} {w w' w'' : σ}
    {deeds deeds' : List Deed} (h : Proceeds i load w deeds w') (h' : Proceeds i load w' deeds' w'') :
    Proceeds i load w (deeds ++ deeds') w'' := by
  induction h with
  | nil w => exact h'
  | cons hd rest ih => exact .cons hd (ih h')

section
variable {σ α : Type} {i : Installer σ} {load : Effect σ PemMaterial} {o : Options}
variable {p p' p'' : Progress (σ × List Deed)}

theorem Added.trans {deeds deeds' : List Deed} {events events' : List Event} (h : Added i load p p' deeds events)
    (h' : Added i load p' p'' deeds' events') : Added i load p p'' (deeds ++ deeds') (events ++ events') :=
  ⟨h.proceeds.append h'.proceeds, by rw [h'.deeds, h.deeds, List.append_assoc],
    by rw [h'.events, h.events, List.append_assoc]⟩

theorem added_perform {f : Except Error α → Deed} {a : Effect σ α} {r : Except Error α}
    (h : perform (recording f a) p = (r, p')) (hf : ∀ w, (f (a w).1).Leads i load w (a w).2) :
    Added i load p p' [f r] [] := by
  rw [perform_apply] at h
  obtain ⟨rfl, rfl⟩ := Prod.mk.inj h
  exact ⟨.cons (hf _) (.nil _), rfl, (List.append_nil _).symm⟩

theorem added_tell {e : Event} {r : Except Error Unit} (h : tell e p = (r, p')) : Added i load p p' [] [e] := by
  obtain ⟨-, rfl⟩ := Prod.mk.inj (h.symm.trans (tell_apply e p))
  exact ⟨.nil _, (List.append_nil _).symm, rfl⟩

/-- Of a hook is told what came of it. -/
theorem added_runHook {k : Hook} {a : Effect σ (Option InstructionOutput)}
    {r : Except Error (Option InstructionOutput)} (h : runHook k (recording (.hook k) a) p = (r, p'))
    (hk : ∀ w, (Deed.hook k (a w).1).Leads i load w (a w).2) :
    Added i load p p' [.hook k r] (Deed.hook k r).told := by
  cases bind_apply_eq h with
  | inl hfails =>
    obtain ⟨e, hperform, rfl⟩ := hfails
    exact added_perform hperform hk
  | inr hruns =>
    obtain ⟨v, p₁, hperform, hrest⟩ := hruns
    obtain ⟨u, p₂, htell, hv⟩ := (bind_apply_eq hrest).resolve_left (by rintro ⟨e, he, -⟩; cases he)
    obtain ⟨rfl, rfl⟩ := Prod.mk.inj hv
    have hadded := (added_perform hperform hk).trans (added_tell htell)
    cases v with
    | none => exact hadded
    | some out => exact hadded

theorem validationPassed_eq_some_false {out : InstructionOutput} :
    out.validationPassed = some false ↔ Text.trim out.stdout = "1" := by
  unfold InstructionOutput.validationPassed
  split
  · next h => simp [h]
  · next h => simp [h]
  · next h => exact ⟨nofun, fun hout => absurd hout h⟩

theorem judge_apply (v : Option InstructionOutput) (p : Progress σ) :
    judge v p = ((Deed.hook .validation (.ok v)).ending.elim (.ok ()) .error, p) := by
  cases v with
  | none => rfl
  | some out =>
    unfold judge Deed.ending
    dsimp only
    by_cases h : Text.trim out.stdout = "1"
    · rw [if_pos (validationPassed_eq_some_false.mpr h), if_pos h]
      rfl
    · rw [if_neg (mt validationPassed_eq_some_false.mp h), if_neg h]
      rfl

/-- The hooks after an installation, the second only if the first has come off. -/
theorem hooks_course {r : Except Error Report} {f : Option InstructionOutput → Option InstructionOutput → Report}
    (h : (do
      let afterInstall ← runHook .afterInstall i.recorded.afterInstall
      let validation ← runHook .validation i.recorded.validate
      judge validation
      return f afterInstall validation : Cycle (σ × List Deed) Report) p = (r, p')) :
    ∃ deeds e, Course .afterInstall deeds e ∧ Added i load p p' deeds (deeds.flatMap Deed.told) ∧
      (∀ d ∈ deeds, ∃ k v, d = .hook k v) ∧
      r = e.elim (.ok (f ((deeds.flatMap Deed.told).findSome? (Event.output? .afterInstall))
        ((deeds.flatMap Deed.told).findSome? (Event.output? .validation)))) .error := by
  cases bind_apply_eq h with
  | inl hfails =>
    obtain ⟨e, hhook, rfl⟩ := hfails
    exact ⟨_, _, .last (d := .hook .afterInstall (.error e)) rfl, added_runHook hhook fun _ => rfl, by simp, rfl⟩
  | inr hruns =>
    obtain ⟨a, p₁, hhook, h⟩ := hruns
    have hfirst : Added i load p p₁ [.hook .afterInstall (.ok a)] _ := added_runHook hhook fun _ => rfl
    cases bind_apply_eq h with
    | inl hfails =>
      obtain ⟨e, hhook, rfl⟩ := hfails
      refine ⟨_, _, .step (d := .hook .afterInstall (.ok a)) rfl rfl (.last (d := .hook .validation (.error e)) rfl),
        ?_, by simp, rfl⟩
      simpa using hfirst.trans (added_runHook hhook fun _ => rfl)
    | inr hruns =>
      obtain ⟨v, p₂, hhook, h⟩ := hruns
      have hboth := hfirst.trans (added_runHook hhook fun _ => rfl)
      rw [bind_apply, judge_apply] at h
      refine ⟨_, _, .step (d := .hook .afterInstall (.ok a)) rfl rfl (.last (d := .hook .validation (.ok v)) rfl),
        ?_, by simp, ?_⟩
      · cases hend : (Deed.hook .validation (.ok v)).ending with
        | some e =>
          rw [hend] at h
          obtain ⟨-, rfl⟩ := Prod.mk.inj h
          simpa using hboth
        | none =>
          rw [hend] at h
          obtain ⟨-, rfl⟩ := Prod.mk.inj h
          simpa using hboth
      · cases hend : (Deed.hook .validation (.ok v)).ending with
        | some e =>
          rw [hend] at h
          exact (Prod.mk.inj h).1.symm
        | none =>
          rw [hend] at h
          rw [← (Prod.mk.inj h).1]
          cases a <;> cases v <;> rfl

theorem findSome?_check? {deeds : List Deed} (h : ∀ renewBefore now r, .assess renewBefore now r ∉ deeds) :
    (deeds.flatMap Deed.told).findSome? Event.check? = none := by
  rw [List.findSome?_eq_none_iff]
  intro e he
  obtain ⟨d, hd, hed⟩ := List.mem_flatMap.mp he
  cases e with
  | checkComplete a =>
    cases d with
    | assess renewBefore now r => exact absurd hd (h renewBefore now r)
    | load r => cases r <;> simp [Deed.told] at hed
    | backup r => cases r <;> simp [Deed.told] at hed
    | install m r => cases r <;> simp [Deed.told] at hed
    | hook k r =>
      cases r with
      | error e => simp [Deed.told] at hed
      | ok v => cases v <;> simp [Deed.told] at hed
  | _ => rfl

/-- A replacement from the loader on. -/
theorem replace_course {checked : Option Assessment} {r : Except Error Report}
    (h : replace i.recorded (recording .load load) checked p = (r, p')) :
    ∃ deeds e, Course .load deeds e ∧ Added i load p p' deeds (deeds.flatMap Deed.told) ∧
      (∀ renewBefore now r, .assess renewBefore now r ∉ deeds) ∧ (∀ m r, .install m r ∈ deeds → .load (.ok m) ∈ deeds) ∧
      r = e.elim (.ok { Report.ofEvents i.target (deeds.flatMap Deed.told) with check := checked }) .error := by
  cases bind_apply_eq h with
  | inl hfails =>
    obtain ⟨e, hload, rfl⟩ := hfails
    exact ⟨_, _, .last (d := .load (.error e)) rfl, added_perform hload fun _ => rfl, by simp, by simp, rfl⟩
  | inr hruns =>
  obtain ⟨m, p₁, hload, h⟩ := hruns
  have hloaded : Added i load p p₁ [.load (.ok m)] [] := added_perform hload fun _ => rfl
  cases bind_apply_eq h with
  | inl hfails =>
    obtain ⟨e, hbackup, rfl⟩ := hfails
    refine ⟨_, _, .step (d := .load (.ok m)) rfl rfl (.last (d := .backup (.error e)) rfl), ?_, by simp, by simp, rfl⟩
    exact hloaded.trans (added_perform hbackup fun _ => rfl)
  | inr hruns =>
  obtain ⟨b, p₂, hbackup, h⟩ := hruns
  obtain ⟨u, p₃, hcomplete, h⟩ := (bind_apply_eq h).resolve_left (by rintro ⟨e, he, -⟩; cases he)
  obtain ⟨u, p₄, hstarted, h⟩ := (bind_apply_eq h).resolve_left (by rintro ⟨e, he, -⟩; cases he)
  have hbacked := (hloaded.trans (added_perform hbackup fun _ => rfl)).trans
    ((added_tell hcomplete).trans (added_tell hstarted))
  cases bind_apply_eq h with
  | inl hfails =>
    obtain ⟨e, hinstall, rfl⟩ := hfails
    refine ⟨_, _, .step (d := .load (.ok m)) rfl rfl (.step (d := .backup (.ok b)) rfl rfl
      (.last (d := .install m (.error e)) rfl)), ?_, by simp, by simp, rfl⟩
    exact hbacked.trans (added_perform hinstall fun _ => rfl)
  | inr hruns =>
  obtain ⟨n, p₅, hinstall, h⟩ := hruns
  obtain ⟨u, p₆, hinstalled, h⟩ := (bind_apply_eq h).resolve_left (by rintro ⟨e, he, -⟩; cases he)
  have hput := hbacked.trans ((added_perform hinstall fun _ => rfl).trans (added_tell hinstalled))
  obtain ⟨deeds, e, hcourse, hadded, hhooks, rfl⟩ := hooks_course h
  refine ⟨_, e, .step (d := .load (.ok m)) rfl rfl (.step (d := .backup (.ok b)) rfl rfl
    (.step (d := .install m (.ok n)) rfl rfl hcourse)), ?_, ?_, ?_, rfl⟩
  · simpa [Deed.told] using hput.trans hadded
  · intro renewBefore now r hmem
    simp only [List.mem_cons, reduceCtorEq, false_or] at hmem
    obtain ⟨k, v, hd⟩ := hhooks _ hmem
    cases hd
  · intro m' r hmem
    simp only [List.mem_cons, reduceCtorEq, false_or] at hmem
    cases hmem with
    | inl heq =>
      obtain ⟨rfl, -⟩ := Deed.install.inj heq
      exact List.mem_cons_self
    | inr hmem =>
      obtain ⟨k, v, hd⟩ := hhooks _ hmem
      cases hd

/-- A cycle from its first stage on. -/
theorem runCycle_course {r : Except Error Report}
    (h : runCycle i.recorded (recording .load load) o p = (r, p')) :
    ∃ deeds e, Course (if o.force then .load else .assess) deeds e ∧
      Added i load p p' deeds ((if o.force then .checkBypassed else .checkStarted) :: deeds.flatMap Deed.told) ∧
      (∀ renewBefore now r, .assess renewBefore now r ∈ deeds → renewBefore = o.renewBefore ∧ now = o.now) ∧
      (∀ m r, .install m r ∈ deeds → .load (.ok m) ∈ deeds) ∧
      r = e.elim (.ok (Report.ofEvents i.target ((if o.force then .checkBypassed else .checkStarted) ::
        deeds.flatMap Deed.told))) .error := by
  by_cases hforce : o.force = true
  · simp only [hforce, if_true]
    have hcheck : check i.recorded o p = (.ok none, { p with events := p.events ++ [.checkBypassed] }) := by
      rw [check, if_pos hforce, bind_apply, tell_apply]
      rfl
    rw [runCycle, bind_apply, hcheck] at h
    obtain ⟨deeds, e, hcourse, hadded, hassess, hinstall, rfl⟩ := replace_course h
    refine ⟨deeds, e, hcourse, ⟨hadded.proceeds, hadded.deeds, ?_⟩, fun b n r hmem => absurd hmem (hassess b n r),
      hinstall, ?_⟩
    · rw [hadded.events, List.append_assoc]
      rfl
    · rw [← findSome?_check? hassess]
      rfl
  · simp only [hforce, Bool.false_eq_true, if_false]
    have hstart : check i.recorded o p = (do
        let a ← perform (i.recorded.assess o.renewBefore o.now)
        tell (.checkComplete a)
        return some a : Cycle (σ × List Deed) (Option Assessment))
          { p with events := p.events ++ [.checkStarted] } := by
      rw [check, if_neg hforce, bind_apply, tell_apply]
    cases bind_apply_eq h with
    | inl hfails =>
      obtain ⟨e, hcheck, rfl⟩ := hfails
      rw [hstart] at hcheck
      obtain ⟨e', hassess, he⟩ := (bind_apply_eq hcheck).resolve_right (by rintro ⟨a, p₁, -, hrest⟩; cases hrest)
      cases he
      have hadded : Added i load ⟨p.world, _⟩ p' [.assess o.renewBefore o.now (.error e)] [] :=
        added_perform hassess fun _ => rfl
      refine ⟨_, _, .last (d := .assess o.renewBefore o.now (.error e)) rfl, ⟨hadded.proceeds, hadded.deeds, ?_⟩, ?_,
        by simp, rfl⟩
      · rw [hadded.events, List.append_assoc]
        rfl
      · intro renewBefore now r hmem
        cases List.mem_singleton.mp hmem
        exact ⟨rfl, rfl⟩
    | inr hruns =>
      obtain ⟨checked, p₁, hcheck, h⟩ := hruns
      rw [hstart] at hcheck
      obtain ⟨a, p₂, hassess, hrest⟩ := (bind_apply_eq hcheck).resolve_left (by rintro ⟨e, -, he⟩; cases he)
      have hassessed : Added i load ⟨p.world, _⟩ p₂ [.assess o.renewBefore o.now (.ok a)] [] :=
        added_perform hassess fun _ => rfl
      have hadded := hassessed.trans (added_tell (e := .checkComplete a) rfl)
      obtain ⟨hchecked, rfl⟩ := Prod.mk.inj hrest
      obtain rfl := Except.ok.inj hchecked
      by_cases ha : a.needsInstall = true
      · rw [Option.all_some, if_pos ha] at h
        obtain ⟨deeds, e, hcourse, hadded', hnone, hinstall, rfl⟩ := replace_course h
        have htold : (Deed.assess o.renewBefore o.now (.ok a)).told = [.checkComplete a] := by simp [Deed.told, ha]
        refine ⟨_, e, .step (d := .assess o.renewBefore o.now (.ok a)) ha rfl hcourse,
          ⟨(hadded.trans hadded').proceeds, ?_, ?_⟩, ?_, ?_, ?_⟩
        · simpa using (hadded.trans hadded').deeds
        · simpa [htold] using (hadded.trans hadded').events
        · intro renewBefore now r hmem
          cases List.mem_cons.mp hmem with
          | inl heq =>
            cases heq
            exact ⟨rfl, rfl⟩
          | inr hmem => exact absurd hmem (hnone _ _ _)
        · simpa using hinstall
        · rw [List.flatMap_cons, htold]
          rfl
      · rw [Option.all_some, if_neg ha, bind_apply, tell_apply] at h
        obtain ⟨rfl, rfl⟩ := Prod.mk.inj h
        have htold : (Deed.assess o.renewBefore o.now (.ok a)).told = [.checkComplete a, .upToDate] := by
          simp [Deed.told, ha]
        refine ⟨_, _, .last (d := .assess o.renewBefore o.now (.ok a)) (by simpa [Deed.goesOn] using ha),
          ⟨hadded.proceeds, hadded.deeds, ?_⟩, ?_, by simp, ?_⟩
        · simpa [htold] using congrArg (· ++ [.upToDate]) hadded.events
        · intro renewBefore now r hmem
          cases List.mem_singleton.mp hmem
          exact ⟨rfl, rfl⟩
        · rw [List.flatMap_singleton, htold]
          rfl

end

/-! ## Runs without a record -/

/-- The moment of a cycle without the record. -/
def Progress.plain {σ : Type} (p : Progress (σ × List Deed)) : Progress σ := ⟨p.world.1, p.events⟩

/-- `c'` does what `c` does, but for the record. -/
def Erases {σ α : Type} (c : Cycle (σ × List Deed) α) (c' : Cycle σ α) : Prop :=
  ∀ p, c' p.plain = ((c p).1, (c p).2.plain)

section
variable {σ α β : Type}

theorem erases_pure (a : α) : Erases (σ := σ) (pure a) (pure a) := fun _ => rfl

theorem erases_tell (e : Event) : Erases (σ := σ) (tell e) (tell e) := fun _ => rfl

theorem erases_perform (f : Except Error α → Deed) (a : Effect σ α) :
    Erases (perform (recording f a)) (perform a) := fun _ => rfl

theorem Erases.bind {c : Cycle (σ × List Deed) α} {c' : Cycle σ α} {f : α → Cycle (σ × List Deed) β}
    {f' : α → Cycle σ β} (h : Erases c c') (hf : ∀ a, Erases (f a) (f' a)) : Erases (c >>= f) (c' >>= f') := by
  intro p
  rw [bind_apply, bind_apply, h p]
  rcases c p with ⟨r, p'⟩
  cases r with
  | error e => rfl
  | ok a => exact hf a p'

theorem erases_runHook (k : Hook) (a : Effect σ (Option InstructionOutput)) :
    Erases (runHook k (recording (.hook k) a)) (runHook k a) :=
  (erases_perform _ a).bind fun v => (erases_tell _).bind fun _ => erases_pure v

theorem erases_judge (v : Option InstructionOutput) : Erases (σ := σ) (judge v) (judge v) := by
  intro p
  rw [judge_apply, judge_apply]

theorem erases_check (i : Installer σ) (o : Options) : Erases (check i.recorded o) (check i o) := by
  unfold check
  split
  · exact (erases_tell _).bind fun _ => erases_pure none
  · exact (erases_tell _).bind fun _ => (erases_perform _ _).bind fun a => (erases_tell _).bind fun _ => erases_pure _

theorem erases_replace (i : Installer σ) (load : Effect σ PemMaterial) (checked : Option Assessment) :
    Erases (replace i.recorded (recording .load load) checked) (replace i load checked) :=
  (erases_perform _ load).bind fun m => (erases_perform _ i.backup).bind fun _ => (erases_tell _).bind fun _ =>
    (erases_tell _).bind fun _ => (erases_perform _ (i.install m)).bind fun _ => (erases_tell _).bind fun _ =>
      (erases_runHook _ i.afterInstall).bind fun _ => (erases_runHook _ i.validate).bind fun v =>
        (erases_judge v).bind fun _ => erases_pure _

theorem erases_runCycle (i : Installer σ) (load : Effect σ PemMaterial) (o : Options) :
    Erases (runCycle i.recorded (recording .load load) o) (runCycle i load o) := by
  refine (erases_check i o).bind fun checked => ?_
  split
  · exact erases_replace i load checked
  · exact (erases_tell _).bind fun _ => erases_pure _

theorem onward_eq_stages (forced : Bool) :
    (if forced then Stage.load else Stage.assess).onward = stages forced := by
  cases forced <;> rfl

/-- Every cycle follows the protocol, whatever its installer and its loader do and whatever its options are: its record
is a course through the stages, its events are told of what has come off, and report and error are those of the record.
Keeping the record makes no difference. -/
theorem runCycle_protocol (i : Installer σ) (load : Effect σ PemMaterial) (o : Options) (w : σ) :
    ∃ r w' deeds events, runCycle i.recorded (recording .load load) o ⟨(w, []), []⟩ = (r, ⟨(w', deeds), events⟩) ∧
      runCycle i load o ⟨w, []⟩ = (r, ⟨w', events⟩) ∧ Protocol i load o w w' deeds events r := by
  rcases hrun : runCycle i.recorded (recording .load load) o ⟨(w, []), []⟩ with ⟨r, ⟨w', deeds⟩, events⟩
  have hplain := erases_runCycle i load o ⟨(w, []), []⟩
  rw [hrun] at hplain
  refine ⟨r, w', deeds, events, rfl, hplain, ?_⟩
  obtain ⟨deeds', e, hcourse, hadded, hassessed, hinstalled, hr⟩ := runCycle_course hrun
  obtain rfl : deeds = deeds' := hadded.deeds.trans (List.nil_append _)
  have hevents : events = (if o.force then .checkBypassed else .checkStarted) :: deeds.flatMap Deed.told :=
    hadded.events.trans (List.nil_append _)
  rw [← hevents] at hr
  refine ⟨hadded.proceeds, onward_eq_stages o.force ▸ hcourse.order, hcourse.ne_nil, hcourse.follows, hassessed,
    hinstalled, hevents, ?_, ?_, ?_⟩
  · have hupToDate : .upToDate ∈ events ↔ .upToDate ∈ deeds.flatMap Deed.told := by
      rw [hevents, List.mem_cons]
      refine or_iff_right ?_
      cases o.force <;> simp
    rw [hupToDate, ← hcourse.ok_iff, hr]
    cases e <;> simp
  · intro report hreport
    rw [hr] at hreport
    cases e with
    | none => exact (Except.ok.inj hreport).symm
    | some x => cases hreport
  · intro x
    rw [← hcourse.error_iff x, hr]
    cases e <;> simp

end
end CertRotation.Rotation
