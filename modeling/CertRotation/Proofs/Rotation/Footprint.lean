import CertRotation.Proofs.Files.Entries
import CertRotation.Proofs.Rotation.Completion
import CertRotation.Proofs.Rotation.Installed
import CertRotation.Proofs.Rotation.Protocol
import CertRotation.Proofs.Rotation.Safety

/-!
# The footprint of a cycle

Of all that is asked for in a cycle only the backup and the installation change files, each at one entry, and only if
they come off: a new file that cannot be put in place is removed, which leaves the tree as it was. What a whole cycle
leaves behind follows from which of the two its record has and what came of them.
-/
namespace CertRotation.Rotation

/-! ## Records of cycles -/

/-- Whether this is a step that may change files. -/
def Deed.acts : Deed → Bool
  | .backup _ => true
  | .install .. => true
  | _ => false

theorem Deed.acts_eq_true {d : Deed} : d.acts = true ↔ d.stage = .backup ∨ d.stage = .install := by
  cases d with
  | hook k r => cases k <;> simp [acts, stage]
  | _ => simp [acts, stage]

theorem Deed.exists_of_stage_backup {d : Deed} (h : d.stage = .backup) : ∃ r, d = .backup r := by
  cases d with
  | backup r => exact ⟨r, rfl⟩
  | hook k r => cases k <;> cases h
  | _ => cases h

theorem Deed.exists_of_stage_install {d : Deed} (h : d.stage = .install) : ∃ m r, d = .install m r := by
  cases d with
  | install m r => exact ⟨m, r, rfl⟩
  | hook k r => cases k <;> cases h
  | _ => cases h

theorem Deed.acts_of_look {d : Deed} (h : d.stage = .assess ∨ d.stage = .load) : d.acts = false := by
  rw [Bool.eq_false_iff, ne_eq, acts_eq_true]
  cases h with
  | inl h => simp [h]
  | inr h => simp [h]

/-- A course starts with a step of its stage, and goes on from the next stage or not at all. -/
theorem Course.uncons {s : Stage} {deeds : List Deed} {e : Option Error} (h : Course s deeds e) :
    ∃ d rest, deeds = d :: rest ∧ d.stage = s ∧
      (d.goesOn = false ∧ rest = [] ∨ d.goesOn = true ∧ ∃ s', s.next? = some s' ∧ Course s' rest e) := by
  cases h with
  | @last d h => exact ⟨d, [], rfl, rfl, .inl ⟨h, rfl⟩⟩
  | @step d s' rest _ h hs hrest => exact ⟨d, rest, rfl, rfl, .inr ⟨h, s', hs, hrest⟩⟩

theorem Course.stage_mem {s : Stage} {deeds : List Deed} {e : Option Error} (h : Course s deeds e) :
    ∀ d ∈ deeds, d.stage ∈ s.onward :=
  fun _ hd => h.order.subset (List.mem_map_of_mem hd)

theorem Deed.goesOn_of_error? {d : Deed} (hs : d.stage = .load ∨ d.stage = .backup ∨ d.stage = .install)
    (h : d.error? = none) : d.goesOn = true := by
  cases d with
  | assess renewBefore now r => simp [stage] at hs
  | hook k r => cases k <;> simp [stage] at hs
  | load r => cases r <;> simp_all [goesOn, error?]
  | backup r => cases r <;> simp_all [goesOn, error?]
  | install m r => cases r <;> simp_all [goesOn, error?]

/-- A course that ends well goes on from these stages, since nothing has failed. -/
theorem Course.uncons_ok {s : Stage} {deeds : List Deed} (h : Course s deeds none)
    (hs : s = .load ∨ s = .backup ∨ s = .install) : ∃ d rest s', deeds = d :: rest ∧ d.stage = s ∧
      d.error? = none ∧ s.next? = some s' ∧ Course s' rest none := by
  obtain ⟨d, rest, rfl, rfl, hnext⟩ := h.uncons
  have herror : d.error? = none := by
    cases herror : d.error? with
    | none => rfl
    | some x => cases (h.error_iff x).mpr (.inl ⟨d, List.mem_cons_self, herror⟩)
  obtain ⟨hends, -⟩ | ⟨-, s', hs', hrest⟩ := hnext
  · simp [Deed.goesOn_of_error? hs herror] at hends
  · exact ⟨d, rest, s', rfl, rfl, herror, hs', hrest⟩

theorem Proceeds.leads {σ : Type} {i : Installer σ} {load : Effect σ PemMaterial} {w w' : σ} {deeds : List Deed}
    (h : Proceeds i load w deeds w') {d : Deed} (hd : d ∈ deeds) : ∃ w₁ w₂, d.Leads i load w₁ w₂ := by
  induction h with
  | nil w => cases hd
  | cons hfirst rest ih =>
    cases hd with
    | head => exact ⟨_, _, hfirst⟩
    | tail _ hd => exact ih hd

/-- A course that starts with the loader and ends well has a backup and an installation that have come off. -/
theorem Course.installs {deeds : List Deed} (h : Course .load deeds none) :
    ∃ made m n, .backup (.ok made) ∈ deeds ∧ .install m (.ok n) ∈ deeds := by
  obtain ⟨d, rest, s, rfl, -, -, hs, hbackup⟩ := h.uncons_ok (.inl rfl)
  obtain rfl := Option.some.inj hs
  obtain ⟨d₁, rest₁, s, rfl, hstage, hmade, hs, hinstall⟩ := hbackup.uncons_ok (.inr (.inl rfl))
  obtain rfl := Option.some.inj hs
  obtain ⟨d₂, rest₂, s, rfl, hstage₂, hdone, -⟩ := hinstall.uncons_ok (.inr (.inr rfl))
  obtain ⟨made, rfl⟩ := Deed.exists_of_stage_backup hstage
  obtain ⟨m, n, rfl⟩ := Deed.exists_of_stage_install hstage₂
  cases made with
  | error e => cases hmade
  | ok made =>
    cases n with
    | error e => cases hdone
    | ok n => exact ⟨made, m, n, by simp, by simp⟩

end CertRotation.Rotation

namespace CertRotation.Installation
open Files FileTree Rotation

section
variable {s : Surroundings} {i : Installation} {load : FileTree → Except Error PemMaterial}
variable {t t' : FileTree} {w w' : World} {deeds : List Deed}

/-! ## What a single step changes -/

/-- A backup that is tried on the files `t` leaves the files `t'`. -/
def BacksUp (i : Installation) (t t' : FileTree) : Except Error Backup → Prop
  | .error _ => t' = t
  | .ok .skipped => t' = t ∧ ∀ b m, t.view i.file ≠ .ok (.file b m)
  | .ok (.created path n) => path = Path.backup i.file ∧
    ∃ b m, t.view i.file = .ok (.file b m) ∧ n = b.length ∧ Placed t t' path b m

/-- An installation that is tried on the files `t` leaves the files `t'`. -/
def Renews (i : Installation) (m : PemMaterial) (t t' : FileTree) : Except Error Nat → Prop
  | .error _ => t' = t
  | .ok n => ∃ seeds data, m.package seeds i.password = .ok data ∧ n = data.length ∧
    Placed t t' i.file data privateMode

/-- A step on the files `t` leaves the files `t'`. -/
def Changes (i : Installation) (t t' : FileTree) : Deed → Prop
  | .backup r => i.BacksUp t t' r
  | .install m r => i.Renews m t t' r
  | _ => t' = t

theorem fileExists_eq_true {path : String} :
    t.fileExists path = .ok true ↔ ∃ l b m, t.stat path = .ok (l, .file b m) := by
  unfold FileTree.fileExists
  constructor
  · intro h
    split at h
    · next l b m hstat => exact ⟨l, b, m, hstat⟩
    · cases h
    · cases h
    · cases h
  · rintro ⟨l, b, m, hstat⟩
    rw [hstat]

theorem backup_backsUp {steps : List Step} {r : Except Failure Backup} (h : i.backup t = (steps, r)) :
    i.BacksUp t (after t steps) (r.mapError .files) := by
  rw [backup_apply] at h
  cases hexists : t.fileExists i.file with
  | error e =>
    rw [hexists] at h
    obtain ⟨rfl, rfl⟩ := Prod.mk.inj h
    rfl
  | ok there =>
    rw [hexists] at h
    cases there with
    | false =>
      obtain ⟨rfl, rfl⟩ := Prod.mk.inj h
      refine ⟨rfl, fun b m hview => ?_⟩
      obtain ⟨l, hstat⟩ := view_eq_ok.mp hview
      have htrue := fileExists_eq_true.mpr ⟨l, b, m, hstat⟩
      simp [hexists] at htrue
    | true =>
      obtain ⟨l, b, m, hstat⟩ := fileExists_eq_true.mp hexists
      cases copyFile_cases (Path.backup i.file) hstat with
      | inl hfails =>
        obtain ⟨-, steps', e, hcopy, -⟩ := hfails
        simp only [about, Except.mapError, hcopy] at h
        obtain ⟨rfl, rfl⟩ := Prod.mk.inj h
        exact after_of_copyFile_error hstat hcopy
      | inr hputs =>
        obtain ⟨-, steps', hcopy, hputs⟩ := hputs
        simp only [about, Except.mapError, hcopy] at h
        obtain ⟨rfl, rfl⟩ := Prod.mk.inj h
        exact ⟨rfl, b, m, view_eq_ok.mpr ⟨l, hstat⟩, rfl, hputs.1⟩

theorem install_renews {m : PemMaterial} {r : Except Error Nat} (h : i.install s m w = (r, w')) :
    i.Renews m w.files w'.files r := by
  cases r with
  | ok n =>
    obtain ⟨-, data, steps, hpackage, hwrite, rfl, rfl⟩ := install_eq_ok.mp h
    exact ⟨_, data, hpackage, rfl, placed_of_writeFile hwrite⟩
  | error e =>
    by_cases hp : i.password = ""
    · rw [install, if_pos hp] at h
      obtain ⟨-, rfl⟩ := Prod.mk.inj h
      rfl
    · rw [install_apply hp] at h
      cases hpackage : m.package (s.seeds w.packaged) i.password with
      | error e' =>
        rw [hpackage] at h
        obtain ⟨-, rfl⟩ := Prod.mk.inj h
        rfl
      | ok data =>
        rw [hpackage] at h
        -- only the writing can have failed, as nothing comes after it
        obtain ⟨e', hact, -⟩ := (bind_apply_eq h).resolve_right (by rintro ⟨u, w₁, -, hrest⟩; cases hrest)
        rw [act_apply] at hact
        obtain ⟨hresult, rfl⟩ := Prod.mk.inj hact
        cases hwrite : (writeFile i.file data w.files).2 with
        | ok u =>
          rw [hwrite] at hresult
          cases hresult
        | error e'' =>
          have hrun : writeFile i.file data w.files = ((writeFile i.file data w.files).1, .error e'') :=
            Prod.ext rfl hwrite
          exact after_of_writeFile_error hrun

/-- Assessing and loading only look. -/
theorem eq_of_leads {d : Deed} (hd : d.stage = .assess ∨ d.stage = .load)
    (h : d.Leads (i.installer s) (observe load) w w') : w' = w := by
  cases d with
  | assess renewBefore now r => exact (Prod.mk.inj h).2.symm
  | load r => exact (Prod.mk.inj h).2.symm
  | backup r => simp [Deed.stage] at hd
  | install m r => simp [Deed.stage] at hd
  | hook k r => cases k <;> simp [Deed.stage] at hd

/-- What a step changes, one case for each. -/
theorem changes_of_leads (hq : s.Quiet) {d : Deed} (h : d.Leads (i.installer s) (observe load) w w') :
    i.Changes w.files w'.files d := by
  have hinstruct : ∀ {instruction r}, runInstruction s instruction w = (r, w') → w'.files = w.files := by
    intro instruction r hrun
    have hmoved := runInstruction_moved hq instruction w
    rw [hrun] at hmoved
    exact hmoved.1
  cases d with
  | assess renewBefore now r => exact congrArg World.files (eq_of_leads (.inl rfl) h)
  | load r => exact congrArg World.files (eq_of_leads (.inr rfl) h)
  | backup r =>
    obtain ⟨rfl, rfl⟩ := Prod.mk.inj h
    exact backup_backsUp rfl
  | install m r => exact install_renews h
  | hook k r =>
    cases k with
    | afterInstall => exact hinstruct h
    | validation => exact hinstruct h

/-! ## What a whole cycle changes -/

/-- What becomes of a world in a cycle with this record. -/
inductive Passage (i : Installation) (w w' : World) (deeds : List Deed) : Prop
  | idle (hw : w' = w) (hacts : deeds.filter Deed.acts = [])
  | refused {e : Error} (hfiles : w'.files = w.files)
      (hlooks : ∀ d ∈ deeds, d.stage = .assess ∨ d.stage = .load → d.goesOn = true)
      (hacts : deeds.filter Deed.acts = [.backup (.error e)])
  | tried {b : Backup} {m : PemMaterial} {r : Except Error Nat} {t : FileTree} (hbackup : i.BacksUp w.files t (.ok b))
      (hinstall : i.Renews m t w'.files r)
      (hlooks : ∀ d ∈ deeds, d.stage = .assess ∨ d.stage = .load → d.goesOn = true)
      (hacts : deeds.filter Deed.acts = [.backup (.ok b), .install m r])

/-- Steps that do not act leave the files alone. -/
theorem files_of_proceeds (hq : s.Quiet) (h : Proceeds (i.installer s) (observe load) w deeds w')
    (hacts : ∀ d ∈ deeds, d.acts = false) : w'.files = w.files := by
  induction h with
  | nil w => rfl
  | @cons w w₁ w' d deeds hd rest ih =>
    obtain ⟨hfirst, hrest⟩ := List.forall_mem_cons.mp hacts
    have hchanges := changes_of_leads hq hd
    have hsame : w₁.files = w.files := by
      cases d with
      | backup r => cases hfirst
      | install m r => cases hfirst
      | _ => exact hchanges
    exact (ih hrest).trans hsame

theorem renews_of_course (hq : s.Quiet) {e : Option Error} (hcourse : Course .install deeds e)
    (h : Proceeds (i.installer s) (observe load) w deeds w') :
    ∃ m r, deeds.filter Deed.acts = [.install m r] ∧ i.Renews m w.files w'.files r := by
  obtain ⟨d, hooks, rfl, hstage, hnext⟩ := hcourse.uncons
  obtain ⟨m, r, rfl⟩ := Deed.exists_of_stage_install hstage
  have hhooks : ∀ d ∈ hooks, d.acts = false := by
    cases hnext with
    | inl hlast => simp [hlast.2]
    | inr hgoes =>
      obtain ⟨-, s', hs', hcourse'⟩ := hgoes
      obtain rfl := Option.some.inj hs'
      intro d hd
      have hmem := hcourse'.stage_mem d hd
      rw [Bool.eq_false_iff, ne_eq, Deed.acts_eq_true]
      intro hacts
      cases hacts with
      | inl h => simp [h, Stage.onward] at hmem
      | inr h => simp [h, Stage.onward] at hmem
  cases h with
  | @cons _ w₁ _ _ _ hd hproceeds =>
    refine ⟨m, r, ?_, ?_⟩
    · rw [List.filter_cons_of_pos rfl, List.filter_eq_nil_iff.mpr fun d hd => by simp [hhooks d hd]]
    · rw [files_of_proceeds hq hproceeds hhooks]
      exact changes_of_leads hq hd

theorem passage_of_backup (hq : s.Quiet) {e : Option Error} (hcourse : Course .backup deeds e)
    (h : Proceeds (i.installer s) (observe load) w deeds w') : i.Passage w w' deeds := by
  have hlooks : ∀ d ∈ deeds, d.stage = .assess ∨ d.stage = .load → d.goesOn = true := by
    intro d hd hstage
    have hmem := hcourse.stage_mem d hd
    cases hstage with
    | inl hstage => simp [hstage, Stage.onward] at hmem
    | inr hstage => simp [hstage, Stage.onward] at hmem
  obtain ⟨d, rest, rfl, hstage, hnext⟩ := hcourse.uncons
  obtain ⟨r, rfl⟩ := Deed.exists_of_stage_backup hstage
  cases h with
  | @cons _ w₁ _ _ _ hd hproceeds =>
    have hchanges := changes_of_leads hq hd
    cases r with
    | error x =>
      obtain ⟨-, rfl⟩ := hnext.resolve_right fun hgoes => by cases hgoes.1
      cases hproceeds
      exact .refused hchanges hlooks rfl
    | ok b =>
      obtain ⟨-, s', hs', hcourse'⟩ := hnext.resolve_left fun hlast => by cases hlast.1
      obtain rfl := Option.some.inj hs'
      obtain ⟨m, r, hacts, hrenews⟩ := renews_of_course hq hcourse' hproceeds
      exact .tried hchanges hrenews hlooks ((List.filter_cons_of_pos rfl).trans (congrArg _ hacts))

/-- A step that only looks and has come off makes no difference. -/
theorem Passage.cons {d : Deed} (hd : d.stage = .assess ∨ d.stage = .load) (hgoes : d.goesOn = true)
    (h : i.Passage w w' deeds) : i.Passage w w' (d :: deeds) := by
  have hacts : (d :: deeds).filter Deed.acts = deeds.filter Deed.acts :=
    List.filter_cons_of_neg (by simp [Deed.acts_of_look hd])
  cases h with
  | idle hw h => exact .idle hw (hacts.trans h)
  | refused hfiles hlooks h => exact .refused hfiles (List.forall_mem_cons.mpr ⟨fun _ => hgoes, hlooks⟩) (hacts.trans h)
  | tried hbackup hinstall hlooks h =>
    exact .tried hbackup hinstall (List.forall_mem_cons.mpr ⟨fun _ => hgoes, hlooks⟩) (hacts.trans h)

/-- A stage that only looks comes before the others. -/
theorem passage_of_look {stage next : Stage} {e : Option Error} (hstage : stage = .assess ∨ stage = .load)
    (hs : stage.next? = some next) (hcourse : Course stage deeds e)
    (h : Proceeds (i.installer s) (observe load) w deeds w')
    (hnext : ∀ {rest w}, Course next rest e → Proceeds (i.installer s) (observe load) w rest w' →
      i.Passage w w' rest) : i.Passage w w' deeds := by
  obtain ⟨d, rest, rfl, rfl, hrest⟩ := hcourse.uncons
  cases h with
  | @cons _ w₁ _ _ _ hd hproceeds =>
    obtain rfl := eq_of_leads hstage hd
    cases hrest with
    | inl hlast =>
      obtain ⟨-, rfl⟩ := hlast
      cases hproceeds
      exact .idle rfl (by simp [Deed.acts_of_look hstage])
    | inr hgoes =>
      obtain ⟨hgoes, s', hs', hcourse'⟩ := hgoes
      obtain rfl := Option.some.inj (hs.symm.trans hs')
      exact (hnext hcourse' hproceeds).cons hstage hgoes

theorem passage_of_course (hq : s.Quiet) {o : Options} {e : Option Error}
    (hcourse : Course (if o.force then .load else .assess) deeds e)
    (h : Proceeds (i.installer s) (observe load) w deeds w') : i.Passage w w' deeds := by
  have hload : ∀ {rest w}, Course .load rest e → Proceeds (i.installer s) (observe load) w rest w' →
      i.Passage w w' rest := fun hcourse h =>
    passage_of_look (.inr rfl) rfl hcourse h fun hcourse h => passage_of_backup hq hcourse h
  cases hforce : o.force with
  | true =>
    rw [hforce] at hcourse
    exact hload hcourse h
  | false =>
    rw [hforce] at hcourse
    exact passage_of_look (.inl rfl) rfl hcourse h hload

end

/-! ## The footprint -/

/-- What a cycle leaves behind that goes from the world `w` to `w'` with this record and ends in `r`. -/
structure Footprint (i : Installation) (w w' : World) (deeds : List Deed) (r : Except Error Report) : Prop where
  working : w'.files.working = w.files.working
  /-- No entries but those of target and backup differ; in particular, no new file is left under a temporary name. -/
  elsewhere : ∀ l, ¬ w.files.IsEntry i.file l → ¬ w.files.IsEntry (Path.backup i.file) l →
    w'.files.node? l = w.files.node? l
  /-- A cycle that installs nothing changes nothing at all. -/
  skipped : ∀ report, r = .ok report → report.action = .skipped → w' = w
  /-- Neither does one whose assessment or loader fails. -/
  stopped : (∃ renewBefore now e, .assess renewBefore now (.error e) ∈ deeds) ∨ (∃ e, .load (.error e) ∈ deeds) → w' = w
  /-- A backup that fails leaves the files as they were. -/
  refused : ∀ e, .backup (.error e) ∈ deeds → w'.files = w.files
  /-- An installation that fails leaves the target as it was, unless the backup has cut it off. -/
  failed : ∀ m e, .install m (.error e) ∈ deeds →
    (∀ l, w.files.IsEntry i.file l → w'.files.node? l = w.files.node? l) ∧
    (w.files.NotBeyond i.file (Path.backup i.file) → w'.files.view i.file = w.files.view i.file)
  /-- Once installed, the bundle stays, whatever comes of the hooks. -/
  installed : ∀ m n, .install m (.ok n) ∈ deeds → ∃ seeds data, m.package seeds i.password = .ok data ∧
    n = data.length ∧ w.files.Stands w'.files i.file data privateMode ∧
    (w.files.Direct i.file → w'.files.view i.file = .ok (.file data privateMode))
  /-- So does the backup, whatever comes of the installation. -/
  backedUp : ∀ path n, .backup (.ok (.created path n)) ∈ deeds → path = Path.backup i.file ∧
    ∃ b m, w.files.view i.file = .ok (.file b m) ∧ n = b.length ∧ w.files.Stands w'.files path b m ∧
    (w.files.Direct path → w.files.Direct i.file → w'.files.view path = .ok (.file b m))
  /-- Without a file at the target nothing takes the place of the backup. -/
  unsaved : .backup (.ok .skipped) ∈ deeds → (∀ b m, w.files.view i.file ≠ .ok (.file b m)) ∧
    ∀ l, ¬ w.files.IsEntry i.file l → w'.files.node? l = w.files.node? l

section
variable {s : Surroundings} {i : Installation} {load : FileTree → Except Error PemMaterial}
variable {t t₁ t' : FileTree} {w w' : World} {deeds : List Deed} {r : Except Error Report}

/-- No entry of the target is one of the backup. -/
theorem not_isEntry_backup {t₁ : FileTree} (hslash : Path.endsWithSlash i.file = false) {l : Location}
    (hl : t.IsEntry i.file l) : ¬ t₁.IsEntry (Path.backup i.file) l := by
  obtain ⟨d, name, hentry, rfl⟩ := hl
  intro ⟨d', name', hentry', heq⟩
  exact entry_ne_backup hslash hentry hentry' heq.symm

/-- What is left alone by a backup. -/
structure Spares (i : Installation) (t t₁ : FileTree) : Prop where
  working : t₁.working = t.working
  node : ∀ l, ¬ t.IsEntry (Path.backup i.file) l → t₁.node? l = t.node? l
  target : ∀ l, t.IsEntry i.file l → t₁.node? l = t.node? l
  isEntry : ∀ l, t₁.IsEntry i.file l → t.IsEntry i.file l
  direct : t.Direct i.file → t₁.Direct i.file
  view : t.NotBeyond i.file (Path.backup i.file) → t₁.view i.file = t.view i.file

theorem spares_refl (i : Installation) (t : FileTree) : i.Spares t t :=
  ⟨rfl, fun _ _ => rfl, fun _ _ => rfl, fun _ h => h, fun h => h, fun _ => rfl⟩

theorem BacksUp.spares {r : Except Error Backup} (h : i.BacksUp t t₁ r) : i.Spares t t₁ := by
  cases r with
  | error e =>
    obtain rfl : t₁ = t := h
    exact spares_refl i t₁
  | ok made =>
    cases made with
    | skipped =>
      obtain rfl : t₁ = t := h.1
      exact spares_refl i t₁
    | created path n =>
      obtain ⟨rfl, b, m, hview, -, hplaced⟩ := h
      have hslash := endsWithSlash_of_view hview
      exact ⟨hplaced.working_eq, fun l hl => hplaced.node?_eq hl,
        fun l hl => hplaced.node?_eq (not_isEntry_backup hslash hl), fun l hl => hplaced.isEntry_before hl,
        hplaced.direct, hplaced.view_eq hview⟩

/-- A bundle that is installed after a backup. -/
theorem installed_of_renews {m : PemMaterial} {n : Nat} (hspares : i.Spares t t₁) (h : i.Renews m t₁ t' (.ok n)) :
    ∃ seeds data, m.package seeds i.password = .ok data ∧ n = data.length ∧ t.Stands t' i.file data privateMode ∧
      (t.Direct i.file → t'.view i.file = .ok (.file data privateMode)) := by
  obtain ⟨seeds, data, hpackage, hn, hplaced⟩ := h
  obtain ⟨l, hl, hfile⟩ := hplaced.isEntry
  exact ⟨seeds, data, hpackage, hn, ⟨l, hspares.isEntry l hl, hfile⟩,
    fun hdirect => hplaced.view (hspares.direct hdirect)⟩

/-- A backup is still shown when a bundle has been installed after it. -/
theorem view_backup_of_placed {b c : Bytes} {k j : Nat} (hbackup : Placed t t₁ (Path.backup i.file) b k)
    (hput : Placed t₁ t' i.file c j) (hdirect : t.Direct (Path.backup i.file)) (hfile : t.Direct i.file) :
    t'.view (Path.backup i.file) = .ok (.file b k) := by
  obtain ⟨d, name, hentry, hn⟩ := hbackup.entry hdirect
  obtain ⟨d', name', hentry', hd, -⟩ := hput.place
  obtain ⟨hcheck, -⟩ := entryAt_eq_ok.mp hentry'
  have hway : ∀ q ∈ t₁.directoryTrail (Path.backup i.file), q.1 ≠ d' ++ [name'] := by
    rw [directoryTrail_backup hcheck hput.endsWithSlash]
    exact hbackup.direct hfile d' name' hentry'
  have hsame : t'.entryAt (Path.backup i.file) = t₁.entryAt (Path.backup i.file) :=
    entryAt_congr hd.1 fun q hq => hd.2 q.1 (hway q hq)
  have hne : d ++ [name] ≠ d' ++ [name'] := entry_ne_backup hput.endsWithSlash hentry' hentry
  exact view_of_entry (hsame.trans hentry) hbackup.endsWithSlash ((hd.2 _ hne).trans hn)

/-- A backup outlasts what is installed after it. -/
theorem backedUp_of_backsUp {path : String} {n : Nat} {m : PemMaterial} {r : Except Error Nat}
    (h : i.BacksUp t t₁ (.ok (.created path n))) (hrenews : i.Renews m t₁ t' r) : path = Path.backup i.file ∧
      ∃ b k, t.view i.file = .ok (.file b k) ∧ n = b.length ∧ t.Stands t' path b k ∧
      (t.Direct path → t.Direct i.file → t'.view path = .ok (.file b k)) := by
  obtain ⟨rfl, b, k, hview, hn, hplaced⟩ := h
  refine ⟨rfl, b, k, hview, hn, ?_⟩
  cases r with
  | error e =>
    obtain rfl : t' = t₁ := hrenews
    exact ⟨hplaced.isEntry, fun hdirect _ => hplaced.view hdirect⟩
  | ok n' =>
    obtain ⟨seeds, data, -, -, hput⟩ := hrenews
    obtain ⟨l, hl, hcopy⟩ := hplaced.isEntry
    have hne : ¬ t₁.IsEntry i.file l := fun hfile => not_isEntry_backup hput.endsWithSlash hfile hl
    exact ⟨⟨l, hl, (hput.node?_eq hne).trans hcopy⟩, view_backup_of_placed hplaced hput⟩

theorem mem_iff_of_acts {acts : List Deed} (h : deeds.filter Deed.acts = acts) {d : Deed} (hd : d.acts = true) :
    d ∈ deeds ↔ d ∈ acts := by
  rw [← h, List.mem_filter, and_iff_left hd]

theorem footprint_of_idle (hacts : deeds.filter Deed.acts = []) : i.Footprint w w deeds r where
  working := rfl
  elsewhere _ _ _ := rfl
  skipped _ _ _ := rfl
  stopped _ := rfl
  refused _ _ := rfl
  failed _ _ _ := ⟨fun _ _ => rfl, fun _ => rfl⟩
  installed _ _ h := absurd ((mem_iff_of_acts hacts rfl).mp h) List.not_mem_nil
  backedUp _ _ h := absurd ((mem_iff_of_acts hacts rfl).mp h) List.not_mem_nil
  unsaved h := absurd ((mem_iff_of_acts hacts rfl).mp h) List.not_mem_nil

/-- Where a step is to follow upon every look, none of them has failed. -/
theorem not_stopped (hlooks : ∀ d ∈ deeds, d.stage = .assess ∨ d.stage = .load → d.goesOn = true) :
    ¬ ((∃ renewBefore now e, .assess renewBefore now (.error e) ∈ deeds) ∨ ∃ e, .load (.error e) ∈ deeds) := by
  intro h
  cases h with
  | inl h =>
    obtain ⟨renewBefore, now, e, hmem⟩ := h
    cases hlooks _ hmem (.inl rfl)
  | inr h =>
    obtain ⟨e, hmem⟩ := h
    cases hlooks _ hmem (.inr rfl)

theorem footprint_of_refused {e : Error} (hfiles : w'.files = w.files)
    (hlooks : ∀ d ∈ deeds, d.stage = .assess ∨ d.stage = .load → d.goesOn = true)
    (hacts : deeds.filter Deed.acts = [.backup (.error e)])
    (hok : ∀ report, r = .ok report → ∀ d ∈ deeds, d.error? = none) : i.Footprint w w' deeds r where
  working := by rw [hfiles]
  elsewhere _ _ _ := by rw [hfiles]
  skipped report hreport _ := by
    cases hok report hreport _ ((mem_iff_of_acts hacts rfl).mpr List.mem_cons_self)
  stopped h := absurd h (not_stopped hlooks)
  refused _ _ := hfiles
  failed _ _ _ := by simp [hfiles]
  installed _ _ h := by simpa using (mem_iff_of_acts hacts rfl).mp h
  backedUp _ _ h := by simpa using (mem_iff_of_acts hacts rfl).mp h
  unsaved h := by simpa using (mem_iff_of_acts hacts rfl).mp h

theorem footprint_of_tried {made : Backup} {m : PemMaterial} {result : Except Error Nat}
    (hbackup : i.BacksUp w.files t₁ (.ok made)) (hinstall : i.Renews m t₁ w'.files result)
    (hlooks : ∀ d ∈ deeds, d.stage = .assess ∨ d.stage = .load → d.goesOn = true)
    (hacts : deeds.filter Deed.acts = [.backup (.ok made), .install m result])
    (hok : ∀ report, r = .ok report → ∀ d ∈ deeds, d.error? = none)
    (haction : ∀ report m n, r = .ok report → .install m (.ok n) ∈ deeds → report.action = .installed) :
    i.Footprint w w' deeds r := by
  have hspares := hbackup.spares
  have hinstalled : .install m result ∈ deeds :=
    (mem_iff_of_acts hacts rfl).mpr (List.mem_cons_of_mem _ List.mem_cons_self)
  have hworking : w'.files.working = t₁.working ∧ ∀ l, ¬ w.files.IsEntry i.file l →
      w'.files.node? l = t₁.node? l := by
    cases result with
    | error e =>
      have hsame : w'.files = t₁ := hinstall
      simp [hsame]
    | ok n =>
      obtain ⟨seeds, data, -, -, hplaced⟩ := hinstall
      exact ⟨hplaced.working_eq, fun l hl => hplaced.node?_eq fun h => hl (hspares.isEntry l h)⟩
  constructor
  case working => exact hworking.1.trans hspares.working
  case elsewhere => exact fun l hfile hcopy => (hworking.2 l hfile).trans (hspares.node l hcopy)
  case skipped =>
    intro report hreport hskipped
    cases result with
    | error e => cases hok report hreport _ hinstalled
    | ok n => simp [haction report m n hreport hinstalled] at hskipped
  case stopped => exact fun h => absurd h (not_stopped hlooks)
  case refused => exact fun e h => by simpa using (mem_iff_of_acts hacts rfl).mp h
  case failed =>
    intro m' e h
    obtain ⟨rfl, rfl⟩ : m' = m ∧ .error e = result := by simpa using (mem_iff_of_acts hacts rfl).mp h
    have hsame : w'.files = t₁ := hinstall
    rw [hsame]
    exact ⟨hspares.target, hspares.view⟩
  case installed =>
    intro m' n h
    obtain ⟨rfl, rfl⟩ : m' = m ∧ .ok n = result := by simpa using (mem_iff_of_acts hacts rfl).mp h
    exact installed_of_renews hspares hinstall
  case backedUp =>
    intro path n h
    obtain rfl : made = .created path n := by
      simpa [eq_comm] using (mem_iff_of_acts hacts rfl).mp h
    exact backedUp_of_backsUp hbackup hinstall
  case unsaved =>
    intro h
    obtain rfl : made = .skipped := by
      simpa [eq_comm] using (mem_iff_of_acts hacts rfl).mp h
    obtain ⟨rfl, hnone⟩ := hbackup
    exact ⟨hnone, hworking.2⟩

theorem action_of_mem {m : PemMaterial} {n : Nat} (h : .install m (.ok n) ∈ deeds) (target : String) (e : Event) :
    (Report.ofEvents target (e :: deeds.flatMap Deed.told)).action = .installed := by
  have hmem : .installComplete n ∈ e :: deeds.flatMap Deed.told :=
    List.mem_cons_of_mem _ (List.mem_flatMap.mpr ⟨_, h, List.mem_singleton.mpr rfl⟩)
  have hbytes : ((e :: deeds.flatMap Deed.told).findSome? Event.bytes?).isSome = true :=
    List.findSome?_isSome_iff.mpr ⟨_, hmem, rfl⟩
  exact if_pos hbytes

theorem Passage.footprint (h : i.Passage w w' deeds) (hok : ∀ report, r = .ok report → ∀ d ∈ deeds, d.error? = none)
    (haction : ∀ report m n, r = .ok report → .install m (.ok n) ∈ deeds → report.action = .installed) :
    i.Footprint w w' deeds r := by
  cases h with
  | idle hw hacts =>
    rw [hw]
    exact footprint_of_idle hacts
  | refused hfiles hlooks hacts => exact footprint_of_refused hfiles hlooks hacts hok
  | tried hbackup hinstall hlooks hacts => exact footprint_of_tried hbackup hinstall hlooks hacts hok haction

/-- Every cycle leaves a footprint as its record says, as long as hooks leave the files alone: entries besides those of
target and backup stay, what fails leaves nothing behind, and what has come off stays, whatever fails later. -/
theorem runCycle_footprint (hq : s.Quiet) (i : Installation) (load : FileTree → Except Error PemMaterial) (o : Options)
    (w : World) : ∃ r w' deeds events,
      runCycle (i.installer s).recorded (recording .load (observe load)) o ⟨(w, []), []⟩ =
        (r, ⟨(w', deeds), events⟩) ∧
      runCycle (i.installer s) (observe load) o ⟨w, []⟩ = (r, ⟨w', events⟩) ∧ i.Footprint w w' deeds r := by
  rcases hrun : runCycle (i.installer s).recorded (recording .load (observe load)) o ⟨(w, []), []⟩ with
    ⟨r, ⟨w', deeds⟩, events⟩
  have hplain := erases_runCycle (i.installer s) (observe load) o ⟨(w, []), []⟩
  rw [hrun] at hplain
  refine ⟨r, w', deeds, events, rfl, hplain, ?_⟩
  obtain ⟨deeds', e, hcourse, hadded, -, -, hr⟩ := runCycle_course hrun
  obtain rfl : deeds = deeds' := hadded.deeds.trans (List.nil_append _)
  refine (passage_of_course hq hcourse hadded.proceeds).footprint ?_ ?_
  · intro report hreport d hd
    cases herror : d.error? with
    | none => rfl
    | some x =>
      rw [hr, (hcourse.error_iff x).mpr (.inl ⟨d, hd, herror⟩)] at hreport
      cases hreport
  · intro report m n hreport hmem
    rw [hr] at hreport
    cases e with
    | some x => cases hreport
    | none =>
      rw [← Except.ok.inj hreport]
      exact action_of_mem hmem _ _

end

theorem view_plain : plain.view "a" = .ok (.file [1] 0o600) := by
  have hname : SingleName "a" := by decide
  exact view_eq_ok.mpr ⟨_, hname.stat rfl (by decide)⟩

theorem isEntry_plain {path : String} (h : SingleName path) {l : Location} (hl : plain.IsEntry path l) : l = [path] := by
  obtain ⟨d, name, hentry, rfl⟩ := hl
  obtain ⟨rfl, rfl⟩ := Prod.mk.inj (Except.ok.inj ((h.entryAt rfl).symm.trans hentry))
  rfl

theorem exists_run_plain : ∃ report p,
    runCycle (sampleInstallation.installer sampleSurroundings) (observe fun _ => .ok Bundle.sample) sampleOptions
      ⟨⟨plain, [], [], 0⟩, []⟩ = (.ok report, p) ∧ report.action = .installed := by
  rcases backup_cases sampleInstallation plain with
    ⟨-, -, hnone⟩ | ⟨b, m, -, ⟨hnot, -⟩ | ⟨-, steps, made, hbackup, hputs⟩⟩
  · exact absurd view_plain (hnone _ _)
  · exact absurd (writable_of_singleName (by decide) rfl (by decide)) hnot
  · have hd := hputs.1.node?_eq (l := ["a"]) fun hl => absurd (isEntry_plain (by decide) hl) (by decide)
    have hwritable : Writable (after plain steps) "a" :=
      writable_of_singleName (by decide) hputs.1.working_eq (by rw [hd]; decide)
    obtain ⟨data, report, p, hrun, hinstalled, -⟩ :=
      exists_runCycle_sample (w := ⟨plain, [], [], 0⟩) rfl rfl rfl hbackup hwritable
    exact ⟨report, p, hrun, hinstalled⟩

/-- A cycle on a single file: the bundle stands in its place, a copy of the file at the backup, and nothing else has
changed. -/
theorem footprint_plain : sampleSurroundings.Quiet ∧ ∃ report p seeds data,
    runCycle (sampleInstallation.installer sampleSurroundings) (observe fun _ => .ok Bundle.sample) sampleOptions
      ⟨⟨plain, [], [], 0⟩, []⟩ = (.ok report, p) ∧ report.action = .installed ∧
    Bundle.sample.package seeds "password" = .ok data ∧ p.world.files.view "a" = .ok (.file data privateMode) ∧
    p.world.files.view "a.bak" = .ok (.file [1] 0o600) ∧
    ∀ l, l ≠ ["a"] → l ≠ ["a.bak"] → p.world.files.node? l = plain.node? l := by
  have hq : sampleSurroundings.Quiet := fun _ _ => rfl
  have hname : SingleName "a" ∧ SingleName "a.bak" := by decide
  obtain ⟨report, p, hrun, hinstalled⟩ := exists_run_plain
  obtain ⟨r, w', deeds, events, hrecorded, hplain, hfootprint⟩ :=
    runCycle_footprint hq sampleInstallation (fun _ => .ok Bundle.sample) sampleOptions ⟨plain, [], [], 0⟩
  obtain ⟨rfl, rfl⟩ := Prod.mk.inj (hplain.symm.trans hrun)
  obtain ⟨deeds', e, hcourse, hadded, -, hloaded, hr⟩ := runCycle_course hrecorded
  obtain rfl : deeds = deeds' := hadded.deeds.trans (List.nil_append _)
  cases e with
  | some x => cases hr
  | none =>
    obtain ⟨made, m, n, hbackup, hinstall⟩ := Course.installs hcourse
    obtain ⟨w₁, w₂, hload⟩ := hadded.proceeds.leads (hloaded m _ hinstall)
    obtain rfl := Except.ok.inj (Prod.mk.inj hload).1
    obtain ⟨seeds, data, hpackage, -, -, hview⟩ := hfootprint.installed _ n hinstall
    cases made with
    | skipped => exact absurd view_plain ((hfootprint.unsaved hbackup).1 _ _)
    | created path k =>
      obtain ⟨rfl, b, mode, hold, -, -, hcopy⟩ := hfootprint.backedUp path k hbackup
      obtain ⟨rfl, rfl⟩ := Node.file.inj (Except.ok.inj (hold.symm.trans view_plain))
      refine ⟨hq, report, _, seeds, data, hplain, hinstalled, hpackage, hview hname.1.direct,
        hcopy hname.2.direct hname.1.direct, fun l hfile hbak => hfootprint.elsewhere l ?_ ?_⟩
      · exact fun hl => hfile (isEntry_plain hname.1 hl)
      · exact fun hl => hbak (isEntry_plain hname.2 hl)

/-- An installation that fails may keep its target from being found, by the backup that came before it, and one that
succeeds may leave nothing to be found at its target. -/
theorem target_not_found_after_cycle :
    (crossed.view "d/a.bak/a" = .ok (.file [1] 0o600) ∧ ∃ p,
      runCycle (installer sampleSurroundings { file := "d/a.bak/a" }) (observe fun _ => .ok Bundle.sample) sampleOptions
        ⟨⟨crossed, [], [], 0⟩, []⟩ = (.error (.bundle .missingPassword), p) ∧
      p.world.files.view "d/a.bak/a" = .error .notADirectory) ∧
    ∃ report p, runCycle (installer sampleSurroundings { file := "d/a/a", password := "password" })
        (observe fun _ => .ok Bundle.sample) sampleOptions ⟨⟨looped, [], [], 0⟩, []⟩ = (.ok report, p) ∧
      report.action = .installed ∧ p.world.files.view "d/a/a" = .error .notADirectory := by
  constructor
  · refine ⟨view_crossed, _, Prod.ext ?_ rfl, run_crossed.1⟩
    obtain ⟨steps, made, hbackup, -⟩ := backup_crossed { file := "d/a.bak/a" } rfl
    have hact : act (backup { file := "d/a.bak/a" }) ⟨crossed, [], [], 0⟩ =
        (.ok made, World.advance ⟨crossed, [], [], 0⟩ steps) := by
      rw [act_apply, hbackup]
      rfl
    simp only [runCycle, Rotation.check, sampleOptions, if_true, replace, bind_apply, perform_apply, tell_apply,
      pure_apply, observe, Option.all_none, installer, hact]
    rfl
  · obtain ⟨data, report, p, hrun, hinstalled, hd, hfile⟩ := exists_run_looped
    refine ⟨report, p, hrun, hinstalled, ?_⟩
    rw [view, stat_replaced hd hfile]
    rfl

end CertRotation.Installation
