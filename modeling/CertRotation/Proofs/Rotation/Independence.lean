import CertRotation.Proofs.Bundle.Sources
import CertRotation.Proofs.Rotation.Interference

/-!
# Installations beside each other

A run of the settings takes one cycle after another. Cycles that keep out of each other's targets and sources do not notice
each other: none touches the bundle of another, and what succeeds alone succeeds in every order, with the same bundles. A
target that is the backup of another is not kept, although nothing in the settings is wrong with it.
-/
namespace CertRotation
open Files FileTree Rotation

/-- A cycle for `e` puts files neither at the target nor at the sources of `e'`. -/
structure Settings.Entry.Spares (t : FileTree) (e e' : Settings.Entry) : Prop where
  target : ∀ l, e.installation.Touches t l → ¬ t.PlaceOf e'.installation.file l
  sources : ∀ l, e.installation.Touches t l → ∀ source, e'.source = some source → ∀ path ∈ source.paths,
    ∀ n, t.stat path ≠ .ok (l, n)

/-- The targets are different files, and none of them is the backup of another. Targets and backups are no links, and
no file of a source. -/
structure Settings.Separated (t : FileTree) (entries : List Settings.Entry) : Prop where
  unlinked : ∀ e ∈ entries, e.installation.Unlinked t
  apart : entries.Pairwise fun e e' => e.Spares t e' ∧ e'.Spares t e

namespace Settings.Separated
variable {t : FileTree} {entries order done rest : List Settings.Entry} {e e' : Settings.Entry}

theorem perm (h : Separated t entries) (hp : order.Perm entries) : Separated t order :=
  ⟨fun e he => h.unlinked e (hp.mem_iff.mp he), (hp.pairwise_iff fun ⟨h, h'⟩ => ⟨h', h⟩).mpr h.apart⟩

theorem spares (h : Separated t (done ++ e :: rest)) (he : e' ∈ done ++ rest) : e.Spares t e' ∧ e'.Spares t e :=
  (List.pairwise_cons.mp (h.perm List.perm_middle.symm).apart).1 e' he

theorem left (h : Separated t (done ++ rest)) : Separated t done :=
  ⟨fun e he => h.unlinked e (List.mem_append_left _ he), (List.pairwise_append.mp h.apart).1⟩

end Settings.Separated

namespace Console
variable {s : Surroundings} {now : Instant} {force : Bool} {w : World} {session session' : Session}
variable {e : Settings.Entry} {done rest : List Settings.Entry} {t t' : FileTree}

/-! ## The loop -/

theorem installAll_append (done rest : List Settings.Entry) :
    installAll s now force (done ++ rest) = (do installAll s now force done; installAll s now force rest) := by
  induction done with
  | nil => simp [installAll]
  | cons e done ih =>
    simp only [List.cons_append, installAll, ih]
    cases e.source with
    | none => simp
    | some source => simp

theorem installAll_append_eq_ok (done rest : List Settings.Entry) :
    installAll s now force (done ++ rest) session = (.ok (), session') ↔ ∃ mid,
      installAll s now force done session = (.ok (), mid) ∧ installAll s now force rest mid = (.ok (), session') := by
  rw [installAll_append, bind_apply_eq_ok]
  exact ⟨fun ⟨_, mid, h, h'⟩ => ⟨mid, h, h'⟩, fun ⟨mid, h, h'⟩ => ⟨(), mid, h, h'⟩⟩

/-- The material of a source as a cycle loads it. -/
def material (source : PemSource) (t : FileTree) : Except Error PemMaterial := (source.load t).mapError Error.ofLoad

/-- The cycle of an entry. -/
def turn (s : Surroundings) (now : Instant) (force : Bool) (e : Settings.Entry) (source : PemSource) (w : World) :
    Except Error Report × Progress World :=
  runCycle (e.installation.installer s) (observe (material source)) ⟨e.installation.renewBefore, force, now⟩ ⟨w, []⟩

theorem installAll_single {source : PemSource} (h : e.source = some source) (s : Surroundings) (now : Instant)
    (force : Bool) (session : Session) : ∃ lines, installAll s now force [e] session =
      (((turn s now force e source session.world).1.mapError (.installation e.installation.file)).map fun _ => (),
        ⟨(turn s now force e source session.world).2.world, lines⟩) := by
  have hsay : ∀ (lines : List String) (session : Session),
      say lines session = (.ok (), { session with lines := session.lines ++ lines }) := fun _ _ => rfl
  simp only [installAll, h, cycle, bind_apply, hsay, pure_apply]
  rcases hturn : turn s now force e source session.world with ⟨result, p⟩
  have hrun : runCycle (e.installation.installer s) source.loadHere ⟨e.installation.renewBefore, force, now⟩
      ⟨session.world, []⟩ = (result, p) := hturn
  simp only [ExceptT.run, hrun]
  cases result with
  | error e => exact ⟨_, rfl⟩
  | ok r => exact ⟨_, rfl⟩

theorem installAll_single_none (h : e.source = none) (s : Surroundings) (now : Instant) (force : Bool)
    (session : Session) :
    ∃ lines failure, installAll s now force [e] session = (.error failure, ⟨session.world, lines⟩) := by
  simp only [installAll, h]
  exact ⟨_, _, rfl⟩

/-- An entry alone succeeds exactly if it has a source and its cycle succeeds. -/
theorem installAll_single_eq_ok (hq : s.Quiet) :
    (∃ session', installAll s now force [e] session = (.ok (), session') ∧ session'.world.files = t') ↔
      ∃ source, e.source = some source ∧ e.installation.Completes s (material source)
        ⟨e.installation.renewBefore, force, now⟩ (s.seeds session.world.packaged) session.world.files t' := by
  cases hsource : e.source with
  | none =>
    obtain ⟨lines, failure, hrun⟩ := installAll_single_none hsource s now force session
    rw [hrun]
    exact ⟨fun ⟨_, h, _⟩ => absurd (Prod.mk.inj h).1 (by simp), fun ⟨_, h, _⟩ => absurd h (by simp)⟩
  | some source =>
    obtain ⟨lines, hrun⟩ := installAll_single hsource s now force session
    have hcycle : (∃ report p, turn s now force e source session.world = (.ok report, p) ∧ p.world.files = t') ↔
        e.installation.Completes s (material source) ⟨e.installation.renewBefore, force, now⟩
          (s.seeds session.world.packaged) session.world.files t' := Installation.runCycle_eq_ok hq
    rw [hrun]
    constructor
    · rintro ⟨session', h, rfl⟩
      obtain ⟨hresult, rfl⟩ := Prod.mk.inj h
      cases hturn : (turn s now force e source session.world).1 with
      | error e => simp [hturn, Except.mapError, Except.map] at hresult
      | ok report => exact ⟨source, rfl, hcycle.mp ⟨report, _, Prod.ext hturn rfl, rfl⟩⟩
    · rintro ⟨source', hsame, h⟩
      obtain rfl := Option.some.inj hsame
      obtain ⟨report, p, hok, hfiles⟩ := hcycle.mpr h
      rw [hok]
      exact ⟨_, rfl, hfiles⟩

/-- At every moment of the cycle of an entry. -/
theorem installAll_single_moment (hq : s.Quiet) (now : Instant) (force : Bool) (e : Settings.Entry) (session : Session) :
    ∃ load steps, session.world.Moved (installAll s now force [e] session).2.world steps ∧
      ∀ t ∈ states session.world.files steps, e.installation.Moment load session.world.files t := by
  cases hsource : e.source with
  | none =>
    obtain ⟨lines, failure, hrun⟩ := installAll_single_none hsource s now force session
    rw [hrun]
    refine ⟨material { certificate := "" }, [], World.Moved.refl _, fun t ht => ?_⟩
    obtain rfl := List.mem_singleton.mp ht
    exact Installation.moment_refl _ _ _
  | some source =>
    obtain ⟨lines, hrun⟩ := installAll_single hsource s now force session
    rw [hrun]
    exact ⟨material source, Installation.outcome_moment (runCycle_cases hq rfl)⟩

/-! ## What cycles leave to each other -/

/-- From `t₀` to `t` only the places of these installations have changed, and no way. -/
structure Ran (t₀ : FileTree) (done : List Settings.Entry) (t : FileTree) : Prop where
  ways : SameWays t₀ t
  kept : ∀ l, (∀ e ∈ done, ¬ e.installation.Touches t₀ l) → t.node? l = t₀.node? l

theorem Ran.refl (t : FileTree) (done : List Settings.Entry) : Ran t done t := ⟨SameWays.refl t, fun _ _ => rfl⟩

/-- One more installation, if what it does leaves the ways. -/
theorem Ran.step (h : Ran t done t') {t₁ : FileTree} {entries : List Settings.Entry}
    (hsub : ∀ e' ∈ done, e' ∈ entries) (he : e ∈ entries)
    (hlast : SameWays t' t₁ ∧ ∀ l, ¬ e.installation.Touches t' l → t₁.node? l = t'.node? l) :
    Ran t entries t₁ :=
  ⟨h.ways.trans hlast.1, fun l hl =>
    (hlast.2 l fun htouches => hl e he ((Installation.touches_iff h.ways).mp htouches)).trans
      (h.kept l fun e' he' => hl e' (hsub e' he'))⟩

/-- The hooks of `e` are not to tell apart what cycles for `entries` make of the files `t₀`, as long as its own target is
the same but for the seeds. They may look at everything else. -/
def HasLocalHooks (s : Surroundings) (entries : List Settings.Entry) (t₀ : FileTree) (e : Settings.Entry) : Prop :=
  ∀ t t', Ran t₀ entries t → Ran t₀ entries t' → e.installation.Alike t t' →
    s.Passes e.installation t → s.Passes e.installation t'

theorem ran_of_installAll (hq : s.Quiet) (hu : ∀ e ∈ done, e.installation.Unlinked session.world.files)
    (h : installAll s now force done session = (.ok (), session')) :
    Ran session.world.files done session'.world.files := by
  induction done using List.reverseRecOn generalizing session' with
  | nil =>
    obtain ⟨-, rfl⟩ := Prod.mk.inj h
    exact Ran.refl _ _
  | append_singleton done e ih =>
    obtain ⟨mid, hdone, hlast⟩ := (installAll_append_eq_ok done [e]).mp h
    have hran := ih (fun e he => hu e (by simp [he])) hdone
    obtain ⟨source, -, hcompletes⟩ := (installAll_single_eq_ok hq).mp ⟨session', hlast, rfl⟩
    exact hran.step (fun e he => by simp [he]) (by simp) (hcompletes.ways ((hu e (by simp)).congr hran.ways))

/-- A regular file at the target of an installation that is spared is nowhere another puts files. -/
theorem Ran.placeOf {e' : Settings.Entry} {l : Location} {b : Bytes} {m : Nat} (h : Ran t done t')
    (hu : e'.installation.Unlinked t) (hspares : e.Spares t e')
    (hstat : t'.stat e'.installation.file = .ok (l, .file b m)) : ¬ e.installation.Touches t' l := by
  have hplace := (h.ways.unlinked (hu _ e'.installation.file_mem_paths)).placeOf_of_stat hstat
  exact fun htouches => hspares.target l ((Installation.touches_iff h.ways).mp htouches) (h.ways.placeOf_iff.mp hplace)

/-- What stands at the target of a spared installation before a cycle stands there in the end. -/
theorem Ran.view_completes {e' : Settings.Entry} {load : FileTree → Except Error PemMaterial} {o : Options}
    {seeds : Keystore.Seeds} {t₁ : FileTree} {b : Bytes} {m : Nat} (h : Ran t done t')
    (hu : e.installation.Unlinked t) (hu' : e'.installation.Unlinked t) (hspares : e.Spares t e')
    (hcompletes : e.installation.Completes s load o seeds t' t₁)
    (hview : t'.view e'.installation.file = .ok (.file b m)) : t₁.view e'.installation.file = .ok (.file b m) := by
  obtain ⟨l, hstat⟩ := view_eq_ok.mp hview
  obtain ⟨hways, hkept⟩ := hcompletes.ways (hu.congr h.ways)
  exact view_eq_ok.mpr ⟨l, hways.stat_file (hkept l (h.placeOf hu' hspares hstat)) hstat⟩

/-- On the way from one world to the other these targets show the files that they have shown, at every moment. -/
def KeepsTargets (w w' : World) (entries : List Settings.Entry) : Prop :=
  ∃ steps, w.Moved w' steps ∧ ∀ t ∈ states w.files steps, ∀ e ∈ entries, ∀ b m,
    w.files.view e.installation.file = .ok (.file b m) → t.view e.installation.file = .ok (.file b m)

/-- No cycle of the loop changes the bundle of another installation, not even for a moment. -/
theorem keepsTargets_of_installAll (hq : s.Quiet) (hsep : Settings.Separated session.world.files (done ++ e :: rest))
    (h : installAll s now force done session = (.ok (), session')) :
    KeepsTargets session'.world (installAll s now force [e] session').2.world (done ++ rest) := by
  have hran := ran_of_installAll hq (fun e he => hsep.unlinked e (by simp [he])) h
  obtain ⟨load, steps, hmoved, hmoment⟩ := installAll_single_moment hq now force e session'
  refine ⟨steps, hmoved, fun t ht e' he' b m hview => ?_⟩
  have hu' := hsep.unlinked e' (by simp only [List.mem_append, List.mem_cons] at he' ⊢; tauto)
  obtain ⟨l, hstat⟩ := view_eq_ok.mp hview
  exact view_eq_ok.mpr ⟨l, (hmoment t ht).stat_file ((hsep.unlinked e (by simp)).congr hran.ways)
    (hran.placeOf hu' (hsep.spares he').1 hstat) hstat⟩

/-- What the material of an installation is read from is kept by the cycles that spare it. -/
theorem Ran.material {source : PemSource} {m : PemMaterial} (h : Ran t done t') (hsource : e.source = some source)
    (hspares : ∀ e' ∈ done, e'.Spares t e) (hm : material source t = .ok m) : material source t' = .ok m := by
  refine mapError_eq_ok.mpr (PemSource.load_congr (fun path hpath text htext => ?_) (mapError_eq_ok.mp hm))
  obtain ⟨l, b, k, hstat, hdecode⟩ := FileTree.readText_eq_ok.mp htext
  have hkept := h.kept l fun e' he' htouches => (hspares e' he').sources l htouches source hsource path hpath _ hstat
  exact FileTree.readText_eq_ok.mpr ⟨l, b, k, h.ways.stat_file hkept hstat, hdecode⟩

/-- What succeeds alone succeeds after any others, and all leave what they leave alone. -/
theorem installAll_alike {entries : List Settings.Entry} (hq : s.Quiet)
    (hsizes : ∀ n n', (s.seeds n).SameSizes (s.seeds n')) (hsub : ∀ e ∈ done, e ∈ entries)
    (hlocal : ∀ e ∈ entries, HasLocalHooks s entries session.world.files e)
    (hsep : Settings.Separated session.world.files done)
    {alone : Settings.Entry → Session} (halone : ∀ e ∈ done, installAll s now force [e] session = (.ok (), alone e)) :
    ∃ session', installAll s now force done session = (.ok (), session') ∧
      ∀ e ∈ done, e.installation.Alike (alone e).world.files session'.world.files := by
  induction done using List.reverseRecOn with
  | nil => exact ⟨session, rfl, by simp⟩
  | append_singleton done e ih =>
    have hu := hsep.unlinked e (by simp)
    have hspares : ∀ e' ∈ done, e.Spares session.world.files e' ∧ e'.Spares session.world.files e := fun e' he' =>
      hsep.spares (List.mem_append_left [] he')
    have hsub' : ∀ e ∈ done, e ∈ entries := fun e he => hsub e (by simp [he])
    obtain ⟨mid, hdone, halike⟩ := ih hsub' hsep.left fun e he => halone e (by simp [he])
    have hran := ran_of_installAll hq (fun e he => hsep.unlinked e (by simp [he])) hdone
    obtain ⟨source, hsource, hcompletes⟩ := (installAll_single_eq_ok hq).mp ⟨alone e, halone e (by simp), rfl⟩
    obtain ⟨l, hplace⟩ := hcompletes.placeOf hu
    have hstat := hran.ways.stat_place (hu _ e.installation.file_mem_paths) hplace
      (hran.kept l fun e' he' htouches => (hspares e' he').2.target l htouches hplace)
    have he : e ∈ entries := hsub e (by simp)
    have halone' : Ran session.world.files entries (alone e).world.files :=
      (Ran.refl _ []).step (by simp) he (hcompletes.ways hu)
    have hpasses : ∀ data' t₁', e.installation.Rewrites data' mid.world.files t₁' →
        e.installation.Alike (alone e).world.files t₁' → s.Passes e.installation (alone e).world.files →
        s.Passes e.installation t₁' := fun data' t₁' hrewrites =>
      hlocal e he _ _ halone' (hran.step hsub' he (hrewrites.ways (hu.congr hran.ways)))
    obtain ⟨t', hcompletes', hsame⟩ := hcompletes.transport hu (hsizes _ mid.world.packaged) hran.ways hstat
      (fun m hm => hran.material hsource (fun e' he' => (hspares e' he').2) hm) hpasses
    obtain ⟨session', hlast, rfl⟩ := (installAll_single_eq_ok hq).mpr ⟨source, hsource, hcompletes'⟩
    refine ⟨session', (installAll_append_eq_ok done [e]).mpr ⟨mid, hdone, hlast⟩, fun e' he' => ?_⟩
    rcases List.mem_append.mp he' with he' | he'
    · exact (halike e' he').congr fun b m hview => hran.view_completes hu (hsep.unlinked e' (by simp [he']))
        (hspares e' he').1 hcompletes' hview
    · obtain rfl := List.mem_singleton.mp he'
      exact hsame

/-! ## The run of the settings -/

/-- The command ends as the loop over the entries of its settings does, also where there is none. -/
theorem run_of_load (s : Surroundings) (now : Instant) (force : Bool) {config : Option String} {settings : Settings}
    (hload : Settings.load w.files config = .ok settings) :
    (run s now w (.run config force)).result =
        (installAll s now force settings.installations ⟨w, []⟩).1.map (fun _ => 0) ∧
      (run s now w (.run config force)).world = (installAll s now force settings.installations ⟨w, []⟩).2.world := by
  have hrun : ∃ lines, perform s now (.run config force) ⟨w, []⟩ =
      ((installAll s now force settings.installations ⟨w, []⟩).1.map fun _ => 0,
        ⟨(installAll s now force settings.installations ⟨w, []⟩).2.world, lines⟩) := by
    simp only [perform, thenZero, runSettings, bind_apply, filesNow, ofExcept, hload, Except.mapError]
    cases hempty : settings.installations.isEmpty with
    | true =>
      rw [List.isEmpty_iff.mp hempty]
      exact ⟨_, rfl⟩
    | false =>
      simp only [Bool.false_eq_true, if_false]
      rcases installAll s now force settings.installations ⟨w, []⟩ with ⟨r, session⟩
      cases r with
      | error f => exact ⟨_, rfl⟩
      | ok u => exact ⟨_, rfl⟩
  obtain ⟨lines, hrun⟩ := hrun
  simp [run, ExceptT.run, hrun]

theorem run_of_installAll {config : Option String} {settings : Settings}
    (hload : Settings.load w.files config = .ok settings)
    (h : installAll s now force settings.installations ⟨w, []⟩ = (.ok (), session)) :
    (run s now w (.run config force)).result = .ok 0 ∧ (run s now w (.run config force)).world = session.world := by
  obtain ⟨hresult, hworld⟩ := run_of_load s now force hload
  rw [h] at hresult hworld
  exact ⟨hresult, hworld⟩

/-- Installations that keep out of each other's targets and sources share no state, whatever is forced. No cycle of a run
changes the bundle at the target of another installation, not even for a moment. If each of them succeeds alone, then the
run succeeds, in the order of the settings as in any other, and leaves at every target what running it alone leaves, but
for the seeds. -/
theorem targets_independent (s : Surroundings) (now : Instant) (force : Bool) (w : World) {config : Option String}
    {settings : Settings} (hq : s.Quiet)
    (hload : Settings.load w.files config = .ok settings) (hsep : Settings.Separated w.files settings.installations) :
    (∀ done e rest session, settings.installations = done ++ e :: rest →
      installAll s now force done ⟨w, []⟩ = (.ok (), session) →
      KeepsTargets session.world (installAll s now force [e] session).2.world (done ++ rest)) ∧
    ((∀ n n', (s.seeds n).SameSizes (s.seeds n')) →
      (∀ e ∈ settings.installations, HasLocalHooks s settings.installations w.files e) →
      ∀ alone : Settings.Entry → Session,
        (∀ e ∈ settings.installations, installAll s now force [e] ⟨w, []⟩ = (.ok (), alone e)) →
        (run s now w (.run config force)).result = .ok 0 ∧
        (∀ e ∈ settings.installations,
          e.installation.Alike (alone e).world.files (run s now w (.run config force)).world.files) ∧
        ∀ order, order.Perm settings.installations → ∃ session,
          installAll s now force order ⟨w, []⟩ = (.ok (), session) ∧
          ∀ e ∈ order, e.installation.Alike (alone e).world.files session.world.files) := by
  refine ⟨fun done e rest session hsplit h => ?_, fun hsizes hlocal alone halone => ?_⟩
  · rw [hsplit] at hsep
    exact keepsTargets_of_installAll hq hsep h
  · have hall : ∀ order, order.Perm settings.installations → ∃ session,
        installAll s now force order ⟨w, []⟩ = (.ok (), session) ∧
          ∀ e ∈ order, e.installation.Alike (alone e).world.files session.world.files := fun order hp =>
      installAll_alike hq hsizes (fun e he => hp.mem_iff.mp he) hlocal (hsep.perm hp)
        fun e he => halone e (hp.mem_iff.mp he)
    obtain ⟨session, h, halike⟩ := hall _ (List.Perm.refl _)
    obtain ⟨hresult, hworld⟩ := run_of_installAll hload h
    exact ⟨hresult, hworld ▸ halike, hall⟩

/-! ## Two installations -/

def sampleSource : PemSource := { certificate := "a", chain := some "b" }

def sampleEntry (file : String) : Settings.Entry := ⟨{ file, password := "password" }, some sampleSource⟩

def sampleSettings (file : String) : Settings := ⟨[sampleEntry file, sampleEntry "x"]⟩

def sampleLines (file : String) : List Char :=
  "[[installations]]\nfile='".toList ++ file.toList ++
    "'\np12_password='password'\nsource.certificate='a'\nsource.chain='b'\n".toList

def sampleText (file : String) : String := String.ofList (sampleLines file ++ sampleLines "x")

/-- The files of a source, settings with two installations, and an old file at the target of the second. -/
def sampleTree (file : String) : FileTree where
  nodes := (["c"], .file (Bytes.ofString (sampleText file)) 0) :: (["x"], .file [1] 0o644) :: PemSource.sampleFiles.nodes
  working := []

def sampleWorld (file : String) : World := ⟨sampleTree file, [], [], 0⟩

theorem flat_sampleTree (file : String) : (sampleTree file).Flat :=
  flat_of_nodes rfl (by simp [sampleTree, PemSource.sampleFiles])

theorem load_of_text {t : FileTree} {path text : String} {settings : Settings} (hread : t.readText path = .ok text)
    (hparse : (Settings.parse text).toOption = some settings) (hbase : Path.parent? path = some "")
    (hresolve : settings.resolve "" = settings) (hvalid : settings.validate = .ok ()) :
    Settings.load t (some path) = .ok settings := by
  have hfile : Settings.loadFile t path = .ok settings := by
    simp only [Settings.loadFile, hread, toOption_eq_some.mp hparse, hbase, hresolve, bind, Except.bind, pure,
      Except.pure]
  exact bind_eq_ok.mpr ⟨settings, hfile, bind_eq_ok.mpr ⟨(), hvalid, rfl⟩⟩

/-- The settings are in the file `c`, whatever else there is. -/
theorem load_sampleSettings (file : String) (hfile : file = "y" ∨ file = "x.bak") (hw : t.working = [])
    (hn : t.node? ["c"] = some (.file (Bytes.ofString (sampleText file)) 0)) :
    Settings.load t (some "c") = .ok (sampleSettings file) := by
  have hname : SingleName "c" := by decide
  have hascii : ∀ c ∈ sampleLines file ++ sampleLines "x", c.toNat < 128 := by
    refine ascii_of_all ?_
    rcases hfile with rfl | rfl <;> decide +kernel
  have hread : t.readText "c" = .ok (sampleText file) := PemSource.readText_ascii hname hw hn hascii
  refine load_of_text hread ?_ (by decide) ?_ ?_
  · rw [Settings.parse, Toml.parse?, sampleText, String.toList_ofList]
    rcases hfile with rfl | rfl <;> decide +kernel
  · rcases hfile with rfl | rfl <;> decide
  · rcases hfile with rfl | rfl <;> decide

theorem unlinked_sample {path : String} (hf : t.Flat) (h : SingleName path) (hbackup : SingleName (Path.backup path)) :
    (sampleEntry path).installation.Unlinked t := by
  intro q hq
  simp only [Installation.paths, List.mem_cons, List.not_mem_nil, or_false] at hq
  rcases hq with rfl | rfl
  · exact h.unlinked hf
  · exact hbackup.unlinked hf

/-- On a flat tree with the files of the source, a cycle for any name in the root succeeds. -/
theorem exists_completes_sample {path : String} (hf : t.Flat)
    (ha : t.node? ["a"] = PemSource.sampleFiles.node? ["a"]) (hb : t.node? ["b"] = PemSource.sampleFiles.node? ["b"])
    (h : SingleName path) (hbackup : SingleName (Path.backup path)) :
    ∃ data t', Bundle.sample.package Bundle.sampleSeeds "password" = .ok data ∧
      (sampleEntry path).installation.Rewrites data t t' ∧ (sampleEntry path).installation.Completes
        Installation.sampleSurroundings (material sampleSource) ⟨"30d", true, ⟨0⟩⟩ Bundle.sampleSeeds t t' := by
  obtain ⟨data, hdata⟩ := Bundle.exists_package_sample
  obtain ⟨t', hrewrites⟩ := (Installation.exists_rewrites_iff data (unlinked_sample hf h hbackup)).mpr
    ⟨(h.fileExists hf).imp_right fun hthere => ⟨hthere, hbackup.writable hf⟩, h.writable hf⟩
  exact ⟨data, t', hdata, hrewrites, .installs (.inl rfl) ⟨mapError_eq_ok.mpr (PemSource.load_of_sampleFiles hf.1 ha hb),
    show "password" ≠ "" by decide, hdata, hrewrites, none, none, rfl, rfl, by simp⟩⟩

theorem touches_sample {path : String} {l : Location} (hw : t.working = []) (h : SingleName path)
    (hbackup : SingleName (Path.backup path)) :
    (sampleEntry path).installation.Touches t l ↔ l = [path] ∨ l = [Path.backup path] := by
  have hpaths : (sampleEntry path).installation.paths = [path, Path.backup path] := rfl
  simp [Installation.Touches, hpaths, h.placeOf_iff hw, hbackup.placeOf_iff hw]

/-- The source lies in files of its own, and the other target is no backup. -/
theorem spares_sample {path other : String} (file : String) (h : SingleName path)
    (hbackup : SingleName (Path.backup path)) (hother : SingleName other)
    (hne : other ∉ [path, Path.backup path] ∧ "a" ∉ [path, Path.backup path] ∧ "b" ∉ [path, Path.backup path]) :
    (sampleEntry path).Spares (sampleTree file) (sampleEntry other) := by
  obtain ⟨hne, ha, hb⟩ := hne
  have hstat : ∀ q ∈ sampleSource.paths, ∃ c k, (sampleTree file).stat q = .ok ([q], .file c k) := by
    have hpaths : sampleSource.paths = ["a", "b"] := rfl
    simp only [hpaths, List.mem_cons, List.not_mem_nil, or_false]
    rintro q (rfl | rfl)
    · exact ⟨_, _, PemSource.singleName_sample.1.stat rfl rfl⟩
    · exact ⟨_, _, PemSource.singleName_sample.2.stat rfl rfl⟩
  constructor
  · intro l hl hplace
    rw [touches_sample rfl h hbackup] at hl
    obtain rfl := (hother.placeOf_iff rfl).mp hplace
    simp at hl hne
    tauto
  · intro l hl source hsource q hq n hn
    obtain rfl := Option.some.inj hsource
    rw [touches_sample rfl h hbackup] at hl
    obtain ⟨c, k, hfile⟩ := hstat q hq
    obtain ⟨rfl, -⟩ := Prod.mk.inj (Except.ok.inj (hfile.symm.trans hn))
    have hq' : q = "a" ∨ q = "b" := by simpa [sampleSource, PemSource.paths] using hq
    simp at hl ha hb
    rcases hq' with rfl | rfl <;> tauto

theorem singleNames_sample : SingleName "x" ∧ SingleName "x.bak" ∧ SingleName "y" ∧ SingleName "y.bak" ∧
    SingleName "x.bak.bak" := by decide

theorem separated_sample : Settings.Separated (sampleTree "y") (sampleSettings "y").installations := by
  obtain ⟨hx, hxbak, hy, hybak, -⟩ := singleNames_sample
  constructor
  · intro e he
    simp only [sampleSettings, List.mem_cons, List.not_mem_nil, or_false] at he
    rcases he with rfl | rfl
    · exact unlinked_sample (flat_sampleTree "y") hy hybak
    · exact unlinked_sample (flat_sampleTree "y") hx hxbak
  · simp only [sampleSettings, List.pairwise_cons, List.mem_singleton, forall_eq, List.not_mem_nil, false_implies,
      implies_true, List.Pairwise.nil, and_true]
    exact ⟨spares_sample "y" hy hybak hx (by decide), spares_sample "y" hx hxbak hy (by decide)⟩

/-- The cycle of one entry in a world with flat files. -/
theorem exists_installAll_sample {path : String} (session : Session) (hf : session.world.files.Flat)
    (ha : session.world.files.node? ["a"] = PemSource.sampleFiles.node? ["a"])
    (hb : session.world.files.node? ["b"] = PemSource.sampleFiles.node? ["b"]) (h : SingleName path)
    (hbackup : SingleName (Path.backup path)) :
    ∃ data session', Bundle.sample.package Bundle.sampleSeeds "password" = .ok data ∧
      installAll Installation.sampleSurroundings ⟨0⟩ true [sampleEntry path] session = (.ok (), session') ∧
      (sampleEntry path).installation.Rewrites data session.world.files session'.world.files := by
  obtain ⟨data, t', hdata, hrewrites, hcompletes⟩ := exists_completes_sample hf ha hb h hbackup
  obtain ⟨session', hrun, rfl⟩ := (installAll_single_eq_ok (s := Installation.sampleSurroundings) (e := sampleEntry path)
    fun _ _ => rfl).mpr ⟨sampleSource, rfl, hcompletes⟩
  exact ⟨data, session', hdata, hrun, hrewrites⟩

theorem targets_independent_sample :
    (run Installation.sampleSurroundings ⟨0⟩ (sampleWorld "y") (.run (some "c") true)).result = .ok 0 ∧
      ∀ e ∈ (sampleSettings "y").installations, e.installation.Alike
        (installAll Installation.sampleSurroundings ⟨0⟩ true [e] ⟨sampleWorld "y", []⟩).2.world.files
        (run Installation.sampleSurroundings ⟨0⟩ (sampleWorld "y") (.run (some "c") true)).world.files := by
  obtain ⟨hx, hxbak, hy, hybak, -⟩ := singleNames_sample
  obtain ⟨-, h⟩ := targets_independent Installation.sampleSurroundings ⟨0⟩ true (sampleWorld "y") (fun _ _ => rfl)
    (load_sampleSettings "y" (.inl rfl) rfl rfl) separated_sample
  have hlocal : ∀ e ∈ (sampleSettings "y").installations, HasLocalHooks Installation.sampleSurroundings
      (sampleSettings "y").installations (sampleWorld "y").files e := by
    intro e he t t' _ _ _ _
    simp only [sampleSettings, List.mem_cons, List.not_mem_nil, or_false] at he
    rcases he with rfl | rfl <;> exact ⟨none, none, rfl, rfl, by simp⟩
  have halone : ∀ e ∈ (sampleSettings "y").installations,
      installAll Installation.sampleSurroundings ⟨0⟩ true [e] ⟨sampleWorld "y", []⟩ =
        (.ok (), (installAll Installation.sampleSurroundings ⟨0⟩ true [e] ⟨sampleWorld "y", []⟩).2) := by
    intro e he
    simp only [sampleSettings, List.mem_cons, List.not_mem_nil, or_false] at he
    rcases he with rfl | rfl
    · obtain ⟨-, session, -, hrun, -⟩ := exists_installAll_sample ⟨sampleWorld "y", []⟩ (flat_sampleTree "y")
        rfl rfl hy hybak
      rw [hrun]
    · obtain ⟨-, session, -, hrun, -⟩ := exists_installAll_sample ⟨sampleWorld "y", []⟩ (flat_sampleTree "y")
        rfl rfl hx hxbak
      rw [hrun]
  obtain ⟨hresult, halike, -⟩ := h (fun _ _ => ⟨rfl, rfl, rfl⟩) hlocal _ halone
  exact ⟨hresult, halike⟩

/-- A target may be the backup of another. Both cycles succeed alone, and so does the run, but the second cycle has put the
old file of its own target in the place of the bundle that the first has installed. -/
theorem bundle_overwritten_by_backup : ∃ data session,
    Settings.load (sampleTree "x.bak") (some "c") = .ok (sampleSettings "x.bak") ∧
    (∃ alone, installAll Installation.sampleSurroundings ⟨0⟩ true [sampleEntry "x"] ⟨sampleWorld "x.bak", []⟩ =
      (.ok (), alone)) ∧
    installAll Installation.sampleSurroundings ⟨0⟩ true [sampleEntry "x.bak"] ⟨sampleWorld "x.bak", []⟩ =
      (.ok (), session) ∧
    session.world.files.view "x.bak" = .ok (.file data privateMode) ∧ data ≠ [1] ∧
    ¬ KeepsTargets session.world
      (installAll Installation.sampleSurroundings ⟨0⟩ true [sampleEntry "x"] session).2.world [sampleEntry "x.bak"] ∧
    (run Installation.sampleSurroundings ⟨0⟩ (sampleWorld "x.bak") (.run (some "c") true)).result = .ok 0 ∧
    (run Installation.sampleSurroundings ⟨0⟩ (sampleWorld "x.bak") (.run (some "c") true)).world.files.view "x.bak" =
      .ok (.file [1] 0o644) := by
  obtain ⟨hx, hxbak, -, -, hxbakbak⟩ := singleNames_sample
  have hflat := flat_sampleTree "x.bak"
  obtain ⟨-, alone, -, halone, -⟩ := exists_installAll_sample ⟨sampleWorld "x.bak", []⟩ hflat rfl rfl hx hxbak
  obtain ⟨data, session, hdata, hfirst, hrewrites⟩ := exists_installAll_sample ⟨sampleWorld "x.bak", []⟩ hflat
    rfl rfl hxbak hxbakbak
  have hu := unlinked_sample hflat hxbak hxbakbak
  obtain ⟨hways, hkept⟩ := hrewrites.ways hu
  have hnode : ∀ name, name ∉ ["x.bak", "x.bak.bak"] →
      session.world.files.node? [name] = (sampleTree "x.bak").node? [name] := by
    intro name hname
    refine hkept [name] fun htouches => hname ?_
    have hbackup : Path.backup "x.bak" = "x.bak.bak" := by decide
    rcases (touches_sample rfl hxbak hxbakbak).mp htouches with hl | hl
    · simp [List.singleton_inj.mp hl]
    · simp [List.singleton_inj.mp hl, hbackup]
  have hflat' := hflat.sameWays hways
  have hu' := unlinked_sample hflat' hx hxbak
  obtain ⟨data', session', -, hsecond, hrewrites'⟩ := exists_installAll_sample session hflat'
    ((hnode "a" (by decide)).trans rfl) ((hnode "b" (by decide)).trans rfl) hx hxbak
  have hview := hrewrites.view hu
  have hold : session.world.files.view "x" = .ok (.file [1] 0o644) :=
    view_eq_ok.mpr ⟨_, hx.stat hflat'.1 ((hnode "x" (by decide)).trans rfl)⟩
  have hview' : session'.world.files.view "x.bak" = .ok (.file [1] 0o644) := hrewrites'.view_backup hu' hold
  have hdiffers : data ≠ [1] := by
    rintro rfl
    obtain ⟨b, -, hdecode⟩ := Bundle.decode_of_package hdata
    have hfails : (Bundle.decode [1] "password").toOption = none := by decide +kernel
    simp [hdecode, Except.toOption] at hfails
  have hall : installAll Installation.sampleSurroundings ⟨0⟩ true (sampleSettings "x.bak").installations
      ⟨sampleWorld "x.bak", []⟩ = (.ok (), session') :=
    (installAll_append_eq_ok [sampleEntry "x.bak"] [sampleEntry "x"]).mpr ⟨session, hfirst, hsecond⟩
  have hload : Settings.load (sampleTree "x.bak") (some "c") = .ok (sampleSettings "x.bak") :=
    load_sampleSettings "x.bak" (.inr rfl) rfl rfl
  obtain ⟨hresult, hworld⟩ := run_of_installAll hload hall
  refine ⟨data, session, hload, ⟨alone, halone⟩, hfirst, hview, hdiffers, ?_, hresult, hworld ▸ hview'⟩
  rintro ⟨steps, hmoved, hkeeps⟩
  have hend := hkeeps _ (hmoved.1 ▸ after_mem_states _ steps) _ (List.mem_singleton.mpr rfl) _ _ hview
  rw [hsecond] at hend
  obtain ⟨hsame, -⟩ : data = [1] ∧ privateMode = 0o644 := by simpa using hend.symm.trans hview'
  exact hdiffers hsame

end Console
end CertRotation
