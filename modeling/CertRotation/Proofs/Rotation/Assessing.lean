import CertRotation.Console.Run
import CertRotation.Proofs.Certificate.Validity

/-!
# The renewal decision on every state

Assessing looks and changes nothing. A file that is there is never taken for missing, so that only a bundle that is
due, or the absence of any, leads to an installation.
-/
namespace CertRotation.Installation
open Rotation

/-- A regular file with these contents stands at `file`, links followed. -/
def HasFile (t : FileTree) (file : String) (contents : Bytes) : Prop :=
  ∃ place mode, t.stat file = .ok (place, .file contents mode)

/-- Nothing stands at `file`, or something other than a regular file. -/
def HasNoFile (t : FileTree) (file : String) : Prop :=
  t.stat file = .error .notFound ∨ ∃ place n, t.stat file = .ok (place, n) ∧ ∀ b m, n ≠ .file b m

/-- There is a file, or none, or its path cannot be followed. -/
theorem hasFile_or (t : FileTree) (file : String) :
    (∃ b, HasFile t file b) ∨ HasNoFile t file ∨ ∃ e, e ≠ .notFound ∧ t.stat file = .error e := by
  cases hstat : t.stat file with
  | error e =>
    by_cases he : e = .notFound
    · exact .inr (.inl (.inl (by rw [hstat, he])))
    · exact .inr (.inr ⟨e, he, rfl⟩)
  | ok p =>
    obtain ⟨place, n⟩ := p
    cases n with
    | file b m => exact .inl ⟨b, place, m, hstat⟩
    | directory => exact .inr (.inl (.inr ⟨place, .directory, hstat, by simp⟩))
    | link target => exact .inr (.inl (.inr ⟨place, .link target, hstat, by simp⟩))

theorem fileExists_of_hasFile {t : FileTree} {file : String} {b : Bytes} (h : HasFile t file b) :
    t.fileExists file = .ok true := by
  obtain ⟨place, mode, hstat⟩ := h
  simp [FileTree.fileExists, hstat]

theorem fileExists_of_hasNoFile {t : FileTree} {file : String} (h : HasNoFile t file) :
    t.fileExists file = .ok false := by
  rcases h with hstat | ⟨place, n, hstat, hn⟩
  · simp [FileTree.fileExists, hstat]
  · cases n with
    | file b m => exact absurd rfl (hn b m)
    | directory => simp [FileTree.fileExists, hstat]
    | link target => simp [FileTree.fileExists, hstat]

theorem fileExists_of_fault {t : FileTree} {file : String} {e : Files.Fault} (he : e ≠ .notFound)
    (h : t.stat file = .error e) : t.fileExists file = .error e := by
  cases e <;> simp_all [FileTree.fileExists]

theorem read_of_hasFile {t : FileTree} {file : String} {b : Bytes} (h : HasFile t file b) : t.read file = .ok b := by
  obtain ⟨place, mode, hstat⟩ := h
  simp [FileTree.read, hstat, bind, Except.bind, pure, Except.pure]

/-! ## The decision -/

/-- The decision about the octets of a file: every fault in them is an error. -/
def decision (i : Installation) (t : Threshold) (now : Instant) (contents : Bytes) : Except Error Assessment :=
  match Bundle.decode contents i.password with
  | .error e => .error (.bundle e)
  | .ok b =>
    match b.leafSummary with
    | .error e => .error (.bundle e)
    | .ok c =>
      if c.notAfter.nanos ≤ now.nanos + t.windowFor c * 1000000000 then .ok (.renewalDue c) else .ok (.valid c)

/-- The leaf of a bundle expires before the calendar ends, so that the decision about it is that of unbounded numbers. -/
theorem isDue_leafSummary {b : Bundle} {c : Certificate.Summary} (h : b.leafSummary = .ok c) (t : Threshold)
    (now : Instant) : t.isDue c now = true ↔ c.notAfter.nanos ≤ now.nanos + t.windowFor c * 1000000000 :=
  Threshold.isDue_iff (Certificate.representable_of_summary (mapError_eq_ok.mp h)).2.1.2

theorem assess_of_parse_error {i : Installation} {text : String} {e : Threshold.Error} (now : Instant) (t : FileTree)
    (h : Threshold.parse text = .error e) :
    i.assess text now t = .error (.settings (.threshold "renew_before" text e)) := by
  simp [assess, Settings.parseThreshold, h, Except.mapError, bind, Except.bind]

section
variable {i : Installation} {text : String} {threshold : Threshold} {now : Instant} {t : FileTree}
variable (h : Threshold.parse text = .ok threshold)
include h

theorem assess_of_hasNoFile (hf : HasNoFile t i.file) : i.assess text now t = .ok .missing := by
  simp [assess, Settings.parseThreshold, h, fileExists_of_hasNoFile hf, Files.about, Except.mapError, bind,
    Except.bind, pure, Except.pure]

theorem assess_of_fault {e : Files.Fault} (he : e ≠ .notFound) (hf : t.stat i.file = .error e) :
    i.assess text now t = .error (.files ⟨i.file, e⟩) := by
  simp [assess, Settings.parseThreshold, h, fileExists_of_fault he hf, Files.about, Except.mapError, bind,
    Except.bind]

theorem assess_of_hasFile {b : Bytes} (hf : HasFile t i.file b) :
    i.assess text now t = i.decision threshold now b := by
  simp only [assess, Settings.parseThreshold, h, fileExists_of_hasFile hf, Files.about, Except.mapError, bind,
    Except.bind, if_true, read, read_of_hasFile hf, decision]
  cases Bundle.decode b i.password with
  | error e => rfl
  | ok d =>
    dsimp only
    cases hleaf : d.leafSummary with
    | error e => rfl
    | ok c =>
      simp only [Assessment.ofSummary, isDue_leafSummary hleaf, pure, Except.pure]
      split <;> rfl

end

/-- The exit code that goes with an assessment: ten if an installation is needed, one for an error. -/
def exitCode : Except Error Assessment → Nat
  | .ok a => if a.needsInstall then 10 else 0
  | .error _ => 1

section
variable {now : Instant} {w : World} {file : String} (password text : String) (json : Bool)

end

end CertRotation.Installation
