import CertRotation.Proofs.Files.Places
import CertRotation.Proofs.Settings.Validation
import CertRotation.Settings.Reading

/-!
# Settings that are not found

A file of settings is missing, or something stands there that is no text, or it is text. Settings are said not to be found in
the first two cases alike, and in no other: whatever else is wrong with a text, it is never taken for a missing file. Where
no path is given only a missing file counts as empty settings.
-/
namespace CertRotation

/-! ## What stands at a path -/

namespace FileTree
open Files

/-- Nothing exists at the path, links followed. -/
def Missing (t : FileTree) (path : String) : Prop := ∀ n, t.view path ≠ .ok n

/-- Something exists at the path that cannot be read as text: a directory, or a file that is not UTF-8. -/
def Unreadable (t : FileTree) (path : String) : Prop :=
  t.view path = .ok .directory ∨ ∃ b m, t.view path = .ok (.file b m) ∧ Utf8.decode? b = none

/-- A text stands at the path. -/
def HoldsText (t : FileTree) (path text : String) : Prop :=
  ∃ b m, t.view path = .ok (.file b m) ∧ Utf8.decode? b = some text

section
variable {t : FileTree} {path text : String}

theorem view_ne_link (target : String) : t.view path ≠ .ok (.link target) := by
  intro h
  obtain ⟨l, hstat⟩ := view_eq_ok.mp h
  exact walk_ne_link t _ _ _ _ l target (stat_eq_ok.mp hstat).2

theorem readText_eq_ok_iff : t.readText path = .ok text ↔ t.HoldsText path text := by
  rw [readText_eq_ok]
  constructor
  · rintro ⟨l, b, m, hstat, htext⟩
    exact ⟨b, m, view_eq_ok.mpr ⟨l, hstat⟩, htext⟩
  · rintro ⟨b, m, hview, htext⟩
    obtain ⟨l, hstat⟩ := view_eq_ok.mp hview
    exact ⟨l, b, m, hstat, htext⟩

/-- There are no other cases. -/
theorem missing_or_unreadable_or_text (t : FileTree) (path : String) :
    t.Missing path ∨ t.Unreadable path ∨ ∃ text, t.HoldsText path text := by
  cases hview : t.view path with
  | error e => exact .inl fun n hn => by rw [hview] at hn; cases hn
  | ok n =>
    cases n with
    | directory => exact .inr (.inl (.inl hview))
    | link target => exact absurd hview (view_ne_link target)
    | file b m =>
      cases htext : Utf8.decode? b with
      | none => exact .inr (.inl (.inr ⟨b, m, hview, htext⟩))
      | some text => exact .inr (.inr ⟨text, b, m, hview, htext⟩)

theorem Unreadable.not_missing (h : t.Unreadable path) : ¬ t.Missing path := by
  intro hmissing
  cases h with
  | inl hdirectory => exact hmissing _ hdirectory
  | inr hfile =>
    obtain ⟨b, m, hview, -⟩ := hfile
    exact hmissing _ hview

theorem HoldsText.not_missing (h : t.HoldsText path text) : ¬ t.Missing path := by
  obtain ⟨b, m, hview, -⟩ := h
  exact fun hmissing => hmissing _ hview

theorem HoldsText.not_unreadable (h : t.HoldsText path text) : ¬ t.Unreadable path := by
  obtain ⟨b, m, hview, htext⟩ := h
  rintro (hdirectory | ⟨c, k, hfile, hnone⟩)
  · cases hdirectory.symm.trans hview
  · cases hfile.symm.trans hview
    cases hnone.symm.trans htext

/-- What exists is unreadable exactly if reading it as text fails. -/
theorem unreadable_iff : t.Unreadable path ↔ ¬ t.Missing path ∧ ∃ e, t.readText path = .error e := by
  constructor
  · intro h
    refine ⟨h.not_missing, ?_⟩
    cases hread : t.readText path with
    | error e => exact ⟨e, rfl⟩
    | ok text => exact absurd h (readText_eq_ok_iff.mp hread).not_unreadable
  · rintro ⟨hthere, e, hread⟩
    rcases missing_or_unreadable_or_text t path with h | h | ⟨text, h⟩
    · exact absurd h hthere
    · exact h
    · cases hread.symm.trans (readText_eq_ok_iff.mpr h)

theorem exists?_eq_true : t.exists? path = true ↔ ¬ t.Missing path := by
  unfold exists? Missing view
  cases t.stat path with
  | error e => simp [Except.map]
  | ok r => simp [Except.map]

/-- A path at which nothing exists cannot be followed, or it leads to a name that is free. -/
theorem missing_iff : t.Missing path ↔
    (∃ e, t.resolve path = .error e) ∨ ∃ d name, t.resolve path = .ok (.absent d name) := by
  unfold Missing view stat
  cases t.resolve path with
  | error e => simp [Bind.bind, Except.bind, Except.map]
  | ok r =>
    cases r with
    | present l n => simp [Bind.bind, Except.bind, Except.map, Pure.pure, Except.pure]
    | absent d name => simp [Bind.bind, Except.bind, Except.map, throw, throwThe, MonadExceptOf.throw]

end
end FileTree

/-! ## Settings -/

namespace Settings
open FileTree

/-- The settings that a text at `path` stands for. -/
def fromText (path text : String) : Except Error Settings := do
  let s ← parse text
  let s := match Path.parent? path with
    | some base => s.resolve base
    | none => s
  s.validate
  pure s

section
variable {t : FileTree} {path text : String}

theorem faults_parse : Faults (· = .malformed) (parse text) := by
  unfold parse
  split
  · exact .ok _
  · exact .error rfl

theorem faults_validate (s : Settings) : Faults (∀ q, · ≠ .notFound q) s.validate := by
  intro x hx q
  obtain ⟨before, e, after, -, -, hoffence⟩ := validateFrom_eq_error.mp hx
  cases hoffence <;> simp

/-- Whatever is wrong with a text, the file is there. -/
theorem faults_fromText : Faults (∀ q, · ≠ .notFound q) (fromText path text) := by
  refine Faults.bind (fun x hx q => ?_) fun s => (faults_validate _).bind fun _ => .ok _
  rw [faults_parse x hx]
  simp

theorem load_of_text (h : t.HoldsText path text) : load t (some path) = fromText path text := by
  simp only [load, loadFile, readText_eq_ok_iff.mpr h, fromText]
  cases parse text with
  | error e => rfl
  | ok s => cases Path.parent? path <;> rfl

theorem load_of_fault {e : Files.Fault} (h : t.readText path = .error e) :
    load t (some path) = .error (.notFound path) := by
  simp only [load, loadFile, h]
  rfl

theorem load_of_missing (h : t.Missing path) : load t (some path) = .error (.notFound path) := by
  cases hread : t.readText path with
  | error e => exact load_of_fault hread
  | ok text => exact absurd h (readText_eq_ok_iff.mp hread).not_missing

theorem load_of_unreadable (h : t.Unreadable path) : load t (some path) = .error (.notFound path) := by
  obtain ⟨-, e, hread⟩ := unreadable_iff.mp h
  exact load_of_fault hread

/-- Two of the three cases end in the same error. -/
theorem load_notFound_iff {q : String} :
    load t (some path) = .error (.notFound q) ↔ q = path ∧ (t.Missing path ∨ t.Unreadable path) := by
  constructor
  · intro h
    rcases missing_or_unreadable_or_text t path with hmissing | hunreadable | ⟨text, htext⟩
    · rw [load_of_missing hmissing] at h
      cases h
      exact ⟨rfl, .inl hmissing⟩
    · rw [load_of_unreadable hunreadable] at h
      cases h
      exact ⟨rfl, .inr hunreadable⟩
    · rw [load_of_text htext] at h
      exact absurd rfl (faults_fromText _ h q)
  · rintro ⟨rfl, hmissing | hunreadable⟩
    · exact load_of_missing hmissing
    · exact load_of_unreadable hunreadable

theorem load_none : load t none = if t.exists? defaultPath then load t (some defaultPath) else .ok ⟨[]⟩ := by
  cases hexists : t.exists? defaultPath with
  | true =>
    rw [if_pos rfl, load, load, hexists]
    rfl
  | false =>
    rw [if_neg (by simp), load, hexists]
    rfl

theorem load_none_of_missing (h : t.Missing defaultPath) : load t none = .ok ⟨[]⟩ := by
  rw [load_none, if_neg (mt exists?_eq_true.mp (not_not_intro h))]

theorem load_none_of_not_missing (h : ¬ t.Missing defaultPath) : load t none = load t (some defaultPath) := by
  rw [load_none, if_pos (exists?_eq_true.mpr h)]

end

/-- Settings at a path are said not to be found exactly if nothing exists there or what exists cannot be read as text, which
is a directory or a file that is not UTF-8; a text is judged by what it says. Where no path is given, settings are empty
without a file exactly if nothing exists at the default path, and otherwise they are those at the default path. -/
theorem load_verdicts (t : FileTree) :
    (∀ path, t.Missing path ∨ t.Unreadable path ∨ ∃ text, t.HoldsText path text) ∧
    (∀ path, t.Missing path ↔
      (∃ e, t.resolve path = .error e) ∨ ∃ d name, t.resolve path = .ok (.absent d name)) ∧
    (∀ path, t.Unreadable path ↔ ¬ t.Missing path ∧ ∃ e, t.readText path = .error e) ∧
    (∀ path q, load t (some path) = .error (.notFound q) ↔ q = path ∧ (t.Missing path ∨ t.Unreadable path)) ∧
    (∀ path text, t.HoldsText path text → load t (some path) = fromText path text) ∧
    (∀ path text q, fromText path text ≠ .error (.notFound q)) ∧
    (t.Missing defaultPath → load t none = .ok ⟨[]⟩) ∧
    (¬ t.Missing defaultPath → load t none = load t (some defaultPath)) ∧
    ∀ q, load t none = .error (.notFound q) ↔ q = defaultPath ∧ t.Unreadable defaultPath := by
  refine ⟨missing_or_unreadable_or_text t, fun path => missing_iff, fun path => unreadable_iff, fun path q => load_notFound_iff,
    fun path text => load_of_text, fun path text q h => faults_fromText _ h q rfl, load_none_of_missing,
    load_none_of_not_missing, fun q => ?_⟩
  constructor
  · intro h
    have hthere : ¬ t.Missing defaultPath := fun hmissing => by cases (load_none_of_missing hmissing).symm.trans h
    rw [load_none_of_not_missing hthere] at h
    obtain ⟨rfl, hverdict⟩ := load_notFound_iff.mp h
    exact ⟨rfl, hverdict.resolve_left hthere⟩
  · rintro ⟨rfl, hunreadable⟩
    rw [load_none_of_not_missing hunreadable.not_missing]
    exact load_of_unreadable hunreadable

/-! ## Files that were laid out -/

/-- Something other than a link at the default path is what is seen there. -/
theorem view_defaultPath {t : FileTree} {n : Node} (hworking : t.working = [])
    (hdirectory : t.node? ["config"] = some .directory) (hn : t.node? ["config", "installer.toml"] = some n)
    (hlink : ∀ target, n ≠ .link target) : t.view defaultPath = .ok n := by
  have hstart : t.start defaultPath = [] := by simp [start, hworking]
  have hnames : Path.names defaultPath = ["config", "installer.toml"] := by decide
  have hslash : Path.endsWithSlash defaultPath = false := by decide
  have hshort : ¬ maxName < "config".utf8ByteSize ∧ ¬ maxName < "installer.toml".utf8ByteSize := by decide
  cases n with
  | link target => exact absurd rfl (hlink target)
  | directory =>
    refine view_eq_ok.mpr ⟨["config", "installer.toml"], stat_eq_ok.mpr ⟨by decide, ?_⟩⟩
    simp [hstart, hnames, walk, hshort, hdirectory, hn]
  | file b m =>
    refine view_eq_ok.mpr ⟨["config", "installer.toml"], stat_eq_ok.mpr ⟨by decide, ?_⟩⟩
    simp [hstart, hnames, hslash, walk, hshort, hdirectory, hn]

/-- A working directory with an empty file at the default path. -/
def plain : FileTree := ⟨[(["config"], .directory), (["config", "installer.toml"], .file [] 0o644)], []⟩

/-- A working directory in which files of settings are directories, or no text. -/
def spoilt : FileTree :=
  ⟨[(["app.toml"], .directory), (["old.toml"], .file [0xff] 0o644), (["config"], .directory),
    (["config", "installer.toml"], .directory)], []⟩

theorem load_verdicts_plain :
    (plain.HoldsText defaultPath "" ∧ load plain (some defaultPath) = fromText defaultPath "") ∧
    (¬ plain.Missing defaultPath ∧ load plain none = load plain (some defaultPath)) ∧
    (FileTree.Missing ⟨[], []⟩ defaultPath ∧ load ⟨[], []⟩ none = .ok ⟨[]⟩) := by
  obtain ⟨-, -, -, -, htext, -, -, hthere, -⟩ := load_verdicts plain
  obtain ⟨-, hmissing, -, -, -, -, hnone, -, -⟩ := load_verdicts ⟨[], []⟩
  have hplain : plain.HoldsText defaultPath "" :=
    ⟨[], 0o644, view_defaultPath rfl rfl rfl (by simp), by simp [Utf8.decode?, Utf8.scan]⟩
  have hbare : FileTree.Missing ⟨[], []⟩ defaultPath := by
    refine (hmissing defaultPath).mpr (.inl ⟨.notFound, ?_⟩)
    have hnames : Path.names defaultPath = ["config", "installer.toml"] := by decide
    have hshort : ¬ maxName < "config".utf8ByteSize := by decide
    have hcheck : check defaultPath = .ok () := by decide
    simp [FileTree.resolve, hcheck, hnames, walk, hshort, start, node?, Bind.bind, Except.bind]
  exact ⟨⟨hplain, htext _ _ hplain⟩, ⟨hplain.not_missing, hthere hplain.not_missing⟩, hbare, hnone hbare⟩

theorem view_spoilt : spoilt.view "app.toml" = .ok .directory ∧ spoilt.view "old.toml" = .ok (.file [0xff] 0o644) ∧
    spoilt.view defaultPath = .ok .directory := by
  refine ⟨view_eq_ok.mpr ⟨["app.toml"], stat_eq_ok.mpr ⟨by decide, ?_⟩⟩, ?_, view_defaultPath rfl rfl rfl (by simp)⟩
  · have hnames : Path.names "app.toml" = ["app.toml"] := by decide
    have hshort : ¬ maxName < "app.toml".utf8ByteSize := by decide
    simp [hnames, walk, hshort, start, node?, spoilt]
  · have hname : SingleName "old.toml" := by decide
    exact view_eq_ok.mpr ⟨_, hname.stat rfl rfl⟩

/-- Directories and files that are no text are said not to be found, though they exist. -/
theorem unreadable_said_missing :
    (¬ spoilt.Missing "app.toml" ∧ load spoilt (some "app.toml") = .error (.notFound "app.toml")) ∧
    (¬ spoilt.Missing "old.toml" ∧ load spoilt (some "old.toml") = .error (.notFound "old.toml")) ∧
    (¬ spoilt.Missing defaultPath ∧ load spoilt none = .error (.notFound defaultPath)) := by
  obtain ⟨happ, hold, hdefault⟩ := view_spoilt
  have hnotText : Utf8.decode? [0xff] = none := by simp [Utf8.decode?, Utf8.scan, Utf8.next, Utf8.lead]
  have happ : spoilt.Unreadable "app.toml" := .inl happ
  have hold : spoilt.Unreadable "old.toml" := .inr ⟨_, _, hold, hnotText⟩
  have hdefault : spoilt.Unreadable defaultPath := .inl hdefault
  refine ⟨⟨happ.not_missing, load_of_unreadable happ⟩, ⟨hold.not_missing, load_of_unreadable hold⟩,
    hdefault.not_missing, ?_⟩
  rw [load_none_of_not_missing hdefault.not_missing, load_of_unreadable hdefault]

end Settings
end CertRotation
