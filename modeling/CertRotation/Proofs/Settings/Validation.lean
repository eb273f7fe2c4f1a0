import CertRotation.Proofs.Renewal.Grammar
import CertRotation.Settings.Basic
import Mathlib.Data.Option.Basic

/-!
# Settings that are valid

Settings are valid if every installation has a file, a password and a threshold. Otherwise the error names the first
installation that has not, by its place, and the first field that is at fault. Taking paths relative to a directory changes
nothing but paths, and no path becomes empty by that or stops being so.
-/
namespace CertRotation

/-- An installation that has all that it needs. -/
structure Installation.Usable (i : Installation) : Prop where
  file : i.file ≠ ""
  password : i.password ≠ ""
  threshold : ∃ body t, Text.IsCore i.renewBefore.toList body ∧ Threshold.Denotes body t

namespace Settings

/-- The error for the first field at fault of the installation at a place. -/
inductive Offence (index : Nat) (i : Installation) : Error → Prop
  | file (empty : i.file = "") : Offence index i (.missing s!"installations[{index}].file")
  | password (file : i.file ≠ "") (empty : i.password = "") :
      Offence index i (.missing s!"installations[{index}].p12_password")
  | threshold {body : List Char} {fault : Threshold.Error} (file : i.file ≠ "") (password : i.password ≠ "")
      (core : Text.IsCore i.renewBefore.toList body) (refused : Threshold.Refused body fault) :
      Offence index i (.threshold s!"installations[{index}].renew_before" i.renewBefore fault)

section
variable {index : Nat} {i : Installation} {entries : List Entry} {x : Error}

/-! ## Validation -/

theorem key_eq (index : Nat) : key index "file" = s!"installations[{index}].file" ∧
    key index "p12_password" = s!"installations[{index}].p12_password" ∧
    key index "renew_before" = s!"installations[{index}].renew_before" := by
  have hfield : ∀ field tail : String, "]." ++ field = tail →
      key index field = "installations[" ++ index.repr ++ tail := by
    rintro field _ rfl
    exact String.append_assoc
  exact ⟨hfield _ _ (by decide), hfield _ _ (by decide), hfield _ _ (by decide)⟩

theorem validateAt_eq_ok : validateAt index i = .ok () ↔ i.Usable := by
  unfold validateAt
  rw [guard_eq_ok, guard_eq_ok]
  constructor
  · rintro ⟨hfile, hpassword, hrest⟩
    obtain ⟨t, ht, -⟩ := bind_eq_ok.mp hrest
    exact ⟨hfile, hpassword, (Threshold.parse_eq_ok.mp (mapError_eq_ok.mp ht)).imp fun _ h => ⟨t, h⟩⟩
  · rintro ⟨hfile, hpassword, body, t, hbody, ht⟩
    exact ⟨hfile, hpassword, bind_eq_ok.mpr ⟨t, mapError_eq_ok.mpr (Threshold.parse_of_denotes hbody ht), rfl⟩⟩

theorem validateAt_eq_error : validateAt index i = .error x ↔ Offence index i x := by
  obtain ⟨hfileKey, hpasswordKey, hthresholdKey⟩ := key_eq index
  unfold validateAt
  rw [guard_eq_error, guard_eq_error, hfileKey, hpasswordKey, hthresholdKey]
  constructor
  · rintro (⟨hempty, rfl⟩ | ⟨hfile, ⟨hempty, rfl⟩ | ⟨hpassword, hrest⟩⟩)
    · exact .file hempty
    · exact .password hfile hempty
    · have hthreshold := (bind_eq_error.mp hrest).resolve_right (by rintro ⟨t, -, ht⟩; cases ht)
      obtain ⟨fault, hparse, rfl⟩ := mapError_eq_error.mp hthreshold
      obtain ⟨body, hbody, hrefused⟩ := Threshold.parse_eq_error.mp hparse
      exact .threshold hfile hpassword hbody hrefused
  · intro h
    cases h with
    | file hempty => exact .inl ⟨hempty, rfl⟩
    | password hfile hempty => exact .inr ⟨hfile, .inl ⟨hempty, rfl⟩⟩
    | threshold hfile hpassword hbody hrefused =>
      refine .inr ⟨hfile, .inr ⟨hpassword, bind_eq_error.mpr (.inl (mapError_eq_error.mpr ⟨_, ?_, rfl⟩))⟩⟩
      exact Threshold.parse_of_refused hbody hrefused

theorem validateFrom_eq_ok : validateFrom index entries = .ok () ↔ ∀ e ∈ entries, e.installation.Usable := by
  induction entries generalizing index with
  | nil => simp [validateFrom]
  | cons e entries ih =>
    rw [validateFrom, bind_eq_ok, List.forall_mem_cons, ← ih, ← validateAt_eq_ok]
    constructor
    · rintro ⟨_, hfirst, hrest⟩
      exact ⟨hfirst, hrest⟩
    · exact fun h => ⟨(), h⟩

/-- Validation stops at the first installation that lacks something. -/
theorem validateFrom_eq_error : validateFrom index entries = .error x ↔ ∃ before e after,
    entries = before ++ e :: after ∧ (∀ d ∈ before, d.installation.Usable) ∧
      Offence (index + before.length) e.installation x := by
  induction entries generalizing index with
  | nil => simp [validateFrom]
  | cons e entries ih =>
    rw [validateFrom, bind_eq_error, validateAt_eq_error]
    constructor
    · rintro (hfirst | ⟨u, hfirst, hrest⟩)
      · exact ⟨[], e, entries, rfl, List.forall_mem_nil _, hfirst⟩
      · obtain ⟨before, d, after, rfl, hbefore, hoffence⟩ := ih.mp hrest
        refine ⟨e :: before, d, after, rfl, List.forall_mem_cons.mpr ⟨validateAt_eq_ok.mp hfirst, hbefore⟩, ?_⟩
        rwa [List.length_cons, Nat.add_comm before.length, ← Nat.add_assoc]
    · rintro ⟨before, d, after, heq, hbefore, hoffence⟩
      cases before with
      | nil =>
        obtain ⟨rfl, rfl⟩ := List.cons.inj heq
        exact .inl hoffence
      | cons d' before =>
        obtain ⟨rfl, rfl⟩ := List.cons.inj heq
        obtain ⟨hfirst, hbefore⟩ := List.forall_mem_cons.mp hbefore
        refine .inr ⟨(), validateAt_eq_ok.mpr hfirst, ih.mpr ⟨before, d, after, rfl, hbefore, ?_⟩⟩
        rwa [List.length_cons, Nat.add_comm before.length, ← Nat.add_assoc] at hoffence

example : validate ⟨[⟨{ file := "a", password := "b" }, none⟩, ⟨{ file := "c" }, none⟩]⟩ =
    .error (.missing "installations[1].p12_password") := by decide

/-! ## Relative paths -/

/-- A path that stays as it is if it is absolute or empty. -/
def Kept (path path' : String) : Prop := Path.isAbsolute path = true ∨ path = "" → path' = path

/-- Two entries that differ in paths only, and in those only where a path is relative. -/
structure DifferInPaths (e e' : Entry) : Prop where
  installation : e'.installation = { e.installation with file := e'.installation.file }
  file : Kept e.installation.file e'.installation.file
  source : Option.Rel (fun s s' => Kept s.certificate s'.certificate ∧ Option.Rel Kept s.privateKey s'.privateKey ∧
    Option.Rel Kept s.chain s'.chain ∧ s'.keyPassword = s.keyPassword) e.source e'.source

theorem kept_resolvePath (base path : String) : Kept path (resolvePath base path) := fun h => if_pos h

theorem rel_map_self {α : Type} {R : α → α → Prop} {f : α → α} (h : ∀ a, R a (f a)) (o : Option α) :
    Option.Rel R o (o.map f) := by
  cases o with
  | none => exact .none
  | some a => exact .some (h a)

theorem differInPaths_resolveEntry (base : String) (e : Entry) : DifferInPaths e (resolveEntry base e) := by
  refine ⟨rfl, kept_resolvePath base _, rel_map_self (fun s => ?_) e.source⟩
  exact ⟨kept_resolvePath base _, rel_map_self (kept_resolvePath base) _, rel_map_self (kept_resolvePath base) _, rfl⟩

theorem differInPaths_resolve (base : String) (s : Settings) :
    List.Forall₂ DifferInPaths s.installations (s.resolve base).installations :=
  List.forall₂_map_right_iff.mpr (List.forall₂_same.mpr fun e _ => differInPaths_resolveEntry base e)

theorem join_ne_empty {base path : String} (h : path ≠ "") : Path.join base path ≠ "" := by
  unfold Path.join
  split
  · exact h
  · split
    · exact fun hempty => h (String.append_eq_empty_iff.mp hempty).2
    · exact fun hempty => h (String.append_eq_empty_iff.mp hempty).2

/-- A path is empty exactly if it was. -/
theorem resolvePath_eq_empty {base path : String} : resolvePath base path = "" ↔ path = "" := by
  unfold resolvePath
  split
  · rfl
  · next hrelative =>
    have hpath : path ≠ "" := fun hempty => hrelative (.inr hempty)
    exact ⟨fun hjoin => absurd hjoin (join_ne_empty hpath), fun hempty => absurd hempty hpath⟩

theorem validateAt_resolveEntry (base : String) (e : Entry) :
    validateAt index (resolveEntry base e).installation = validateAt index e.installation := by
  have hfile : (resolveEntry base e).installation.file = "" ↔ e.installation.file = "" := resolvePath_eq_empty
  unfold validateAt
  by_cases h : e.installation.file = ""
  · rw [if_pos h, if_pos (hfile.mpr h)]
    rfl
  · rw [if_neg h, if_neg (mt hfile.mp h)]
    rfl

/-- Paths may be resolved before settings are validated or after that. -/
theorem validate_resolve (base : String) (s : Settings) : (s.resolve base).validate = s.validate := by
  have hfrom : ∀ index, validateFrom index (s.installations.map (resolveEntry base)) =
      validateFrom index s.installations := by
    induction s.installations with
    | nil => exact fun _ => rfl
    | cons e entries ih => exact fun index => by rw [List.map_cons, validateFrom, validateFrom, validateAt_resolveEntry, ih]
  exact hfrom 0

end
end Settings
end CertRotation
