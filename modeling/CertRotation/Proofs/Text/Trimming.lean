import Mathlib.Data.List.DropRight
import Mathlib.Data.List.TakeWhile
import CertRotation.Text.Blank

/-!
# Trimmed text

Trimming takes the blanks from both ends and nothing else. What is left is the one part of the text that neither begins
nor ends with a blank and has nothing but blanks around it.
-/
namespace CertRotation.Text

theorem trimChars_eq_rdropWhile (cs : List Char) : trimChars cs = (cs.dropWhile isBlank).rdropWhile isBlank := rfl

/-- Trimming takes blanks from both ends. -/
theorem exists_trimChars (cs : List Char) : ∃ front back, cs = front ++ trimChars cs ++ back ∧
    (∀ c ∈ front, isBlank c = true) ∧ ∀ c ∈ back, isBlank c = true := by
  refine ⟨cs.takeWhile isBlank, (cs.dropWhile isBlank).rtakeWhile isBlank, ?_, fun c hc => List.mem_takeWhile_imp hc,
    fun c hc => List.mem_rtakeWhile_imp hc⟩
  rw [trimChars_eq_rdropWhile, List.append_assoc, List.rdropWhile_append_rtakeWhile, List.takeWhile_append_dropWhile]

theorem mem_trimChars {cs : List Char} {c : Char} (hc : c ∈ cs) (hblank : isBlank c = false) : c ∈ trimChars cs := by
  obtain ⟨front, back, hsplit, hfront, hback⟩ := exists_trimChars cs
  rw [hsplit, List.append_assoc, List.mem_append, List.mem_append] at hc
  obtain hc | hc | hc := hc
  · simp [hfront c hc] at hblank
  · exact hc
  · simp [hback c hc] at hblank

theorem mem_of_mem_trimChars {cs : List Char} {c : Char} (hc : c ∈ trimChars cs) : c ∈ cs := by
  obtain ⟨front, back, hsplit, -⟩ := exists_trimChars cs
  rw [hsplit]
  simp [hc]

theorem isBlank_head_trimChars {cs : List Char} {c : Char} (h : c ∈ (trimChars cs).head?) : isBlank c = false := by
  obtain ⟨back, hback⟩ : trimChars cs <+: cs.dropWhile isBlank := List.rdropWhile_prefix _ _
  have := List.head?_dropWhile_not isBlank cs
  rw [← hback, List.head?_append, Option.mem_def.mp h] at this
  simpa using this

theorem exists_trimChars_snoc {cs : List Char} (h : trimChars cs ≠ []) :
    ∃ front c, trimChars cs = front ++ [c] ∧ isBlank c = false := by
  have hlast : ¬ isBlank ((trimChars cs).getLast h) = true := List.rdropWhile_last_not isBlank (cs.dropWhile isBlank) h
  exact ⟨_, _, (List.dropLast_append_getLast h).symm, by simpa using hlast⟩

theorem trimChars_append_of_blank {front back : List Char} (hfront : ∀ c ∈ front, isBlank c = true)
    (hback : ∀ c ∈ back, isBlank c = true) (cs : List Char) : trimChars (front ++ cs ++ back) = trimChars cs := by
  have hend : ∀ text, (text ++ back).rdropWhile isBlank = text.rdropWhile isBlank := fun text => by
    rw [List.rdropWhile, List.reverse_append, List.dropWhile_append_of_pos fun c hc => hback c (List.mem_reverse.mp hc),
      List.rdropWhile]
  rw [trimChars_eq_rdropWhile, trimChars_eq_rdropWhile, List.append_assoc, List.dropWhile_append_of_pos hfront,
    List.dropWhile_append]
  split
  · next hnil =>
    rw [List.isEmpty_iff.mp hnil, List.dropWhile_eq_nil_iff.mpr hback]
  · exact hend _

/-- `body` is `cs` but for the blanks at both ends. -/
structure IsCore (cs body : List Char) : Prop where
  split : ∃ front back, cs = front ++ body ++ back ∧ (∀ c ∈ front, isBlank c = true) ∧ ∀ c ∈ back, isBlank c = true
  head : ∀ c ∈ body.head?, isBlank c = false
  last : ∀ c ∈ body.getLast?, isBlank c = false

theorem trimChars_eq_self {body : List Char} (head : ∀ c ∈ body.head?, isBlank c = false)
    (last : ∀ c ∈ body.getLast?, isBlank c = false) : trimChars body = body := by
  have hfront : body.dropWhile isBlank = body := by
    cases body with
    | nil => rfl
    | cons c rest => rw [List.dropWhile_cons_of_neg (by simp [head c rfl])]
  rw [trimChars_eq_rdropWhile, hfront, List.rdropWhile_eq_self_iff]
  intro hne
  simp [last _ (List.getLast?_eq_some_getLast hne)]

theorem isCore_iff {cs body : List Char} : IsCore cs body ↔ body = trimChars cs := by
  constructor
  · rintro ⟨⟨front, back, rfl, hfront, hback⟩, head, last⟩
    rw [trimChars_append_of_blank hfront hback, trimChars_eq_self head last]
  · rintro rfl
    refine ⟨exists_trimChars cs, fun c hc => isBlank_head_trimChars hc, fun c hc => ?_⟩
    have hne : trimChars cs ≠ [] := by
      intro hnil
      simp [hnil] at hc
    obtain ⟨front, d, hsnoc, hd⟩ := exists_trimChars_snoc hne
    obtain rfl : d = c := by simpa [hsnoc] using hc
    exact hd

end CertRotation.Text
