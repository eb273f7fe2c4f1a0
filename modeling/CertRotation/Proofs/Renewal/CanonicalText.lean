import CertRotation.Proofs.Renewal.Grammar

/-!
# The text of a threshold

A threshold has many texts, and `Threshold.text` writes one of them: a window in the largest unit that divides it, without
zeros in front and without blanks. Weeks are read but never written. What has been read is written so that it is read back,
and two thresholds are told apart by what is written.
-/
namespace CertRotation.Threshold

/-- The units that are written, with their seconds, the largest first. -/
def writtenUnits : List (Char × Nat) := [('d', 86400), ('h', 3600), ('m', 60), ('s', 1)]

/-- What a text can denote. -/
def InRange : Threshold → Prop
  | window n => n ≤ 36500 * 86400
  | percentage p => p ≤ 100

variable {t : Threshold} {text : String} {body : List Char}

theorem Denotes.inRange (h : Denotes body t) : t.InRange := by
  cases h with
  | window number letter short => exact short
  | percentage number share => exact share

/-- A unit or a digit at its end is no blank, so that nothing is trimmed. -/
theorem Denotes.isCore (h : Denotes body t) : Text.IsCore body body := by
  have hdigit : ∀ c : Char, c.isDigit = true → Text.isBlank c = false := by
    refine forall_char (by decide) fun c hc hdigit => ?_
    have hle : c.val ≤ '9'.val := (isDigit_iff.mp hdigit).2
    rw [UInt32.le_iff_toNat_le] at hle
    exact absurd (hc.trans hle) (by decide)
  have hsplit : ∃ digits unit n, body = digits ++ [unit] ∧ Spells digits n ∧ Text.isBlank unit = false := by
    cases h with
    | @window digits unit n k number letter short =>
      have hunits : ∀ u ∈ units, Text.isBlank u.1 = false := by decide
      exact ⟨digits, unit, n, rfl, number, hunits (unit, k) letter⟩
    | @percentage digits n number share => exact ⟨digits, '%', n, rfl, number, by decide⟩
  obtain ⟨digits, unit, n, rfl, number, hunit⟩ := hsplit
  refine ⟨⟨[], [], by simp, by simp, by simp⟩, fun c hc => hdigit c ?_, fun c hc => ?_⟩
  · rw [List.head?_append_of_ne_nil _ number.ne_nil] at hc
    exact isDigit_iff.mpr (number.digit c (List.mem_of_mem_head? hc))
  · rw [List.getLast?_concat] at hc
    exact Option.some.inj hc ▸ hunit

/-! ## Numbers and units as they are written -/

theorem spells_toDigits (n : Nat) : Spells (Nat.toDigits 10 n) n := by
  have hdigit : ∀ c ∈ Nat.toDigits 10 n, c.isDigit = true := fun c hc =>
    Nat.isDigit_of_mem_toDigits (by decide) (by decide) hc
  exact spells_iff.mpr ⟨isNumber_iff.mpr ⟨Nat.toDigits_ne_nil, hdigit⟩, Nat.ofDigitChars_ten_toDigits.symm⟩

theorem toList_numbered (n : Nat) (unit : Char) :
    (toString n ++ toString unit).toList = Nat.toDigits 10 n ++ [unit] := by
  have hunit : (toString unit).toList = [unit] := String.toList_singleton unit
  rw [String.toList_append, hunit, Nat.toString_eq_ofList_toDigits, String.toList_ofList]

/-- A window is written in the largest unit that divides it. -/
theorem text_window (n : Nat) : ∃ unit k, (unit, k) ∈ writtenUnits ∧ k ∣ n ∧ (∀ u ∈ writtenUnits, u.2 ∣ n → u.2 ≤ k) ∧
    (window n).text = toString (n / k) ++ toString unit := by
  simp only [Nat.dvd_iff_mod_eq_zero]
  by_cases hd : n % 86400 = 0
  · exact ⟨'d', 86400, by decide, hd, by simp [writtenUnits], by rw [Threshold.text, if_pos hd]; rfl⟩
  by_cases hh : n % 3600 = 0
  · exact ⟨'h', 3600, by decide, hh, by simp [writtenUnits, hd], by rw [Threshold.text, if_neg hd, if_pos hh]; rfl⟩
  by_cases hm : n % 60 = 0
  · exact ⟨'m', 60, by decide, hm, by simp [writtenUnits, hd, hh],
      by rw [Threshold.text, if_neg hd, if_neg hh, if_pos hm]; rfl⟩
  · exact ⟨'s', 1, by decide, Nat.mod_one n, by simp [writtenUnits, hd, hh, hm],
      by rw [Threshold.text, if_neg hd, if_neg hh, if_neg hm, Nat.div_one]; rfl⟩

theorem denotes_text (h : t.InRange) : Denotes t.text.toList t := by
  cases t with
  | window n =>
    obtain ⟨unit, k, hunit, hdvd, -, htext⟩ := text_window n
    have hletter : (unit, k) ∈ units := (by decide : ∀ u ∈ writtenUnits, u ∈ units) _ hunit
    have hn : n / k * k = n := Nat.div_mul_cancel hdvd
    have hdenotes := Denotes.window (spells_toDigits (n / k)) hletter (hn.symm ▸ h)
    rwa [hn, ← toList_numbered, ← htext] at hdenotes
  | percentage p =>
    have hdenotes := Denotes.percentage (spells_toDigits p) h
    rwa [← toList_numbered] at hdenotes

/-- What is written is read back. -/
theorem parse_text (h : t.InRange) : parse t.text = .ok t :=
  parse_of_denotes (denotes_text h).isCore (denotes_text h)

theorem inRange_of_parse (h : parse text = .ok t) : t.InRange := by
  obtain ⟨body, -, hdenotes⟩ := parse_eq_ok.mp h
  exact hdenotes.inRange

/-- Of all texts of a threshold one is written. It is read back as the same threshold, texts denote the same exactly if the
same is written for them, and a window is written in the largest of the units that divide it, that of nothing in days. -/
theorem text_canonical {text₁ text₂ : String} {t₁ t₂ : Threshold} (h₁ : parse text₁ = .ok t₁) (h₂ : parse text₂ = .ok t₂) :
    parse t₁.text = .ok t₁ ∧ (t₁.text = t₂.text ↔ t₁ = t₂) ∧
    (∀ n, ∃ unit k, (unit, k) ∈ writtenUnits ∧ k ∣ n ∧ (∀ u ∈ writtenUnits, u.2 ∣ n → u.2 ≤ k) ∧
      (window n).text = toString (n / k) ++ toString unit) ∧ (window 0).text = "0d" := by
  have hread₁ := parse_text (inRange_of_parse h₁)
  have hread₂ := parse_text (inRange_of_parse h₂)
  refine ⟨hread₁, ⟨fun hsame => ?_, congrArg Threshold.text⟩, text_window, by decide⟩
  rw [hsame] at hread₁
  exact Except.ok.inj (hread₁.symm.trans hread₂)

/-- Two weeks and as many hours are written in days. -/
theorem text_canonical_fortnight : parse "2W" = .ok (window 1209600) ∧ parse " 0336h\n" = .ok (window 1209600) ∧
    (window 1209600).text = "14d" ∧ parse "14d" = .ok (window 1209600) := by
  have hweeks : parse "2W" = .ok (window 1209600) := by decide
  have hhours : parse " 0336h\n" = .ok (window 1209600) := by decide
  have htext : (window 1209600).text = "14d" := by decide
  obtain ⟨hread, -⟩ := text_canonical hweeks hhours
  exact ⟨hweeks, hhours, htext, htext ▸ hread⟩

end CertRotation.Threshold
