import Mathlib.Data.Nat.Digits.Defs
import CertRotation.Proofs.Text.Trimming
import CertRotation.Proofs.Traversal
import CertRotation.Settings.Basic

/-!
# The grammar of thresholds

A threshold is a whole number in base 10 with a unit, in small or capital letters, or with a percent sign. `Denotes` is this
grammar, and `Refused` says of every other text which fault in it is reported. A text is read exactly if the grammar
derives it, and its first fault is reported otherwise.
-/
namespace CertRotation

namespace Utf8

theorem size_append (s t : List Char) : size (s ++ t) = size s + size t := by
  induction s with
  | nil => exact (Nat.zero_add _).symm
  | cons c s ih => rw [List.cons_append, size, size, ih, Nat.add_assoc]

theorem cut?_append (s t : List Char) : cut? (s ++ t) (size s) = some s := by
  induction s with
  | nil => cases t <;> rfl
  | cons c s ih =>
    have hpos := c.utf8Size_pos
    have hsize : size (c :: s) = c.utf8Size - 1 + size s + 1 := by
      rw [size]
      omega
    have hrest : c.utf8Size - 1 + size s + 1 - c.utf8Size = size s := by omega
    rw [hsize, List.cons_append, cut?, if_pos (by omega), hrest, ih]
    rfl

end Utf8

namespace Threshold

/-- The digits are those of `n` in base 10, perhaps with zeros in front. -/
structure Spells (digits : List Char) (n : Nat) : Prop where
  ne_nil : digits ≠ []
  digit : ∀ c ∈ digits, '0' ≤ c ∧ c ≤ '9'
  value : n = Nat.ofDigits 10 (digits.reverse.map fun c => c.toNat - '0'.toNat)

/-- The letters that stand for a unit, and its seconds. -/
def units : List (Char × Nat) :=
  [('s', 1), ('S', 1), ('m', 60), ('M', 60), ('h', 3600), ('H', 3600), ('d', 86400), ('D', 86400), ('w', 604800),
    ('W', 604800)]

/-- What a text without blanks at its ends denotes. -/
inductive Denotes : List Char → Threshold → Prop where
  | window {digits : List Char} {unit : Char} {n k : Nat} (number : Spells digits n) (letter : (unit, k) ∈ units)
      (short : n * k ≤ 36500 * 86400) : Denotes (digits ++ [unit]) (.window (n * k))
  | percentage {digits : List Char} {n : Nat} (number : Spells digits n) (share : n ≤ 100) :
      Denotes (digits ++ ['%']) (.percentage n)

/-- Why a text without blanks at its ends denotes nothing. Of several faults in it this is the first in the order of the
constructors. -/
inductive Refused : List Char → Error → Prop where
  | empty : Refused [] .empty
  | noNumber {digits : List Char} {unit : Char} (number : ∀ n, ¬ Spells digits n) : Refused (digits ++ [unit]) .noNumber
  | tooLarge {digits : List Char} {unit : Char} {n : Nat} (number : Spells digits n) (large : 2 ^ 63 ≤ n) :
      Refused (digits ++ [unit]) .tooLarge
  | percentRange {digits : List Char} {n : Nat} (number : Spells digits n) (fits : n < 2 ^ 63) (share : 100 < n) :
      Refused (digits ++ ['%']) .percentRange
  | unknownUnit {digits : List Char} {unit : Char} {n : Nat} (number : Spells digits n) (fits : n < 2 ^ 63)
      (sign : unit ≠ '%') (letter : ∀ k, (unit, k) ∉ units) : Refused (digits ++ [unit]) .unknownUnit
  | tooLong {digits : List Char} {unit : Char} {n k : Nat} (number : Spells digits n) (fits : n < 2 ^ 63)
      (letter : (unit, k) ∈ units) (long : 36500 * 86400 < n * k) : Refused (digits ++ [unit]) .tooLong

/-! ## Letters and digits -/

/-- Beyond the capital letters of ASCII nothing has another small form. -/
theorem toLower_of_le {c : Char} (h : 128 ≤ c.toNat) : c.toLower = c := by
  have hZ : ¬ c.val ≤ 'Z'.val := by
    rw [UInt32.le_iff_toNat_le]
    exact Nat.not_le_of_gt (lt_of_lt_of_le (by decide) h)
  exact dif_neg fun hcapital => hZ hcapital.2

/-- What holds of 128 characters, and of all others that are their own small form, holds of every character. -/
theorem forall_char {p : Char → Prop} (h : ∀ n < 128, p (Char.ofNat n))
    (hother : ∀ c : Char, 128 ≤ c.toNat → p c) (c : Char) : p c := by
  rcases Nat.lt_or_ge c.toNat 128 with hlt | hge
  · have hc := h c.toNat hlt
    rwa [Char.ofNat_toNat] at hc
  · exact hother c hge

theorem isDigit_iff {c : Char} : c.isDigit = true ↔ '0' ≤ c ∧ c ≤ '9' := by
  simp [Char.isDigit, Char.le_def]

theorem isDigit_toLower (c : Char) : c.toLower.isDigit = c.isDigit := by
  refine forall_char (p := fun c => c.toLower.isDigit = c.isDigit) (by decide) (fun c hc => ?_) c
  rw [toLower_of_le hc]

theorem toLower_of_isDigit {c : Char} (h : c.isDigit = true) : c.toLower = c := by
  revert h
  exact forall_char (p := fun c => c.isDigit = true → c.toLower = c) (by decide) (fun c hc _ => toLower_of_le hc) c

theorem toLower_eq_percent {c : Char} : c.toLower = '%' ↔ c = '%' := by
  refine forall_char (p := fun c => c.toLower = '%' ↔ c = '%') (by decide) (fun c hc => ?_) c
  rw [toLower_of_le hc]

theorem unitSeconds?_eq_none {c : Char} (h : 128 ≤ c.toNat) : unitSeconds? c = none := by
  unfold unitSeconds?
  split <;> first | rfl | exact absurd h (by decide)

theorem unitSeconds?_toLower {c : Char} {k : Nat} : unitSeconds? c.toLower = some k ↔ (c, k) ∈ units := by
  constructor
  · intro h
    refine forall_char (p := fun c => ∀ k ∈ unitSeconds? c.toLower, (c, k) ∈ units) (by decide) (fun c hc k hk => ?_) c k h
    rw [toLower_of_le hc, unitSeconds?_eq_none hc] at hk
    cases hk
  · have hunits : ∀ u ∈ units, unitSeconds? u.1.toLower = some u.2 := by decide
    exact hunits (c, k)

theorem one_le_of_mem_units : ∀ u ∈ units, 1 ≤ u.2 := by decide

/-! ## Numbers -/

theorem digitsValue_eq (digits : List Char) :
    digitsValue digits = Nat.ofDigits 10 (digits.reverse.map fun c => c.toNat - '0'.toNat) := by
  induction digits using List.reverseRecOn with
  | nil => rfl
  | append_singleton digits c ih =>
    rw [digitsValue] at ih
    rw [digitsValue, List.foldl_append, List.foldl_cons, List.foldl_nil, ih, List.reverse_append, List.reverse_singleton,
      List.singleton_append, List.map_cons, Nat.ofDigits_cons, Nat.add_comm]
    rfl

theorem isNumber_iff {digits : List Char} : isNumber digits = true ↔ digits ≠ [] ∧ ∀ c ∈ digits, c.isDigit = true := by
  simp [isNumber]

theorem isNumber_map_toLower (digits : List Char) : isNumber (digits.map Char.toLower) = isNumber digits := by
  simp only [isNumber, List.isEmpty_map, List.all_map, Function.comp_def, isDigit_toLower]

theorem spells_iff {digits : List Char} {n : Nat} :
    Spells digits n ↔ isNumber digits = true ∧ n = digitsValue digits := by
  rw [isNumber_iff, digitsValue_eq]
  constructor
  · exact fun h => ⟨⟨h.ne_nil, fun c hc => isDigit_iff.mpr (h.digit c hc)⟩, h.value⟩
  · exact fun h => ⟨h.1.1, fun c hc => isDigit_iff.mp (h.1.2 c hc), h.2⟩

/-- Small letters change nothing about digits. -/
theorem Spells.map_toLower {digits : List Char} {n : Nat} (h : Spells digits n) : digits.map Char.toLower = digits := by
  have hid : ∀ c ∈ digits, c.toLower = id c := fun c hc => toLower_of_isDigit (isDigit_iff.mpr (h.digit c hc))
  rw [List.map_congr_left hid, List.map_id]

/-! ## Number and unit -/

section
variable {digits : List Char} {unit : Char} {n : Nat}

theorem ofParts_of_not_spells (h : ∀ n, ¬ Spells digits n) :
    ofParts (digits.map Char.toLower) unit = .error .noNumber := by
  have hnumber : isNumber digits = false := by
    by_contra hn
    exact h _ (spells_iff.mpr ⟨by simpa using hn, rfl⟩)
  rw [ofParts, isNumber_map_toLower, hnumber]
  rfl

/-- The product of a short window is never too large for 64 bits. -/
theorem filter_product? (n k : Nat) :
    (product? n k).filter (· ≤ maxWindow) = if n * k ≤ maxWindow then some (n * k) else none := by
  have hmax : maxWindow ≤ largest := by decide
  unfold product?
  split
  · simp [Option.filter]
  · next hlarge =>
    rw [if_neg (by omega)]
    rfl

variable (h : Spells digits n)
include h

theorem ofParts_of_large (large : 2 ^ 63 ≤ n) (unit : Char) :
    ofParts (digits.map Char.toLower) unit = .error .tooLarge := by
  obtain ⟨hnumber, hn⟩ := spells_iff.mp h
  have hlarge : largest < n := lt_of_lt_of_le (by decide) large
  rw [h.map_toLower, ofParts, hnumber, ← hn]
  exact if_pos hlarge

theorem ofParts_percent (fits : n < 2 ^ 63) :
    ofParts (digits.map Char.toLower) '%' = if n ≤ 100 then .ok (.percentage n) else .error .percentRange := by
  obtain ⟨hnumber, hn⟩ := spells_iff.mp h
  have hfits : ¬ largest < n := Nat.not_lt_of_le (Nat.le_of_lt_succ fits)
  rw [h.map_toLower, ofParts, hnumber, ← hn]
  exact if_neg hfits

theorem ofParts_of_unit (fits : n < 2 ^ 63) {k : Nat} (letter : unitSeconds? unit = some k) :
    ofParts (digits.map Char.toLower) unit = if n * k ≤ maxWindow then .ok (.window (n * k)) else .error .tooLong := by
  obtain ⟨hnumber, hn⟩ := spells_iff.mp h
  have hfits : ¬ largest < n := Nat.not_lt_of_le (Nat.le_of_lt_succ fits)
  have hsign : unit ≠ '%' := by
    rintro rfl
    cases letter
  by_cases hshort : n * k ≤ maxWindow <;>
    simp only [h.map_toLower, ofParts, hnumber, ← hn, Bool.not_true, Bool.false_eq_true, if_false, if_true, hfits, hsign,
      letter, filter_product?, hshort]

theorem ofParts_of_other (fits : n < 2 ^ 63) (sign : unit ≠ '%') (letter : unitSeconds? unit = none) :
    ofParts (digits.map Char.toLower) unit = .error .unknownUnit := by
  obtain ⟨hnumber, hn⟩ := spells_iff.mp h
  have hfits : ¬ largest < n := Nat.not_lt_of_le (Nat.le_of_lt_succ fits)
  simp only [h.map_toLower, ofParts, hnumber, ← hn, Bool.not_true, Bool.false_eq_true, if_false, hfits, sign, letter]

end

/-! ## Texts -/

section
variable {text : String} {body digits : List Char} {unit : Char}

/-- The octets of the last character are cut off in front of it. -/
theorem number?_snoc (s : List Char) (unit : Char) : number? (s ++ [unit]) unit = some s := by
  have hunit : Utf8.size [unit] = unit.utf8Size := rfl
  rw [number?, Utf8.size_append, hunit, Nat.add_sub_cancel, Utf8.cut?_append]

theorem parse_of_core (h : Text.IsCore text.toList (digits ++ [unit])) :
    parse text = ofParts (digits.map Char.toLower) unit.toLower := by
  rw [parse, ← Text.isCore_iff.mp h, List.map_append, List.map_singleton, List.getLast?_concat]
  dsimp only
  rw [number?_snoc, Option.getD_some]

theorem parse_of_core_nil (h : Text.IsCore text.toList []) : parse text = .error .empty := by
  rw [parse, ← Text.isCore_iff.mp h]
  rfl

theorem parse_of_denotes (hbody : Text.IsCore text.toList body) {t : Threshold} (h : Denotes body t) :
    parse text = .ok t := by
  cases h with
  | @window digits unit n k number letter short =>
    have hk : 1 ≤ k := one_le_of_mem_units _ letter
    have hfits : n < 2 ^ 63 := lt_of_le_of_lt ((Nat.le_mul_of_pos_right n hk).trans short) (by decide)
    rw [parse_of_core hbody, ofParts_of_unit number hfits (unitSeconds?_toLower.mpr letter)]
    exact if_pos short
  | percentage number share =>
    rw [parse_of_core hbody, toLower_eq_percent.mpr rfl, ofParts_percent number (by omega), if_pos share]

theorem parse_of_refused (hbody : Text.IsCore text.toList body) {e : Error} (h : Refused body e) :
    parse text = .error e := by
  cases h with
  | empty => exact parse_of_core_nil hbody
  | noNumber number => rw [parse_of_core hbody, ofParts_of_not_spells number]
  | tooLarge number large => rw [parse_of_core hbody, ofParts_of_large number large]
  | percentRange number fits share =>
    rw [parse_of_core hbody, toLower_eq_percent.mpr rfl, ofParts_percent number fits, if_neg (by omega)]
  | unknownUnit number fits sign letter =>
    have hnone : unitSeconds? _ = none := Option.eq_none_iff_forall_not_mem.mpr fun k hk =>
      letter k (unitSeconds?_toLower.mp hk)
    rw [parse_of_core hbody, ofParts_of_other number fits (mt toLower_eq_percent.mp sign) hnone]
  | tooLong number fits letter long =>
    rw [parse_of_core hbody, ofParts_of_unit number fits (unitSeconds?_toLower.mpr letter)]
    exact if_neg (Nat.not_le_of_gt long)

/-- Every text denotes a threshold or has a first fault. -/
theorem denotes_or_refused (body : List Char) : (∃ t, Denotes body t) ∨ ∃ e, Refused body e := by
  rcases List.eq_nil_or_concat' body with rfl | ⟨digits, unit, rfl⟩
  · exact .inr ⟨_, .empty⟩
  by_cases hnumber : ∃ n, Spells digits n
  · obtain ⟨n, number⟩ := hnumber
    rcases Nat.lt_or_ge n (2 ^ 63) with fits | large
    · by_cases hsign : unit = '%'
      · subst hsign
        rcases Nat.lt_or_ge 100 n with share | share
        · exact .inr ⟨_, .percentRange number fits share⟩
        · exact .inl ⟨_, .percentage number share⟩
      by_cases hletter : ∃ k, (unit, k) ∈ units
      · obtain ⟨k, letter⟩ := hletter
        rcases Nat.lt_or_ge (36500 * 86400) (n * k) with long | short
        · exact .inr ⟨_, .tooLong number fits letter long⟩
        · exact .inl ⟨_, .window number letter short⟩
      · exact .inr ⟨_, .unknownUnit number fits hsign fun k hk => hletter ⟨k, hk⟩⟩
    · exact .inr ⟨_, .tooLarge number large⟩
  · exact .inr ⟨_, .noNumber fun n hn => hnumber ⟨n, hn⟩⟩

theorem parse_eq_ok {t : Threshold} : parse text = .ok t ↔ ∃ body, Text.IsCore text.toList body ∧ Denotes body t := by
  constructor
  · intro h
    have hcore : Text.IsCore text.toList (Text.trimChars text.toList) := Text.isCore_iff.mpr rfl
    rcases denotes_or_refused (Text.trimChars text.toList) with ⟨t', ht⟩ | ⟨e, he⟩
    · obtain rfl := Except.ok.inj (h.symm.trans (parse_of_denotes hcore ht))
      exact ⟨_, hcore, ht⟩
    · cases h.symm.trans (parse_of_refused hcore he)
  · rintro ⟨body, hbody, ht⟩
    exact parse_of_denotes hbody ht

theorem parse_eq_error {e : Error} :
    parse text = .error e ↔ ∃ body, Text.IsCore text.toList body ∧ Refused body e := by
  constructor
  · intro h
    have hcore : Text.IsCore text.toList (Text.trimChars text.toList) := Text.isCore_iff.mpr rfl
    rcases denotes_or_refused (Text.trimChars text.toList) with ⟨t, ht⟩ | ⟨e', he⟩
    · cases h.symm.trans (parse_of_denotes hcore ht)
    · obtain rfl := Except.error.inj (h.symm.trans (parse_of_refused hcore he))
      exact ⟨_, hcore, he⟩
  · rintro ⟨body, hbody, he⟩
    exact parse_of_refused hbody he

end

/-- A text is read as a threshold exactly if the grammar derives it but for blanks around it, and as what it denotes. For
every other text the error has the key and the text as it was given, with the first fault in it. The octets of a last
character can always be cut off, as they begin where the character in front of it ends. -/
theorem parse_by_grammar (text : String) :
    (∀ t, Settings.parseThreshold "renew_before" text = .ok t ↔
      ∃ body, Text.IsCore text.toList body ∧ Denotes body t) ∧
    (∀ e, Settings.parseThreshold "renew_before" text = .error e ↔
      ∃ body fault, Text.IsCore text.toList body ∧ Refused body fault ∧ e = .threshold "renew_before" text fault) ∧
    ∀ digits unit, number? ((digits ++ [unit]).map Char.toLower) unit.toLower = some (digits.map Char.toLower) := by
  refine ⟨fun t => mapError_eq_ok.trans parse_eq_ok, fun e => mapError_eq_error.trans ?_, fun digits unit => ?_⟩
  · constructor
    · rintro ⟨fault, hfault, rfl⟩
      obtain ⟨body, hbody, hrefused⟩ := parse_eq_error.mp hfault
      exact ⟨body, fault, hbody, hrefused, rfl⟩
    · rintro ⟨body, fault, hbody, hrefused, rfl⟩
      exact ⟨fault, parse_of_refused hbody hrefused, rfl⟩
  · rw [List.map_append, List.map_singleton, number?_snoc]

example : parse " 007W\n" = .ok (.window 4233600) ∧ parse "5é" = .error .unknownUnit := by decide

end Threshold
end CertRotation
