import CertRotation.Console.Text

/-!
# What people are told about expiry

The days that are left are whole ones, so that nothing is said of the last day before the expiry and of the first one after
it but that the certificate expires today. On all other days the text tells whether the certificate has expired, and how
long ago or how soon.
-/
namespace CertRotation.Certificate.Summary
open Instant

variable {c : Summary} {t t' : Instant}

/-! ## Days that are left -/

theorem perDay_eq : perDay = 86400000000000 := by decide

theorem daysLeft_before (h : t ≤ c.notAfter) : c.daysLeft t = (c.notAfter.nanos - t.nanos) / perDay := by
  have h : t.nanos ≤ c.notAfter.nanos := h
  exact Int.tdiv_eq_ediv_of_nonneg (by omega)

theorem daysLeft_after (h : c.notAfter ≤ t) : c.daysLeft t = -((t.nanos - c.notAfter.nanos) / perDay) := by
  have h : c.notAfter.nanos ≤ t.nanos := h
  rw [daysLeft, ← Int.neg_sub, Int.neg_tdiv, Int.tdiv_eq_ediv_of_nonneg (by omega)]

/-- So many whole days have passed since the expiry. -/
def Past (c : Summary) (t : Instant) (n : Nat) : Prop :=
  c.notAfter.nanos + n * perDay ≤ t.nanos ∧ t.nanos < c.notAfter.nanos + (n + 1) * perDay

/-- So many whole days are left until the expiry. -/
def Left (c : Summary) (t : Instant) (n : Nat) : Prop :=
  t.nanos + n * perDay ≤ c.notAfter.nanos ∧ c.notAfter.nanos < t.nanos + (n + 1) * perDay

/-- The certificate has expired, but less than a day ago. -/
def Lapsing (c : Summary) (t : Instant) : Prop := c.notAfter.nanos ≤ t.nanos ∧ t.nanos < c.notAfter.nanos + perDay

theorem daysLeft_eq_neg {n : Nat} (hn : 0 < n) : c.daysLeft t = -(n : Int) ↔ c.Past t n := by
  unfold Past
  rcases Int.le_total t.nanos c.notAfter.nanos with h | h
  · rw [daysLeft_before h, perDay_eq]
    omega
  · rw [daysLeft_after h, perDay_eq]
    omega

theorem daysLeft_eq_pos {n : Nat} (hn : 0 < n) : c.daysLeft t = n ↔ c.Left t n := by
  unfold Left
  rcases Int.le_total t.nanos c.notAfter.nanos with h | h
  · rw [daysLeft_before h, perDay_eq]
    omega
  · rw [daysLeft_after h, perDay_eq]
    omega

theorem daysLeft_of_lapsing (h : c.Lapsing t) : c.daysLeft t = 0 := by
  obtain ⟨hle, hlt⟩ := h
  rw [daysLeft_after hle, perDay_eq] at *
  omega

/-- The number is negative only when a whole day has passed. -/
theorem daysLeft_neg : c.daysLeft t < 0 ↔ c.notAfter.nanos + perDay ≤ t.nanos := by
  rcases Int.le_total t.nanos c.notAfter.nanos with h | h
  · rw [daysLeft_before h, perDay_eq]
    omega
  · rw [daysLeft_after h, perDay_eq]
    omega

theorem daysLeft_antitone (h : t ≤ t') : c.daysLeft t' ≤ c.daysLeft t := by
  have h : t.nanos ≤ t'.nanos := h
  rcases Int.le_total t.nanos c.notAfter.nanos with ht | ht
  · rw [daysLeft_before ht, perDay_eq]
    rcases Int.le_total t'.nanos c.notAfter.nanos with ht' | ht'
    · rw [daysLeft_before ht', perDay_eq]
      omega
    · rw [daysLeft_after ht', perDay_eq]
      omega
  · rw [daysLeft_after ht, daysLeft_after (Int.le_trans ht h), perDay_eq]
    omega

theorem isExpiredAt_iff : c.isExpiredAt t = true ↔ c.notAfter.nanos ≤ t.nanos := decide_eq_true_iff

end CertRotation.Certificate.Summary

namespace CertRotation.Console
open Certificate Instant

/-! ## Texts -/

/-- The text says that the certificate expired some days ago. -/
def SaysExpired (text : String) : Prop := ∃ n : Nat, text = s!"Expired {n} days ago"

/-- The text says that the certificate expires today, or in how many days it does. -/
def SaysValid (text : String) : Prop :=
  text = "Expires today!" ∨ ∃ n : Nat, 0 < n ∧ ∃ remark, text = s!"{n} days" ++ remark

theorem toList_numbered (before after : String) (n : Nat) :
    (before ++ toString n ++ after).toList = before.toList ++ (Nat.toDigits 10 n ++ after.toList) := by
  simp [ToString.toString]

/-- A text does not say both. -/
theorem not_saysValid_of_saysExpired {text : String} (h : SaysExpired text) : ¬ SaysValid text := by
  obtain ⟨n, rfl⟩ := h
  have hexpired : (s!"Expired {n} days ago").toList = "Expired ".toList ++ (Nat.toDigits 10 n ++ " days ago".toList) :=
    toList_numbered "Expired " " days ago" n
  rintro (htoday | ⟨k, -, remark, hdays⟩)
  · rw [htoday] at hexpired
    have htake := congrArg (List.take 7) hexpired
    rw [List.take_append_of_le_length (by decide)] at htake
    exact absurd htake (by decide)
  · -- the one starts with a letter, the other with a digit
    have hnumber : (s!"{k} days" ++ remark).toList = Nat.toDigits 10 k ++ (" days".toList ++ remark.toList) := by
      rw [String.toList_append, ← List.append_assoc]
      exact congrArg (· ++ remark.toList) (toList_numbered "" " days" k)
    rw [hdays, hnumber] at hexpired
    obtain ⟨d, ds, hdigits⟩ := List.exists_cons_of_ne_nil (Nat.toDigits_ne_nil (n := k) (b := 10))
    have hdigit := Nat.isDigit_of_mem_toDigits (b := 10) (n := k) (c := d) (by decide) (by decide) (by simp [hdigits])
    rw [hdigits] at hexpired
    obtain ⟨rfl, -⟩ := List.cons.inj (hexpired : d :: _ = 'E' :: _)
    exact absurd hdigit (by decide)

theorem saysExpired_of_neg {days : Int} (h : days < 0) :
    expiryText days = s!"Expired {days.natAbs} days ago" := by
  have hdays : -days = (days.natAbs : Int) := by omega
  rw [expiryText, if_pos h, hdays]
  rfl

theorem exists_remark {n : Nat} (hn : 0 < n) : ∃ remark, expiryText n = s!"{n} days" ++ remark := by
  have hremark : ∀ remark tail : String, " days" ++ remark = tail →
      toString (n : Int) ++ tail = s!"{n} days" ++ remark := by
    rintro remark _ rfl
    exact (String.append_assoc ..).symm
  unfold expiryText
  rw [if_neg (by omega), if_neg (by omega)]
  split
  · exact ⟨" (critical)", hremark _ _ (by decide)⟩
  · split
    · exact ⟨" (warning)", hremark _ _ (by decide)⟩
    · exact ⟨"", hremark _ _ (by decide)⟩

theorem saysValid_of_nonneg {days : Int} (h : 0 ≤ days) : SaysValid (expiryText days) := by
  obtain ⟨n, rfl⟩ := Int.eq_ofNat_of_zero_le h
  rcases Nat.eq_zero_or_pos n with rfl | hn
  · exact .inl rfl
  · exact .inr ⟨n, hn, exists_remark hn⟩

/-- What the text says hangs on the sign of the number alone. -/
theorem saysExpired_iff {days : Int} : SaysExpired (expiryText days) ↔ days < 0 := by
  constructor
  · intro h
    exact Int.not_le.mp fun hnot => not_saysValid_of_saysExpired h (saysValid_of_nonneg hnot)
  · intro h
    exact ⟨_, saysExpired_of_neg h⟩

theorem saysValid_iff {days : Int} : SaysValid (expiryText days) ↔ ¬ days < 0 := by
  constructor
  · intro h hneg
    exact not_saysValid_of_saysExpired (saysExpired_iff.mpr hneg) h
  · intro h
    exact saysValid_of_nonneg (Int.not_lt.mp h)

/-! ## Readouts and the decision -/

section
variable {c : Summary} {t : Instant} {n : Nat}

theorem expiryText_past (hn : 0 < n) (h : c.Past t n) : expiryText (c.daysLeft t) = s!"Expired {n} days ago" := by
  rw [(Summary.daysLeft_eq_neg hn).mpr h, saysExpired_of_neg (by omega), Int.natAbs_neg, Int.natAbs_natCast]

theorem expiryText_left (hn : 0 < n) (h : c.Left t n) :
    ∃ remark, expiryText (c.daysLeft t) = s!"{n} days" ++ remark := by
  rw [(Summary.daysLeft_eq_pos hn).mpr h]
  exact exists_remark hn

/-- The number and the decision differ on the first day after the expiry and at no other time. -/
theorem neg_iff_isExpiredAt_iff : (c.daysLeft t < 0 ↔ c.isExpiredAt t = true) ↔ ¬ c.Lapsing t := by
  rw [Summary.daysLeft_neg, Summary.isExpiredAt_iff, Summary.Lapsing, Summary.perDay_eq]
  omega

theorem nonneg_iff_not_isExpiredAt_iff : (¬ c.daysLeft t < 0 ↔ ¬ c.isExpiredAt t = true) ↔ ¬ c.Lapsing t := by
  rw [Summary.daysLeft_neg, Summary.isExpiredAt_iff, Summary.Lapsing, Summary.perDay_eq]
  omega

end

/-- The text says that a certificate has expired exactly when it has, and that it has not exactly when it has not, at every
instant but those of the first day after the expiry: on that day it says that the certificate expires today. Otherwise a
number of days in it is that of the whole days that have passed or are left, and later instants never make more of them. -/
theorem readouts_agree_iff (c : Summary) :
    (∀ t, (SaysExpired (expiryText (c.daysLeft t)) ↔ c.isExpiredAt t = true) ↔ ¬ c.Lapsing t) ∧
    (∀ t, (SaysValid (expiryText (c.daysLeft t)) ↔ c.isExpiredAt t = false) ↔ ¬ c.Lapsing t) ∧
    (∀ t, c.Lapsing t → expiryText (c.daysLeft t) = "Expires today!") ∧
    (∀ t n, 0 < n → c.Past t n → expiryText (c.daysLeft t) = s!"Expired {n} days ago") ∧
    (∀ t n, 0 < n → c.Left t n → ∃ remark, expiryText (c.daysLeft t) = s!"{n} days" ++ remark) ∧
    ∀ t t', t ≤ t' → c.daysLeft t' ≤ c.daysLeft t := by
  refine ⟨fun t => ?_, fun t => ?_, fun t h => ?_, fun t n => expiryText_past, fun t n => expiryText_left,
    fun t t' => Summary.daysLeft_antitone⟩
  · rw [saysExpired_iff]
    exact neg_iff_isExpiredAt_iff
  · rw [saysValid_iff, ← Bool.not_eq_true]
    exact nonneg_iff_not_isExpiredAt_iff
  · rw [Summary.daysLeft_of_lapsing h]
    rfl

/-- A certificate that expires when the calendar starts. -/
def expiring : Summary := ⟨"CN=leaf", "CN=ca", "01", "AA", .ofSeconds (-8640000), .ofSeconds 0⟩

theorem readouts_agree_expiring :
    (expiring.Lapsing (.ofSeconds 3600) ∧ expiryText (expiring.daysLeft (.ofSeconds 3600)) = "Expires today!") ∧
    (expiring.Past (.ofSeconds 172800) 2 ∧ expiryText (expiring.daysLeft (.ofSeconds 172800)) = "Expired 2 days ago") ∧
    (expiring.Left (.ofSeconds (-864001)) 10 ∧
      ∃ remark, expiryText (expiring.daysLeft (.ofSeconds (-864001))) = s!"{10} days" ++ remark) ∧
    Instant.ofSeconds (-864001) ≤ .ofSeconds 3600 ∧
      expiring.daysLeft (.ofSeconds 3600) ≤ expiring.daysLeft (.ofSeconds (-864001)) := by
  obtain ⟨-, -, htoday, hpast, hleft, hlater⟩ := readouts_agree_iff expiring
  have h1 : expiring.Lapsing (.ofSeconds 3600) := ⟨by decide, by decide⟩
  have h2 : expiring.Past (.ofSeconds 172800) 2 := ⟨by decide, by decide⟩
  have h3 : expiring.Left (.ofSeconds (-864001)) 10 := ⟨by decide, by decide⟩
  exact ⟨⟨h1, htoday _ h1⟩, ⟨h2, hpast _ 2 (by decide) h2⟩, ⟨h3, hleft _ 10 (by decide) h3⟩, by decide,
    hlater _ _ (by decide)⟩

/-- An hour after its expiry a certificate is said to expire today. -/
theorem expired_said_valid : expiring.isExpiredAt (.ofSeconds 3600) = true ∧
    ¬ SaysExpired (expiryText (expiring.daysLeft (.ofSeconds 3600))) ∧
    SaysValid (expiryText (expiring.daysLeft (.ofSeconds 3600))) := by
  have hdays : expiring.daysLeft (.ofSeconds 3600) = 0 := by decide
  rw [hdays]
  exact ⟨by decide, fun h => absurd (saysExpired_iff.mp h) (by decide), .inl rfl⟩

end CertRotation.Console
