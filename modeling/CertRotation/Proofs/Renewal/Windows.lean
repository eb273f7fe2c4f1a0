import CertRotation.Proofs.Renewal.Grammar

/-!
# Windows and the ends of the calendar

Spans, numbers and the calendar have ends. A validity that lies in the calendar is never so long that a window reaches the
end of the spans or of the numbers. The calendar may well end within the window, but every certificate expires before that.
-/
namespace CertRotation

namespace Instant

/-- Nothing is left beside the seconds. -/
def IsWhole (t : Instant) : Prop := ∃ s, t = ofSeconds s

theorem first_nanos : first.nanos = -8334601228800000000000 := by decide
theorem last_nanos : last.nanos = 8210266876799999999999 := by decide

theorem inCalendar_iff {t : Instant} :
    t.InCalendar ↔ -8334601228800000000000 ≤ t.nanos ∧ t.nanos ≤ 8210266876799999999999 := by
  rw [← first_nanos, ← last_nanos]
  rfl

theorem perSecond_pos : 0 < perSecond := by decide

theorem seconds_ofSeconds (s : Int) : (ofSeconds s).seconds = s :=
  Int.mul_fdiv_cancel s perSecond_pos.ne'

theorem IsWhole.nanos_eq {t : Instant} (h : t.IsWhole) : t.nanos = t.seconds * perSecond := by
  obtain ⟨s, rfl⟩ := h
  rw [seconds_ofSeconds]
  rfl

/-- The calendar is shorter than the longest span. -/
theorem span?_sub {a b : Instant} (ha : a.InCalendar) (hb : b.InCalendar) :
    span? (b.nanos - a.nanos) = some (b.nanos - a.nanos) := by
  rw [inCalendar_iff] at ha hb
  refine if_pos ?_
  unfold longestSpan
  omega

theorem wholeSpan?_eq_some {n : Nat} (h : n ≤ 9223372036854775) : wholeSpan? n = some n := by
  refine if_pos ?_
  unfold longestSpan perSecond
  omega

theorem later?_of_le {t : Instant} {n : Nat} (h : t.nanos + n * perSecond ≤ last.nanos) :
    t.later? n = some ⟨t.nanos + n * perSecond⟩ := if_pos h

theorem later?_of_lt {t : Instant} {n : Nat} (h : last.nanos < t.nanos + n * perSecond) : t.later? n = none :=
  if_neg (Int.not_le.mpr h)

end Instant

namespace Threshold
open Instant

variable {c : Certificate.Summary} {now : Instant} {t : Threshold} {p : Nat}

/-- No share that is read is larger than the whole. -/
theorem percentage_le {text : String} (h : parse text = .ok (.percentage p)) : p ≤ 100 := by
  obtain ⟨body, -, hdenotes⟩ := parse_eq_ok.mp h
  cases hdenotes with
  | percentage number share => exact share

/-! ## Lifetimes -/

section

/-- The whole seconds between two whole seconds are all there is between them. -/
theorem lifetime_eq (hb : c.notBefore.IsWhole) (ha : c.notAfter.IsWhole) :
    c.lifetime = c.notAfter.seconds - c.notBefore.seconds := by
  rw [Certificate.Summary.lifetime, hb.nanos_eq, ha.nanos_eq, ← Int.sub_mul,
    Int.mul_tdiv_cancel _ perSecond_pos.ne']

variable (hb : c.notBefore.InCalendar) (ha : c.notAfter.InCalendar)
include hb ha

theorem lifetime_toNat_le : c.lifetime.toNat ≤ 16544868105599 := by
  rw [inCalendar_iff] at hb ha
  have hspan : c.notAfter.nanos - c.notBefore.nanos ≤ 16544868105599999999999 := by omega
  have hlife : c.lifetime ≤ Int.tdiv 16544868105599999999999 perSecond := Int.tdiv_le_tdiv perSecond_pos hspan
  exact Int.toNat_le.mpr (hlife.trans (by decide))

/-- A share of a lifetime never gets as far as the largest number. -/
theorem boundedProduct_lifetime (hp : p ≤ 100) : boundedProduct c.lifetime.toNat p = c.lifetime.toNat * p := by
  have hproduct : c.lifetime.toNat * p ≤ 16544868105599 * 100 := Nat.mul_le_mul (lifetime_toNat_le hb ha) hp
  exact Nat.min_eq_left (hproduct.trans (by decide))

theorem windowFor?_percentage (hp : p ≤ 100) :
    windowFor? (.percentage p) c = some (c.lifetime.toNat * p / 100) := by
  have hproduct : c.lifetime.toNat * p ≤ 16544868105599 * 100 := Nat.mul_le_mul (lifetime_toNat_le hb ha) hp
  rw [windowFor?, span?_sub hb ha, Option.bind_eq_bind, Option.bind_some, ← Certificate.Summary.lifetime,
    boundedProduct_lifetime hb ha hp]
  exact wholeSpan?_eq_some (by omega)

end

/-! ## What is due -/

theorem windowFor_eq {w : Nat} (h : t.windowFor? c = some w) : t.windowFor c = w := by
  rw [windowFor, h]
  rfl

theorem windowFor_nonneg (t : Threshold) (c : Certificate.Summary) : 0 ≤ t.windowFor c := Int.natCast_nonneg _

/-- Where the calendar ends does not matter: if it ends within the window, so does whatever is in it. -/
theorem isDue_iff (ha : c.notAfter ≤ last) :
    t.isDue c now = true ↔ c.notAfter.nanos ≤ now.nanos + t.windowFor c * perSecond := by
  have ha : c.notAfter.nanos ≤ last.nanos := ha
  have hwindow : ((t.windowFor c).toNat : Int) = t.windowFor c := Int.toNat_of_nonneg (windowFor_nonneg t c)
  rw [← hwindow]
  rcases lt_or_ge last.nanos (now.nanos + (t.windowFor c).toNat * perSecond) with hlt | hle
  · rw [isDue, later?_of_lt hlt]
    exact ⟨fun _ => by omega, fun _ => rfl⟩
  · rw [isDue, later?_of_le hle]
    exact decide_eq_true_iff

/-- The window in unbounded numbers. -/
def exactWindow (t : Threshold) (c : Certificate.Summary) : Int :=
  match t with
  | window n => n
  | percentage p => max 0 (c.notAfter.seconds - c.notBefore.seconds) * p / 100

/-- For a threshold that is read and a validity of whole seconds in the calendar, in either order of its ends, all steps
stay in their ranges, no product is cut off, the window is that of unbounded numbers, and at every instant the certificate
is due exactly if it expires within the window, wherever the calendar ends. -/
theorem renewal_exact {text : String} (ht : parse text = .ok t) (hb : c.notBefore.InCalendar)
    (ha : c.notAfter.InCalendar) (hbefore : c.notBefore.IsWhole) (hafter : c.notAfter.IsWhole) :
    (∃ w, t.windowFor? c = some w ∧ (w : Int) = t.exactWindow c) ∧ t.windowFor c = t.exactWindow c ∧
      (∀ p, t = .percentage p → boundedProduct c.lifetime.toNat p = c.lifetime.toNat * p) ∧
      ∀ now : Instant, t.isDue c now = true ↔
        c.notAfter.nanos ≤ now.nanos + t.exactWindow c * 1000000000 := by
  have hwindow : ∃ w, t.windowFor? c = some w ∧ (w : Int) = t.exactWindow c := by
    cases t with
    | window n => exact ⟨n, rfl, rfl⟩
    | percentage p =>
      refine ⟨_, windowFor?_percentage hb ha (percentage_le ht), ?_⟩
      rw [exactWindow, ← lifetime_eq hbefore hafter]
      push_cast
      rw [Int.toNat_eq_max, Int.max_comm]
  obtain ⟨w, hw, hexact⟩ := hwindow
  have hwindow : t.windowFor c = t.exactWindow c := (windowFor_eq hw).trans hexact
  refine ⟨⟨w, hw, hexact⟩, hwindow, fun p hp => ?_, fun now => ?_⟩
  · subst hp
    exact boundedProduct_lifetime hb ha (percentage_le ht)
  · rw [isDue_iff ha.2, hwindow]
    rfl

/-- Valid from the first to the last second of the calendar. -/
def wholeCalendar : Certificate.Summary := ⟨"CN=leaf", "CN=ca", "01", "", first, ofSeconds 8210266876799⟩

/-- A whole lifetime ahead of the last instant is past the end of the calendar. -/
theorem renewal_exact_wholeCalendar :
    windowFor (.percentage 100) wholeCalendar = 16544868105599 ∧ last.later? 16544868105599 = none ∧
      isDue (.percentage 100) wholeCalendar last = true := by
  have hparse : parse "100%" = .ok (.percentage 100) := by decide
  have hexact := renewal_exact (c := wholeCalendar) hparse (by decide) (by decide) ⟨_, rfl⟩ ⟨_, rfl⟩
  exact ⟨hexact.2.1.trans (by decide), by decide, (hexact.2.2.2 last).mpr (by decide)⟩

end Threshold
end CertRotation
