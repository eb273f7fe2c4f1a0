import CertRotation.Certificate.Summary
import CertRotation.Proofs.Certificate.Names
import CertRotation.Proofs.Renewal.Windows

/-!
# Validities of certificates

A certificate gives its times with two or four digits for the year and to the second. Such times lie far from the ends of
the calendar, wherever their zones are.
-/
namespace CertRotation.Asn1
variable {α β : Type} {p q : α → Prop}

/-- Whatever the reader takes from any octets has the property. -/
def Yields (r : Reader α) (p : α → Prop) : Prop := ∀ b a rest, r.run b = some (a, rest) → p a

theorem yields_true (r : Reader α) : Yields r fun _ => True := fun _ _ _ _ => trivial

theorem Yields.pure {a : α} (h : p a) : Yields (Pure.pure a) p := by
  intro b x rest hrun
  obtain ⟨rfl, -⟩ := Prod.mk.inj (Option.some.inj hrun)
  exact h

theorem yields_refuse : Yields refuse p := fun _ _ _ h => nomatch h

theorem Yields.bind {r : Reader α} {f : α → Reader β} {q : β → Prop} (h : Yields r p)
    (hf : ∀ a, p a → Yields (f a) q) : Yields (r >>= f) q := by
  intro b y rest hrun
  obtain ⟨a, middle, ha, hy⟩ := run_bind_iff.mp hrun
  exact hf a (h b a middle ha) middle y rest hy

/-- What comes before does not matter to what is read last. -/
theorem Yields.after {r : Reader α} {f : α → Reader β} {q : β → Prop} (hf : ∀ a, Yields (f a) q) :
    Yields (r >>= f) q := (yields_true r).bind fun a _ => hf a

theorem Yields.ite {c : Prop} [Decidable c] {r s : Reader α} (hr : Yields r p) (hs : Yields s p) :
    Yields (if c then r else s) p := by
  split
  · exact hr
  · exact hs

theorem yields_require (c : Bool) : Yields (require c) fun _ => c = true := by
  unfold require
  split
  · next h => exact .pure h
  · exact yields_refuse

theorem yields_ofOption {o : Option α} (h : ∀ a, o = some a → p a) : Yields (ofOption o) p := by
  intro b a rest hrun
  obtain ⟨x, hx, heq⟩ := Option.map_eq_some_iff.mp hrun
  obtain ⟨rfl, -⟩ := Prod.mk.inj heq
  exact h x hx

/-- What another reader takes from other octets. -/
theorem Yields.run {r : Reader α} (h : Yields r p) (contents : Bytes) :
    Yields (ofOption (r.run contents)) fun found => p found.1 :=
  yields_ofOption fun found hfound => h contents found.1 found.2 hfound

theorem Yields.inside {r : Reader α} (h : Yields r p) (n : Nat) : Yields (inside n r) p := by
  intro b a rest hrun
  obtain ⟨e, left, -, hread⟩ := run_inside_eq_some hrun
  exact h _ a left hread

theorem Yields.many {r : Reader α} (h : Yields r p) (fuel : Nat) : Yields (many r fuel) fun as => ∀ a ∈ as, p a := by
  intro b as rest hrun
  induction fuel generalizing b as with
  | zero =>
    obtain ⟨rfl, -⟩ := Prod.mk.inj (Option.some.inj hrun)
    exact List.forall_mem_nil _
  | succ fuel ih =>
    obtain ⟨-, rfl, -⟩ | ⟨a, middle, others, ha, hmany, rfl⟩ := run_many_cons hrun
    · exact List.forall_mem_nil _
    · exact List.forall_mem_cons.mpr ⟨h b a middle ha, ih middle others hmany⟩

/-- A value that stands for fixed octets up to the end. -/
theorem yields_ending {a : α} (h : p a) (last : Bytes) : Yields (fun b => if b = last then some (a, []) else none) p := by
  intro b x rest hrun
  obtain ⟨-, hx⟩ := Option.ite_none_right_eq_some.mp hrun
  obtain ⟨rfl, -⟩ := Prod.mk.inj (Option.some.inj hx)
  exact h

end CertRotation.Asn1

namespace CertRotation.Certificate
open Asn1

/-! ## Digits -/

theorem digit?_le {b : UInt8} {n : Nat} (h : digit? b = some n) : n ≤ 9 := by
  unfold digit? at h
  split at h
  · next hb =>
    obtain ⟨-, hle⟩ := hb
    have hle : b.toNat ≤ 57 := hle
    cases h
    omega
  · cases h

theorem yields_twoDigits : Yields twoDigits (· ≤ 99) :=
  .after fun _ => .after fun _ => (yields_ofOption fun _ => digit?_le).bind fun _ ha =>
    (yields_ofOption fun _ => digit?_le).bind fun _ hb => .pure (by omega)

/-! ## Times -/

/-- A date and time of day from digits, with a year of at most four. -/
structure ClockTime.Written (t : ClockTime) : Prop where
  year : 0 ≤ t.date.year ∧ t.date.year ≤ 9999
  valid : t.isValid = true

theorem yields_clockTime {year : Nat} (h : year ≤ 9999) : Yields (clockTime year) ClockTime.Written :=
  .after fun _ => .after fun _ => .after fun _ => .after fun _ => .after fun _ => (yields_require _).bind fun _ hvalid =>
    .pure ⟨⟨Int.natCast_nonneg _, Int.ofNat_le.mpr h⟩, hvalid⟩

theorem daysInMonth_le (y : Int) (m : Nat) : Date.daysInMonth y m ≤ 31 := by
  unfold Date.daysInMonth
  split
  · split <;> decide
  all_goals decide

/-- The days of the years 0 to 9999, generously. -/
theorem toDays_between {d : Date} (hyear : 0 ≤ d.year ∧ d.year ≤ 9999) (hmonth : 1 ≤ d.month ∧ d.month ≤ 12)
    (hday : d.day ≤ 31) : -800000 ≤ d.toDays ∧ d.toDays ≤ 4000000 := by
  simp only [Date.toDays, Int.fdiv_eq_ediv_of_nonneg _ (show (0 : Int) ≤ 4 by decide),
    Int.fdiv_eq_ediv_of_nonneg _ (show (0 : Int) ≤ 100 by decide),
    Int.fdiv_eq_ediv_of_nonneg _ (show (0 : Int) ≤ 400 by decide)]
  split <;> omega

theorem ClockTime.Written.between {t : ClockTime} (h : t.Written) :
    ∃ s : Int, t.toInstant = .ofSeconds s ∧ -100000000000 ≤ s ∧ s ≤ 400000000000 := by
  have hvalid := h.valid
  simp only [ClockTime.isValid, Date.isValid, Bool.and_eq_true, decide_eq_true_eq] at hvalid
  obtain ⟨⟨⟨⟨⟨⟨hmonth, hmonth'⟩, -⟩, hday⟩, hhour⟩, hminute⟩, hsecond⟩ := hvalid
  have hdays := toDays_between h.year ⟨hmonth, hmonth'⟩ (hday.trans (daysInMonth_le _ _))
  exact ⟨_, rfl, by omega, by omega⟩

/-- Less than 26 hours in either direction. -/
theorem yields_zone : Yields zone fun ahead => -100000 ≤ ahead ∧ ahead ≤ 100000 := by
  refine .after fun sign => .ite (yields_ending (by decide) _) (.after fun _ => .after fun hours => .after fun minutes => ?_)
  refine (yields_require _).bind fun _ hrange => yields_ending ?_ _
  simp only [Bool.and_eq_true, decide_eq_true_eq] at hrange
  split <;> omega

/-- A time as a certificate can give it. -/
def Representable (t : Instant) : Prop := t.InCalendar ∧ t.IsWhole

theorem representable_ofSeconds {s : Int} (h : -1000000000000 ≤ s ∧ s ≤ 1000000000000) : Representable (.ofSeconds s) := by
  refine ⟨Instant.inCalendar_iff.mpr ?_, s, rfl⟩
  unfold Instant.ofSeconds Instant.perSecond
  dsimp only
  omega

theorem yields_utcTime : Yields utcTime Representable := by
  refine yields_twoDigits.bind fun year hyear => ?_
  have hfull : fullYear year ≤ 9999 := by
    unfold fullYear
    split <;> omega
  refine (yields_clockTime hfull).bind fun t ht => yields_zone.bind fun ahead hahead => .pure ?_
  obtain ⟨s, hs, hbetween⟩ := ht.between
  have hzone : (⟨t.toInstant.nanos - ahead * Instant.perSecond⟩ : Instant) = .ofSeconds (s - ahead) := by
    rw [hs, Instant.ofSeconds, Instant.ofSeconds, Int.sub_mul]
  rw [hzone]
  exact representable_ofSeconds (by omega)

theorem yields_generalizedTime : Yields generalizedTime Representable := by
  refine yields_twoDigits.bind fun century hcentury => yields_twoDigits.bind fun year hyear => ?_
  refine (yields_clockTime (by omega)).bind fun t ht => .after fun _ => yields_ending ?_ _
  obtain ⟨s, hs, hbetween⟩ := ht.between
  rw [hs]
  exact representable_ofSeconds (by omega)

theorem yields_time : Yields time Representable := by
  refine .after fun e => .after fun _ => .ite ?_ (.ite ?_ ?_)
  · exact Yields.bind (p := (Yields · Representable)) (.pure yields_utcTime) fun r hr =>
      (hr.run e.contents).bind fun found hfound => .pure hfound
  · exact Yields.bind (p := (Yields · Representable)) (.pure yields_generalizedTime) fun r hr =>
      (hr.run e.contents).bind fun found hfound => .pure hfound
  · exact Yields.bind (p := (Yields · Representable)) yields_refuse fun r hr =>
      (hr.run e.contents).bind fun found hfound => .pure hfound

theorem yields_validity : Yields validity fun v => Representable v.1 ∧ Representable v.2 :=
  Yields.inside (yields_time.bind fun _ hbefore => yields_time.bind fun _ hafter => .pure ⟨hbefore, hafter⟩) 16

theorem yields_reader : Yields reader fun c => Representable c.notBefore ∧ Representable c.notAfter := by
  refine Yields.inside (Yields.bind (Yields.inside ?_ 16) fun c hc => .after fun _ => .after fun _ => .pure hc) 16
  refine .after fun _ => .after fun _ => .after fun _ => .after fun _ => yields_validity.bind fun v hv => ?_
  exact .after fun _ => .after fun _ => .after fun _ => .after fun _ => .after fun _ => .pure hv

theorem representable_of_summary {der : Bytes} {c : Summary} (h : summary der = .ok c) :
    Representable c.notBefore ∧ Representable c.notAfter := by
  obtain ⟨x, hx, hc⟩ := bind_eq_ok.mp h
  cases hc
  unfold parse at hx
  split at hx
  · cases hx
  · next hread =>
    cases hx
    exact yields_reader der _ _ hread
  · cases hx

end CertRotation.Certificate
