import CertRotation.Proofs.Rotation.Assessing

/-!
# Renewal as the clock moves on

A certificate is due from some instant on: never after its expiry, and not before the start of its validity if the threshold
is a share of its lifetime. Later instants and wider thresholds only add to what is due. A check of files that stay as they are
comes to another answer only once.
-/
namespace CertRotation

namespace Threshold
open Instant

/-- Of one kind, and the other is at least as wide. -/
inductive Le : Threshold → Threshold → Prop where
  | window {m n : Nat} (h : m ≤ n) : Le (.window m) (.window n)
  | percentage {p q : Nat} (h : p ≤ q) : Le (.percentage p) (.percentage q)

instance : LE Threshold := ⟨Le⟩

/-- From when on `c` is due. -/
def firstDue (t : Threshold) (c : Certificate.Summary) : Instant := ⟨c.notAfter.nanos - t.windowFor c * perSecond⟩

variable {c : Certificate.Summary} {now : Instant} {t t' : Threshold} {p : Nat}

theorem isDue_iff_firstDue_le (ha : c.notAfter ≤ last) : t.isDue c now = true ↔ t.firstDue c ≤ now :=
  (isDue_iff ha).trans Int.sub_right_le_iff_le_add.symm

theorem firstDue_le_notAfter (t : Threshold) (c : Certificate.Summary) : t.firstDue c ≤ c.notAfter :=
  Int.sub_le_self _ (Int.mul_nonneg (windowFor_nonneg t c) perSecond_pos.le)

theorem firstDue_antitone (h : t.windowFor c ≤ t'.windowFor c) : t'.firstDue c ≤ t.firstDue c :=
  Int.sub_le_sub_left (Int.mul_le_mul_of_nonneg_right h perSecond_pos.le) _

section
variable (hb : c.notBefore.InCalendar) (ha : c.notAfter.InCalendar)
include hb ha

theorem windowFor_percentage (hp : p ≤ 100) :
    windowFor (.percentage p) c = (c.lifetime.toNat * p / 100 : Nat) :=
  windowFor_eq (windowFor?_percentage hb ha hp)

theorem windowFor_mono {text : String} (ht' : parse text = .ok t') (h : t ≤ t') : t.windowFor c ≤ t'.windowFor c := by
  cases h with
  | window h => exact Int.ofNat_le.mpr h
  | @percentage p q h =>
    have hq : q ≤ 100 := percentage_le ht'
    rw [windowFor_percentage hb ha (h.trans hq), windowFor_percentage hb ha hq]
    exact Int.ofNat_le.mpr (Nat.div_le_div_right (Nat.mul_le_mul_left _ h))

/-- A share of the lifetime is no longer than the validity, and shorter unless it is the whole lifetime. -/
theorem window_le_validity (hp : p ≤ 100) (hlt : c.notBefore < c.notAfter) :
    windowFor (.percentage p) c * perSecond ≤ c.notAfter.nanos - c.notBefore.nanos ∧
      (p < 100 → windowFor (.percentage p) c * perSecond < c.notAfter.nanos - c.notBefore.nanos) := by
  have hlt : c.notBefore.nanos < c.notAfter.nanos := hlt
  obtain ⟨n, hn⟩ : ∃ n : Nat, c.lifetime = n := Int.eq_ofNat_of_zero_le (Int.tdiv_nonneg (by omega) perSecond_pos.le)
  have hlife : n * perSecond ≤ c.notAfter.nanos - c.notBefore.nanos := by
    rw [← hn, Certificate.Summary.lifetime, Int.tdiv_eq_ediv_of_nonneg (by omega)]
    exact Int.ediv_mul_le _ perSecond_pos.ne'
  have hwindow : windowFor (.percentage p) c = (n * p / 100 : Nat) := by
    rw [windowFor_percentage hb ha hp, hn, Int.toNat_natCast]
  have hshare : n * p ≤ n * 100 := Nat.mul_le_mul_left n hp
  rw [hwindow]
  unfold perSecond at hlife ⊢
  refine ⟨by omega, fun hpart => ?_⟩
  -- nothing of no whole second is still less than the validity
  rcases Nat.eq_zero_or_pos n with rfl | hpos
  · omega
  · have hless : n * p < n * 100 := Nat.mul_lt_mul_of_pos_left hpart hpos
    omega

/-- The first instant at which a share of the lifetime is left. -/
theorem firstDue_percentage (hp : p ≤ 100) (hlt : c.notBefore < c.notAfter) :
    c.notBefore ≤ firstDue (.percentage p) c ∧ (p < 100 → c.notBefore < firstDue (.percentage p) c) ∧
      (p = 0 → firstDue (.percentage p) c = c.notAfter) := by
  obtain ⟨hle, hless⟩ := window_le_validity hb ha hp hlt
  have hfirst : (firstDue (.percentage p) c).nanos = c.notAfter.nanos - windowFor (.percentage p) c * perSecond := rfl
  refine ⟨?_, fun hpart => ?_, ?_⟩
  · show c.notBefore.nanos ≤ _
    omega
  · have hless := hless hpart
    show c.notBefore.nanos < _
    omega
  · rintro rfl
    have hnone : windowFor (.percentage 0) c = 0 := by
      rw [windowFor_percentage hb ha (Nat.zero_le 100), Nat.mul_zero]
      rfl
    rw [firstDue, hnone, Int.zero_mul, Int.sub_zero]

end
end Threshold

namespace Installation
open Rotation

/-- As the clock moves on, the decision about the same octets stays as it is, unless their certificate becomes due. -/
theorem decision_later (i : Installation) (t : Threshold) (b : Bytes) {now now' : Instant} (h : now ≤ now') :
    i.decision t now' b = i.decision t now b ∨
      ∃ c, i.decision t now b = .ok (.valid c) ∧ i.decision t now' b = .ok (.renewalDue c) := by
  have h : now.nanos ≤ now'.nanos := h
  unfold decision
  cases Bundle.decode b i.password with
  | error e => exact .inl rfl
  | ok d =>
    dsimp only
    cases d.leafSummary with
    | error e => exact .inl rfl
    | ok c =>
      dsimp only
      by_cases hdue : c.notAfter.nanos ≤ now.nanos + t.windowFor c * 1000000000
      · rw [if_pos hdue, if_pos (by omega)]
        exact .inl rfl
      · rw [if_neg hdue]
        by_cases hdue' : c.notAfter.nanos ≤ now'.nanos + t.windowFor c * 1000000000
        · exact .inr ⟨c, rfl, if_pos hdue'⟩
        · exact .inl (if_neg hdue')

theorem assess_later (i : Installation) (text : String) (t : FileTree) {now now' : Instant} (h : now ≤ now') :
    i.assess text now' t = i.assess text now t ∨
      ∃ c, i.assess text now t = .ok (.valid c) ∧ i.assess text now' t = .ok (.renewalDue c) := by
  cases hparse : Threshold.parse text with
  | error e => exact .inl (by rw [assess_of_parse_error _ _ hparse, assess_of_parse_error _ _ hparse])
  | ok threshold =>
    rcases hasFile_or t i.file with ⟨b, hf⟩ | hf | ⟨e, he, hf⟩
    · rw [assess_of_hasFile hparse hf, assess_of_hasFile hparse hf]
      exact decision_later i threshold b h
    · exact .inl (by rw [assess_of_hasNoFile hparse hf, assess_of_hasNoFile hparse hf])
    · exact .inl (by rw [assess_of_fault hparse he hf, assess_of_fault hparse he hf])

theorem checkAt_apply (s : Surroundings) (i : Installation) (text : String) (w : World) (now : Instant) :
    (i.installer s).checkAt text now w = ((i.assess text now w.files).map Assessment.needsInstall, w) := by
  have hassess : (i.installer s).assess text now w = (i.assess text now w.files, w) := rfl
  rw [Installer.checkAt, bind_apply, hassess]
  cases i.assess text now w.files <;> rfl

/-- A check changes nothing, and the same check later says the same, unless an installation was not needed and now is. -/
theorem checkAt_later (s : Surroundings) (i : Installation) (text : String) (w : World) {now now' : Instant} (h : now ≤ now') :
    ∃ r r', (i.installer s).checkAt text now w = (r, w) ∧ (i.installer s).checkAt text now' w = (r', w) ∧
      (r' = r ∨ r = .ok false ∧ r' = .ok true) := by
  refine ⟨_, _, checkAt_apply s i text w now, checkAt_apply s i text w now', ?_⟩
  rcases assess_later i text w.files h with heq | ⟨c, hvalid, hdue⟩
  · exact .inl (by rw [heq])
  · exact .inr ⟨by rw [hvalid]; rfl, by rw [hdue]; rfl⟩

end Installation

namespace Threshold
open Instant

/-- For a validity in the calendar, what is due under a threshold that is read is due at every later instant and under every
wider threshold of its kind, and what has expired is due under any. If the validity is not empty and the threshold is a share,
the first instant from which on it is due lies within the validity, after its start unless the share is the whole, and at its
end if there is no share. Every check of files that stay as they are comes to the same answer at every later instant, unless
an installation is needed only then. -/
theorem renewal_monotone {c : Certificate.Summary} {text : String} {t : Threshold} (hb : c.notBefore.InCalendar)
    (ha : c.notAfter.InCalendar) (ht : parse text = .ok t) :
    (∀ now now', now ≤ now' → t.isDue c now = true → t.isDue c now' = true) ∧
      (∀ wider t' now, parse wider = .ok t' → t ≤ t' → t.isDue c now = true → t'.isDue c now = true) ∧
      (∀ now, c.isExpiredAt now = true → t.isDue c now = true) ∧
      (∀ p, t = .percentage p → c.notBefore < c.notAfter → ∃ first : Instant,
        (∀ now, t.isDue c now = true ↔ first ≤ now) ∧ c.notBefore ≤ first ∧ first ≤ c.notAfter ∧
        (p < 100 → c.notBefore < first) ∧ (p = 0 → first = c.notAfter)) ∧
      ∀ (s : Surroundings) (i : Installation) (renewBefore : String) (w : World) (now now' : Instant), now ≤ now' →
        ∃ r r', (i.installer s).checkAt renewBefore now w = (r, w) ∧ (i.installer s).checkAt renewBefore now' w = (r', w) ∧
          (r' = r ∨ r = .ok false ∧ r' = .ok true) := by
  have hdue : ∀ (t : Threshold) now, t.isDue c now = true ↔ t.firstDue c ≤ now := fun _ _ => isDue_iff_firstDue_le ha.2
  refine ⟨fun now now' hlater h => ?_, fun wider t' now ht' hle h => ?_, fun now h => ?_, fun p hp hlt => ?_,
    fun s i renewBefore w _ _ hlater => Installation.checkAt_later s i renewBefore w hlater⟩
  · exact (hdue t now').mpr (Int.le_trans ((hdue t now).mp h) hlater)
  · have hfirst := firstDue_antitone (windowFor_mono hb ha ht' hle)
    exact (hdue t' now).mpr (Int.le_trans hfirst ((hdue t now).mp h))
  · exact (hdue t now).mpr (Int.le_trans (firstDue_le_notAfter t c) (of_decide_eq_true h))
  · subst hp
    obtain ⟨hle, hless, hzero⟩ := firstDue_percentage hb ha (percentage_le ht) hlt
    exact ⟨_, hdue _, hle, firstDue_le_notAfter _ c, hless, hzero⟩

/-- Valid for the first hundred days of 2026. -/
def hundredDays : Certificate.Summary := ⟨"CN=leaf", "CN=ca", "01", "", ofSeconds 1767225600, ofSeconds 1775865600⟩

theorem renewal_monotone_hundredDays :
    isDue (.percentage 10) hundredDays (ofSeconds 1775001600) = true ∧
      isDue (.percentage 10) hundredDays (ofSeconds 1775001601) = true ∧
      isDue (.percentage 20) hundredDays (ofSeconds 1775001600) = true ∧
      isDue (.percentage 10) hundredDays (ofSeconds 1775865600) = true ∧
      ∃ first : Instant, hundredDays.notBefore < first ∧ first ≤ hundredDays.notAfter := by
  have hparse : parse "10%" = .ok (.percentage 10) := by decide
  have hwider : parse "20%" = .ok (.percentage 20) := by decide
  obtain ⟨hlater, hwide, hexpired, hfirst, -⟩ := renewal_monotone (c := hundredDays) (by decide) (by decide) hparse
  obtain ⟨first, -, -, hend, hstart, -⟩ := hfirst 10 rfl (by decide)
  have hdue : isDue (.percentage 10) hundredDays (ofSeconds 1775001600) = true := by decide
  exact ⟨hdue, hlater _ _ (by decide) hdue, hwide "20%" _ _ hwider (.percentage (by decide)) hdue, hexpired _ (by decide),
    first, hstart (by decide), hend⟩

end Threshold
end CertRotation
