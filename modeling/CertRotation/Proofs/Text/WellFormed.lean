import CertRotation.Proofs.Traversal
import CertRotation.Text.Utf8

/-!
# Well-formed text

An octet below 128 is a character of its own, wherever it stands, so that a text can be scanned in two parts there. What
follows it begins with such an octet again or with the first octets of a longer character.
-/
namespace CertRotation.Utf8

section
variable {a low high b : UInt8} {n point read : Nat} {x y rest : Bytes}

theorem le_of_lead (h : lead b = some (n, low, high)) : 0xc2 ≤ b ∧ 0 < n ∧ 0x80 ≤ low := by
  unfold lead at h
  by_cases hb : b < 0xc2
  · rw [if_pos hb] at h
    cases h
  · rw [if_neg hb] at h
    refine ⟨UInt8.not_lt.mp hb, ?_⟩
    split_ifs at h
    all_goals
      cases h
      decide

/-- A continuation ends before an octet below 128. -/
theorem continuation_append (ha : a < 0x80) (hlow : 0x80 ≤ low) :
    continuation low high n point read (x ++ a :: y) = continuation low high n point read x := by
  induction n generalizing low high point read x with
  | zero => simp [continuation]
  | succ n ih =>
    cases x with
    | nil =>
      have hstop : ¬ (low ≤ a ∧ a ≤ high) := fun h => absurd (UInt8.lt_of_lt_of_le ha hlow) (UInt8.not_lt.mpr h.1)
      simp [continuation, hstop]
    | cons c x =>
      simp only [List.cons_append, continuation]
      split
      · exact ih (by decide)
      · rfl

theorem read_continuation_le : (continuation low high n point read x).2.1 ≤ read + x.length := by
  induction n generalizing low high point read x with
  | zero => simp [continuation]
  | succ n ih =>
    cases x with
    | nil => simp [continuation]
    | cons c x =>
      simp only [continuation]
      split
      · refine Nat.le_trans ih ?_
        rw [List.length_cons]
        omega
      · simp

theorem next_append (ha : a < 0x80) (b : UInt8) (x y : Bytes) :
    next b (x ++ a :: y) = next b x ∧ (next b x).2 ≤ x.length := by
  unfold next
  split
  · exact ⟨rfl, Nat.zero_le _⟩
  · split
    · exact ⟨rfl, Nat.zero_le _⟩
    · next n low high hlead =>
      obtain ⟨-, -, hlow⟩ := le_of_lead hlead
      dsimp only
      rw [continuation_append ha hlow]
      have hread := @read_continuation_le low high n (b.toNat % Nat.pow 2 (6 - n)) 0 x
      rw [Nat.zero_add] at hread
      exact ⟨rfl, hread⟩

/-- A text is cut in two where an octet below 128 stands. -/
theorem scan_append (ha : a < 0x80) (x y : Bytes) : scan (x ++ a :: y) = scan x ++ scan (a :: y) := by
  fun_induction scan x with
  | case1 => rfl
  | case2 b rest c more hnext ih =>
    obtain ⟨hsame, hle⟩ := next_append ha b rest y
    rw [hnext] at hsame hle
    rw [List.cons_append, scan, hsame]
    dsimp only at hle ⊢
    rw [List.drop_append_of_le_length hle, ih, List.cons_append]

/-- An octet from 128 on is the first of a longer character, whose next one follows, or there is no character. -/
theorem exists_of_next (hb : ¬ b < 0x80) (h : (next b rest).1.isSome) :
    0xc2 ≤ b ∧ ∃ c rest', rest = c :: rest' ∧ 0x80 ≤ c := by
  unfold next at h
  rw [if_neg hb] at h
  split at h
  · cases h
  · next n low high hlead =>
    obtain ⟨hle, hn, hlow⟩ := le_of_lead hlead
    refine ⟨hle, ?_⟩
    obtain ⟨m, rfl⟩ := Nat.exists_eq_succ_of_ne_zero (Nat.pos_iff_ne_zero.mp hn)
    cases rest with
    | nil => simp [continuation] at h
    | cons c rest =>
      refine ⟨c, rest, rfl, ?_⟩
      by_cases hc : low ≤ c ∧ c ≤ high
      · exact UInt8.le_trans hlow hc.1
      · simp [continuation, hc] at h

theorem isSome_of_decode? (h : (decode? x).isSome) : ∀ o ∈ scan x, o.isSome := by
  obtain ⟨s, hs⟩ := Option.isSome_iff_exists.mp h
  obtain ⟨cs, hcs, -⟩ := Option.map_eq_some_iff.mp hs
  have hscan : List.Forall₂ (· = ·) (scan x) (cs.map some) := List.forall₂_map_right_iff.mpr (mapM_eq_some.mp hcs)
  rw [List.forall₂_eq_eq_eq] at hscan
  rw [hscan]
  simp

/-- So much is sure of what stands in a text between two octets below 128. -/
theorem exists_of_decode? (ha : a < 0x80) (hb : ¬ b < 0x80) (h : (decode? (x ++ a :: b :: rest)).isSome) :
    0xc2 ≤ b ∧ ∃ c rest', rest = c :: rest' ∧ 0x80 ≤ c := by
  have hall := isSome_of_decode? h
  rw [scan_append ha] at hall
  have hscan : scan (a :: b :: rest) = some (Char.ofNat a.toNat) :: scan (b :: rest) := by
    rw [scan, next, if_pos ha]
    rfl
  refine exists_of_next hb (hall _ ?_)
  rw [hscan, scan.eq_2 b]
  simp

end
end CertRotation.Utf8
