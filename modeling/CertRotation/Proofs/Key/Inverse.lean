import Mathlib.Data.Nat.GCD.Basic
import Mathlib.Tactic.Linarith
import CertRotation.Key.Rsa

/-!
# Inverses modulo a number

Two divisions halve what is left over, so that `euclid` ends before its bound, with the greatest common divisor. A number
has an inverse exactly if it has no divisor in common with the modulus, and an RSA key can be written anew exactly if its
primes have none.
-/
namespace CertRotation

theorem two_mul_mod_lt {a b : Nat} (hb : 0 < b) (h : b ≤ a) : 2 * (a % b) < a := by
  have hmod := Nat.mod_lt a hb
  have hdiv : 1 ≤ a / b := Nat.div_pos h hb
  have hsum := Nat.div_add_mod a b
  nlinarith

theorem euclid_zero (fuel r0 : Nat) (t0 t1 : Int) : (euclid fuel r0 (0 : Nat) t0 t1).1 = Nat.gcd r0 0 := by
  cases fuel <;> simp [euclid]

theorem euclid_succ {r1 : Nat} (h : 0 < r1) (fuel r0 : Nat) (t0 t1 : Int) :
    euclid (fuel + 1) r0 r1 t0 t1 = euclid fuel r1 (r0 % r1 : Nat) t1 (t0 - r0 / r1 * t1) := by
  rw [euclid, if_neg (by exact_mod_cast h.ne'), Int.natCast_mod]

/-- For every binary digit of the smaller number two divisions are enough. -/
theorem euclid_fst {n fuel r0 r1 : Nat} (hfuel : 2 * n ≤ fuel) (h : r1 < 2 ^ n) (t0 t1 : Int) :
    (euclid fuel r0 r1 t0 t1).1 = Nat.gcd r0 r1 := by
  induction n generalizing fuel r0 r1 t0 t1 with
  | zero =>
    obtain rfl : r1 = 0 := by simpa using h
    exact euclid_zero fuel r0 t0 t1
  | succ n ih =>
    obtain ⟨fuel, rfl⟩ : ∃ f, fuel = f + 1 + 1 := ⟨fuel - 2, by omega⟩
    rcases Nat.eq_zero_or_pos r1 with rfl | h1
    · exact euclid_zero _ r0 t0 t1
    · rw [euclid_succ h1, Nat.gcd_comm, Nat.gcd_rec, Nat.gcd_comm]
      rcases Nat.eq_zero_or_pos (r0 % r1) with hs | hs
      · rw [hs]
        exact euclid_zero _ r1 _ _
      · have hhalf := two_mul_mod_lt hs (Nat.mod_lt r0 h1).le
        rw [Nat.pow_succ] at h
        rw [euclid_succ hs, Nat.gcd_comm, Nat.gcd_rec, Nat.gcd_comm]
        exact ih (by omega) (by omega) _ _

/-- A number has an inverse exactly if it has no divisor in common with the modulus. -/
theorem inverseMod?_isSome {a m : Nat} (hm : 0 < m) : (inverseMod? a m).isSome ↔ Nat.Coprime a m := by
  have hlt : a % m < 2 ^ (Nat.log2 m + 1) := lt_trans (Nat.mod_lt a hm) Nat.lt_log2_self
  have hgcd : (euclid (2 * (Nat.log2 m + 2)) m (a % m : Nat) 0 1).1 = Nat.gcd m (a % m) :=
    euclid_fst (n := Nat.log2 m + 1) (by omega) hlt 0 1
  rw [Nat.gcd_comm, ← Nat.gcd_rec] at hgcd
  unfold inverseMod?
  generalize euclid (2 * (Nat.log2 m + 2)) (m : Int) ((a % m : Nat) : Int) 0 1 = e at hgcd
  obtain ⟨g, t⟩ := e
  dsimp only at hgcd ⊢
  rw [hgcd, Nat.coprime_comm, Nat.Coprime]
  by_cases h : Nat.gcd m a = 1
  · simp [h]
  · have hne : ((Nat.gcd m a : Nat) : Int) ≠ 1 := by exact_mod_cast h
    simp [h, hne]

namespace RsaKey
variable {k : RsaKey}

theorem prime1_pos (h : k.isSound = true) : 0 < k.prime1 := by
  simp only [isSound, Bool.and_eq_true, decide_eq_true_eq] at h
  obtain ⟨⟨⟨⟨⟨⟨⟨-, hodd⟩, -⟩, -⟩, -⟩, hproduct⟩, -⟩, -⟩ := h
  rcases Nat.eq_zero_or_pos k.prime1 with h0 | hpos
  · rw [← hproduct, h0, Nat.zero_mul] at hodd
    cases hodd
  · exact hpos

/-- A sound key can be written anew exactly if its primes have no divisor in common. -/
theorem encode?_isSome (h : k.isSound = true) : k.encode?.isSome ↔ Nat.Coprime k.prime1 k.prime2 := by
  rw [encode?, Option.isSome_map, inverseMod?_isSome (prime1_pos h), Nat.coprime_comm]

end RsaKey
end CertRotation
