import Mathlib.Tactic.Linarith
import Mathlib.Tactic.Ring
import CertRotation.Bytes

/-!
# Octets and the numbers that they spell

`Bytes.toNat` reads what `Bytes.ofNat` writes, and `Bytes.minimal` writes a number in as few octets as it needs. What
is cut into pieces of one size can be put together again.
-/
namespace CertRotation

/-- What holds of 256 numbers holds of every octet. -/
theorem forall_octet {p : UInt8 → Prop} (h : ∀ i : Fin 256, p (UInt8.ofNat i)) (x : UInt8) : p x := by
  have hx := h ⟨x.toNat, x.toNat_lt⟩
  rwa [UInt8.ofNat_toNat] at hx

namespace Bytes

theorem foldl_toNat (n : Nat) (b : Bytes) :
    b.foldl (fun n x => n * 256 + x.toNat) n = n * 256 ^ b.length + toNat b := by
  induction b generalizing n with
  | nil => simp [toNat]
  | cons x b ih =>
    have h0 := ih x.toNat
    have hn := ih (n * 256 + x.toNat)
    simp only [toNat, List.foldl_cons, List.length_cons, Nat.zero_mul, Nat.zero_add] at h0 hn ⊢
    rw [hn, h0, Nat.pow_succ]
    ring

theorem toNat_cons (x : UInt8) (b : Bytes) : toNat (x :: b) = x.toNat * 256 ^ b.length + toNat b := by
  have h := foldl_toNat x.toNat b
  simpa [toNat] using h

theorem toNat_lt (b : Bytes) : toNat b < 256 ^ b.length := by
  induction b with
  | nil => simp [toNat]
  | cons x b ih =>
    rw [toNat_cons, List.length_cons, Nat.pow_succ]
    have hx : x.toNat < 256 := x.toNat_lt
    nlinarith [Nat.pow_pos (n := b.length) (show 0 < 256 by decide)]

@[simp] theorem length_ofNat (width n : Nat) : (ofNat width n).length = width := by
  induction width with
  | zero => rfl
  | succ w ih => simp [ofNat, ih]

theorem toNat_ofNat_mod (width n : Nat) : toNat (ofNat width n) = n % 256 ^ width := by
  induction width with
  | zero => simp [ofNat, toNat, Nat.mod_one]
  | succ w ih =>
    have hp : 2 ^ (8 * w) = 256 ^ w := by rw [Nat.pow_mul]
    rw [ofNat, toNat_cons, ih, length_ofNat, Nat.pow_succ, Nat.shiftRight_eq_div_pow, hp, Nat.mod_mul]
    simp only [UInt8.toNat_ofNat']
    ring

theorem toNat_ofNat {width n : Nat} (h : n < 256 ^ width) : toNat (ofNat width n) = n := by
  rw [toNat_ofNat_mod, Nat.mod_eq_of_lt h]

theorem lt_pow_width (n : Nat) : n < 256 ^ width n := by
  unfold width
  split
  · next h => simp [h]
  · have hlt : n < 2 ^ (n.log2 + 1) := Nat.lt_log2_self
    have hle : 2 ^ (n.log2 + 1) ≤ 2 ^ (8 * (n.log2 / 8 + 1)) := Nat.pow_le_pow_right (by decide) (by omega)
    rw [show 256 ^ (n.log2 / 8 + 1) = 2 ^ (8 * (n.log2 / 8 + 1)) by rw [Nat.pow_mul]]
    exact lt_of_lt_of_le hlt hle

/-- No octet of `width n` octets is idle. -/
theorem pow_le_of_width {n w : Nat} (h : width n = w + 1) : 256 ^ w ≤ n := by
  unfold width at h
  split at h
  · simp at h
  · next hn =>
    have hw : n.log2 / 8 = w := by omega
    have hle : 2 ^ n.log2 ≤ n := Nat.log2_self_le hn
    rw [show 256 ^ w = 2 ^ (8 * w) by rw [Nat.pow_mul]]
    exact le_trans (Nat.pow_le_pow_right (by decide) (by omega)) hle

theorem width_le {n w : Nat} (h : n < 256 ^ w) : width n ≤ w := by
  cases hw : width n with
  | zero => exact Nat.zero_le _
  | succ v =>
    have hle := pow_le_of_width hw
    by_contra hv
    have : 256 ^ w ≤ 256 ^ v := Nat.pow_le_pow_right (by decide) (by omega)
    omega

@[simp] theorem toNat_minimal (n : Nat) : toNat (minimal n) = n := by
  apply toNat_ofNat
  exact lt_of_lt_of_le (lt_pow_width n) (Nat.pow_le_pow_right (by decide) (le_max_right _ _))

theorem length_minimal (n : Nat) : (minimal n).length = max 1 (width n) := length_ofNat _ _

theorem minimal_head_ne_zero {n : Nat} {x y : UInt8} {b : Bytes} (h : minimal n = x :: y :: b) : x ≠ 0 := by
  have hlen : max 1 (width n) = b.length + 2 := by rw [← length_minimal, h]; rfl
  have hw : width n = b.length + 1 + 1 := by omega
  have hle := pow_le_of_width hw
  have hn : toNat (x :: y :: b) = n := by rw [← h, toNat_minimal]
  intro hx
  have hlt := toNat_lt (y :: b)
  rw [toNat_cons, hx] at hn
  simp only [UInt8.toNat_zero, Nat.zero_mul, Nat.zero_add, List.length_cons] at hn hlt
  omega

/-- Octets of one length that spell the same number are the same. -/
theorem toNat_injective {a b : Bytes} (hlen : a.length = b.length) (h : toNat a = toNat b) : a = b := by
  induction a generalizing b with
  | nil => exact (List.length_eq_zero_iff.mp hlen.symm).symm
  | cons x a ih =>
    cases b with
    | nil => cases hlen
    | cons y b =>
      have hlen : a.length = b.length := Nat.succ.inj hlen
      have ha := toNat_lt a
      have hb := toNat_lt b
      rw [toNat_cons, toNat_cons, hlen, Nat.mul_comm, Nat.mul_comm y.toNat] at h
      rw [hlen] at ha
      have hpos : 0 < 256 ^ b.length := Nat.pow_pos (by decide)
      have hhead := congrArg (· / 256 ^ b.length) h
      have htail := congrArg (· % 256 ^ b.length) h
      simp only [Nat.mul_add_div hpos, Nat.div_eq_of_lt ha, Nat.div_eq_of_lt hb, Nat.add_zero] at hhead
      simp only [Nat.mul_add_mod, Nat.mod_eq_of_lt ha, Nat.mod_eq_of_lt hb] at htail
      rw [UInt8.toNat_inj.mp hhead, ih hlen htail]

theorem ofNat_toNat (b : Bytes) : ofNat b.length (toNat b) = b :=
  toNat_injective (length_ofNat _ _) (toNat_ofNat (toNat_lt b))

theorem width_toNat {x : UInt8} (hx : x ≠ 0) (b : Bytes) : width (toNat (x :: b)) = b.length + 1 := by
  have hle : width (toNat (x :: b)) ≤ b.length + 1 := width_le (toNat_lt (x :: b))
  have hpos : 1 ≤ x.toNat := Nat.pos_of_ne_zero fun h => hx (UInt8.toNat_inj.mp h)
  have hbig : 256 ^ b.length ≤ toNat (x :: b) := by
    rw [toNat_cons]
    nlinarith [Nat.pow_pos (n := b.length) (show 0 < 256 by decide)]
  by_contra hne
  have hsmall : 256 ^ width (toNat (x :: b)) ≤ 256 ^ b.length := Nat.pow_le_pow_right (by decide) (by omega)
  have hlt := lt_pow_width (toNat (x :: b))
  omega

/-- Octets without an idle one in front are those that the number is written in. -/
theorem minimal_toNat {x : UInt8} {b : Bytes} (h : x ≠ 0 ∨ b = []) : minimal (toNat (x :: b)) = x :: b := by
  have hwidth : max 1 (width (toNat (x :: b))) = (x :: b).length := by
    rcases h with hx | rfl
    · rw [width_toNat hx, List.length_cons]
      omega
    · have hle : width (toNat [x]) ≤ 1 := width_le (toNat_lt [x])
      exact Nat.max_eq_left hle
  rw [minimal, hwidth, ofNat_toNat]

theorem length_xor {a b : Bytes} (h : a.length = b.length) : (xor a b).length = b.length := by
  simp [xor, h]

theorem xor_xor_cancel {a b : Bytes} (h : a.length = b.length) : xor a (xor a b) = b := by
  induction a generalizing b with
  | nil => cases b <;> simp_all [xor]
  | cons x a ih =>
    cases b with
    | nil => simp at h
    | cons y b =>
      have hi := ih (b := b) (by simpa using h)
      simp only [xor, List.zipWith_cons_cons, List.cons.injEq] at hi ⊢
      exact ⟨by rw [← UInt8.xor_assoc, UInt8.xor_self, UInt8.zero_xor], hi⟩

end Bytes

/-! ## Pieces -/

section
variable {α : Type}

theorem chunks_append {n : Nat} (hn : 0 < n) {piece : List α} (hp : piece.length = n) (rest : List α) :
    chunks n (piece ++ rest) = piece :: chunks n rest := by
  cases piece with
  | nil => simp at hp; omega
  | cons x xs =>
    have hxs : xs.length = n - 1 := by simp only [List.length_cons] at hp; omega
    rw [List.cons_append, chunks, ← hxs, List.take_left, List.drop_left]

theorem chunks_flatten {n : Nat} (hn : 0 < n) {pieces : List (List α)} (hp : ∀ p ∈ pieces, p.length = n) :
    chunks n pieces.flatten = pieces := by
  induction pieces with
  | nil => simp [chunks]
  | cons p rest ih =>
    rw [List.flatten_cons, chunks_append hn (hp p (by simp)), ih fun q hq => hp q (by simp [hq])]

theorem flatten_chunks (n : Nat) (l : List α) : (chunks n l).flatten = l := by
  fun_induction chunks n l with
  | case1 => rfl
  | case2 x xs ih => simp [ih]

/-- Pieces of a whole multiple all have the same size. -/
theorem length_of_mem_chunks {n : Nat} (hn : 0 < n) {l piece : List α} (hl : n ∣ l.length)
    (hp : piece ∈ chunks n l) : piece.length = n := by
  fun_induction chunks n l with
  | case1 => simp at hp
  | case2 x xs ih =>
    have hle : n ≤ xs.length + 1 := Nat.le_of_dvd (by simp) hl
    rcases List.mem_cons.mp hp with rfl | hp
    · simp only [List.length_cons, List.length_take]
      omega
    · apply ih _ hp
      have := Nat.dvd_sub hl (Nat.dvd_refl n)
      simp only [List.length_cons, List.length_drop] at this ⊢
      rwa [show xs.length - (n - 1) = xs.length + 1 - n by omega]

end
end CertRotation
