import CertRotation.Cipher.Aes
import CertRotation.Proofs.Numbers
import Mathlib.Algebra.Group.Basic
import Mathlib.Logic.Function.Iterate

/-!
# The field of the cipher

The product is linear in both factors, so what it satisfies on the eight octets of one bit it satisfies everywhere.
Squaring is linear as well, and eight squarings change nothing. Hence the power 254, taken twice, changes nothing.
-/
namespace CertRotation.Aes

/-- The sum of `y` and those bits of `x` that stand at the places of the list. -/
def addBits (x : UInt8) (places : List (Fin 8)) (y : UInt8) : UInt8 :=
  places.foldl (fun z i => if x.toNat.testBit i.val then z ^^^ 1 <<< UInt8.ofNat i.val else z) y

theorem addBits_all (x : UInt8) : addBits x (List.finRange 8) 0 = x := by
  apply forall_octet (p := fun x => addBits x (List.finRange 8) 0 = x)
  decide +kernel

/-- What holds of every octet with one bit, and of the sum of two octets it holds of, holds of every octet. -/
theorem octet_of_bits {p : UInt8 → Prop} (hbit : ∀ i : Fin 8, p (1 <<< UInt8.ofNat i))
    (hxor : ∀ x y, p x → p y → p (x ^^^ y)) (x : UInt8) : p x := by
  have hzero : p 0 := by
    have h := hxor _ _ (hbit 0) (hbit 0)
    rwa [UInt8.xor_self] at h
  have hsum : ∀ (l : List (Fin 8)) (y : UInt8), p y → p (addBits x l y) := by
    intro l
    induction l with
    | nil => exact fun y hy => hy
    | cons i l ih =>
      intro y hy
      refine ih _ ?_
      show p (if x.toNat.testBit i.val then y ^^^ 1 <<< UInt8.ofNat i.val else y)
      split
      · exact hxor _ _ hy (hbit i)
      · exact hy
  rw [← addBits_all x]
  exact hsum _ _ hzero

/-! ## The product is linear -/

theorem lt_iff_msb (x : UInt8) : x < 0x80 ↔ x.toBitVec.msb = false := by
  rw [BitVec.msb_eq_decide, UInt8.lt_iff_toNat_lt]
  simp

theorem double_eq (x : UInt8) : double x = (x <<< 1) ^^^ (if x < 0x80 then 0 else 0x1b) := by
  unfold double
  split <;> simp

theorem double_xor (x y : UInt8) : double (x ^^^ y) = double x ^^^ double y := by
  have hshift : (x ^^^ y) <<< 1 = (x <<< 1) ^^^ (y <<< 1) := by
    apply UInt8.toBitVec_inj.mp
    simp [BitVec.shiftLeft_xor_distrib]
  have hcarry : (if x ^^^ y < 0x80 then (0 : UInt8) else 0x1b) =
      (if x < 0x80 then 0 else 0x1b) ^^^ (if y < 0x80 then 0 else 0x1b) := by
    simp only [lt_iff_msb, UInt8.toBitVec_xor, BitVec.msb_xor]
    cases x.toBitVec.msb <;> cases y.toBitVec.msb <;> rfl
  rw [double_eq, double_eq, double_eq, hshift, hcarry]
  ac_rfl

/-- One bit of the product: the sum so far and the next multiple. -/
def addMultiple (y : UInt8) (p : UInt8 × UInt8) (i : Nat) : UInt8 × UInt8 :=
  (if y.toNat.testBit i then p.1 ^^^ p.2 else p.1, double p.2)

theorem mul_eq_foldl (x y : UInt8) : mul x y = ((List.range 8).foldl (addMultiple y) (0, x)).1 := rfl

theorem addMultiple_xor (y : UInt8) (a b c d : UInt8) (i : Nat) :
    addMultiple y (a ^^^ b, c ^^^ d) i =
      ((addMultiple y (a, c) i).1 ^^^ (addMultiple y (b, d) i).1,
        (addMultiple y (a, c) i).2 ^^^ (addMultiple y (b, d) i).2) := by
  simp only [addMultiple, double_xor, Prod.mk.injEq, and_true]
  split
  · ac_rfl
  · rfl

theorem foldl_addMultiple_xor (y : UInt8) (l : List Nat) (a b c d : UInt8) :
    l.foldl (addMultiple y) (a ^^^ b, c ^^^ d) =
      ((l.foldl (addMultiple y) (a, c)).1 ^^^ (l.foldl (addMultiple y) (b, d)).1,
        (l.foldl (addMultiple y) (a, c)).2 ^^^ (l.foldl (addMultiple y) (b, d)).2) := by
  induction l generalizing a b c d with
  | nil => rfl
  | cons i l ih => simp only [List.foldl_cons, addMultiple_xor, ih, Prod.mk.eta]

theorem xor_mul (x y m : UInt8) : mul (x ^^^ y) m = mul x m ^^^ mul y m := by
  have h := foldl_addMultiple_xor m (List.range 8) 0 0 x y
  rw [UInt8.xor_self] at h
  rw [mul_eq_foldl, mul_eq_foldl, mul_eq_foldl, h]

theorem xor_addMultiple (y z a b c : UInt8) (i : Nat) :
    (addMultiple (y ^^^ z) (a ^^^ b, c) i).1 = (addMultiple y (a, c) i).1 ^^^ (addMultiple z (b, c) i).1 := by
  simp only [addMultiple, UInt8.toNat_xor, Nat.testBit_xor]
  cases y.toNat.testBit i <;> cases z.toNat.testBit i <;> simp only [Bool.xor_false, Bool.xor_true, Bool.not_true,
    Bool.not_false, if_true, if_false, Bool.false_eq_true]
  · ac_rfl
  · ac_rfl
  · rw [show a ^^^ c ^^^ (b ^^^ c) = a ^^^ b ^^^ (c ^^^ c) by ac_rfl, UInt8.xor_self, UInt8.xor_zero]

theorem mul_xor (m x y : UInt8) : mul m (x ^^^ y) = mul m x ^^^ mul m y := by
  have hfold : ∀ (l : List Nat) (a b c : UInt8), (l.foldl (addMultiple (x ^^^ y)) (a ^^^ b, c)).1 =
      (l.foldl (addMultiple x) (a, c)).1 ^^^ (l.foldl (addMultiple y) (b, c)).1 := by
    intro l
    induction l with
    | nil => exact fun _ _ _ => rfl
    | cons i l ih =>
      intro a b c
      have hstep : addMultiple (x ^^^ y) (a ^^^ b, c) i =
          ((addMultiple x (a, c) i).1 ^^^ (addMultiple y (b, c) i).1, double c) :=
        Prod.ext (xor_addMultiple x y a b c i) rfl
      rw [List.foldl_cons, List.foldl_cons, List.foldl_cons, hstep, ih]
      rfl
  have h := hfold (List.range 8) 0 0 m
  rw [UInt8.xor_self] at h
  rw [mul_eq_foldl, mul_eq_foldl, mul_eq_foldl, h]

/-! ## The monoid of the product -/

theorem product_comm (x y : UInt8) : mul x y = mul y x := by
  induction x using octet_of_bits with
  | hbit i =>
    induction y using octet_of_bits with
    | hbit j =>
      revert i j
      decide
    | hxor x y hx hy => rw [mul_xor, xor_mul, hx, hy]
  | hxor x z hx hz => rw [mul_xor, xor_mul, hx, hz]

theorem product_double (x y : UInt8) : mul x (double y) = double (mul x y) := by
  induction x using octet_of_bits with
  | hbit i =>
    induction y using octet_of_bits with
    | hbit j =>
      revert i j
      decide
    | hxor x y hx hy => rw [mul_xor, double_xor, double_xor, mul_xor, hx, hy]
  | hxor x z hx hz => rw [xor_mul, xor_mul, double_xor, hx, hz]

theorem product_one (x : UInt8) : mul x 1 = x := by
  induction x using octet_of_bits with
  | hbit i =>
    revert i
    decide
  | hxor x y hx hy => rw [xor_mul, hx, hy]

theorem bit_eq_iterate (i : Fin 8) : (1 <<< UInt8.ofNat i : UInt8) = double^[i.val] 1 := by
  revert i
  decide

theorem product_iterate_double (n : Nat) (x y : UInt8) : mul x (double^[n] y) = double^[n] (mul x y) := by
  induction n with
  | zero => rfl
  | succ n ih => rw [Function.iterate_succ_apply', Function.iterate_succ_apply', product_double, ih]

theorem product_assoc (x y z : UInt8) : mul (mul x y) z = mul x (mul y z) := by
  induction z using octet_of_bits with
  | hbit i =>
    simp only [bit_eq_iterate, product_iterate_double, product_one]
  | hxor v w hv hw => rw [mul_xor, mul_xor, mul_xor, hv, hw]

/-- The octets under the product of the field. -/
structure Element where
  value : UInt8

namespace Element

instance : CommMonoid Element where
  mul x y := ⟨Aes.mul x.value y.value⟩
  one := ⟨1⟩
  mul_assoc x y z := congrArg mk (product_assoc x.value y.value z.value)
  mul_comm x y := congrArg mk (product_comm x.value y.value)
  mul_one x := congrArg mk (product_one x.value)
  one_mul x := congrArg mk ((product_comm 1 x.value).trans (product_one x.value))

theorem mk_mul (x y : UInt8) : mk (Aes.mul x y) = mk x * mk y := rfl

theorem mk_inverse (x : UInt8) : mk (inverse x) = mk x ^ 254 := by
  simp only [inverse, mk_mul, ← pow_two, ← pow_mul, ← pow_add, Nat.reducePow, Nat.reduceMul, Nat.reduceAdd]

end Element

/-! ## Inverses -/

def square (x : UInt8) : UInt8 := mul x x

theorem square_xor (x y : UInt8) : square (x ^^^ y) = square x ^^^ square y := by
  simp only [square, xor_mul, mul_xor, product_comm y x]
  rw [show mul x x ^^^ mul x y ^^^ (mul x y ^^^ mul y y) = mul x x ^^^ mul y y ^^^ (mul x y ^^^ mul x y) by ac_rfl,
    UInt8.xor_self, UInt8.xor_zero]

theorem iterate_square_xor (n : Nat) (x y : UInt8) :
    square^[n] (x ^^^ y) = square^[n] x ^^^ square^[n] y := by
  induction n generalizing x y with
  | zero => rfl
  | succ n ih => rw [Function.iterate_succ_apply, square_xor, ih]; rfl

theorem iterate_square_eight (x : UInt8) : square^[8] x = x := by
  induction x using octet_of_bits with
  | hbit i =>
    revert i
    decide
  | hxor x y hx hy => rw [iterate_square_xor, hx, hy]

namespace Element

theorem mk_iterate_square (n : Nat) (x : UInt8) : mk (square^[n] x) = mk x ^ 2 ^ n := by
  induction n with
  | zero => exact (pow_one _).symm
  | succ n ih => rw [Function.iterate_succ_apply', square, mk_mul, ih, ← pow_two, ← pow_mul, pow_succ]

theorem pow_256 (x : Element) : x ^ 256 = x := by
  rw [show 256 = 2 ^ 8 by rfl, ← mk_iterate_square, iterate_square_eight]

theorem pow_round (x : Element) (n : Nat) : x ^ (1 + 255 * n) = x := by
  induction n with
  | zero => exact pow_one x
  | succ n ih =>
    calc x ^ (1 + 255 * (n + 1)) = x ^ (1 + 255 * n + 255) := congrArg (x ^ ·) (by omega)
      _ = x ^ (1 + 255 * n) * x ^ 255 := pow_add _ _ _
      _ = x * x ^ 255 := by rw [ih]
      _ = x ^ 256 := (pow_succ' x 255).symm
      _ = x := pow_256 x

end Element

/-- The inverse of the inverse is where it began, also at zero. -/
theorem inverse_inverse (x : UInt8) : inverse (inverse x) = x := by
  have h : Element.mk (inverse (inverse x)) = Element.mk x := by
    rw [Element.mk_inverse, Element.mk_inverse, ← pow_mul]
    exact Element.pow_round _ 253
  exact congrArg Element.value h

end CertRotation.Aes
