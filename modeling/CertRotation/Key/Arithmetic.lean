/-!
# Modular arithmetic
-/
namespace CertRotation

/-- `b ^ e % m` by squaring; the exponent's bits are taken lowest first. -/
def powMod (m : Nat) (b e : Nat) : Nat := go (Nat.log2 e + 1) (b % m) e (1 % m)
where
  /-- `acc * b ^ e % m` for an exponent of at most `fuel` bits. -/
  go : (fuel b e acc : Nat) → Nat
    | 0, _, _, acc => acc
    | fuel + 1, b, e, acc => go fuel (b * b % m) (e / 2) (if e % 2 = 1 then acc * b % m else acc)

/-- Greatest common divisor of `r0` and `r1` with the multiple of the start value that leads to it. `fuel`
bounds the number of divisions. -/
def euclid : (fuel : Nat) → (r0 r1 : Int) → (t0 t1 : Int) → Int × Int
  | 0, r0, _, t0, _ => (r0, t0)
  | fuel + 1, r0, r1, t0, t1 =>
    if r1 = 0 then (r0, t0) else euclid fuel r1 (r0 % r1) t1 (t0 - r0 / r1 * t1)

/-- The inverse of `a` modulo `m`, if they have no common divisor. -/
def inverseMod? (a m : Nat) : Option Nat :=
  let (g, t) := euclid (2 * (Nat.log2 m + 2)) m (a % m : Nat) 0 1
  if g = 1 then some (t % (m : Int)).toNat else none

end CertRotation
