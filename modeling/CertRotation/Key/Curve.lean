import CertRotation.Asn1.Oid
import CertRotation.Key.Arithmetic

/-!
# Elliptic curves

The two curves in short Weierstrass form with linear coefficient minus three, P-256 and P-384. Points are kept
in Jacobian coordinates while they are added up.
-/
namespace CertRotation

/-- A curve whose points are counted by `order`. -/
structure Curve where
  oid : Oid
  prime : Nat
  order : Nat
  baseX : Nat
  baseY : Nat
  /-- Octets of a coordinate and of a secret number. -/
  size : Nat

namespace Curve

def p256 : Curve where
  oid := .ofArcs [1, 2, 840, 10045, 3, 1, 7]
  prime := 0xffffffff00000001000000000000000000000000ffffffffffffffffffffffff
  order := 0xffffffff00000000ffffffffffffffffbce6faada7179e84f3b9cac2fc632551
  baseX := 0x6b17d1f2e12c4247f8bce6e563a440f277037d812deb33a0f4a13945d898c296
  baseY := 0x4fe342e2fe1a7f9b8ee7eb4a7c0f9e162bce33576b315ececbb6406837bf51f5
  size := 32

def p384 : Curve where
  oid := .ofArcs [1, 3, 132, 0, 34]
  prime := 0xfffffffffffffffffffffffffffffffffffffffffffffffffffffffffffffffeffffffff0000000000000000ffffffff
  order := 0xffffffffffffffffffffffffffffffffffffffffffffffffc7634d81f4372ddf581a0db248b0a77aecec196accc52973
  baseX := 0xaa87ca22be8b05378eb1c71ef320ad746e1d3b628ba79b9859f741e082542a385502f25dbf55296c3a545e3872760ab7
  baseY := 0x3617de4a96262c6f5d9e98bf9292dc29f8f41dbd289a147ce9da3113b5f0b8c00a60b1ce1d7e819d7a431d7c90ea0e5f
  size := 48

/-- Stands for `(x / z², y / z³)`; the point at infinity has `z = 0`. -/
structure Point where
  x : Nat
  y : Nat
  z : Nat
  deriving DecidableEq, Repr

def infinity : Point := ⟨1, 1, 0⟩

variable (c : Curve)

def base : Point := ⟨c.baseX, c.baseY, 1⟩

/-- The difference modulo the prime of two numbers below it. -/
def sub (a b : Nat) : Nat := (a + c.prime - b) % c.prime

def double (a : Point) : Point :=
  if a.z = 0 then infinity
  else
    let p := c.prime
    let delta := a.z * a.z % p
    let gamma := a.y * a.y % p
    let beta := a.x * gamma % p
    let alpha := 3 * (c.sub a.x delta * ((a.x + delta) % p)) % p
    let x := c.sub (alpha * alpha % p) (8 * beta % p)
    let z := 2 * (a.y * a.z) % p
    let y := c.sub (alpha * c.sub (4 * beta % p) x % p) (8 * (gamma * gamma) % p)
    ⟨x, y, z⟩

def add (a b : Point) : Point :=
  if a.z = 0 then b
  else if b.z = 0 then a
  else
    let p := c.prime
    let za := a.z * a.z % p
    let zb := b.z * b.z % p
    let ua := a.x * zb % p
    let ub := b.x * za % p
    let sa := a.y * (b.z * zb % p) % p
    let sb := b.y * (a.z * za % p) % p
    if ua = ub then if sa = sb then c.double a else infinity
    else
      let h := c.sub ub ua
      let r := c.sub sb sa
      let hh := h * h % p
      let hhh := h * hh % p
      let v := ua * hh % p
      let x := c.sub (c.sub (r * r % p) hhh) (2 * v % p)
      let y := c.sub (r * c.sub v x % p) (sa * hhh % p)
      ⟨x, y, h * (a.z * b.z % p) % p⟩

/-- `k` times the base point, the bits of `k` taken highest first. -/
def multiply (k : Nat) : Point :=
  (List.range (8 * c.size)).foldr
    (fun i a => let d := c.double a; if k.testBit i then c.add d c.base else d) infinity

def coordinates (a : Point) : Nat × Nat :=
  let p := c.prime
  let inv := powMod p a.z (p - 2)
  let inv2 := inv * inv % p
  (a.x * inv2 % p, a.y * (inv2 * inv % p) % p)

def uncompressed (xy : Nat × Nat) : Bytes := 4 :: Bytes.ofNat c.size xy.1 ++ Bytes.ofNat c.size xy.2

/-- The first coordinate after an octet that tells whether the second is odd. -/
def compressed (xy : Nat × Nat) : Bytes := (if xy.2 % 2 = 0 then 2 else 3) :: Bytes.ofNat c.size xy.1

/-- The secret number that `b` spells: 24 octets or more, but no more than the curve has, and between one
and the order. -/
def secret? (b : Bytes) : Option Nat :=
  let k := Bytes.toNat b
  if 24 ≤ b.length ∧ b.length ≤ c.size ∧ 0 < k ∧ k < c.order then some k else none

end Curve
end CertRotation
