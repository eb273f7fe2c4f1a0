import CertRotation.Hash.Basic

/-!
# SHA-1
-/
namespace CertRotation.Sha1

structure State where
  a : UInt32
  b : UInt32
  c : UInt32
  d : UInt32
  e : UInt32

def initial : State := ⟨0x67452301, 0xefcdab89, 0x98badcfe, 0x10325476, 0xc3d2e1f0⟩

def rotl (x n : UInt32) : UInt32 := (x <<< n) ||| (x >>> (32 - n))

/-- The sixteen words of the message schedule that the coming rounds read. -/
structure Window where
  w0 : UInt32
  w1 : UInt32
  w2 : UInt32
  w3 : UInt32
  w4 : UInt32
  w5 : UInt32
  w6 : UInt32
  w7 : UInt32
  w8 : UInt32
  w9 : UInt32
  w10 : UInt32
  w11 : UInt32
  w12 : UInt32
  w13 : UInt32
  w14 : UInt32
  w15 : UInt32

def Window.next (w : Window) : Window :=
  ⟨w.w1, w.w2, w.w3, w.w4, w.w5, w.w6, w.w7, w.w8, w.w9, w.w10, w.w11, w.w12, w.w13, w.w14, w.w15,
    rotl (w.w13 ^^^ w.w8 ^^^ w.w2 ^^^ w.w0) 1⟩

def word (b : Bytes) : UInt32 := b.foldl (fun n x => (n <<< 8) ||| x.toUInt32) 0

/-- The words of a block of 64 octets. -/
def Window.ofBlock (block : Bytes) : Window :=
  let w := fun i => word ((block.drop (4 * i)).take 4)
  ⟨w 0, w 1, w 2, w 3, w 4, w 5, w 6, w 7, w 8, w 9, w 10, w 11, w 12, w 13, w 14, w 15⟩

/-- One round with mixing function `f` and constant `k`. -/
def round (f : UInt32 → UInt32 → UInt32 → UInt32) (k : UInt32) (p : State × Window) : State × Window :=
  let (s, w) := p
  (⟨rotl s.a 5 + f s.b s.c s.d + s.e + k + w.w0, s.a, rotl s.b 30, s.c, s.d⟩, w.next)

def choose (x y z : UInt32) : UInt32 := (x &&& y) ||| (~~~x &&& z)
def parity (x y z : UInt32) : UInt32 := x ^^^ y ^^^ z
def majority (x y z : UInt32) : UInt32 := (x &&& y) ||| (x &&& z) ||| (y &&& z)

def step (s : State) (block : Bytes) : State :=
  let p := (s, Window.ofBlock block)
  let p := Nat.repeat (round choose 0x5a827999) 20 p
  let p := Nat.repeat (round parity 0x6ed9eba1) 20 p
  let p := Nat.repeat (round majority 0x8f1bbcdc) 20 p
  let (t, _) := Nat.repeat (round parity 0xca62c1d6) 20 p
  ⟨s.a + t.a, s.b + t.b, s.c + t.c, s.d + t.d, s.e + t.e⟩

def octets (x : UInt32) : Bytes :=
  [(x >>> 24).toUInt8, (x >>> 16).toUInt8, (x >>> 8).toUInt8, x.toUInt8]

def output (s : State) : Bytes := octets s.a ++ octets s.b ++ octets s.c ++ octets s.d ++ octets s.e

end CertRotation.Sha1

namespace CertRotation

def sha1 : Hash Sha1.State where
  blockSize := 64
  lengthSize := 8
  digestSize := 20
  initial := Sha1.initial
  step := Sha1.step
  output := Sha1.output

end CertRotation
