import CertRotation.Cipher.Cbc

/-!
# AES

The cipher on four columns of four octets. The substitution is computed from the field with 256 elements
and tabulated once; every layer is written beside its inverse.
-/
namespace CertRotation.Aes

/-- Multiplication by the generator of the field. -/
def double (x : UInt8) : UInt8 := if x < 0x80 then x <<< 1 else (x <<< 1) ^^^ 0x1b

/-- The product in the field with 256 elements: the multiples of `x` by the powers of two in `y`. -/
def mul (x y : UInt8) : UInt8 :=
  ((List.range 8).foldl (fun (p : UInt8 × UInt8) i =>
    (if y.toNat.testBit i then p.1 ^^^ p.2 else p.1, double p.2)) (0, x)).1

/-- The inverse in the field, zero for zero: the power 254. -/
def inverse (x : UInt8) : UInt8 :=
  let x2 := mul x x
  let x4 := mul x2 x2
  let x8 := mul x4 x4
  let x16 := mul x8 x8
  let x32 := mul x16 x16
  let x64 := mul x32 x32
  let x128 := mul x64 x64
  mul x2 (mul x4 (mul x8 (mul x16 (mul x32 (mul x64 x128)))))

def rotl (x n : UInt8) : UInt8 := (x <<< n) ||| (x >>> (8 - n))

def substitute (x : UInt8) : UInt8 :=
  let y := inverse x
  y ^^^ rotl y 1 ^^^ rotl y 2 ^^^ rotl y 3 ^^^ rotl y 4 ^^^ 0x63

def unsubstitute (y : UInt8) : UInt8 := inverse (rotl y 1 ^^^ rotl y 3 ^^^ rotl y 6 ^^^ 0x05)

def table (f : UInt8 → UInt8) : Array UInt8 := Array.ofFn (n := 256) fun i => f (UInt8.ofNat i)

def substitution : Array UInt8 := table substitute
def unsubstitution : Array UInt8 := table unsubstitute

structure Column where
  b0 : UInt8
  b1 : UInt8
  b2 : UInt8
  b3 : UInt8
  deriving DecidableEq, Repr

namespace Column

def map (f : UInt8 → UInt8) (c : Column) : Column := ⟨f c.b0, f c.b1, f c.b2, f c.b3⟩

def xor (c d : Column) : Column := ⟨c.b0 ^^^ d.b0, c.b1 ^^^ d.b1, c.b2 ^^^ d.b2, c.b3 ^^^ d.b3⟩

def toBytes (c : Column) : Bytes := [c.b0, c.b1, c.b2, c.b3]

/-- The column of the first four octets, zeros where there are none. -/
def ofBytes (b : Bytes) : Column := ⟨b.getD 0 0, b.getD 1 0, b.getD 2 0, b.getD 3 0⟩

/-- The product with a circulant matrix, given by its first row. -/
def circulant (m0 m1 m2 m3 : UInt8) (c : Column) : Column :=
  ⟨mul c.b0 m0 ^^^ mul c.b1 m1 ^^^ mul c.b2 m2 ^^^ mul c.b3 m3,
    mul c.b0 m3 ^^^ mul c.b1 m0 ^^^ mul c.b2 m1 ^^^ mul c.b3 m2,
    mul c.b0 m2 ^^^ mul c.b1 m3 ^^^ mul c.b2 m0 ^^^ mul c.b3 m1,
    mul c.b0 m1 ^^^ mul c.b1 m2 ^^^ mul c.b2 m3 ^^^ mul c.b3 m0⟩

def mix (c : Column) : Column := circulant 2 3 1 1 c
def unmix (c : Column) : Column := circulant 14 11 13 9 c

end Column

structure Block where
  c0 : Column
  c1 : Column
  c2 : Column
  c3 : Column
  deriving DecidableEq, Repr

namespace Block

def map (f : Column → Column) (s : Block) : Block := ⟨f s.c0, f s.c1, f s.c2, f s.c3⟩

def xor (s t : Block) : Block := ⟨s.c0.xor t.c0, s.c1.xor t.c1, s.c2.xor t.c2, s.c3.xor t.c3⟩

def toBytes (s : Block) : Bytes := s.c0.toBytes ++ s.c1.toBytes ++ s.c2.toBytes ++ s.c3.toBytes

def ofBytes (b : Bytes) : Block :=
  ⟨.ofBytes b, .ofBytes (b.drop 4), .ofBytes (b.drop 8), .ofBytes (b.drop 12)⟩

/-- Row `i` moves `i` columns to the left. -/
def shiftRows (s : Block) : Block :=
  ⟨⟨s.c0.b0, s.c1.b1, s.c2.b2, s.c3.b3⟩, ⟨s.c1.b0, s.c2.b1, s.c3.b2, s.c0.b3⟩,
    ⟨s.c2.b0, s.c3.b1, s.c0.b2, s.c1.b3⟩, ⟨s.c3.b0, s.c0.b1, s.c1.b2, s.c2.b3⟩⟩

def unshiftRows (s : Block) : Block :=
  ⟨⟨s.c0.b0, s.c3.b1, s.c2.b2, s.c1.b3⟩, ⟨s.c1.b0, s.c0.b1, s.c3.b2, s.c2.b3⟩,
    ⟨s.c2.b0, s.c1.b1, s.c0.b2, s.c3.b3⟩, ⟨s.c3.b0, s.c2.b1, s.c1.b2, s.c0.b3⟩⟩

def sub (s : Block) : Block := s.map (Column.map fun x => substitution.getD x.toNat 0)
def unsub (s : Block) : Block := s.map (Column.map fun x => unsubstitution.getD x.toNat 0)

end Block

def subWord (c : Column) : Column := c.map fun x => substitution.getD x.toNat 0

/-- The columns of the key schedule, newest first, up to `n` more than in `columns`. The key has `size`
columns and `i` counts the columns so far. -/
def expand (size : Nat) : (n i : Nat) → (round : UInt8) → (columns : List Column) → List Column
  | 0, _, _, columns => columns
  | n + 1, i, round, columns =>
    let last := columns.headD ⟨0, 0, 0, 0⟩
    let base := columns.getD (size - 1) ⟨0, 0, 0, 0⟩
    if i % size = 0 then
      let t := subWord ⟨last.b1, last.b2, last.b3, last.b0⟩
      expand size n (i + 1) (double round) (base.xor ⟨t.b0 ^^^ round, t.b1, t.b2, t.b3⟩ :: columns)
    else if 6 < size ∧ i % size = 4 then
      expand size n (i + 1) round (base.xor (subWord last) :: columns)
    else expand size n (i + 1) round (base.xor last :: columns)

def blocksOfColumns : List Column → List Block
  | c0 :: c1 :: c2 :: c3 :: rest => ⟨c0, c1, c2, c3⟩ :: blocksOfColumns rest
  | _ => []

/-- One block for the start and one for each round; a key of `4 * k` octets has `k + 6` rounds. -/
def roundKeys (key : Bytes) : List Block :=
  let columns := (chunks 4 key).map Column.ofBytes
  let size := columns.length
  blocksOfColumns (expand size (4 * (size + 7) - size) size 1 columns.reverse).reverse

/-- All rounds after the first key; the last one does not mix. -/
def encryptRounds : List Block → Block → Block
  | [], s => s
  | [k], s => s.sub.shiftRows.xor k
  | k :: ks, s => encryptRounds ks ((s.sub.shiftRows.map Column.mix).xor k)

/-- Undo `encryptRounds`, given the same keys. -/
def decryptRounds : List Block → Block → Block
  | [], s => s
  | [k], s => (s.xor k).unshiftRows.unsub
  | k :: ks, s => (((decryptRounds ks s).xor k).map Column.unmix).unshiftRows.unsub

def encryptBlock (keys : List Block) (s : Block) : Block :=
  match keys with
  | [] => s
  | k :: ks => encryptRounds ks (s.xor k)

def decryptBlock (keys : List Block) (s : Block) : Block :=
  match keys with
  | [] => s
  | k :: ks => (decryptRounds ks s).xor k

def cipher (key : Bytes) : BlockCipher :=
  let keys := roundKeys key
  { blockSize := 16
    encryptBlock := fun b => (encryptBlock keys (.ofBytes b)).toBytes
    decryptBlock := fun b => (decryptBlock keys (.ofBytes b)).toBytes }

end CertRotation.Aes
