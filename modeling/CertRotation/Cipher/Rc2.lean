import CertRotation.Cipher.Cbc

/-!
# RC2

The key length in octets is also the effective key length.
-/
namespace CertRotation.Rc2

/-- A permutation of the octets taken from the digits of the circle constant. -/
def pi : Array UInt8 :=
  #[0xd9, 0x78, 0xf9, 0xc4, 0x19, 0xdd, 0xb5, 0xed, 0x28, 0xe9, 0xfd, 0x79, 0x4a, 0xa0, 0xd8, 0x9d,
    0xc6, 0x7e, 0x37, 0x83, 0x2b, 0x76, 0x53, 0x8e, 0x62, 0x4c, 0x64, 0x88, 0x44, 0x8b, 0xfb, 0xa2,
    0x17, 0x9a, 0x59, 0xf5, 0x87, 0xb3, 0x4f, 0x13, 0x61, 0x45, 0x6d, 0x8d, 0x09, 0x81, 0x7d, 0x32,
    0xbd, 0x8f, 0x40, 0xeb, 0x86, 0xb7, 0x7b, 0x0b, 0xf0, 0x95, 0x21, 0x22, 0x5c, 0x6b, 0x4e, 0x82,
    0x54, 0xd6, 0x65, 0x93, 0xce, 0x60, 0xb2, 0x1c, 0x73, 0x56, 0xc0, 0x14, 0xa7, 0x8c, 0xf1, 0xdc,
    0x12, 0x75, 0xca, 0x1f, 0x3b, 0xbe, 0xe4, 0xd1, 0x42, 0x3d, 0xd4, 0x30, 0xa3, 0x3c, 0xb6, 0x26,
    0x6f, 0xbf, 0x0e, 0xda, 0x46, 0x69, 0x07, 0x57, 0x27, 0xf2, 0x1d, 0x9b, 0xbc, 0x94, 0x43, 0x03,
    0xf8, 0x11, 0xc7, 0xf6, 0x90, 0xef, 0x3e, 0xe7, 0x06, 0xc3, 0xd5, 0x2f, 0xc8, 0x66, 0x1e, 0xd7,
    0x08, 0xe8, 0xea, 0xde, 0x80, 0x52, 0xee, 0xf7, 0x84, 0xaa, 0x72, 0xac, 0x35, 0x4d, 0x6a, 0x2a,
    0x96, 0x1a, 0xd2, 0x71, 0x5a, 0x15, 0x49, 0x74, 0x4b, 0x9f, 0xd0, 0x5e, 0x04, 0x18, 0xa4, 0xec,
    0xc2, 0xe0, 0x41, 0x6e, 0x0f, 0x51, 0xcb, 0xcc, 0x24, 0x91, 0xaf, 0x50, 0xa1, 0xf4, 0x70, 0x39,
    0x99, 0x7c, 0x3a, 0x85, 0x23, 0xb8, 0xb4, 0x7a, 0xfc, 0x02, 0x36, 0x5b, 0x25, 0x55, 0x97, 0x31,
    0x2d, 0x5d, 0xfa, 0x98, 0xe3, 0x8a, 0x92, 0xae, 0x05, 0xdf, 0x29, 0x10, 0x67, 0x6c, 0xba, 0xc9,
    0xd3, 0x00, 0xe6, 0xcf, 0xe1, 0x9e, 0xa8, 0x2c, 0x63, 0x16, 0x01, 0x3f, 0x58, 0xe2, 0x89, 0xa9,
    0x0d, 0x38, 0x34, 0x1b, 0xab, 0x33, 0xff, 0xb0, 0xbb, 0x48, 0x0c, 0x5f, 0xb9, 0xb1, 0xcd, 0x2e,
    0xc5, 0xf3, 0xdb, 0x47, 0xe5, 0xa5, 0x9c, 0x77, 0x0a, 0xa6, 0x20, 0x68, 0xfe, 0x7f, 0xc1, 0xad]

def lookUp (x : UInt8) : UInt8 := pi.getD x.toNat 0

/-- Lengthen `key` to `n` octets more, each from its neighbours. `recent` is reversed. -/
def lengthen (size : Nat) : (n : Nat) → (recent : List UInt8) → List UInt8
  | 0, recent => recent
  | n + 1, recent => lengthen size n (lookUp (recent.headD 0 + recent.getD (size - 1) 0) :: recent)

/-- Replace the octets before the last `size` from the back to the front. `later` starts at the octet
that follows the next one to be replaced. -/
def settle (size : Nat) : (n : Nat) → (later : List UInt8) → List UInt8
  | 0, later => later
  | n + 1, later => settle size n (lookUp (later.headD 0 ^^^ later.getD (size - 1) 0) :: later)

/-- The 64 words of the key schedule, low octet first in each. -/
def words : List UInt8 → List UInt16
  | a :: b :: rest => (a.toUInt16 ||| (b.toUInt16 <<< 8)) :: words rest
  | _ => []

def schedule (key : Bytes) : Array UInt16 :=
  let size := key.length
  let long := (lengthen size (128 - size) key.reverse).reverse
  let tail := match long.drop (128 - size) with
    | [] => []
    | first :: rest => lookUp first :: rest
  (words (settle size (128 - size) tail)).toArray

structure Block where
  r0 : UInt16
  r1 : UInt16
  r2 : UInt16
  r3 : UInt16

def rotl (x n : UInt16) : UInt16 := (x <<< n) ||| (x >>> (16 - n))

/-- Undo mixing round `i`, which used the key words from `4 * i` on. -/
def unmix (k : Array UInt16) (i : Nat) (b : Block) : Block :=
  let word := fun j => k.getD (4 * i + j) 0
  let r3 := rotl b.r3 11 - (word 3 + (b.r2 &&& b.r1) + (~~~b.r2 &&& b.r0))
  let r2 := rotl b.r2 13 - (word 2 + (b.r1 &&& b.r0) + (~~~b.r1 &&& r3))
  let r1 := rotl b.r1 14 - (word 1 + (b.r0 &&& r3) + (~~~b.r0 &&& r2))
  let r0 := rotl b.r0 15 - (word 0 + (r3 &&& r2) + (~~~r3 &&& r1))
  ⟨r0, r1, r2, r3⟩

def mix (k : Array UInt16) (i : Nat) (b : Block) : Block :=
  let word := fun j => k.getD (4 * i + j) 0
  let r0 := rotl (b.r0 + word 0 + (b.r3 &&& b.r2) + (~~~b.r3 &&& b.r1)) 1
  let r1 := rotl (b.r1 + word 1 + (r0 &&& b.r3) + (~~~r0 &&& b.r2)) 2
  let r2 := rotl (b.r2 + word 2 + (r1 &&& r0) + (~~~r1 &&& b.r3)) 3
  let r3 := rotl (b.r3 + word 3 + (r2 &&& r1) + (~~~r2 &&& r0)) 5
  ⟨r0, r1, r2, r3⟩

def mash (k : Array UInt16) (b : Block) : Block :=
  let word := fun (x : UInt16) => k.getD (x.toNat % 64) 0
  let r0 := b.r0 + word b.r3
  let r1 := b.r1 + word r0
  let r2 := b.r2 + word r1
  ⟨r0, r1, r2, b.r3 + word r2⟩

def unmash (k : Array UInt16) (b : Block) : Block :=
  let word := fun (x : UInt16) => k.getD (x.toNat % 64) 0
  let r3 := b.r3 - word b.r2
  let r2 := b.r2 - word b.r1
  let r1 := b.r1 - word b.r0
  ⟨b.r0 - word r3, r1, r2, r3⟩

/-- Sixteen mixing rounds, with a mashing round after the fifth and the eleventh. -/
def encrypt (k : Array UInt16) (b : Block) : Block :=
  let b := (List.range 5).foldl (fun b i => mix k i b) b
  let b := (List.range 6).foldl (fun b i => mix k (5 + i) b) (mash k b)
  (List.range 5).foldl (fun b i => mix k (11 + i) b) (mash k b)

def decrypt (k : Array UInt16) (b : Block) : Block :=
  let b := (List.range 5).foldr (fun i b => unmix k (11 + i) b) b
  let b := (List.range 6).foldr (fun i b => unmix k (5 + i) b) (unmash k b)
  (List.range 5).foldr (fun i b => unmix k i b) (unmash k b)

def Block.ofBytes (b : Bytes) : Block :=
  let w := fun i => (b.getD (2 * i) 0).toUInt16 ||| ((b.getD (2 * i + 1) 0).toUInt16 <<< 8)
  ⟨w 0, w 1, w 2, w 3⟩

def Block.toBytes (b : Block) : Bytes :=
  [b.r0, b.r1, b.r2, b.r3].flatMap fun (w : UInt16) => [w.toUInt8, (w >>> 8).toUInt8]

def cipher (key : Bytes) : BlockCipher :=
  let k := schedule key
  { blockSize := 8
    encryptBlock := fun b => (encrypt k (.ofBytes b)).toBytes
    decryptBlock := fun b => (decrypt k (.ofBytes b)).toBytes }

end CertRotation.Rc2
