import CertRotation.KeyDerivation.Pbkdf2

/-!
# Memory hard key derivation

The derivation called scrypt. Blocks are arrays of 32 bit words read low octet first.
-/
namespace CertRotation.Scrypt

structure Quad where
  a : UInt32
  b : UInt32
  c : UInt32
  d : UInt32

def rotl (x n : UInt32) : UInt32 := (x <<< n) ||| (x >>> (32 - n))

def quarter (q : Quad) : Quad :=
  let b := q.b ^^^ rotl (q.a + q.d) 7
  let c := q.c ^^^ rotl (b + q.a) 9
  let d := q.d ^^^ rotl (c + b) 13
  ⟨q.a ^^^ rotl (d + c) 18, b, c, d⟩

/-- Sixteen words, as the four columns that a double round works on: each starts on the diagonal. -/
structure Cell where
  x0 : Quad
  x1 : Quad
  x2 : Quad
  x3 : Quad

def doubleRound (s : Cell) : Cell :=
  let p0 := quarter s.x0
  let p1 := quarter s.x1
  let p2 := quarter s.x2
  let p3 := quarter s.x3
  let q0 := quarter ⟨p0.a, p1.d, p2.c, p3.b⟩
  let q1 := quarter ⟨p1.a, p2.d, p3.c, p0.b⟩
  let q2 := quarter ⟨p2.a, p3.d, p0.c, p1.b⟩
  let q3 := quarter ⟨p3.a, p0.d, p1.c, p2.b⟩
  ⟨⟨q0.a, q1.d, q2.c, q3.b⟩, ⟨q1.a, q2.d, q3.c, q0.b⟩, ⟨q2.a, q3.d, q0.c, q1.b⟩, ⟨q3.a, q0.d, q1.c, q2.b⟩⟩

def Cell.ofWords (w : Array UInt32) (i : Nat) : Cell :=
  let g := fun j => w.getD (i + j) 0
  ⟨⟨g 0, g 4, g 8, g 12⟩, ⟨g 5, g 9, g 13, g 1⟩, ⟨g 10, g 14, g 2, g 6⟩, ⟨g 15, g 3, g 7, g 11⟩⟩

def Quad.zip (f : UInt32 → UInt32 → UInt32) (p q : Quad) : Quad := ⟨f p.a q.a, f p.b q.b, f p.c q.c, f p.d q.d⟩

def Cell.zip (f : UInt32 → UInt32 → UInt32) (s t : Cell) : Cell :=
  ⟨s.x0.zip f t.x0, s.x1.zip f t.x1, s.x2.zip f t.x2, s.x3.zip f t.x3⟩

/-- Append the sixteen words in their own order. -/
def Cell.append (out : Array UInt32) (s : Cell) : Array UInt32 :=
  let out := (((out.push s.x0.a).push s.x1.d).push s.x2.c).push s.x3.b
  let out := (((out.push s.x0.b).push s.x1.a).push s.x2.d).push s.x3.c
  let out := (((out.push s.x0.c).push s.x1.b).push s.x2.a).push s.x3.d
  (((out.push s.x0.d).push s.x1.c).push s.x2.b).push s.x3.a

def salsa (s : Cell) : Cell := (Nat.repeat doubleRound 4 s).zip (· + ·) s

/-- Chain all cells of a block, then put the even ones before the odd ones. -/
def mixBlock (r : Nat) (w : Array UInt32) : Array UInt32 :=
  let start := Cell.ofWords w (16 * (2 * r - 1))
  let (_, even, odd) := (List.range (2 * r)).foldl
    (fun (p : Cell × Array UInt32 × Array UInt32) i =>
      let y := salsa (p.1.zip (· ^^^ ·) (.ofWords w (16 * i)))
      if i % 2 = 0 then (y, Cell.append p.2.1 y, p.2.2) else (y, p.2.1, Cell.append p.2.2 y))
    (start, #[], #[])
  even ++ odd

/-- Fill a table with the first `n` blocks of the chain, then walk `n` steps through it. -/
def mixTable (r n : Nat) (w : Array UInt32) : Array UInt32 :=
  let (table, w) := (List.range n).foldl
    (fun (p : Array (Array UInt32) × Array UInt32) _ => (p.1.push p.2, mixBlock r p.2)) (#[], w)
  (List.range n).foldl
    (fun w _ =>
      let j := (w.getD (16 * (2 * r - 1)) 0).toNat % n
      mixBlock r (Array.zipWith (· ^^^ ·) w (table.getD j #[]))) w

def wordsOf : Bytes → List UInt32
  | a :: b :: c :: d :: rest =>
    (a.toUInt32 ||| (b.toUInt32 <<< 8) ||| (c.toUInt32 <<< 16) ||| (d.toUInt32 <<< 24)) :: wordsOf rest
  | _ => []

def octets (x : UInt32) : Bytes := [x.toUInt8, (x >>> 8).toUInt8, (x >>> 16).toUInt8, (x >>> 24).toUInt8]

/-- `size` octets derived with cost `n`, block size `r` and `p` independent lanes. -/
def derive (password salt : Bytes) (n r p size : Nat) : Bytes :=
  let start := HashName.sha256.pbkdf2 password salt 1 (128 * r * p)
  let mixed := (chunks (128 * r) start).flatMap fun lane =>
    (mixTable r n (wordsOf lane).toArray).toList.flatMap octets
  HashName.sha256.pbkdf2 password mixed 1 size

end CertRotation.Scrypt
