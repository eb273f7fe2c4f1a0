import CertRotation.Bytes

/-!
# UTF-8

`next` reads one character or finds the longest part of an ill-formed one. Strict decoding refuses
ill-formed text; lossy decoding puts one replacement character for each ill-formed part.
-/
namespace CertRotation.Utf8

/-- The code points below which nothing more than `n` continuation octets is allowed start with these
leading octets: how many octets follow, and the range of the first of them. -/
def lead (b : UInt8) : Option (Nat × UInt8 × UInt8) :=
  if b < 0xc2 then none
  else if b < 0xe0 then some (1, 0x80, 0xbf)
  else if b = 0xe0 then some (2, 0xa0, 0xbf)
  else if b = 0xed then some (2, 0x80, 0x9f)
  else if b < 0xf0 then some (2, 0x80, 0xbf)
  else if b = 0xf0 then some (3, 0x90, 0xbf)
  else if b < 0xf4 then some (3, 0x80, 0xbf)
  else if b = 0xf4 then some (3, 0x80, 0x8f)
  else none

/-- Read up to `n` continuation octets, the first between `low` and `high`: the code point so far, how
many octets were read, and whether all were there. -/
def continuation (low high : UInt8) : (n : Nat) → (point read : Nat) → Bytes → Nat × Nat × Bool
  | 0, point, read, _ => (point, read, true)
  | _ + 1, point, read, [] => (point, read, false)
  | n + 1, point, read, b :: bs =>
    if low ≤ b ∧ b ≤ high then
      continuation 0x80 0xbf n (64 * point + (b.toNat - 0x80)) (read + 1) bs
    else (point, read, false)

/-- The first character of non-empty text, or `none` for an ill-formed one, and how many octets beyond
the first belong to it. -/
def next (b : UInt8) (rest : Bytes) : Option Char × Nat :=
  if b < 0x80 then (some (Char.ofNat b.toNat), 0)
  else
    match lead b with
    | none => (none, 0)
    | some (n, low, high) =>
      let top := b.toNat % Nat.pow 2 (6 - n)
      let (point, read, complete) := continuation low high n top 0 rest
      (if complete then some (Char.ofNat point) else none, read)

/-- Every character in turn, `none` for each ill-formed part. -/
def scan : Bytes → List (Option Char)
  | [] => []
  | b :: rest =>
    let (c, more) := next b rest
    c :: scan (rest.drop more)
termination_by b => b.length
decreasing_by simp only [List.length_drop, List.length_cons]; omega

/-- The text, if it is well formed. -/
def decode? (b : Bytes) : Option String := ((scan b).mapM id).map String.ofList

/-- The text with each ill-formed part replaced. -/
def decodeLossy (b : Bytes) : String := String.ofList ((scan b).map (·.getD '\uFFFD'))

/-! ## Text cut at an octet -/

/-- How many octets the characters have. -/
def size : List Char → Nat
  | [] => 0
  | c :: s => c.utf8Size + size s

/-- The characters in the first `n` octets, unless these end within a character or there are fewer. -/
def cut? : List Char → (n : Nat) → Option (List Char)
  | _, 0 => some []
  | [], _ + 1 => none
  | c :: s, n + 1 => if c.utf8Size ≤ n + 1 then (cut? s (n + 1 - c.utf8Size)).map (c :: ·) else none

end CertRotation.Utf8
