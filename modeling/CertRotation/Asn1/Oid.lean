import CertRotation.Bytes

/-!
# Object identifiers

An identifier is kept as its encoded contents, so that two are equal exactly when their encodings are.
`Oid.ofArcs` writes one from its arcs, `dotted` and `text` print one.
-/
namespace CertRotation

/-- An object identifier by its encoded contents. -/
structure Oid where
  contents : Bytes
  deriving DecidableEq, Repr

namespace Oid

/-- Digits of `n` in base 128, all but the last marked as continued, before `rest`. -/
def arcDigits (n : Nat) (rest : Bytes) : Bytes :=
  if n < 128 then UInt8.ofNat n :: rest
  else high (n / 128) (UInt8.ofNat (n % 128) :: rest)
where
  /-- The digits before the last. -/
  high (n : Nat) (rest : Bytes) : Bytes :=
    if n < 128 then UInt8.ofNat (128 + n) :: rest
    else high (n / 128) (UInt8.ofNat (128 + n % 128) :: rest)

def ofArcs : List Nat → Oid
  | a :: b :: rest => ⟨UInt8.ofNat (40 * a + b) :: rest.flatMap fun n => arcDigits n []⟩
  | _ => ⟨[]⟩

/-- The arcs after the first two, as lists of seven bit digits. A last arc may be cut off. -/
def digitGroups (group : List Nat) : Bytes → List (List Nat)
  | [] => if group = [] then [] else [group.reverse]
  | b :: rest =>
    let group := b.toNat % 128 :: group
    if b < 0x80 then group.reverse :: digitGroups [] rest else digitGroups group rest

def arcValue (digits : List Nat) : Nat := digits.foldl (fun n d => 128 * n + d) 0

/-- The first octet gives two arcs: its quotient and remainder by 40. -/
def arcs (o : Oid) : List Nat :=
  match o.contents with
  | [] => []
  | [0] => [0]
  | b :: rest => b.toNat / 40 :: b.toNat % 40 :: (digitGroups [] rest).map arcValue

def dotted (o : Oid) : String := ".".intercalate (o.arcs.map toString)

/-- Like `dotted`, but the octets in base 16 when an arc needs more than 64 bits. -/
def text (o : Oid) : String :=
  if (digitGroups [] (o.contents.drop 1)).all fun g => 7 * g.length ≤ 64 then o.dotted
  else " ".intercalate (o.contents.map (Bytes.octetText Bytes.lowerDigits))

/-- Identifiers that strict readers take: 3 to 39 octets, a first arc of at most 2, every arc complete and
below `2 ^ 36`. -/
def isStrict (o : Oid) : Bool :=
  3 ≤ o.contents.length && o.contents.length ≤ 39 && o.contents.headD 0 < 120 && o.contents.getLastD 0 < 0x80 &&
    (digitGroups [] (o.contents.drop 1)).all fun g => g.length ≤ 5 || (g.length = 6 && g.getLastD 0 < 16)

end Oid
end CertRotation
