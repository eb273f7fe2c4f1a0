import CertRotation.Asn1.Oid

/-!
# DER, read strictly

Readers take octets from the front and give the rest back. Lengths must be minimal and definite, tags known,
integers minimal, and nothing may be left over inside an element: `nested` and `Reader.whole?` insist on it.
-/
namespace CertRotation.Der

/-- Takes a value from the front of the octets, or refuses. -/
abbrev Reader := StateT Bytes Option

/-- The value of a reader that must use up all octets. -/
def Reader.whole? {α : Type} (r : Reader α) (b : Bytes) : Option α :=
  match r.run b with
  | some (a, []) => some a
  | _ => none

def refuse {α : Type} : Reader α := fun _ => none

def require (p : Bool) : Reader Unit := if p then pure () else refuse

def ofOption {α : Type} (o : Option α) : Reader α := fun b => o.map (·, b)

/-- The identifier octets that may start an element. -/
def isTag (b : UInt8) : Bool :=
  b &&& 0x1f != 0x1f &&
    ([0x01, 0x02, 0x03, 0x04, 0x05, 0x06, 0x09, 0x0a, 0x0c, 0x12, 0x13, 0x14, 0x15, 0x16, 0x17, 0x18, 0x1a, 0x1b, 0x1e,
      0x30, 0x31].contains b || (0x40 ≤ b && b ≠ 0x7f))

def octet : Reader UInt8
  | [] => none
  | b :: rest => some (b, rest)

def take (n : Nat) : Reader Bytes := fun b => if b.length < n then none else some (b.take n, b.drop n)

def tag : Reader UInt8 := do
  let t ← octet
  require (isTag t)
  pure t

/-- The longest contents that an element can have: one octet less than 256 mebibytes. -/
def maxLength : Nat := 0xfffffff

/-- A length in as few octets as possible, at most four after the first. -/
def length : Reader Nat := do
  let first ← octet
  if first < 0x80 then pure first.toNat
  else
    let n := first.toNat - 0x80
    require (1 ≤ n && n ≤ 4)
    let digits ← take n
    let l := Bytes.toNat digits
    require (0x80 ≤ l && l ≤ maxLength && Bytes.width l = n)
    pure l

/-- An element: its identifier octet and its contents. -/
structure Element where
  tag : UInt8
  contents : Bytes
  deriving DecidableEq, Repr

def element : Reader Element := do
  let t ← tag
  let n ← length
  let contents ← take n
  pure ⟨t, contents⟩

/-- The next identifier octet, if any octet is left. It must be a known one. -/
def peekTag : Reader (Option UInt8) := fun b =>
  match b with
  | [] => some (none, [])
  | t :: _ => if isTag t then some (some t, b) else none

def contentsOf (t : UInt8) : Reader Bytes := do
  let e ← element
  require (e.tag = t)
  pure e.contents

/-- An element with tag `t` whose contents `r` uses up. -/
def nested {α : Type} (t : UInt8) (r : Reader α) : Reader α := do
  let contents ← contentsOf t
  ofOption (r.whole? contents)

def sequence {α : Type} (r : Reader α) : Reader α := nested 0x30 r

/-- `r` if the next element has tag `t`. -/
def optional {α : Type} (t : UInt8) (r : Reader α) : Reader (Option α) := do
  if (← peekTag) = some t then
    let a ← r
    pure (some a)
  else pure none

/-- `r` until nothing is left; each turn takes at least one octet. -/
def many {α : Type} (r : Reader α) : Reader (List α) := fun b => go b.length b
where
  /-- At most `fuel` turns. -/
  go : Nat → Bytes → Option (List α × Bytes)
    | _, [] => some ([], [])
    | 0, _ :: _ => none
    | fuel + 1, b =>
      (r.run b).bind fun (a, rest) => (go fuel rest).map fun (as, rest) => (a :: as, rest)

def encoded : Reader Bytes := fun b =>
  (element.run b).map fun (_, rest) => (b.take (b.length - rest.length), rest)

/-- The items of a set in ascending order of their encodings. No item may occur twice. -/
def setOf {α : Type} (r : Reader α) : Reader (List α) := do
  let items ← nested 0x31 (many encoded)
  require (decide items.Nodup)
  ofOption ((items.mergeSort fun a b => a ≤ b).mapM r.whole?)

/-- The value of a non-negative number in as few octets as possible. -/
def natural? : Bytes → Option Nat
  | [] => none
  | [b] => if b < 0x80 then some b.toNat else none
  | b :: c :: rest =>
    if b = 0 then if c < 0x80 then none else some (Bytes.toNat (c :: rest))
    else if b < 0x80 then some (Bytes.toNat (b :: c :: rest)) else none

def natural : Reader Nat := do
  let contents ← contentsOf 0x02
  ofOption (natural? contents)

def naturalBelow (limit : Nat) : Reader Nat := do
  let n ← natural
  require (n < limit)
  pure n

/-- The value of a number of at most 32 bits, in as few octets as possible. -/
def integer32? : Bytes → Option Int
  | [] => none
  | b :: rest =>
    let n : Int := Bytes.toNat (b :: rest)
    let value := if b < 0x80 then n else n - Nat.pow 256 (rest.length + 1)
    let minimal : Bool := match rest with
      | [] => true
      | c :: _ => !(b = 0 && c < 0x80) && !(b = 0xff && 0x80 ≤ c)
    if rest.length < 4 && minimal then some value else none

def integer32 : Reader Int := do
  let contents ← contentsOf 0x02
  ofOption (integer32? contents)

def octetString : Reader Bytes := contentsOf 0x04

/-- The octets of a bit string and how many bits of the last one are unused. -/
def bits? : Bytes → Option (Nat × Bytes)
  | [] => none
  | unused :: rest => if unused ≤ 7 ∧ (unused = 0 ∨ rest ≠ []) then some (unused.toNat, rest) else none

def wholeBits? (contents : Bytes) : Option Bytes :=
  (bits? contents).bind fun (unused, octets) => if unused = 0 then some octets else none

def oid? (contents : Bytes) : Option Oid := if Oid.isStrict ⟨contents⟩ then some ⟨contents⟩ else none

def oid : Reader Oid := do
  let contents ← contentsOf 0x06
  ofOption (oid? contents)

def isContext (t : UInt8) : Bool := t &&& 0xc0 = 0x80

/-- The identifier octet of the context tag `n`, if it comes next after context elements with lower
numbers, which are skipped. -/
def seekContext (n : UInt8) : Reader (Option UInt8) := fun b => go b.length b
where
  /-- At most `fuel` elements. -/
  go : Nat → Bytes → Option (Option UInt8 × Bytes)
    | _, [] => some (none, [])
    | 0, b => some (none, b)
    | fuel + 1, t :: rest =>
      if ¬ isTag t then none
      else if ¬ isContext t ∨ n < t &&& 0x1f then some (none, t :: rest)
      else if t &&& 0x1f = n then some (some t, t :: rest)
      else (element.run (t :: rest)).bind fun (_, rest) => go fuel rest

/-- The contents of an optional element under context tag `n` that holds one element read by `r`. -/
def explicit {α : Type} (n : UInt8) (r : Reader α) : Reader (Option α) := do
  match ← seekContext n with
  | none => pure none
  | some _ =>
    let a ← nested (0xa0 ||| n) r
    pure (some a)

/-- The contents of an optional primitive element that context tag `n` stands for. -/
def implicit (n : UInt8) : Reader (Option Bytes) := do
  match ← seekContext n with
  | none => pure none
  | some _ =>
    let contents ← contentsOf (0x80 ||| n)
    pure (some contents)

structure Algorithm where
  oid : Oid
  parameters : Option Element
  deriving DecidableEq, Repr

/-- What stands inside the sequence of an algorithm identifier. -/
def algorithmFields : Reader Algorithm := do
  let o ← oid
  match ← peekTag with
  | none => pure ⟨o, none⟩
  | some _ =>
    let e ← element
    pure ⟨o, some e⟩

def algorithm : Reader Algorithm := sequence algorithmFields

def Element.isNull (e : Element) : Bool := e.tag = 0x05 && e.contents = []

/-- Read the contents of an element with tag `t`. -/
def Element.within? {α : Type} (e : Element) (t : UInt8) (r : Reader α) : Option α :=
  if e.tag = t then r.whole? e.contents else none

end CertRotation.Der
