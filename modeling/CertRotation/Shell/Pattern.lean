/-!
# Patterns

File names and lines of text are matched against patterns. A pattern is a list of items, each of which stands for one
character or, if it is repeated, for any number of them.
-/
namespace CertRotation.Shell

abbrev Mark := Char × Bool

/-- Which characters an item stands for. -/
inductive CharClass where
  | exactly (c : Char)
  | any
  | oneOf (isNegated : Bool) (ranges : List (Char × Char))
  deriving DecidableEq, Repr

def CharClass.holds (c : Char) : CharClass → Bool
  | exactly d => c = d
  | any => true
  | oneOf isNegated ranges => ranges.any (fun (low, high) => low ≤ c && c ≤ high) != isNegated

structure PatternItem where
  cls : CharClass
  isRepeated : Bool := false
  deriving DecidableEq, Repr

/-- Whether the items stand for the whole of a text. -/
def matchesAll : List PatternItem → List Char → Bool
  | [], s => s = []
  | ⟨_, true⟩ :: rest, [] => matchesAll rest []
  | ⟨cls, true⟩ :: rest, c :: s =>
    matchesAll rest (c :: s) || (cls.holds c && matchesAll (⟨cls, true⟩ :: rest) s)
  | ⟨_, false⟩ :: _, [] => false
  | ⟨cls, false⟩ :: rest, c :: s => cls.holds c && matchesAll rest s
termination_by p s => (p.length, s.length)

def anything : PatternItem := ⟨.any, true⟩

/-! ## Sets of characters -/

def namedClasses : List (String × List (Char × Char)) :=
  [("lower", [('a', 'z')]), ("upper", [('A', 'Z')]), ("alpha", [('A', 'Z'), ('a', 'z')]), ("digit", [('0', '9')]),
   ("alnum", [('0', '9'), ('A', 'Z'), ('a', 'z')]), ("xdigit", [('0', '9'), ('A', 'F'), ('a', 'f')]),
   ("space", [('\t', '\r'), (' ', ' ')]), ("blank", [('\t', '\t'), (' ', ' ')]), ("cntrl", [('\x00', '\x1f'), ('\x7f', '\x7f')]),
   ("punct", [('!', '/'), (':', '@'), ('[', '\x60'), ('\x7b', '~')]), ("print", [(' ', '~')]), ("graph", [('!', '~')])]

/-- The ranges of a class such as `[:digit:]`, after its first bracket, and what follows it. -/
def namedClass? (cs : List Char) : Option (List (Char × Char) × List Char) :=
  match cs with
  | ':' :: rest =>
    let name := rest.takeWhile Char.isAlpha
    match rest.drop name.length with
    | ':' :: ']' :: after => (namedClasses.lookup (String.ofList name)).map (·, after)
    | _ => none
  | _ => none

/-- Members of a set up to its closing bracket. -/
def rangesFrom : (fuel : Nat) → (isFirst : Bool) → List Char → Option (List (Char × Char) × List Char)
  | 0, _, _ => none
  | fuel + 1, isFirst, cs =>
    match cs with
    | [] => none
    | c :: rest =>
      if c = ']' ∧ !isFirst then some ([], rest)
      else
        match if c = '[' then namedClass? rest else none with
        | some (ranges, after) => (rangesFrom fuel false after).map fun (more, final) => (ranges ++ more, final)
        | none =>
          match rest with
          | '-' :: d :: after =>
            if d = ']' then (rangesFrom fuel false rest).map fun (more, final) => ((c, c) :: more, final)
            else (rangesFrom fuel false after).map fun (more, final) => ((c, d) :: more, final)
          | _ => (rangesFrom fuel false rest).map fun (more, final) => ((c, c) :: more, final)

/-- A set after its opening bracket; `negation` holds the signs that negate it. -/
def charSet? (negation : List Char) (cs : List Char) : Option (CharClass × List Char) :=
  let isNegated := cs.head?.any negation.contains
  (rangesFrom (cs.length + 1) true (if isNegated then cs.drop 1 else cs)).map fun (ranges, after) =>
    (.oneOf isNegated ranges, after)

/-! ## The two ways to write patterns -/

/-- The pattern that wild cards write. Quoted characters stand for themselves. -/
def ofWildCards : (fuel : Nat) → List Mark → List PatternItem
  | 0, _ => []
  | fuel + 1, f =>
    match f with
    | [] => []
    | ('*', false) :: rest => anything :: ofWildCards fuel rest
    | ('?', false) :: rest => ⟨.any, false⟩ :: ofWildCards fuel rest
    | ('[', false) :: rest =>
      match charSet? ['!', '^'] (rest.map (·.1)) with
      | some (cls, after) => ⟨cls, false⟩ :: ofWildCards fuel (rest.drop (rest.length - after.length))
      | none => ⟨.exactly '[', false⟩ :: ofWildCards fuel rest
    | (c, _) :: rest => ⟨.exactly c, false⟩ :: ofWildCards fuel rest

def matchesPattern (f : List Mark) (s : List Char) : Bool := matchesAll (ofWildCards (f.length + 1) f) s

def withStar (cls : CharClass) (cs : List Char) : PatternItem × List Char :=
  match cs with
  | '*' :: rest => (⟨cls, true⟩, rest)
  | _ => (⟨cls, false⟩, cs)

/-- The items of a basic regular expression without its anchors. -/
def ofExpression : (fuel : Nat) → List Char → List PatternItem
  | 0, _ => []
  | fuel + 1, cs =>
    let (cls, rest) : CharClass × List Char := match cs with
      | '.' :: rest => (.any, rest)
      | '\\' :: c :: rest => (.exactly c, rest)
      | '[' :: rest => (charSet? ['^'] rest).getD (.exactly '[', rest)
      | c :: rest => (.exactly c, rest)
      | [] => (.any, [])
    if cs = [] then []
    else
      let (item, after) := withStar cls rest
      item :: ofExpression fuel after

def holdsExpression (pattern line : List Char) : Bool :=
  let fromStart := pattern.head? = some '^'
  let body := if fromStart then pattern.drop 1 else pattern
  let toEnd := body.getLast? = some '$'
  let items := ofExpression (body.length + 1) (if toEnd then body.dropLast else body)
  matchesAll ((if fromStart then [] else [anything]) ++ items ++ (if toEnd then [] else [anything])) line

end CertRotation.Shell
