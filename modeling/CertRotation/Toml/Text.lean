import CertRotation.Toml.Scan

/-!
# TOML strings and keys

Basic strings have escapes, literal strings have none. Strings between triple quotes may run over several lines; up to
two quotes of their kind may stand right before the closing ones.
-/
namespace CertRotation.Toml

def hexDigit? (c : Char) : Option Nat :=
  if '0' ≤ c ∧ c ≤ '9' then some (c.toNat - '0'.toNat)
  else if 'a' ≤ c ∧ c ≤ 'f' then some (c.toNat - 'a'.toNat + 10)
  else if 'A' ≤ c ∧ c ≤ 'F' then some (c.toNat - 'A'.toNat + 10)
  else none

def hexNumber (cs : List Char) : Option Nat := cs.foldlM (fun n c => (hexDigit? c).map (16 * n + ·)) 0

/-- A character given by `size` hexadecimal digits. -/
def codePoint? (size : Nat) (cs : List Char) : Option (Char × List Char) :=
  if cs.length < size then none
  else
    match hexNumber (cs.take size) with
    | some n => if n.isValidChar then some (Char.ofNat n, cs.drop size) else none
    | none => none

/-- The character that an escape stands for; `cs` begins after the backslash. -/
def escape? : List Char → Option (Char × List Char)
  | 'b' :: rest => some ('\x08', rest)
  | 't' :: rest => some ('\t', rest)
  | 'n' :: rest => some ('\n', rest)
  | 'f' :: rest => some ('\x0c', rest)
  | 'r' :: rest => some ('\r', rest)
  | '"' :: rest => some ('"', rest)
  | '\\' :: rest => some ('\\', rest)
  | 'u' :: rest => codePoint? 4 rest
  | 'U' :: rest => codePoint? 8 rest
  | _ => none

theorem length_of_codePoint? {size : Nat} {cs rest : List Char} {c : Char} (h : codePoint? size cs = some (c, rest)) :
    rest.length ≤ cs.length := by
  grind [codePoint?]

theorem length_of_escape? {cs rest : List Char} {c : Char} (h : escape? cs = some (c, rest)) :
    rest.length < cs.length := by
  unfold escape? at h
  split at h
  case h_8 => exact Nat.lt_succ_of_le (length_of_codePoint? h)
  case h_9 => exact Nat.lt_succ_of_le (length_of_codePoint? h)
  all_goals simp_all

/-- A basic string after its opening quote, and what follows the closing one. -/
def basic? (cs : List Char) : Option (List Char × List Char) :=
  match cs with
  | [] => none
  | '"' :: rest => some ([], rest)
  | '\\' :: rest =>
    match _h : escape? rest with
    | some (c, more) => (basic? more).map fun (s, after) => (c :: s, after)
    | none => none
  | c :: rest => if isPlain c then (basic? rest).map fun (s, after) => (c :: s, after) else none
termination_by cs.length
decreasing_by
  · exact Nat.lt_succ_of_lt (length_of_escape? _h)
  · exact Nat.lt_succ_self _

def literal? : List Char → Option (List Char × List Char)
  | [] => none
  | '\'' :: rest => some ([], rest)
  | c :: rest => if isPlain c then (literal? rest).map fun (s, after) => (c :: s, after) else none

/-- What follows the blanks and line ends after a backslash at the end of a line. -/
def continuation? (cs : List Char) : Option (List Char) :=
  (newline? (skipSpaces cs)).map fun rest => rest.dropWhile fun c => isSpace c || c = '\n' || c = '\r'

theorem length_of_newline? {cs rest : List Char} (h : newline? cs = some rest) : rest.length < cs.length := by
  unfold newline? at h
  split at h <;> simp at h <;> simp only [← h, List.length_cons] <;> omega

theorem length_of_continuation? {cs rest : List Char} (h : continuation? cs = some rest) :
    rest.length < cs.length := by
  obtain ⟨more, hm, rfl⟩ := Option.map_eq_some_iff.1 h
  exact Nat.lt_of_le_of_lt (List.dropWhile_sublist _).length_le
    (Nat.lt_of_lt_of_le (length_of_newline? hm) (List.dropWhile_sublist isSpace).length_le)

/-- A string of several lines after its opening quotes `q`. -/
def lines? (q : Char) (hasEscapes : Bool) (cs : List Char) : Option (List Char × List Char) :=
  match cs with
  | [] => none
  | '\r' :: '\n' :: rest => (lines? q hasEscapes rest).map fun (s, after) => ('\n' :: s, after)
  | c :: rest =>
    if c = q ∧ [q, q].isPrefixOf rest then
      let quotes := ((rest.drop 2).takeWhile (· = q)).take 2
      some (quotes, rest.drop (2 + quotes.length))
    else if c = '\\' ∧ hasEscapes then
      match _hc : continuation? rest with
      | some more => lines? q hasEscapes more
      | none =>
        match _h : escape? rest with
        | some (d, more) => (lines? q hasEscapes more).map fun (s, after) => (d :: s, after)
        | none => none
    else if isPlain c ∨ c = '\n' then (lines? q hasEscapes rest).map fun (s, after) => (c :: s, after)
    else none
termination_by cs.length
decreasing_by
  · simp only [List.length_cons]; omega
  · exact Nat.lt_succ_of_lt (length_of_continuation? _hc)
  · exact Nat.lt_succ_of_lt (length_of_escape? _h)
  · exact Nat.lt_succ_self _

/-- A line end right after the opening quotes does not belong to the string. -/
def dropNewline (cs : List Char) : List Char := (newline? cs).getD cs

def text? : List Char → Option (List Char × List Char)
  | '"' :: '"' :: '"' :: rest => lines? '"' true (dropNewline rest)
  | '"' :: rest => basic? rest
  | '\'' :: '\'' :: '\'' :: rest => lines? '\'' false (dropNewline rest)
  | '\'' :: rest => literal? rest
  | _ => none

/-! ## Keys -/

def isBare (c : Char) : Bool := c.isAlphanum || c = '_' || c = '-'

def name? : List Char → Option (String × List Char)
  | '"' :: rest => (basic? rest).map fun (s, after) => (String.ofList s, after)
  | '\'' :: rest => (literal? rest).map fun (s, after) => (String.ofList s, after)
  | cs =>
    match cs.takeWhile isBare with
    | [] => none
    | name => some (String.ofList name, cs.dropWhile isBare)

/-- At most `limit` names with dots between them, blanks around each. -/
def names? : (limit : Nat) → List Char → Option (List String × List Char)
  | 0, _ => none
  | limit + 1, cs => do
    let (name, rest) ← name? (skipSpaces cs)
    match skipSpaces rest with
    | '.' :: more =>
      let (others, after) ← names? limit more
      pure (name :: others, after)
    | after => pure ([name], after)

/-- How many names a key may have, and how deep values may be nested. -/
def maxDepth : Nat := 79

def key? (cs : List Char) : Option (List String × String × List Char) := do
  let (names, rest) ← names? maxDepth cs
  pure (names.dropLast, ← names.getLast?, rest)

end CertRotation.Toml
