import CertRotation.Toml.Number

/-!
# TOML documents

A document is read as lines and these are then put together. A table is defined once: a header may complete a table
that only longer headers have mentioned, dotted keys may add to tables made of dotted keys, and nothing else is added
to what is there.
-/
namespace CertRotation.Toml

inductive Line where
  | assignment (path : List String) (name : String) (v : Value)
  | table (path : List String) (name : String)
  /-- One more element of an array of tables. -/
  | element (path : List String) (name : String)
  deriving Repr

/-! ## Putting lines together -/

/-- Give `name` the value `v`, in its place or at the end. -/
def Entries.put (name : String) (v : Value) : Entries → Entries
  | [] => [(name, v)]
  | (n, w) :: rest => if n = name then (n, v) :: rest else (n, w) :: put name v rest

/-- Give `name` a value under dotted names. The innermost table must consist of dotted keys. -/
def Entries.define (name : String) (v : Value) : (path : List String) → Entries → Option Entries
  | [], es => if (es.lookup name).isSome then none else some (es ++ [(name, v)])
  | n :: rest, es =>
    match es.lookup n with
    | none => do es.put n (.table .dotted (← define name v rest []))
    | some (.table .dotted inner) => do es.put n (.table .dotted (← define name v rest inner))
    | some (.table .implicit inner) =>
      if rest = [] then none else do es.put n (.table .implicit (← define name v rest inner))
    | some (.tables elements) =>
      match rest, elements.getLast? with
      | _ :: _, some last => do es.put n (.tables (elements.dropLast ++ [← define name v rest last]))
      | _, _ => none
    | some _ => none

/-- Change the table that the names of a header lead to. An array of tables stands for its last one. -/
def Entries.change (f : Entries → Option Entries) : (path : List String) → Entries → Option Entries
  | [], es => f es
  | n :: rest, es =>
    match es.lookup n with
    | none => do es.put n (.table .implicit (← change f rest []))
    | some (.table .inline _) => none
    | some (.table origin inner) => do es.put n (.table origin (← change f rest inner))
    | some (.tables elements) =>
      match elements.getLast? with
      | some last => do es.put n (.tables (elements.dropLast ++ [← change f rest last]))
      | none => none
    | some _ => none

def Entries.openTable (name : String) (es : Entries) : Option Entries :=
  match es.lookup name with
  | none => some (es.put name (.table .header []))
  | some (.table .implicit inner) => some (es.put name (.table .header inner))
  | some _ => none

def Entries.openElement (name : String) (es : Entries) : Option Entries :=
  match es.lookup name with
  | none => some (es.put name (.tables [[]]))
  | some (.tables elements) => some (es.put name (.tables (elements ++ [[]])))
  | some _ => none

/-- Add lines to a document; `current` is the path of the last header. -/
def Entries.addLines (current : List String) : List Line → Entries → Option Entries
  | [], es => some es
  | .assignment path name v :: rest, es => do addLines current rest (← es.change (define name v path) current)
  | .table path name :: rest, es => do addLines (path ++ [name]) rest (← es.change (openTable name) path)
  | .element path name :: rest, es => do addLines (path ++ [name]) rest (← es.change (openElement name) path)

/-! ## Reading lines -/

def assignment? (value : List Char → Option (Value × List Char)) (cs : List Char) :
    Option ((List String × String × Value) × List Char) := do
  let (path, name, rest) ← key? cs
  match rest with
  | '=' :: more =>
    let (v, after) ← value (skipSpaces more)
    pure ((path, name, v), skipSpaces after)
  | _ => none

/-- The items of an array up to its end, at most `fuel` of them. -/
def items? (value : List Char → Option (Value × List Char)) : (fuel : Nat) → List Char →
    Option (List Value × List Char)
  | 0, _ => none
  | fuel + 1, cs =>
    match skipGaps cs with
    | ']' :: rest => some ([], rest)
    | here => do
      let (v, rest) ← value here
      match skipGaps rest with
      | ',' :: more =>
        let (vs, after) ← items? value fuel more
        pure (v :: vs, after)
      | ']' :: after => pure ([v], after)
      | _ => none

def inlineFrom? (value : List Char → Option (Value × List Char)) : (fuel : Nat) → Entries → List Char →
    Option (Entries × List Char)
  | 0, _, _ => none
  | fuel + 1, es, cs => do
    let ((path, name, v), rest) ← assignment? value cs
    let more ← es.define name v path
    match rest with
    | ',' :: after => inlineFrom? value fuel more after
    | '\x7d' :: after => pure (more, after)
    | _ => none

def inline? (value : List Char → Option (Value × List Char)) (cs : List Char) : Option (Entries × List Char) :=
  match skipSpaces cs with
  | '\x7d' :: rest => some ([], rest)
  | _ => inlineFrom? value cs.length [] cs

/-- A value with at most `depth` levels of arrays and inline tables. -/
def value? : (depth : Nat) → List Char → Option (Value × List Char)
  | 0, cs =>
    match text? cs with
    | some (s, rest) => some (.string (String.ofList s), rest)
    | none => word? cs
  | depth + 1, cs =>
    match cs with
    | '[' :: rest => (items? (value? depth) (rest.length + 1) rest).map fun (vs, after) => (.array vs, after)
    | '\x7b' :: rest => (inline? (value? depth) rest).map fun (es, after) => (.table .inline es, after)
    | _ => value? 0 cs

/-- A line that is neither blank nor a comment. -/
def line? (cs : List Char) : Option (Line × List Char) :=
  match cs with
  | '[' :: '[' :: rest => do
    let (path, name, more) ← key? rest
    match more with
    | ']' :: ']' :: after => pure (.element path name, after)
    | _ => none
  | '[' :: rest => do
    let (path, name, more) ← key? rest
    match more with
    | ']' :: after => pure (.table path name, after)
    | _ => none
  | _ => do
    let ((path, name, v), after) ← assignment? (value? maxDepth) cs
    pure (.assignment path name v, after)

def linesFrom? : (fuel : Nat) → List Char → Option (List Line)
  | 0, _ => none
  | fuel + 1, cs =>
    match skipSpaces cs with
    | [] => some []
    | '#' :: rest => do linesFrom? fuel (← lineEnd? ('#' :: rest))
    | here =>
      match newline? here with
      | some rest => linesFrom? fuel rest
      | none => do
        let (l, rest) ← line? here
        let ls ← linesFrom? fuel (← lineEnd? rest)
        pure (l :: ls)

def dropMark : List Char → List Char
  | '\uFEFF' :: rest => rest
  | cs => cs

def parse? (text : String) : Option Entries := do
  let cs := dropMark text.toList
  Entries.addLines [] (← linesFrom? (cs.length + 1) cs) []

end CertRotation.Toml
