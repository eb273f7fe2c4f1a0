import CertRotation.Pem.Base64
import CertRotation.Pem.Seek
import CertRotation.Text.Blank

/-!
# PEM

A block is a tag, header lines and octets. `Pem.encode` writes one, `Pem.parse` reads the first of a text and
`Pem.parseMany` all of them, skipping what stands between. A BEGIN line without an END line after it is not
a block.
-/
namespace CertRotation

structure Pem where
  tag : String
  /-- Header lines as they were written. -/
  headers : List String := []
  contents : Bytes
  deriving DecidableEq, Repr

namespace Pem

inductive Error where
  | framing
  | missingBegin
  | missingEnd
  | mismatch (beginTag endTag : String)
  | data (e : Base64.Error)
  | header (line : String)
  deriving DecidableEq, Repr

def Error.message : Error → String
  | framing => "malformedframing"
  | missingBegin => "missing BEGIN tag"
  | missingEnd => "missing END tag"
  | mismatch b e => s!"mismatching BEGIN (\"{b}\") and END (\"{e}\") tags"
  | data e => s!"invalid data: {e.message}"
  | header line => s!"invalid header: {line}"

def beginMarker : List Char := "-----BEGIN ".toList
def endMarker : List Char := "-----END ".toList
def dashes : List Char := "-----".toList

/-- Space, tab and line ends, which may follow a boundary line. -/
def isGap (c : Char) : Bool := c = ' ' || c = '\t' || c = '\r' || c = '\n'

/-- The parts of a block as they stand in the text. -/
structure Region where
  beginTag : List Char
  headers : List Char
  data : List Char
  endTag : List Char
  deriving DecidableEq, Repr

/-- Headers end at the first empty line; without one there are none. -/
def splitHeaders (payload : List Char) : List Char × List Char :=
  match seek ['\n', '\n'] payload with
  | some (headers, data) => (headers, data)
  | none =>
    match seek ['\r', '\n', '\r', '\n'] payload with
    | some (headers, data) => (headers, data)
    | none => ([], payload)

def region? (text : List Char) : Option (Region × List Char) :=
  (seek beginMarker text).bind fun (_, text) =>
  (seek dashes text).bind fun (beginTag, text) =>
  (seek endMarker (text.dropWhile isGap)).bind fun (payload, text) =>
  (seek dashes text).map fun (endTag, text) =>
    let (headers, data) := splitHeaders payload
    (⟨beginTag, headers, data, endTag⟩, text.dropWhile isGap)

theorem region?_rest_length {text rest : List Char} {r : Region} (h : region? text = some (r, rest)) :
    rest.length < text.length := by
  simp only [region?, Option.bind_eq_some_iff, Option.map_eq_some_iff, Prod.exists, Prod.mk.injEq] at h
  obtain ⟨_, t1, h1, _, t2, h2, _, t3, h3, _, t4, h4, _, hr⟩ := h
  have l1 := seek_rest_length h1
  have l2 := seek_rest_length h2
  have l3 := seek_rest_length h3
  have l4 := seek_rest_length h4
  have l5 := (List.dropWhile_sublist (l := t2) isGap).length_le
  have l6 := (List.dropWhile_sublist (l := t4) isGap).length_le
  rw [← hr]
  omega

def regions (text : List Char) : List Region :=
  match _h : region? text with
  | none => []
  | some (r, rest) => r :: regions rest
termination_by text.length
decreasing_by exact region?_rest_length _h

/-- The lines of `text` without their ends; a line end at the end begins no further line. -/
def linesFrom (line : List Char) : List Char → List (List Char)
  | [] => if line = [] then [] else [line.reverse]
  | '\n' :: rest =>
    let whole := match line with
      | '\r' :: l => l
      | l => l
    whole.reverse :: linesFrom [] rest
  | c :: rest => linesFrom (c :: line) rest

def lines (text : List Char) : List String := (linesFrom [] text).map String.ofList

def headerParts? (line : String) : Option (String × String) :=
  let cs := line.toList
  match cs.dropWhile (· != ':') with
  | [] => none
  | _ :: value => some (Text.trim (String.ofList (cs.takeWhile (· != ':'))), Text.trim (String.ofList value))

def checkHeaders (headers : List String) : Except Error Unit :=
  match headers.find? fun line => (headerParts? line).isNone with
  | some line => .error (.header line)
  | none => .ok ()

def ofRegion (r : Region) : Except Error Pem := do
  if r.beginTag = [] then throw .missingBegin
  if r.endTag = [] then throw .missingEnd
  if r.beginTag ≠ r.endTag then throw (.mismatch (String.ofList r.beginTag) (String.ofList r.endTag))
  let symbols := String.ofList (r.data.filter fun c => !Text.isBlank c)
  let contents ← (Base64.decode (Bytes.ofString symbols)).mapError .data
  let headers := lines r.headers
  checkHeaders headers
  pure ⟨String.ofList r.beginTag, headers, contents⟩

/-- The first block of `text`. -/
def parse (text : String) : Except Error Pem :=
  match region? text.toList with
  | none => .error .framing
  | some (r, _) => ofRegion r

/-- All blocks of `text`, or the first fault in one of them. -/
def parseMany (text : String) : Except Error (List Pem) := (regions text.toList).mapM ofRegion

/-- The value of the last header called `name`. -/
def header? (p : Pem) (name : String) : Option String :=
  ((p.headers.filterMap headerParts?).reverse.find? fun h => h.1 = name).map (·.2)

def crlf (line : List Char) : List Char := line ++ ['\r', '\n']

/-- Boundary lines around trimmed headers, an empty line if there are any, and lines of 64 symbols. -/
def encode (p : Pem) : String :=
  let boundary := fun (marker : List Char) => crlf (marker ++ p.tag.toList ++ dashes)
  let headers := match p.headers with
    | [] => []
    | hs => hs.flatMap (fun h => crlf (Text.trimChars h.toList)) ++ crlf []
  String.ofList (boundary beginMarker ++ headers ++
    (chunks 64 (Base64.encode p.contents)).flatMap crlf ++ boundary endMarker)

end Pem
end CertRotation
