import Mathlib.Data.List.Chain
import CertRotation.Certificate.Pem
import CertRotation.Proofs.Pem.Base64RoundTrip
import CertRotation.Proofs.Pem.HeaderLines
import CertRotation.Proofs.Pem.Regions
import CertRotation.Proofs.Traversal

/-!
# PEM read back

The lines of base 64 hold no dash and no empty line, so they are neither taken for headers nor for a boundary. A block
whose tag and headers hold no boundary either is read as it is written, but for the blanks around its headers, and every
block that is read from a text is of this kind.
-/
namespace CertRotation.Pem

/-! ## The lines of the contents -/

def body (b : Bytes) : List Char := (chunks 64 (Base64.encode b)).flatMap crlf

theorem plain_symbols {b : Bytes} {c : Char} (h : c ∈ Base64.encode b) :
    c.toNat < 128 ∧ c ≠ '-' ∧ Text.isBlank c = false := by
  obtain ⟨v, rfl⟩ | rfl := Base64.mem_encode h
  · obtain ⟨hlt, -, hdash, hblank⟩ := Base64.plain_alphabet (Base64.symbol_mem v)
    exact ⟨hlt, hdash, hblank⟩
  · decide

theorem mem_of_mem_chunks {b : Bytes} {line : List Char} {c : Char} (hl : line ∈ chunks 64 (Base64.encode b))
    (hc : c ∈ line) : c ∈ Base64.encode b := by
  rw [← flatten_chunks 64 (Base64.encode b)]
  exact List.mem_flatten.mpr ⟨line, hl, hc⟩

theorem ne_nil_of_mem_chunks {α : Type} {n : Nat} {l piece : List α} (h : piece ∈ chunks n l) : piece ≠ [] := by
  fun_induction chunks n l with
  | case1 => simp at h
  | case2 x xs ih =>
    rcases List.mem_cons.mp h with rfl | h
    · exact List.cons_ne_nil _ _
    · exact ih h

theorem dash_not_mem_body (b : Bytes) : '-' ∉ body b := by
  intro h
  obtain ⟨line, hl, hc⟩ := List.mem_flatMap.mp h
  rcases List.mem_append.mp hc with hc | hc
  · exact (plain_symbols (mem_of_mem_chunks hl hc)).2.1 rfl
  · revert hc
    decide

theorem filter_body (b : Bytes) : (body b).filter (fun c => !Text.isBlank c) = Base64.encode b := by
  have hline : ∀ line ∈ chunks 64 (Base64.encode b), (crlf line).filter (fun c => !Text.isBlank c) = line := by
    intro line hl
    have hplain : line.filter (fun c => !Text.isBlank c) = line := by
      rw [List.filter_eq_self]
      intro c hc
      rw [(plain_symbols (mem_of_mem_chunks hl hc)).2.2]
      rfl
    rw [crlf, List.filter_append, hplain, show ['\r', '\n'].filter (fun c => !Text.isBlank c) = [] by decide,
      List.append_nil]
  rw [body, List.filter_flatMap, List.flatMap_congr hline, List.flatMap_id', flatten_chunks]

theorem isGap_of_isBlank {c : Char} (h : Text.isBlank c = false) : isGap c = false := by
  rw [Bool.eq_false_iff] at h ⊢
  intro hgap
  apply h
  simp only [isGap, Bool.or_eq_true, decide_eq_true_eq] at hgap
  obtain ((rfl | rfl) | rfl) | rfl := hgap <;> rfl

theorem isChain_line {line text : List Char} (hline : ∀ c ∈ line, Text.isBlank c = false)
    (htext : text.IsChain fun c d => c = '\n' → isGap d = false) :
    (line ++ text).IsChain fun c d => c = '\n' → isGap d = false := by
  induction line with
  | nil => exact htext
  | cons c line ih =>
    refine List.isChain_cons.mpr ⟨?_, ih fun d hd => hline d (List.mem_cons_of_mem _ hd)⟩
    rintro d - rfl
    exact absurd (hline '\n' List.mem_cons_self) (by decide)

/-- No line is empty, so no line end stands before another, nor before the first line. -/
theorem isChain_body (b : Bytes) : ('\n' :: body b).IsChain fun c d => c = '\n' → isGap d = false := by
  unfold body
  have hlines : ∀ line ∈ chunks 64 (Base64.encode b), line ≠ [] ∧ ∀ c ∈ line, Text.isBlank c = false :=
    fun line hl => ⟨ne_nil_of_mem_chunks hl, fun c hc => (plain_symbols (mem_of_mem_chunks hl hc)).2.2⟩
  generalize chunks 64 (Base64.encode b) = lines at hlines ⊢
  induction lines with
  | nil => exact List.isChain_singleton _
  | cons line lines ih =>
    obtain ⟨hne, hblank⟩ := hlines line List.mem_cons_self
    have hrest := ih fun l hl => hlines l (List.mem_cons_of_mem _ hl)
    have hend : ('\r' :: '\n' :: lines.flatMap crlf).IsChain fun c d => c = '\n' → isGap d = false :=
      List.isChain_cons.mpr ⟨fun d _ h => absurd h (by decide), hrest⟩
    rw [List.flatMap_cons, crlf, List.append_assoc]
    refine List.isChain_cons.mpr ⟨?_, isChain_line hblank hend⟩
    obtain ⟨c, line, rfl⟩ := List.exists_cons_of_ne_nil hne
    rintro d hd -
    obtain rfl : c = d := Option.some.inj hd
    exact isGap_of_isBlank (hblank c List.mem_cons_self)

theorem seek_body (front back : List Char) {d : Char} (hd : isGap d = true) (b : Bytes) :
    seek (front ++ '\n' :: d :: back) (body b) = none := by
  rw [Option.eq_none_iff_forall_ne_some]
  rintro ⟨before, rest⟩ h
  have hchain := (List.isChain_cons.mp (isChain_body b)).2
  rw [((seek_eq_some_iff (by simp)).mp h).1, List.append_assoc, List.append_assoc] at hchain
  have hlast := hchain.right_of_append.right_of_append
  exact absurd (List.isChain_cons.mp hlast |>.1 d rfl rfl) (by simp [hd])

theorem splitHeaders_body (b : Bytes) : splitHeaders (body b) = ([], body b) := by
  have hn : seek ['\n', '\n'] (body b) = none := seek_body [] [] rfl b
  have hr : seek ['\r', '\n', '\r', '\n'] (body b) = none :=
    seek_body ['\r'] ['\n'] rfl b
  rw [splitHeaders, hn, hr]

/-! ## The whole block -/

/-- A block whose tag and headers are read as they are written. -/
structure Legible (p : Pem) : Prop where
  tag_ne : p.tag ≠ ""
  tag_free : scan dashes 0 p.tag.toList = some 0
  headers : ∀ h ∈ p.headers, HeaderLine h.toList

/-- What stands between the boundary lines. -/
def payload (p : Pem) : List Char :=
  (match p.headers with
    | [] => []
    | hs => hs.flatMap (fun h => crlf (Text.trimChars h.toList)) ++ crlf []) ++ body p.contents

theorem payload_nil {p : Pem} (h : p.headers = []) : payload p = body p.contents := by
  rw [payload, h]
  rfl

theorem payload_cons {p : Pem} (h : p.headers ≠ []) : payload p =
    (p.headers.map fun h => Text.trimChars h.toList).flatMap crlf ++ (crlf [] ++ body p.contents) := by
  rw [payload]
  split
  · next hnil => exact absurd hnil h
  · rw [List.flatMap_map, List.append_assoc]

theorem toList_encode (p : Pem) : p.encode.toList =
    beginMarker ++ p.tag.toList ++ dashes ++ ['\r', '\n'] ++ payload p ++ endMarker ++ p.tag.toList ++ dashes ++
      ['\r', '\n'] := by
  rcases p with ⟨tag, _ | ⟨h, headers⟩, contents⟩
  · simp [encode, payload, body, crlf]
  · simp [encode, payload, body, crlf]

theorem plainLines {p : Pem} (h : Legible p) :
    ∀ line ∈ p.headers.map fun h => Text.trimChars h.toList, PlainLine line := by
  intro line hline
  obtain ⟨header, hheader, rfl⟩ := List.mem_map.mp hline
  exact (h.headers header hheader).plain

theorem payload_start {p : Pem} (h : Legible p) : ∀ c ∈ (payload p).head?, isGap c = false := by
  intro c hc
  by_cases hne : p.headers = []
  · rw [payload_nil hne] at hc
    exact (List.isChain_cons.mp (isChain_body p.contents)).1 c hc rfl
  · have hplain := plainLines h
    rw [payload_cons hne] at hc
    obtain ⟨header, headers, hheaders⟩ := List.exists_cons_of_ne_nil hne
    rw [hheaders, List.map_cons] at hc hplain
    -- a trimmed header is not empty and begins visibly
    have hfirst := hplain _ List.mem_cons_self
    obtain ⟨d, line, hline⟩ := List.exists_cons_of_ne_nil (List.ne_nil_of_mem hfirst.colon)
    rw [hline] at hc hfirst
    obtain rfl : d = c := Option.some.inj hc
    exact isGap_of_isBlank (hfirst.start d rfl)

theorem payload_free {p : Pem} (h : Legible p) : scan endMarker 0 (payload p) = some 0 := by
  have hbody : scan endMarker 0 (body p.contents) = some 0 := scan_of_head_not_mem rfl (dash_not_mem_body p.contents)
  by_cases hne : p.headers = []
  · rw [payload_nil hne, hbody]
  · rw [payload_cons hne, scan_append, scan_endMarker_lines fun line hline => (plainLines h line hline).endless,
      Option.bind_some, scan_append, scan_endMarker_crlf rfl, Option.bind_some, hbody]

/-- A block is the first region of the text that it begins. -/
theorem framed_encode {p : Pem} (h : Legible p) (rest : List Char) :
    Framed (p.encode.toList ++ rest) p.tag.toList (payload p) p.tag.toList ('\r' :: '\n' :: rest) := by
  have hgap : ∀ c ∈ ['\r', '\n'], isGap c = true := List.all_eq_true.mp (by decide)
  have hframed : Framed ([] ++ _ ++ _) p.tag.toList (payload p) p.tag.toList ('\r' :: '\n' :: rest) :=
    Framed.mk rfl h.tag_free hgap (payload_start h) (payload_free h) h.tag_free
  simpa only [toList_encode, List.nil_append, List.append_assoc, List.cons_append] using hframed

theorem linesFrom_trimmed {p : Pem} (h : Legible p) :
    linesFrom [] (splitHeaders (payload p)).1 = p.headers.map (fun h => Text.trimChars h.toList) ∧
      (splitHeaders (payload p)).2 = body p.contents := by
  by_cases hne : p.headers = []
  · rw [payload_nil hne, splitHeaders_body, hne]
    exact ⟨rfl, rfl⟩
  · have hplain := plainLines h
    have hbody : ∃ tail : List (List Char), body p.contents = tail.flatMap crlf ∧ ∀ line ∈ tail, '\n' ∉ line :=
      ⟨_, rfl, fun line hl hn => absurd (plain_symbols (mem_of_mem_chunks hl hn)).2.2 (by decide)⟩
    obtain ⟨front, last, hlines, hsplit⟩ := splitHeaders_lines (by simpa using hne) hplain hbody
    rw [payload_cons hne, hsplit]
    rw [hlines] at hplain ⊢
    have hlast := hplain last (by simp)
    exact ⟨linesFrom_lines (fun l hl => (hplain l (List.mem_append_left _ hl)).single) hlast.single
      (List.ne_nil_of_mem hlast.colon), rfl⟩

/-- The block says what the region says: the tag of both boundary lines, the header lines, each with a colon, and the
octets that the symbols stand for. -/
structure Reads (r : Region) (p : Pem) : Prop where
  tag_ne : r.beginTag ≠ []
  tag : p.tag = String.ofList r.beginTag
  endTag : r.endTag = r.beginTag
  headers : p.headers = lines r.headers
  colons : ∀ header ∈ p.headers, ':' ∈ header.toList
  contents : Base64.decode (Bytes.ofString (String.ofList (r.data.filter fun c => !Text.isBlank c))) = .ok p.contents

theorem ofRegion_eq_ok {r : Region} {p : Pem} : ofRegion r = .ok p ↔ Reads r p := by
  unfold ofRegion
  constructor
  · intro h
    obtain ⟨hbegin, h⟩ := guard_eq_ok.mp h
    obtain ⟨-, h⟩ := guard_eq_ok.mp h
    obtain ⟨hsame, h⟩ := guard_eq_ok.mp h
    obtain ⟨contents, hcontents, h⟩ := bind_eq_ok.mp h
    obtain ⟨⟨⟩, hcheck, h⟩ := bind_eq_ok.mp h
    obtain rfl := Except.ok.inj h
    exact ⟨hbegin, rfl, (not_not.mp hsame).symm, rfl, checkHeaders_eq_ok.mp hcheck, mapError_eq_ok.mp hcontents⟩
  · obtain ⟨tag, headers, contents⟩ := p
    rintro ⟨hne, rfl, hend, rfl, hcolons, hcontents⟩
    refine guard_eq_ok.mpr ⟨hne, guard_eq_ok.mpr ⟨hend ▸ hne, guard_eq_ok.mpr ⟨not_not.mpr hend.symm, ?_⟩⟩⟩
    exact bind_eq_ok.mpr ⟨contents, mapError_eq_ok.mpr hcontents,
      bind_eq_ok.mpr ⟨(), checkHeaders_eq_ok.mpr hcolons, rfl⟩⟩

/-- What is written reads as the block that was written, but for the blanks around its headers. -/
theorem reads_payload {p : Pem} (h : Legible p) :
    Reads ⟨p.tag.toList, (splitHeaders (payload p)).1, (splitHeaders (payload p)).2, p.tag.toList⟩
      { p with headers := p.headers.map Text.trim } := by
  obtain ⟨hlines, hdata⟩ := linesFrom_trimmed h
  refine ⟨fun hnil => h.tag_ne (String.toList_eq_nil_iff.mp hnil), String.ofList_toList.symm, rfl, ?_, ?_, ?_⟩
  · rw [lines, hlines, List.map_map]
    rfl
  · intro trimmed htrimmed
    obtain ⟨header, hheader, rfl⟩ := List.mem_map.mp htrimmed
    rw [Text.trim, String.toList_ofList]
    exact (h.headers header hheader).trim.colon
  · simp only [hdata, filter_body]
    rw [Bytes.ofString_ofList fun c hc => (plain_symbols hc).1, Base64.decode_encode]

/-- What is written is read back, with trimmed headers. -/
theorem parse_encode_of_legible {p : Pem} (h : Legible p) :
    parse p.encode = .ok { p with headers := p.headers.map Text.trim } := by
  have hregion := region?_of_framed (framed_encode h [])
  rw [List.append_nil] at hregion
  rw [parse, hregion]
  exact ofRegion_eq_ok.mpr (reads_payload h)

theorem legible_of_dash_not_mem {tag : String} (hempty : tag ≠ "") (hdash : '-' ∉ tag.toList) (b : Bytes) :
    Legible ⟨tag, [], b⟩ where
  tag_ne := hempty
  tag_free := scan_of_head_not_mem rfl hdash
  headers := by simp

/-- What is written is read back. -/
theorem parse_encode {tag : String} (hempty : tag ≠ "") (hdash : '-' ∉ tag.toList) (b : Bytes) :
    parse (⟨tag, [], b⟩ : Pem).encode = .ok ⟨tag, [], b⟩ :=
  parse_encode_of_legible (legible_of_dash_not_mem hempty hdash b)

/-! ## Blocks that are read -/

theorem splitHeaders_sound {text headers data : List Char} (h : splitHeaders text = (headers, data)) :
    headers = [] ∧ data = text ∨ text = headers ++ ['\n', '\n'] ++ data ∨
      text = headers ++ ['\r', '\n', '\r', '\n'] ++ data := by
  unfold splitHeaders at h
  split at h
  · next front back hseek =>
    obtain ⟨rfl, rfl⟩ := Prod.mk.inj h
    exact .inr (.inl ((seek_eq_some_iff (by decide)).mp hseek).1)
  · split at h
    · next front back hseek =>
      obtain ⟨rfl, rfl⟩ := Prod.mk.inj h
      exact .inr (.inr ((seek_eq_some_iff (by decide)).mp hseek).1)
    · obtain ⟨rfl, rfl⟩ := Prod.mk.inj h
      exact .inl ⟨rfl, rfl⟩

/-- What is read can be written and read again. -/
theorem legible_of_framed {text payload rest : List Char} {r : Region} {p : Pem}
    (hframed : Framed text r.beginTag payload r.endTag rest) (hsplit : splitHeaders payload = (r.headers, r.data))
    (h : Reads r p) : Legible p := by
  obtain @⟨_, _, _, _, _, _, -, htagFree, -, -, hpayload, -⟩ := hframed
  refine ⟨fun hnil => h.tag_ne ?_, ?_, ?_⟩
  · rw [← String.toList_ofList (l := r.beginTag), ← h.tag, hnil]
    rfl
  · rw [h.tag, String.toList_ofList, htagFree]
  · -- the headers stand in the payload, which holds no END marker
    have hscan : (scan endMarker 0 r.headers).isSome := by
      obtain ⟨hnil, -⟩ | hfront | hfront := splitHeaders_sound hsplit
      · rw [hnil]
        rfl
      all_goals
        rw [hfront, List.append_assoc] at hpayload
        exact isSome_scan_of_append (Option.isSome_iff_exists.mpr ⟨_, hpayload⟩)
    intro header hheader
    have hcolon := h.colons header hheader
    rw [h.headers, lines] at hheader
    obtain ⟨line, hline, rfl⟩ := List.mem_map.mp hheader
    obtain ⟨hsingle, hendless⟩ := endless_of_mem_linesFrom List.not_mem_nil hscan hline
    rw [String.toList_ofList] at hcolon ⊢
    exact ⟨hcolon, hsingle, hendless⟩

theorem isBlankText_encode (tag : String) (b : Bytes) : Text.isBlankText (⟨tag, [], b⟩ : Pem).encode = false := by
  rw [Text.isBlankText, toList_encode]
  rfl

end CertRotation.Pem

namespace CertRotation.Certificate

theorem ofPem_encode {der : Bytes} (h : (parse der).isOk = true) : ofPem (⟨pemTag, [], der⟩ : Pem).encode = .ok der := by
  have hblock : Pem.parse (⟨pemTag, [], der⟩ : Pem).encode = .ok ⟨pemTag, [], der⟩ :=
    Pem.parse_encode (by decide) (by decide) der
  rw [ofPem, hblock]
  cases hc : parse der with
  | error e => rw [hc] at h; exact absurd h (by simp [Except.isOk, Except.toBool])
  | ok c => simp [hc, bind, Except.bind, pure, Except.pure, Except.mapError]

end CertRotation.Certificate
