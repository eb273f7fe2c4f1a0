import CertRotation.Pem.Blocks
import CertRotation.Proofs.Pem.Scanning
import CertRotation.Proofs.Text.Trimming

/-!
# Header lines

Header lines are written without the blanks around them, each with a line end, and an empty line closes them. Lines that
hold a colon, no line end and no END marker are read as they are written, and only such lines are ever read.
-/
namespace CertRotation.Pem

theorem headerParts?_of_mem {name : List Char} (h : ':' ∉ name) (value : List Char) :
    headerParts? (String.ofList (name ++ ':' :: value)) =
      some (String.ofList (Text.trimChars name), String.ofList (Text.trimChars value)) := by
  have hname : ∀ c ∈ name, (c != ':') = true := fun c hc => bne_iff_ne.mpr fun heq => h (heq ▸ hc)
  have htake : (name ++ ':' :: value).takeWhile (· != ':') = name := by simp [List.takeWhile_append_of_pos hname]
  have hdrop : (name ++ ':' :: value).dropWhile (· != ':') = ':' :: value := by
    simp [List.dropWhile_append_of_pos hname]
  simp only [headerParts?, String.toList_ofList, htake, hdrop, Text.trim]

theorem headerParts?_of_not_mem {line : List Char} (h : ':' ∉ line) : headerParts? (String.ofList line) = none := by
  have hline : line.dropWhile (· != ':') = [] :=
    List.dropWhile_eq_nil_iff.mpr fun c hc => bne_iff_ne.mpr fun heq => h (heq ▸ hc)
  simp only [headerParts?, String.toList_ofList, hline]

/-- Blanks around a header line do not count. -/
theorem headerParts?_trim (line : String) : headerParts? (Text.trim line) = headerParts? line := by
  obtain ⟨front, back, hsplit, hfront, hback⟩ := Text.exists_trimChars line.toList
  have hline : line = String.ofList (front ++ Text.trimChars line.toList ++ back) := by rw [← hsplit, String.ofList_toList]
  conv_rhs => rw [hline]
  rw [Text.trim]
  have hcolon : ∀ blanks : List Char, (∀ c ∈ blanks, Text.isBlank c = true) → ':' ∉ blanks := fun blanks hblanks hc =>
    absurd (hblanks ':' hc) (by decide)
  by_cases h : ':' ∈ Text.trimChars line.toList
  · obtain ⟨name, value, heq, hname⟩ := List.eq_append_cons_of_mem h
    have hwhole : front ++ Text.trimChars line.toList ++ back = (front ++ name) ++ ':' :: (value ++ back) := by
      rw [heq]
      simp only [List.append_assoc, List.cons_append]
    have hnil : ∀ c ∈ ([] : List Char), Text.isBlank c = true := by simp
    have hleft : Text.trimChars (front ++ name) = Text.trimChars name := by
      simpa using Text.trimChars_append_of_blank hfront hnil name
    have hright : Text.trimChars (value ++ back) = Text.trimChars value := Text.trimChars_append_of_blank hnil hback value
    rw [hwhole, headerParts?_of_mem (by simp [hcolon front hfront, hname]), hleft, hright, heq, headerParts?_of_mem hname]
  · rw [headerParts?_of_not_mem h, headerParts?_of_not_mem (by simp [hcolon front hfront, hcolon back hback, h])]

theorem header?_trim (p : Pem) (name : String) :
    ({ p with headers := p.headers.map Text.trim } : Pem).header? name = p.header? name := by
  have hsame : headerParts? ∘ Text.trim = headerParts? := by
    funext line
    rw [Function.comp_apply, headerParts?_trim]
  rw [header?, header?, List.filterMap_map, hsame]

/-- A line that is read as a header wherever it is written. -/
structure HeaderLine (line : List Char) : Prop where
  colon : ':' ∈ line
  single : '\n' ∉ line
  endless : (scan endMarker 0 line).isSome

theorem HeaderLine.trim {line : List Char} (h : HeaderLine line) : HeaderLine (Text.trimChars line) where
  colon := Text.mem_trimChars h.colon (by decide)
  single := fun hc => h.single (Text.mem_of_mem_trimChars hc)
  endless := by
    obtain ⟨front, back, hsplit, hfront, -⟩ := Text.exists_trimChars line
    have hscan := h.endless
    -- the blanks in front hold no dash, with which the marker begins
    have hzero : scan endMarker 0 front = some 0 :=
      scan_of_head_not_mem rfl fun hc => absurd (hfront '-' hc) (by decide)
    rw [hsplit, List.append_assoc, scan_append, hzero] at hscan
    exact isSome_scan_of_append hscan

/-- A trimmed header line. -/
structure PlainLine (line : List Char) : Prop extends HeaderLine line where
  start : ∀ c ∈ line.head?, Text.isBlank c = false
  finish : ∃ front c, line = front ++ [c] ∧ Text.isBlank c = false

theorem HeaderLine.plain {line : List Char} (h : HeaderLine line) : PlainLine (Text.trimChars line) where
  toHeaderLine := h.trim
  start := fun _ => Text.isBlank_head_trimChars
  finish := Text.exists_trimChars_snoc (List.ne_nil_of_mem h.trim.colon)

section
variable {line text : List Char} {lines : List (List Char)}

/-! ## Markers in written lines -/

theorem crlf_append (line text : List Char) : crlf line ++ text = line ++ '\r' :: '\n' :: text := by
  rw [crlf, List.append_assoc]
  rfl

theorem scan_endMarker_crlf (h : (scan endMarker 0 line).isSome) : scan endMarker 0 (crlf line) = some 0 := by
  rw [crlf, scan_append]
  obtain ⟨k, hk⟩ := Option.isSome_iff_exists.mp h
  rw [hk, Option.bind_some, scan_cons_of_not_mem (by decide) (by decide), scan_cons_of_not_mem (by decide) (by decide),
    scan]

theorem scan_endMarker_lines (h : ∀ line ∈ lines, (scan endMarker 0 line).isSome) :
    scan endMarker 0 (lines.flatMap crlf) = some 0 := by
  induction lines with
  | nil => rfl
  | cons line lines ih =>
    rw [List.flatMap_cons, scan_append, scan_endMarker_crlf (h line List.mem_cons_self), Option.bind_some]
    exact ih fun l hl => h l (List.mem_cons_of_mem _ hl)

/-- An empty line does not end in a lone line feed. -/
theorem isSome_scan_feeds {k : Nat} (hk : k < 2) (h : ∀ line ∈ lines, '\n' ∉ line) :
    (scan ['\n', '\n'] k (lines.flatMap crlf)).isSome := by
  induction lines generalizing k with
  | nil => rfl
  | cons line lines ih =>
    have hline : (scan ['\n', '\n'] k line).isSome :=
      isSome_scan_of_getLast_not_mem rfl (h line List.mem_cons_self) hk
    have hreturn : scan ['\n', '\n'] k (line ++ ['\r']) = some 0 := scan_snoc_of_not_mem (by decide) hline (by decide)
    rw [List.flatMap_cons, show crlf line = (line ++ ['\r']) ++ ['\n'] by simp [crlf], List.append_assoc, scan_append,
      hreturn, Option.bind_some, scan_append, show scan ['\n', '\n'] 0 ['\n'] = some 1 by decide, Option.bind_some]
    exact ih (by decide) fun l hl => h l (List.mem_cons_of_mem _ hl)

/-- After a line that ends visibly an empty line has not begun. -/
theorem scan_returns_line {k : Nat} (hk : k < 4) (h : PlainLine line) :
    scan ['\r', '\n', '\r', '\n'] k line = some 0 := by
  obtain ⟨front, c, rfl, hc⟩ := h.finish
  have hmem : c ∉ ['\r', '\n', '\r', '\n'] := by
    intro hm
    simp only [List.mem_cons, List.not_mem_nil, or_false] at hm
    obtain rfl | rfl | rfl | rfl := hm <;> exact absurd hc (by decide)
  refine scan_snoc_of_not_mem (by decide) (isSome_scan_of_getLast_not_mem (c := '\n') rfl ?_ hk) hmem
  exact fun hn => h.single (List.mem_append_left _ hn)

theorem exists_scan_returns {k : Nat} (hk : k < 4) (h : ∀ line ∈ lines, PlainLine line) :
    ∃ k' < 4, scan ['\r', '\n', '\r', '\n'] k (lines.flatMap crlf) = some k' := by
  induction lines generalizing k with
  | nil => exact ⟨k, hk, rfl⟩
  | cons line lines ih =>
    obtain ⟨k', hk', hscan⟩ := ih (k := 2) (by decide) fun l hl => h l (List.mem_cons_of_mem _ hl)
    refine ⟨k', hk', ?_⟩
    rw [List.flatMap_cons, crlf_append, scan_append, scan_returns_line hk (h line List.mem_cons_self), Option.bind_some]
    exact hscan

/-- The first empty line is the one after the headers. -/
theorem splitHeaders_lines {data : List Char} (hne : lines ≠ []) (h : ∀ line ∈ lines, PlainLine line)
    (hdata : ∃ tail : List (List Char), data = tail.flatMap crlf ∧ ∀ line ∈ tail, '\n' ∉ line) :
    ∃ front last, lines = front ++ [last] ∧
      splitHeaders (lines.flatMap crlf ++ (crlf [] ++ data)) = (front.flatMap crlf ++ last, data) := by
  obtain ⟨tail, rfl, htail⟩ := hdata
  obtain ⟨front, last, rfl⟩ := (List.eq_nil_or_concat' lines).resolve_left hne
  refine ⟨front, last, rfl, ?_⟩
  have hwhole : (front ++ [last]).flatMap crlf ++ (crlf [] ++ tail.flatMap crlf) =
      (front ++ last :: [] :: tail).flatMap crlf := by simp
  have hfeeds : seek ['\n', '\n'] ((front ++ [last]).flatMap crlf ++ (crlf [] ++ tail.flatMap crlf)) = none := by
    rw [seek_eq_none_iff, hwhole]
    refine isSome_scan_feeds (by decide) fun line hline => ?_
    rcases List.mem_append.mp hline with hline | hline
    · exact (h line (List.mem_append_left _ hline)).single
    · rcases List.mem_cons.mp hline with rfl | hline
      · exact (h _ (by simp)).single
      · rcases List.mem_cons.mp hline with rfl | hline
        · exact List.not_mem_nil
        · exact htail line hline
  obtain ⟨k, hk, hfront⟩ := exists_scan_returns (k := 0) (by decide) fun l hl => h l (List.mem_append_left _ hl)
  have hreturns : seek ['\r', '\n', '\r', '\n'] ((front ++ [last]).flatMap crlf ++ (crlf [] ++ tail.flatMap crlf)) =
      some (front.flatMap crlf ++ last, tail.flatMap crlf) := by
    refine (seek_eq_some_iff (by decide)).mpr ⟨by simp [crlf], ?_⟩
    rw [scan_append, hfront, Option.bind_some, scan_returns_line hk (h last (by simp))]
  rw [splitHeaders, hfeeds, hreturns]

/-! ## Reading lines -/

theorem linesFrom_append (seen : List Char) (h : '\n' ∉ line) (text : List Char) :
    linesFrom seen (line ++ text) = linesFrom (line.reverse ++ seen) text := by
  induction line generalizing seen with
  | nil => rfl
  | cons c line ih =>
    rw [List.mem_cons, not_or] at h
    rw [List.cons_append, linesFrom, ih _ h.2, List.reverse_cons, List.append_assoc, List.singleton_append]
    exact fun hc => h.1 hc.symm

theorem linesFrom_crlf (h : '\n' ∉ line) (text : List Char) :
    linesFrom [] (crlf line ++ text) = line :: linesFrom [] text := by
  have hreturn : '\n' ∉ line ++ ['\r'] := by simpa using h
  rw [crlf, show line ++ ['\r', '\n'] ++ text = (line ++ ['\r']) ++ '\n' :: text by simp, linesFrom_append [] hreturn]
  simp [linesFrom]

/-- Written lines are read one by one. -/
theorem linesFrom_lines {front : List (List Char)} {last : List Char} (hfront : ∀ line ∈ front, '\n' ∉ line)
    (hlast : '\n' ∉ last) (hne : last ≠ []) : linesFrom [] (front.flatMap crlf ++ last) = front ++ [last] := by
  induction front with
  | nil =>
    have hread := linesFrom_append [] hlast []
    rw [List.append_nil, List.append_nil, linesFrom, if_neg (by simpa using hne), List.reverse_reverse] at hread
    exact hread
  | cons line front ih =>
    rw [List.flatMap_cons, List.append_assoc, linesFrom_crlf (hfront line List.mem_cons_self),
      ih fun l hl => hfront l (List.mem_cons_of_mem _ hl)]
    rfl

/-- A text without the END marker has lines without it. -/
theorem endless_of_mem_linesFrom {seen : List Char} (hseen : '\n' ∉ seen)
    (hscan : (scan endMarker 0 (seen.reverse ++ text)).isSome) (h : line ∈ linesFrom seen text) :
    '\n' ∉ line ∧ (scan endMarker 0 line).isSome := by
  fun_induction linesFrom seen text with
  | case1 => simp at h
  | case2 seen hne =>
    obtain rfl := List.mem_singleton.mp h
    exact ⟨by simpa using hseen, isSome_scan_of_append hscan⟩
  | case3 seen rest whole ih =>
    rcases List.mem_cons.mp h with rfl | h
    · -- without its carriage return a line is the front of what was seen
      have hwhole : ∃ back, seen.reverse = whole.reverse ++ back := by
        unfold whole
        split
        · exact ⟨['\r'], by simp⟩
        · exact ⟨[], by simp⟩
      obtain ⟨back, hback⟩ := hwhole
      rw [hback, List.append_assoc] at hscan
      refine ⟨fun hn => hseen ?_, isSome_scan_of_append hscan⟩
      rw [← List.mem_reverse, hback]
      exact List.mem_append_left _ hn
    · refine ih List.not_mem_nil ?_ h
      obtain ⟨k, hk⟩ := Option.isSome_iff_exists.mp (isSome_scan_of_append hscan)
      rw [scan_append, hk, Option.bind_some, scan_cons_of_not_mem (by decide) (by decide)] at hscan
      exact hscan
  | case4 seen c rest hc ih =>
    refine ih ?_ (by simpa using hscan) h
    rw [List.mem_cons, not_or]
    exact ⟨fun heq => hc heq.symm, hseen⟩

/-! ## Headers -/

theorem headerParts?_isSome {header : String} : (headerParts? header).isSome ↔ ':' ∈ header.toList := by
  unfold headerParts?
  cases hrest : header.toList.dropWhile (· != ':') with
  | nil =>
    have hno : ':' ∉ header.toList := fun hc => by simpa using List.dropWhile_eq_nil_iff.mp hrest ':' hc
    simp [hrest, hno]
  | cons c rest =>
    have hc : c = ':' := by simpa [hrest] using List.head?_dropWhile_not (· != ':') header.toList
    have hmem : c ∈ header.toList := (List.dropWhile_sublist _).subset (hrest ▸ List.mem_cons_self)
    rw [hc] at hmem
    simp [hrest, hmem]

theorem checkHeaders_eq_ok {headers : List String} :
    checkHeaders headers = .ok () ↔ ∀ h ∈ headers, ':' ∈ h.toList := by
  have hfind : headers.find? (fun line => (headerParts? line).isNone) = none ↔ ∀ h ∈ headers, ':' ∈ h.toList := by
    simp only [List.find?_eq_none, ← headerParts?_isSome, Option.isNone_iff_eq_none, Option.isSome_iff_ne_none, ne_eq]
  rw [← hfind, checkHeaders]
  cases headers.find? fun line => (headerParts? line).isNone <;> simp

end
end CertRotation.Pem
