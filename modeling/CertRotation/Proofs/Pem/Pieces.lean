import CertRotation.Proofs.Pem.Joining

/-!
# The pieces of a text

If all blocks of a text are read, the text is cut into pieces, each a region with the noise before it, and its BEGIN
markers are those that the regions begin with. Blocks that are written between lines of noise are read again, unless a
header line holds a marker.
-/
namespace CertRotation.Pem

/-! ## Pieces -/

/-- A region as it stands in a text, from its BEGIN marker to the dashes that close its END line. -/
inductive Spans : List Char → Region → Prop where
  | mk {tag gap payload endTag headers data : List Char} (tag_free : scan dashes 0 tag = some 0)
    (gap_blank : ∀ c ∈ gap, isGap c = true) (payload_start : ∀ c ∈ payload.head?, isGap c = false)
    (payload_free : scan endMarker 0 payload = some 0) (endTag_free : scan dashes 0 endTag = some 0)
    (split : splitHeaders payload = (headers, data)) :
    Spans (beginMarker ++ (tag ++ dashes ++ (gap ++ (payload ++ endMarker ++ (endTag ++ dashes)))))
      ⟨tag, headers, data, endTag⟩

/-- A region of a text with the noise before it, which leaves nothing of a BEGIN marker behind. -/
structure Piece where
  noise : List Char
  chars : List Char
  region : Region
  apart : scan beginMarker 0 noise = some 0
  spans : Spans chars region

def joined (pieces : List Piece) : List Char := pieces.flatMap fun x => x.noise ++ x.chars

/-- Where the regions start if the first piece stands at `n`. -/
def starts (n : ℕ) : List Piece → List ℕ
  | [] => []
  | x :: rest => (n + x.noise.length) :: starts (n + (x.noise.length + x.chars.length)) rest

/-- All places at which the marker stands in a text. -/
def places (marker text : List Char) : List ℕ :=
  (List.range text.length).filter fun n => marker.isPrefixOf (text.drop n)

/-- The text consists of these pieces and of what stands behind them. They hold these blocks, and no marker stands
elsewhere. -/
structure Pieced (text : List Char) (pieces : List Piece) (last : List Char) (ps : List Pem) : Prop where
  whole : text = joined pieces ++ last
  blocks : List.Forall₂ Reads (pieces.map (·.region)) ps
  markers : places beginMarker text = starts 0 pieces

section
variable {text front payload rest : List Char} {r : Region} {rs : List Region}

theorem Framed.exists_spans (h : Framed text r.beginTag payload r.endTag rest)
    (split : splitHeaders payload = (r.headers, r.data)) : ∃ noise chars, text = noise ++ (chars ++ rest) ∧
      scan beginMarker 0 noise = some 0 ∧ Spans chars r := by
  obtain @⟨noise, _, gap, _, _, _, hnoise, htag, hgap, hstart, hpayload, hend⟩ := h
  exact ⟨noise, _, by simp only [List.append_assoc], hnoise, .mk htag hgap hstart hpayload hend split⟩

theorem Spans.regions_append {chars : List Char} (h : Spans chars r) (rest : List Char) :
    regions (chars ++ rest) = r :: regions rest := by
  obtain @⟨tag, gap, payload, endTag, _, _, htag, hgap, hstart, hpayload, hend, hsplit⟩ := h
  have hframed : Framed _ tag payload endTag rest := @Framed.mk [] _ _ _ _ _ rfl htag hgap hstart hpayload hend
  have hregions := regions_of_framed hframed
  rw [hsplit] at hregions
  simpa only [List.nil_append, List.append_assoc] using hregions

theorem Spans.marker {chars : List Char} (h : Spans chars r) : beginMarker <+: chars := by
  obtain ⟨⟩ := h
  exact List.prefix_append _ _

theorem joined_cons (x : Piece) (pieces : List Piece) : joined (x :: pieces) = x.noise ++ x.chars ++ joined pieces :=
  List.flatMap_cons

/-- The regions of a text are those of its pieces and those that stand behind them. -/
theorem regions_joined (pieces : List Piece) (last : List Char) :
    regions (joined pieces ++ last) = pieces.map (·.region) ++ regions last := by
  induction pieces with
  | nil => rfl
  | cons x pieces ih =>
    rw [joined_cons, List.append_assoc, List.append_assoc, regions_noise x.apart, x.spans.regions_append, ih,
      List.map_cons, List.cons_append]

theorem Divided.exists_pieces (h : Divided text rs) :
    ∃ pieces last, text = joined pieces ++ last ∧ pieces.map (·.region) = rs := by
  induction h with
  | last => exact ⟨[], _, rfl, rfl⟩
  | next hframed hsplit _ ih =>
    obtain ⟨noise, chars, rfl, hnoise, hspans⟩ := hframed.exists_spans hsplit
    obtain ⟨pieces, last, rfl, rfl⟩ := ih
    refine ⟨⟨noise, chars, _, hnoise, hspans⟩ :: pieces, last, ?_, rfl⟩
    simp only [joined_cons, List.append_assoc]

/-! ## Places of markers -/

theorem places_cons (marker : List Char) (c : Char) (text : List Char) : places marker (c :: text) =
    (if marker <+: c :: text then [0] else []) ++ (places marker text).map (· + 1) := by
  rw [places, List.length_cons, List.range_succ_eq_map, List.filter_cons, List.filter_map]
  by_cases h : marker <+: c :: text
  · rw [if_pos h, List.drop_zero, if_pos (List.isPrefixOf_iff_prefix.mpr h)]
    rfl
  · rw [if_neg h, List.drop_zero, if_neg (mt List.isPrefixOf_iff_prefix.mp h)]
    rfl

theorem length_places (text : List Char) : (places beginMarker text).length = countOccurrences beginMarker text := by
  induction text with
  | nil => rw [countOccurrences]; rfl
  | cons c text ih =>
    rw [places_cons, countOccurrences_cons, List.length_append, List.length_map, ih, Nat.add_comm]
    split <;> rfl

/-- Where no marker begins the places are those of what follows. -/
theorem places_append (h : countOccurrences beginMarker (front ++ text) = countOccurrences beginMarker text) :
    places beginMarker (front ++ text) = (places beginMarker text).map (· + front.length) := by
  induction front with
  | nil => exact (List.map_id _).symm
  | cons c front ih =>
    obtain ⟨hno, hfront⟩ := not_marker_of_countOccurrences h
    rw [List.cons_append, places_cons, if_neg hno, ih hfront, List.nil_append, List.map_map]
    rfl

theorem places_marker (text : List Char) : places beginMarker (beginMarker ++ text) =
    0 :: (places beginMarker text).map (· + beginMarker.length) := by
  have hcons : beginMarker ++ text = '-' :: (beginMarker.tail ++ text) := rfl
  have hmarker : beginMarker <+: '-' :: (beginMarker.tail ++ text) := ⟨text, rfl⟩
  rw [hcons, places_cons, if_pos hmarker, places_append (countOccurrences_tail text), List.map_map]
  rfl

theorem starts_add (n k : ℕ) (pieces : List Piece) : starts (n + k) pieces = (starts n pieces).map (· + k) := by
  induction pieces generalizing n with
  | nil => rfl
  | cons x pieces ih =>
    rw [starts, starts, List.map_cons, Nat.add_right_comm n k, Nat.add_right_comm n k, ih]

theorem length_starts (n : ℕ) (pieces : List Piece) : (starts n pieces).length = pieces.length := by
  induction pieces generalizing n with
  | nil => rfl
  | cons x pieces ih => rw [starts, List.length_cons, ih, List.length_cons]

/-- A piece holds a marker, and none beside it if there are no more markers than pieces. -/
theorem countOccurrences_piece (x : Piece) (text : List Char) : countOccurrences beginMarker text + 1 ≤
      countOccurrences beginMarker (x.noise ++ (x.chars ++ text)) ∧
    (countOccurrences beginMarker (x.noise ++ (x.chars ++ text)) = countOccurrences beginMarker text + 1 →
      places beginMarker (x.noise ++ (x.chars ++ text)) = x.noise.length ::
        (places beginMarker text).map (· + (x.noise.length + x.chars.length))) := by
  obtain ⟨inner, hinner⟩ := x.spans.marker
  rw [← hinner, List.append_assoc]
  have hnoise := countOccurrences_append_le x.noise (beginMarker ++ (inner ++ text))
  have hmarker : countOccurrences beginMarker (beginMarker ++ (inner ++ text)) = _ :=
    countOccurrences_append_self (by decide) _
  have hrest := countOccurrences_append_le inner text
  refine ⟨by omega, fun hcount => ?_⟩
  -- the marker that the region begins with is counted, so none is left for the noise and the inside of the region
  have houtside : countOccurrences beginMarker (x.noise ++ (beginMarker ++ (inner ++ text))) =
      countOccurrences beginMarker (beginMarker ++ (inner ++ text)) := by omega
  have hinside : countOccurrences beginMarker (inner ++ text) = countOccurrences beginMarker text := by omega
  rw [places_append houtside, places_marker, places_append hinside, List.map_cons, List.map_map, List.map_map,
    Nat.zero_add, List.length_append]
  refine congrArg _ (List.map_congr_left fun n _ => ?_)
  simp only [Function.comp_apply]
  omega

theorem length_add_le_joined (pieces : List Piece) (last : List Char) : pieces.length +
    countOccurrences beginMarker last ≤ countOccurrences beginMarker (joined pieces ++ last) := by
  induction pieces with
  | nil => exact Nat.le_of_eq (Nat.zero_add _)
  | cons x pieces ih =>
    have hpiece := (countOccurrences_piece x (joined pieces ++ last)).1
    rw [joined_cons, List.append_assoc, List.append_assoc, List.length_cons]
    omega

/-- If there are no more markers than pieces they are where the regions start. -/
theorem places_joined {pieces : List Piece} {last : List Char}
    (h : countOccurrences beginMarker (joined pieces ++ last) = pieces.length) :
    places beginMarker (joined pieces ++ last) = starts 0 pieces := by
  induction pieces with
  | nil => exact List.length_eq_zero_iff.mp ((length_places _).trans h)
  | cons x pieces ih =>
    obtain ⟨hle, hplaces⟩ := countOccurrences_piece x (joined pieces ++ last)
    have hrest := length_add_le_joined pieces last
    rw [joined_cons, List.append_assoc, List.append_assoc] at h ⊢
    rw [List.length_cons] at h
    rw [hplaces (by omega), ih (by omega), ← starts_add, starts, Nat.zero_add, Nat.zero_add]

/-- A text comprises the blocks of its pieces. -/
theorem comprises_iff_exists_pieced {text : String} {ps : List Pem} :
    Comprises text ps ↔ ∃ pieces last, Pieced text.toList pieces last ps := by
  constructor
  · rintro ⟨⟨rs, hdivided, hreads⟩, hcount⟩
    obtain ⟨pieces, last, htext, rfl⟩ := hdivided.exists_pieces
    refine ⟨pieces, last, htext, hreads, ?_⟩
    have hlength := hreads.length_eq
    rw [List.length_map] at hlength
    rw [htext] at hcount ⊢
    exact places_joined (hcount.trans hlength.symm)
  · rintro ⟨pieces, last, htext, hreads, hplaces⟩
    have hlength := hreads.length_eq
    have hcount : countOccurrences beginMarker text.toList = pieces.length := by
      rw [← length_places, hplaces, length_starts]
    rw [List.length_map] at hlength
    refine ⟨⟨_, divided_regions _, ?_⟩, hcount.trans hlength⟩
    -- behind the pieces there is no marker, and so no region
    have hle := length_add_le_joined pieces last
    have hlast := length_regions_add_le last
    rw [← htext] at hle
    have hnone : regions last = [] := List.length_eq_zero_iff.mp (by omega)
    rwa [htext, regions_joined, hnone, List.append_nil]

end

/-! ## Blocks between lines of noise -/

/-- Whole lines that hold no BEGIN marker. -/
structure Noise where
  chars : List Char
  whole : ∀ c ∈ chars.getLast?, c = '\n'
  markerless : ¬ beginMarker <:+: chars

/-- A block whose tag can be written, and lines of noise before it. -/
structure NoisyBlock where
  noise : Noise
  block : Pem
  tag_ne : block.tag ≠ ""
  tag_free : '-' ∉ block.tag.toList

/-- The blocks as they are written, with noise before each and behind the last. -/
def interspersed (xs : List NoisyBlock) (last : Noise) : List Char :=
  (xs.flatMap fun x => x.noise.chars ++ x.block.encode.toList) ++ last.chars

/-- A block as it is read again. -/
def trimmed (p : Pem) : Pem := { p with headers := p.headers.map Text.trim }

section
variable {text : List Char} {xs : List NoisyBlock} {last : Noise}

theorem countOccurrences_eq_zero_iff : countOccurrences beginMarker text = 0 ↔ ¬ beginMarker <:+: text := by
  induction text with
  | nil =>
    rw [countOccurrences]
    exact iff_of_true rfl (by decide)
  | cons c text ih =>
    rw [countOccurrences_cons, List.infix_cons_iff, not_or, ← ih]
    split
    · next h => simp [h]
    · next h => simp [h]

theorem Noise.chars_cases (noise : Noise) : noise.chars = [] ∨ ∃ start, noise.chars = start ++ ['\n'] := by
  obtain hnil | ⟨start, c, hsnoc⟩ := List.eq_nil_or_concat' noise.chars
  · exact .inl hnil
  · exact .inr ⟨start, noise.whole c (by simp [hsnoc]) ▸ hsnoc⟩

theorem Noise.countOccurrences_append (noise : Noise) (text : List Char) :
    countOccurrences beginMarker (noise.chars ++ text) = countOccurrences beginMarker text := by
  have hnone := countOccurrences_eq_zero_iff.mpr noise.markerless
  obtain hnil | ⟨start, hsnoc⟩ := noise.chars_cases
  · rw [hnil, List.nil_append]
  · have hpart : ∀ back, countOccurrences beginMarker (start ++ '\n' :: back) = _ :=
      countOccurrences_append_cons (by decide) (by decide) start
    rw [hsnoc, hpart, countOccurrences.eq_1, Nat.add_zero] at hnone
    rw [hsnoc, List.append_assoc, List.singleton_append, hpart, hnone, Nat.zero_add]

/-- The end of its line takes away what may look like the start of a marker. -/
theorem Noise.scanned (noise : Noise) : scan beginMarker 0 noise.chars = some 0 := by
  have hsome := isSome_scan_of_countOccurrences (countOccurrences_eq_zero_iff.mpr noise.markerless)
  obtain hnil | ⟨start, hsnoc⟩ := noise.chars_cases
  · rw [hnil]
    rfl
  · rw [hsnoc] at hsome ⊢
    exact scan_snoc_of_not_mem (by decide) (isSome_scan_of_append hsome) (by decide)

theorem interspersed_cons (x : NoisyBlock) (xs : List NoisyBlock) (last : Noise) : interspersed (x :: xs) last =
    x.noise.chars ++ (x.block.encode.toList ++ interspersed xs last) := by
  simp only [interspersed, List.flatMap_cons, List.append_assoc]

/-! ### Their regions -/

theorem trimChars_trim (h : String) : Text.trimChars (Text.trim h).toList = Text.trimChars h.toList := by
  rw [Text.trim, String.toList_ofList]
  obtain ⟨-, hhead, hlast⟩ := Text.isCore_iff.mpr (Eq.refl (Text.trimChars h.toList))
  exact Text.trimChars_eq_self hhead hlast

theorem trim_trim (h : String) : Text.trim (Text.trim h) = Text.trim h := congrArg String.ofList (trimChars_trim h)

theorem trimmed_trimmed (p : Pem) : trimmed (trimmed p) = trimmed p := by
  simp only [trimmed, List.map_map, Function.comp_def, trim_trim]

theorem payload_trimmed (p : Pem) : payload (trimmed p) = payload p := by
  obtain ⟨tag, headers, contents⟩ := p
  cases headers with
  | nil => rfl
  | cons h headers => simp only [payload, trimmed, List.map_cons, List.flatMap_cons, List.flatMap_map, trimChars_trim]

/-- Blanks around headers are not written. -/
theorem encode_trimmed (p : Pem) : (trimmed p).encode = p.encode := by
  apply String.toList_injective
  rw [toList_encode, toList_encode, payload_trimmed, trimmed]

theorem NoisyBlock.legible (x : NoisyBlock)
    (h : ∀ header ∈ x.block.headers, HeaderLine (Text.trimChars header.toList)) : Legible (trimmed x.block) where
  tag_ne := x.tag_ne
  tag_free := scan_of_head_not_mem rfl x.tag_free
  headers := by
    intro line hline
    obtain ⟨header, hheader, rfl⟩ := List.mem_map.mp hline
    rw [Text.trim, String.toList_ofList]
    exact h header hheader

theorem regions_interspersed (h : ∀ x ∈ xs, Legible (trimmed x.block)) (last : Noise) :
    regions (interspersed xs last) = (xs.map fun x => trimmed x.block).map regionOf := by
  induction xs with
  | nil =>
    have hle := length_regions_add_le last.chars
    rw [countOccurrences_eq_zero_iff.mpr last.markerless] at hle
    exact List.length_eq_zero_iff.mp (Nat.eq_zero_of_le_zero ((Nat.le_add_right _ _).trans hle))
  | cons x xs ih =>
    obtain ⟨hfirst, hothers⟩ := List.forall_mem_cons.mp h
    rw [interspersed_cons, regions_noise x.noise.scanned, ← encode_trimmed, regions_encode_append hfirst, ih hothers,
      List.map_cons, List.map_cons]

/-! ### Their markers -/

theorem countOccurrences_lines {lines : List (List Char)} (h : countOccurrences beginMarker text = 0) :
    countOccurrences beginMarker (lines.flatMap crlf ++ text) = 0 ↔ ∀ line ∈ lines, ¬ beginMarker <:+: line := by
  induction lines with
  | nil => simpa using h
  | cons line lines ih =>
    have hend : ∀ back, countOccurrences beginMarker ('\n' :: back) = _ :=
      countOccurrences_append_cons (by decide) (by decide) []
    rw [List.flatMap_cons, List.append_assoc, crlf_append, countOccurrences_append_cons (by decide) (by decide), hend,
      countOccurrences.eq_1, Nat.zero_add, Nat.add_eq_zero_iff, ih, countOccurrences_eq_zero_iff, List.forall_mem_cons]

/-- The other markers of a block are those in its headers. -/
theorem countOccurrences_payload (p : Pem) : countOccurrences beginMarker (payload p) = 0 ↔
    ∀ header ∈ p.headers, ¬ beginMarker <:+: Text.trimChars header.toList := by
  by_cases h : p.headers = []
  · rw [payload_nil h, countOccurrences_of_head_not_mem rfl (dash_not_mem_body p.contents), h]
    simp
  · have hdash : '-' ∉ crlf [] ++ body p.contents := by simp [crlf, dash_not_mem_body]
    rw [payload_cons h, countOccurrences_lines (countOccurrences_of_head_not_mem rfl hdash), List.forall_mem_map]

theorem countOccurrences_interspersed_cons (x : NoisyBlock) (xs : List NoisyBlock) (last : Noise) :
    countOccurrences beginMarker (interspersed (x :: xs) last) =
      countOccurrences beginMarker (interspersed xs last) + countOccurrences beginMarker (payload x.block) + 1 := by
  rw [interspersed_cons, x.noise.countOccurrences_append, countOccurrences_encode_append,
    countOccurrences_encode x.tag_free]
  omega

theorem length_le_interspersed (xs : List NoisyBlock) (last : Noise) :
    xs.length ≤ countOccurrences beginMarker (interspersed xs last) := by
  induction xs with
  | nil => exact Nat.zero_le _
  | cons x xs ih =>
    rw [countOccurrences_interspersed_cons, List.length_cons]
    omega

/-- There are as many markers as blocks exactly if no header holds one. -/
theorem countOccurrences_interspersed_iff : countOccurrences beginMarker (interspersed xs last) = xs.length ↔
    ∀ x ∈ xs, ∀ header ∈ x.block.headers, ¬ beginMarker <:+: Text.trimChars header.toList := by
  induction xs with
  | nil => exact iff_of_true (countOccurrences_eq_zero_iff.mpr last.markerless) (by simp)
  | cons x xs ih =>
    have hle := length_le_interspersed xs last
    rw [countOccurrences_interspersed_cons, List.length_cons, List.forall_mem_cons, ← ih, ← countOccurrences_payload]
    omega

/-! ### What is read -/

/-- Blocks that are written between lines of noise are read again, but for the blanks around their headers, exactly if
these are lines with a colon in which neither an END marker is met nor a BEGIN marker stands. -/
theorem blocks_interspersed_iff : blocks (String.ofList (interspersed xs last)) = .ok (reread (xs.map (·.block))) ↔
    ∀ x ∈ xs, ∀ header ∈ x.block.headers,
      HeaderLine (Text.trimChars header.toList) ∧ ¬ beginMarker <:+: Text.trimChars header.toList := by
  have hreread : reread (xs.map (·.block)) = xs.map fun x => trimmed x.block := List.map_map
  rw [hreread, blocks_eq_ok]
  constructor
  · intro h x hx header hheader
    -- every block that is read is legible, and each marker is counted for the block that it begins
    have hlegible := h.legible _ (List.mem_map_of_mem hx)
    have hcount := h.markers
    rw [String.toList_ofList, List.length_map] at hcount
    have hline := hlegible.headers _ (List.mem_map_of_mem hheader)
    rw [Text.trim, String.toList_ofList] at hline
    exact ⟨hline, countOccurrences_interspersed_iff.mp hcount x hx header hheader⟩
  · intro h
    have hlegible : ∀ x ∈ xs, Legible (trimmed x.block) := fun x hx =>
      x.legible fun header hheader => (h x hx header hheader).1
    have hcount : countOccurrences beginMarker (interspersed xs last) = xs.length :=
      countOccurrences_interspersed_iff.mpr fun x hx header hheader => (h x hx header hheader).2
    have hreads := reads_regionOf (List.forall_mem_map.mpr hlegible)
    have hagain : reread (xs.map fun x => trimmed x.block) = xs.map fun x => trimmed x.block :=
      List.map_map.trans (List.map_congr_left fun x _ => trimmed_trimmed x.block)
    rw [hagain, ← regions_interspersed hlegible last] at hreads
    exact ⟨⟨_, divided_regions _, by rwa [String.toList_ofList]⟩, by rw [String.toList_ofList, hcount, List.length_map]⟩

end

/-- All blocks of a text are read exactly if it is cut into pieces, one for each block, whose regions begin with the only
BEGIN markers of the text. So blocks that are written between lines of noise are read again, with trimmed headers, exactly
if these have a colon and no line end and hold neither an END marker that is met nor a BEGIN marker. -/
theorem blocks_exact (text : String) (ps : List Pem) (xs : List NoisyBlock) (last : Noise) :
    (blocks text = .ok ps ↔ ∃ pieces left, Pieced text.toList pieces left ps) ∧
    (blocks (String.ofList (interspersed xs last)) = .ok (reread (xs.map (·.block))) ↔
      ∀ x ∈ xs, ∀ header ∈ x.block.headers,
        HeaderLine (Text.trimChars header.toList) ∧ ¬ beginMarker <:+: Text.trimChars header.toList) :=
  ⟨blocks_eq_ok.trans comprises_iff_exists_pieced, blocks_interspersed_iff⟩

def silence : Noise := ⟨[], by simp, by decide⟩

def markedBlock : NoisyBlock := ⟨silence, ⟨"T", ["A: -----BEGIN B"], []⟩, by decide, by decide⟩

def indentedBlock : NoisyBlock := ⟨silence, ⟨"T", [" A: b"], []⟩, by decide, by decide⟩

theorem legible_marked : Legible (trimmed markedBlock.block) :=
  markedBlock.legible (List.forall_mem_singleton.mpr ⟨by decide, by decide, by decide⟩)

theorem payload_marked : payload markedBlock.block = "A: ".toList ++ (beginMarker ++ "B\r\n\r\n".toList) := by
  have htrim : Text.trimChars "A: -----BEGIN B".toList = "A: ".toList ++ (beginMarker ++ ['B']) := by decide
  have hbody : body [] = [] := by simp [body, Base64.encode, chunks]
  rw [payload_cons (List.cons_ne_nil _ _)]
  simp only [markedBlock, List.map_cons, List.map_nil, htrim, hbody]
  rfl

/-- A block that is read by itself may not be read from a file, and headers need not come back as they were. -/
theorem header_not_reread :
    (parse markedBlock.block.encode = .ok markedBlock.block ∧
      blocks (String.ofList (interspersed [markedBlock] silence)) = .error (.truncated 2 1)) ∧
    checkHeaders indentedBlock.block.headers = .ok () ∧
      blocks (String.ofList (interspersed [indentedBlock] silence)) = .ok [⟨"T", ["A: b"], []⟩] := by
  have hsame : trimmed markedBlock.block = markedBlock.block := by decide
  refine ⟨⟨?_, ?_⟩, checkHeaders_eq_ok.mpr (by decide), ?_⟩
  · have hparse := parse_encode_of_legible legible_marked
    rw [encode_trimmed] at hparse
    exact hparse.trans (congrArg _ ((trimmed_trimmed _).trans hsame))
  · have hlegible : ∀ x ∈ [markedBlock], Legible (trimmed x.block) := List.forall_mem_singleton.mpr legible_marked
    have hreads := reads_regionOf (List.forall_mem_map.mpr hlegible)
    rw [← regions_interspersed hlegible silence, ← String.toList_ofList (l := interspersed _ _)] at hreads
    have hmarkers : countOccurrences beginMarker (interspersed [markedBlock] silence) = 2 := by
      have hnone : countOccurrences beginMarker (interspersed [] silence) = 0 := countOccurrences_eq_zero (by decide)
      rw [countOccurrences_interspersed_cons, hnone, payload_marked,
        countOccurrences_append_of_head_not_mem rfl (by decide), countOccurrences_append_self (by decide),
        countOccurrences_eq_zero (by decide)]
    rw [blocks, parseMany_eq_ok.mpr hreads, String.toList_ofList]
    simp only [hmarkers]
    rfl
  · exact blocks_interspersed_iff.mpr (List.forall_mem_singleton.mpr
      (List.forall_mem_singleton.mpr ⟨⟨by decide, by decide, by decide⟩, by decide⟩))

end CertRotation.Pem
