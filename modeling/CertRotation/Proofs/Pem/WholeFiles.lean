import CertRotation.Proofs.Pem.RoundTrip

/-!
# The blocks of a file

The blocks of a text are those that stand in it, one after another and with nothing left out, if no BEGIN marker stands
outside of them. Blocks that are written one after another are found again. If the last one is cut off it is no block, but
its marker is counted as soon as it is complete. A text that ends earlier, within the marker, cannot be told from one that
ends before it.
-/
namespace CertRotation.Pem

/-- The text holds these blocks in this order, and no further BEGIN marker. -/
structure Comprises (text : String) (ps : List Pem) : Prop where
  blocks : ∃ rs, Divided text.toList rs ∧ List.Forall₂ Reads rs ps
  markers : countOccurrences beginMarker text.toList = ps.length

section
variable {text : String} {ps : List Pem} {p : Pem}

theorem parseMany_eq_ok : parseMany text = .ok ps ↔ List.Forall₂ Reads (regions text.toList) ps := by
  rw [parseMany, mapM_eq_ok]
  simp only [ofRegion_eq_ok]

/-- What is read are the blocks of the text. -/
theorem blocks_eq_ok : blocks text = .ok ps ↔ Comprises text ps := by
  have hboth : Comprises text ps ↔ parseMany text = .ok ps ∧ countOccurrences beginMarker text.toList = ps.length := by
    rw [parseMany_eq_ok]
    constructor
    · rintro ⟨⟨rs, hdivided, hreads⟩, hcount⟩
      exact ⟨divided_iff.mp hdivided ▸ hreads, hcount⟩
    · rintro ⟨hreads, hcount⟩
      exact ⟨⟨_, divided_regions _, hreads⟩, hcount⟩
  rw [hboth]
  unfold blocks
  cases parseMany text with
  | error e => simp
  | ok bs =>
    by_cases hcount : countOccurrences beginMarker text.toList = bs.length
    · simp only [if_pos hcount]
      constructor
      · rintro ⟨⟩
        exact ⟨rfl, hcount⟩
      · rintro ⟨⟨⟩, -⟩
        rfl
    · simp only [if_neg hcount]
      constructor
      · rintro ⟨⟩
      · rintro ⟨⟨⟩, hlength⟩
        exact absurd hlength hcount

theorem legible_of_divided {text : List Char} {rs : List Region} {ps : List Pem} (h : Divided text rs)
    (hreads : List.Forall₂ Reads rs ps) : ∀ p ∈ ps, Legible p := by
  induction h generalizing ps with
  | last =>
    cases hreads
    simp
  | next hframed hsplit _ ih =>
    obtain ⟨⟩ | ⟨hfirst, hothers⟩ := hreads
    intro p hp
    rcases List.mem_cons.mp hp with rfl | hp
    · exact legible_of_framed hframed hsplit hfirst
    · exact ih hothers p hp

theorem Comprises.legible (h : Comprises text ps) : ∀ p ∈ ps, Legible p := by
  obtain ⟨⟨rs, hdivided, hreads⟩, -⟩ := h
  exact legible_of_divided hdivided hreads

/-- A text without blocks does not begin with one. -/
theorem parse_of_comprises_nil (h : Comprises text []) : parse text = .error .framing := by
  obtain ⟨⟨rs, hdivided, hreads⟩, -⟩ := h
  obtain rfl : rs = [] := List.forall₂_nil_right_iff.mp hreads
  obtain ⟨hnone⟩ := hdivided
  rw [parse, region?_eq_none_iff.mpr hnone]

theorem parse_of_comprises_cons (h : Comprises text (p :: ps)) : parse text = .ok p := by
  obtain ⟨⟨rs, hdivided, hreads⟩, -⟩ := h
  obtain _ | ⟨hfirst, -⟩ := hreads
  obtain _ | ⟨hframed, hsplit, -⟩ := hdivided
  rw [parse, region?_of_framed hframed, hsplit]
  exact ofRegion_eq_ok.mpr hfirst

/-! ## Blocks one after another -/

def written (ps : List Pem) : List Char := ps.flatMap fun p => p.encode.toList

theorem written_cons (p : Pem) (ps : List Pem) : written (p :: ps) = p.encode.toList ++ written ps := List.flatMap_cons

/-- The region that a block is written as. -/
def regionOf (p : Pem) : Region :=
  ⟨p.tag.toList, (splitHeaders (payload p)).1, (splitHeaders (payload p)).2, p.tag.toList⟩

theorem regions_encode_append (h : Legible p) (rest : List Char) :
    regions (p.encode.toList ++ rest) = regionOf p :: regions rest := by
  rw [regions_of_framed (framed_encode h rest)]
  have hend : regions (['\r', '\n'] ++ rest) = regions rest := regions_noise (by decide) rest
  exact congrArg _ hend

theorem regions_written_append (h : ∀ p ∈ ps, Legible p) (rest : List Char) :
    regions (written ps ++ rest) = ps.map regionOf ++ regions rest := by
  induction ps with
  | nil => rfl
  | cons p ps ih =>
    rw [written_cons, List.append_assoc, regions_encode_append (h p List.mem_cons_self),
      ih fun q hq => h q (List.mem_cons_of_mem _ hq)]
    rfl

theorem regions_nil : regions [] = [] := regions_eq_nil fun _ _ _ _ h => absurd h.rest_length (Nat.not_lt_zero _)

theorem regions_written (h : ∀ p ∈ ps, Legible p) : regions (written ps) = ps.map regionOf := by
  have hregions := regions_written_append h []
  rwa [List.append_nil, regions_nil, List.append_nil] at hregions

/-- How blocks are read again. -/
def reread (ps : List Pem) : List Pem := ps.map fun p => { p with headers := p.headers.map Text.trim }

theorem reads_regionOf (h : ∀ p ∈ ps, Legible p) : List.Forall₂ Reads (ps.map regionOf) (reread ps) := by
  rw [reread, List.forall₂_map_left_iff, List.forall₂_map_right_iff, List.forall₂_same]
  exact fun p hp => reads_payload (h p hp)

theorem exists_encode_eq (p : Pem) : ∃ front, p.encode.toList = beginMarker ++ front ++ ['-', '\r', '\n'] := by
  refine ⟨p.tag.toList ++ dashes ++ ['\r', '\n'] ++ payload p ++ endMarker ++ p.tag.toList ++ ['-', '-', '-', '-'], ?_⟩
  rw [toList_encode, show dashes = ['-', '-', '-', '-', '-'] from rfl]
  simp only [List.append_assoc, List.cons_append, List.nil_append]

theorem countOccurrences_encode_append (p : Pem) (rest : List Char) :
    countOccurrences beginMarker (p.encode.toList ++ rest) =
      countOccurrences beginMarker p.encode.toList + countOccurrences beginMarker rest := by
  obtain ⟨front, hfront⟩ := exists_encode_eq p
  have hpart : ∀ back, countOccurrences beginMarker ((beginMarker ++ front ++ ['-', '\r']) ++ '\n' :: back) = _ :=
    countOccurrences_append_cons (by decide) (by decide) _
  have hend : p.encode.toList = (beginMarker ++ front ++ ['-', '\r']) ++ '\n' :: [] := by rw [hfront]; simp
  have hwhole : p.encode.toList ++ rest = (beginMarker ++ front ++ ['-', '\r']) ++ '\n' :: rest := by rw [hfront]; simp
  rw [hwhole, hpart, hend, hpart, countOccurrences.eq_1, Nat.add_zero]

theorem countOccurrences_written_append (ps : List Pem) (rest : List Char) :
    countOccurrences beginMarker (written ps ++ rest) =
      countOccurrences beginMarker (written ps) + countOccurrences beginMarker rest := by
  induction ps with
  | nil => rw [written, List.flatMap_nil, List.nil_append, countOccurrences.eq_1, Nat.zero_add]
  | cons p ps ih =>
    rw [written_cons, List.append_assoc, countOccurrences_encode_append, ih, countOccurrences_encode_append, Nat.add_assoc]

/-- Every block begins with a marker. -/
theorem length_le_countOccurrences (ps : List Pem) : ps.length ≤ countOccurrences beginMarker (written ps) := by
  induction ps with
  | nil => exact Nat.zero_le _
  | cons p ps ih =>
    obtain ⟨front, hfront⟩ := exists_encode_eq p
    have hone : 1 ≤ countOccurrences beginMarker p.encode.toList :=
      one_le_countOccurrences (by decide) (by rw [hfront, List.append_assoc]; exact List.prefix_append _ _)
    rw [written_cons, countOccurrences_encode_append, List.length_cons]
    omega

/-! ## Markers of a block -/

theorem exists_payload_lines (p : Pem) : ∃ lines : List (List Char), payload p = lines.flatMap crlf := by
  by_cases h : p.headers = []
  · exact ⟨_, payload_nil h⟩
  · refine ⟨(p.headers.map fun h => Text.trimChars h.toList) ++ [] :: chunks 64 (Base64.encode p.contents), ?_⟩
    rw [payload_cons h, List.flatMap_append, List.flatMap_cons, body]

theorem countOccurrences_boundary {tag : List Char} (h : '-' ∉ tag) (rest : List Char) :
    countOccurrences beginMarker (tag ++ (dashes ++ '\r' :: rest)) = countOccurrences beginMarker rest := by
  rw [countOccurrences_append_of_head_not_mem rfl h, countOccurrences_append_cons (by decide) (by decide),
    countOccurrences_eq_zero (by decide), Nat.zero_add]

/-- Besides its own a block holds the markers that stand between its boundary lines. -/
theorem countOccurrences_encode (h : '-' ∉ p.tag.toList) :
    countOccurrences beginMarker p.encode.toList = countOccurrences beginMarker (payload p) + 1 := by
  obtain ⟨front, hfront⟩ : ∃ front, '\n' :: payload p = front ++ ['\n'] := by
    obtain ⟨lines, hlines⟩ := exists_payload_lines p
    rw [hlines]
    obtain rfl | ⟨lines, line, rfl⟩ := List.eq_nil_or_concat' lines
    · exact ⟨[], rfl⟩
    · exact ⟨'\n' :: (lines.flatMap crlf ++ line ++ ['\r']), by simp [crlf]⟩
  have hsplit : p.encode.toList = beginMarker ++ (p.tag.toList ++ (dashes ++ '\r' :: (front ++ '\n' ::
      (['-', '-', '-', '-', '-', 'E', 'N'] ++ 'D' :: ((' ' :: p.tag.toList) ++ (dashes ++ '\r' :: ['\n'])))))) := by
    rw [List.append_cons front, ← hfront, toList_encode,
      show endMarker = ['-', '-', '-', '-', '-', 'E', 'N', 'D', ' '] from rfl]
    simp only [List.append_assoc, List.cons_append, List.nil_append]
  have hpart : ∀ back, countOccurrences beginMarker (front ++ '\n' :: back) = _ :=
    countOccurrences_append_cons (by decide) (by decide) front
  have hpayload : countOccurrences beginMarker (payload p) = countOccurrences beginMarker front := by
    have hline : countOccurrences beginMarker ('\n' :: payload p) = _ :=
      countOccurrences_append_cons (by decide) (by decide) [] (payload p)
    rw [hfront, hpart, countOccurrences.eq_1, Nat.add_zero, Nat.zero_add] at hline
    exact hline.symm
  have hend : ∀ back, countOccurrences beginMarker (['-', '-', '-', '-', '-', 'E', 'N'] ++ 'D' :: back) =
      countOccurrences beginMarker back := fun back => by
    rw [countOccurrences_append_cons (by decide) (by decide), countOccurrences_eq_zero (by decide), Nat.zero_add]
  have hlast : countOccurrences beginMarker ['\n'] = 0 := countOccurrences_eq_zero (by decide)
  have hblank : '-' ∉ ' ' :: p.tag.toList := by simp [h]
  rw [hsplit, countOccurrences_append_self (by decide), countOccurrences_boundary h, hpart, hend,
    countOccurrences_boundary hblank, hlast, Nat.add_zero, hpayload]

/-! ## Plain blocks -/

/-- A block without headers whose tag is plain text and holds no dash. -/
structure Plain (p : Pem) : Prop where
  headers : p.headers = []
  tag_ne : p.tag ≠ ""
  tag_free : '-' ∉ p.tag.toList
  tag_ascii : ∀ c ∈ p.tag.toList, c.toNat < 128

theorem Plain.legible (h : Plain p) : Legible p := by
  obtain ⟨tag, headers, contents⟩ := p
  obtain ⟨rfl, hne, hdash, -⟩ := h
  exact legible_of_dash_not_mem hne hdash contents

/-- A plain block holds no marker but its own. -/
theorem Plain.countOccurrences_encode (h : Plain p) : countOccurrences beginMarker p.encode.toList = 1 := by
  rw [Pem.countOccurrences_encode h.tag_free, payload_nil h.headers,
    countOccurrences_of_head_not_mem rfl (dash_not_mem_body p.contents)]

theorem countOccurrences_written (h : ∀ p ∈ ps, Plain p) : countOccurrences beginMarker (written ps) = ps.length := by
  induction ps with
  | nil => exact countOccurrences_eq_zero (by decide)
  | cons p ps ih =>
    rw [written_cons, countOccurrences_encode_append, (h p List.mem_cons_self).countOccurrences_encode,
      ih fun q hq => h q (List.mem_cons_of_mem _ hq), List.length_cons, Nat.add_comm]

/-- Plain blocks that are written one after another are read as they are. -/
theorem blocks_written (h : ∀ p ∈ ps, Plain p) : blocks (String.ofList (written ps)) = .ok ps := by
  have hlegible : ∀ p ∈ ps, Legible p := fun p hp => (h p hp).legible
  have hsame : reread ps = ps := by
    refine (List.map_congr_left fun p hp => ?_).trans (List.map_id ps)
    rw [(h p hp).headers, List.map_nil, ← (h p hp).headers]
    rfl
  have hreads := reads_regionOf hlegible
  rw [← regions_written hlegible, hsame] at hreads
  rw [blocks_eq_ok]
  exact ⟨⟨_, by rw [String.toList_ofList]; exact divided_regions _, hreads⟩, by
    rw [String.toList_ofList, countOccurrences_written h]⟩

theorem Plain.ascii_encode (h : Plain p) : ∀ c ∈ p.encode.toList, c.toNat < 128 := by
  have hmarkers : ∀ c ∈ beginMarker ++ dashes ++ ['\r', '\n'] ++ endMarker, c.toNat < 128 :=
    ascii_of_all (by decide)
  have hbody : ∀ c ∈ body p.contents, c.toNat < 128 := by
    intro c hc
    obtain ⟨line, hline, hc⟩ := List.mem_flatMap.mp hc
    rcases List.mem_append.mp hc with hc | hc
    · exact (plain_symbols (mem_of_mem_chunks hline hc)).1
    · exact hmarkers c (List.mem_append_left _ (List.mem_append_right _ hc))
  intro c hc
  rw [toList_encode, payload_nil h.headers] at hc
  simp only [List.mem_append] at hc hmarkers
  obtain (((((((hc | hc) | hc) | hc) | hc) | hc) | hc) | hc) | hc := hc
  all_goals first | exact h.tag_ascii c hc | exact hbody c hc | exact hmarkers c (by simp only [hc, true_or, or_true])

theorem ascii_written (h : ∀ p ∈ ps, Plain p) : ∀ c ∈ written ps, c.toNat < 128 := by
  intro c hc
  obtain ⟨p, hp, hc⟩ := List.mem_flatMap.mp hc
  exact (h p hp).ascii_encode c hc

/-! ## A block that is cut off -/

/-- Before its last dash a block is none. -/
theorem not_framed_take {n : Nat} (h : Legible p) (hn : n + 2 < p.encode.toList.length)
    (tag payload endTag rest : List Char) : ¬ Framed (p.encode.toList.take n) tag payload endTag rest := by
  intro hcut
  -- a region of the cut text is one of the whole text, and what is cut off stands behind it
  have hregion := region?_of_framed (hcut.append (p.encode.toList.drop n))
  have hwhole := region?_of_framed (framed_encode h [])
  rw [List.take_append_drop] at hregion
  rw [List.append_nil, hregion] at hwhole
  have hgap : (rest ++ p.encode.toList.drop n).dropWhile isGap = [] := (Prod.mk.inj (Option.some.inj hwhole)).2
  obtain ⟨front, hfront⟩ := exists_encode_eq p
  have hdash : '-' ∈ p.encode.toList.drop n := by
    have hlength : n ≤ (beginMarker ++ front).length := by
      rw [hfront, List.length_append] at hn
      simp only [List.length_cons, List.length_nil] at hn
      omega
    rw [hfront, List.drop_append_of_le_length hlength]
    simp
  have := List.dropWhile_eq_nil_iff.mp hgap '-' (List.mem_append_right _ hdash)
  exact absurd this (by decide)

theorem regions_cut {n : Nat} (hps : ∀ p ∈ ps, Legible p) (h : Legible p) (hn : n + 2 < p.encode.toList.length) :
    regions (written ps ++ p.encode.toList.take n) = regions (written ps) := by
  rw [regions_written_append hps, regions_eq_nil (not_framed_take h hn), List.append_nil, regions_written hps]

theorem parseMany_cut {n : Nat} (hps : ∀ p ∈ ps, Legible p) (h : Legible p) (hn : n + 2 < p.encode.toList.length) :
    parseMany (String.ofList (written ps ++ p.encode.toList.take n)) = .ok (reread ps) := by
  rw [parseMany_eq_ok, String.toList_ofList, regions_cut hps h hn, regions_written hps]
  exact reads_regionOf hps

/-- A cut within the BEGIN marker cannot be told from the end of the file. -/
theorem blocks_cut_of_lt {n : Nat} (hps : ∀ p ∈ ps, Legible p) (h : Legible p) (hn : n + 2 < p.encode.toList.length)
    (hmarker : n < beginMarker.length) :
    blocks (String.ofList (written ps ++ p.encode.toList.take n)) = blocks (String.ofList (written ps)) := by
  have hcount : countOccurrences beginMarker (p.encode.toList.take n) = 0 :=
    countOccurrences_eq_zero (lt_of_le_of_lt (List.length_take_le _ _) hmarker)
  simp only [blocks, parseMany, String.toList_ofList, regions_cut hps h hn, countOccurrences_written_append, hcount,
    Nat.add_zero]

/-- A cut behind the BEGIN marker is noticed. -/
theorem blocks_cut_of_le {n : Nat} (hps : ∀ p ∈ ps, Legible p) (h : Legible p) (hn : n + 2 < p.encode.toList.length)
    (hmarker : beginMarker.length ≤ n) : ∃ markers > ps.length,
      blocks (String.ofList (written ps ++ p.encode.toList.take n)) = .error (.truncated markers ps.length) := by
  obtain ⟨front, hfront⟩ := exists_encode_eq p
  have hmarked : beginMarker <+: p.encode.toList.take n := by
    refine List.prefix_of_prefix_length_le ?_ (List.take_prefix n _) ?_
    · rw [hfront, List.append_assoc]
      exact List.prefix_append _ _
    · rw [List.length_take]
      omega
  have hcut := one_le_countOccurrences (by decide) hmarked
  have hothers := length_le_countOccurrences ps
  have hlength : (reread ps).length = ps.length := List.length_map _
  refine ⟨countOccurrences beginMarker (written ps ++ p.encode.toList.take n), ?_, ?_⟩
  · rw [countOccurrences_written_append]
    omega
  · have hne : countOccurrences beginMarker (written ps ++ p.encode.toList.take n) ≠ ps.length := by
      rw [countOccurrences_written_append]
      omega
    simp only [blocks, parseMany_cut hps h hn, String.toList_ofList, hlength, if_neg hne]

/-- If a file is read that is cut off within a block, then the cut is within the marker and the other blocks are read. -/
theorem blocks_cut_eq_ok {n : Nat} {bs : List Pem} (hps : ∀ p ∈ ps, Legible p) (h : Legible p)
    (hn : n + 2 < p.encode.toList.length)
    (hread : blocks (String.ofList (written ps ++ p.encode.toList.take n)) = .ok bs) :
    n < beginMarker.length ∧ bs = reread ps := by
  obtain hmarker | hmarker := Nat.lt_or_ge n beginMarker.length
  · obtain ⟨⟨rs, hdivided, hreads⟩, -⟩ := blocks_eq_ok.mp hread
    have hmany := parseMany_eq_ok.mpr (divided_iff.mp hdivided ▸ hreads)
    rw [parseMany_cut hps h hn] at hmany
    exact ⟨hmarker, (Except.ok.inj hmany).symm⟩
  · obtain ⟨markers, -, herror⟩ := blocks_cut_of_le hps h hn hmarker
    rw [herror] at hread
    cases hread

end
end CertRotation.Pem
