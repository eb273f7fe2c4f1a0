import CertRotation.Proofs.Pem.WholeFiles

/-!
# Texts one behind the other

The blocks of two texts that are written one behind the other are those of the first and then those of the second, unless
something at the border is taken for a BEGIN marker that is none, or hides one. Nothing does if the first text ends with
its line, nor if its last block ends it and the second text begins with a block.
-/
namespace CertRotation.Pem

/-! ## Behind the last region -/

/-- What stands behind the last region of a text and the blanks after it. -/
def behind (text : List Char) : List Char :=
  match _h : region? text with
  | none => text
  | some (_, rest) => behind rest
termination_by text.length
decreasing_by exact region?_rest_length _h

section
variable {text front back : List Char}

theorem exists_framed_of_region? {r : Region} {left : List Char} (h : region? text = some (r, left)) :
    ∃ payload gap, Framed text r.beginTag payload r.endTag (gap ++ left) ∧ splitHeaders payload = (r.headers, r.data) ∧
      ∀ c ∈ gap, isGap c = true := by
  obtain ⟨payload, rest, hframed, hsplit, rfl⟩ := framed_of_region? h
  refine ⟨payload, rest.takeWhile isGap, ?_, hsplit, fun c hc => List.mem_takeWhile_imp hc⟩
  rwa [List.takeWhile_append_dropWhile]

theorem regions_of_region? {r : Region} {left : List Char} (h : region? text = some (r, left)) :
    regions text = r :: regions left := by
  rw [regions]
  split
  · next hnone => rw [h] at hnone; cases hnone
  · next r' left' hsome =>
    rw [h] at hsome
    obtain ⟨rfl, rfl⟩ := Prod.mk.inj (Option.some.inj hsome)
    rfl

/-- If the first text leaves nothing of the BEGIN marker behind, the regions of the second follow its own. -/
theorem regions_append (h : scan beginMarker 0 (behind front) = some 0) (back : List Char) :
    regions (front ++ back) = regions front ++ regions back := by
  fun_induction behind front with
  | case1 front hnone => rw [regions_noise h, regions_eq_nil (region?_eq_none_iff.mp hnone), List.nil_append]
  | case2 front r rest hsome ih =>
    obtain ⟨payload, gap, hframed, hsplit, hgap⟩ := exists_framed_of_region? hsome
    rw [regions_of_region? hsome, regions_of_framed (hframed.append back), hsplit, List.append_assoc,
      regions_noise (scan_gap hgap), ih h, List.cons_append]

end

/-! ## Counting markers at a border -/

/-- What follows the first dash of a marker begins no marker before the marker ends. -/
theorem countOccurrences_tail (rest : List Char) :
    countOccurrences beginMarker (beginMarker.tail ++ rest) = countOccurrences beginMarker rest := by
  have hletters : countOccurrences beginMarker ("BEGIN ".toList ++ rest) = countOccurrences beginMarker rest :=
    countOccurrences_append_of_head_not_mem rfl (by decide) rest
  have hskip : ∀ text, beginMarker.isPrefixOf text = false →
      countOccurrences beginMarker text = countOccurrences beginMarker text.tail := by
    intro text h
    cases text with
    | nil => rfl
    | cons c text => rw [countOccurrences, h, if_neg (by simp), List.tail_cons]
  rw [← hletters]
  exact (hskip _ rfl).trans ((hskip _ rfl).trans ((hskip _ rfl).trans (hskip _ rfl)))

/-- Every place where the marker stands is counted. -/
theorem countOccurrences_cons (c : Char) (text : List Char) : countOccurrences beginMarker (c :: text) =
    countOccurrences beginMarker text + if beginMarker <+: c :: text then 1 else 0 := by
  by_cases h : beginMarker <+: c :: text
  · obtain ⟨rest, hrest⟩ := h
    have htext : text = beginMarker.tail ++ rest := (List.cons.inj hrest).2.symm
    rw [if_pos ⟨rest, hrest⟩, ← hrest, countOccurrences_append_self (by decide), htext, countOccurrences_tail]
  · rw [if_neg h, countOccurrences, if_neg (mt List.isPrefixOf_iff_prefix.mp h), Nat.add_zero]

section
variable {front back : List Char}

theorem countOccurrences_append_le (front back : List Char) :
    countOccurrences beginMarker front + countOccurrences beginMarker back ≤
      countOccurrences beginMarker (front ++ back) := by
  induction front with
  | nil => rw [countOccurrences_eq_zero (by decide), Nat.zero_add, List.nil_append]
  | cons c front ih =>
    rw [List.cons_append, countOccurrences_cons, countOccurrences_cons]
    by_cases h : beginMarker <+: c :: front
    · have hwhole : beginMarker <+: c :: (front ++ back) := h.trans (List.prefix_append (c :: front) back)
      rw [if_pos h, if_pos hwhole]
      omega
    · rw [if_neg h]
      omega

/-- If no marker begins in front of a text, none begins at the first character. -/
theorem not_marker_of_countOccurrences {c : Char}
    (h : countOccurrences beginMarker (c :: (front ++ back)) = countOccurrences beginMarker back) :
    ¬ beginMarker <+: c :: (front ++ back) ∧
      countOccurrences beginMarker (front ++ back) = countOccurrences beginMarker back := by
  have hle := countOccurrences_append_le front back
  rw [countOccurrences_cons] at h
  have hno : ¬ beginMarker <+: c :: (front ++ back) := fun hmarker => by
    rw [if_pos hmarker] at h
    omega
  rw [if_neg hno, Nat.add_zero] at h
  exact ⟨hno, h⟩

/-- No marker stands across the border of two texts. -/
theorem countOccurrences_append_of_border
    (h : ∀ s, s ≠ [] → s <:+ front → beginMarker <+: s ++ back → beginMarker <+: s) :
    countOccurrences beginMarker (front ++ back) =
      countOccurrences beginMarker front + countOccurrences beginMarker back := by
  induction front with
  | nil => rw [countOccurrences.eq_1, Nat.zero_add, List.nil_append]
  | cons c front ih =>
    have hstart : beginMarker <+: c :: (front ++ back) ↔ beginMarker <+: c :: front :=
      ⟨h _ (List.cons_ne_nil c front) List.suffix_rfl, fun hs => hs.trans (List.prefix_append (c :: front) back)⟩
    rw [List.cons_append, countOccurrences_cons, countOccurrences_cons,
      ih fun s hs hsuffix => h s hs (hsuffix.trans (List.suffix_cons c front))]
    simp only [hstart]
    omega

end

/-! ## Between two regions -/

section
variable {text tag payload endTag rest : List Char}

/-- A region begins with a marker and ends with a dash. -/
theorem Framed.exists_eq (h : Framed text tag payload endTag rest) :
    ∃ noise inner, text = noise ++ (beginMarker ++ (inner ++ '-' :: rest)) := by
  obtain @⟨noise, _, gap, _, _, _, -⟩ := h
  refine ⟨noise, tag ++ dashes ++ (gap ++ (payload ++ endMarker ++ (endTag ++ ['-', '-', '-', '-']))), ?_⟩
  rw [show dashes = ['-', '-', '-', '-', '-'] from rfl]
  simp only [List.append_assoc, List.cons_append, List.nil_append]

theorem behind_suffix (text : List Char) : behind text <:+ text := by
  fun_induction behind text with
  | case1 text hnone => exact List.suffix_rfl
  | case2 text r rest hsome ih =>
    obtain ⟨_, gap, hframed, -, -⟩ := exists_framed_of_region? hsome
    obtain ⟨noise, inner, rfl⟩ := hframed.exists_eq
    refine ih.trans ⟨noise ++ (beginMarker ++ (inner ++ '-' :: gap)), ?_⟩
    simp only [List.append_assoc, List.cons_append]

/-- Every region holds a marker, so those behind the last one are the surplus. -/
theorem length_regions_add_le (text : List Char) :
    (regions text).length + countOccurrences beginMarker (behind text) ≤ countOccurrences beginMarker text := by
  fun_induction behind text with
  | case1 text hnone => rw [regions_eq_nil (region?_eq_none_iff.mp hnone), List.length_nil, Nat.zero_add]
  | case2 text r rest hsome ih =>
    obtain ⟨_, gap, hframed, -, -⟩ := exists_framed_of_region? hsome
    obtain ⟨noise, inner, rfl⟩ := hframed.exists_eq
    have hnoise := countOccurrences_append_le noise (beginMarker ++ (inner ++ '-' :: (gap ++ rest)))
    have hregion : countOccurrences beginMarker (beginMarker ++ (inner ++ '-' :: (gap ++ rest))) = _ :=
      countOccurrences_append_self (by decide) _
    have hinner := countOccurrences_append_le (inner ++ '-' :: gap) rest
    rw [List.append_assoc, List.cons_append] at hinner
    rw [regions_of_region? hsome, List.length_cons]
    omega

/-- If nothing stands behind the last region, the text ends with its last dash or a gap. -/
theorem getLast_of_behind (h : behind text = []) : ∀ c ∈ text.getLast?, c = '-' ∨ isGap c = true := by
  fun_induction behind text with
  | case1 text hnone => simp [h]
  | case2 text r rest hsome ih =>
    obtain ⟨_, gap, hframed, -, hgap⟩ := exists_framed_of_region? hsome
    obtain ⟨noise, inner, rfl⟩ := hframed.exists_eq
    intro c hc
    have hparts : noise ++ (beginMarker ++ (inner ++ '-' :: (gap ++ rest))) =
        (noise ++ beginMarker ++ inner) ++ (['-'] ++ (gap ++ rest)) := by
      simp only [List.append_assoc, List.singleton_append]
    rw [hparts, List.getLast?_append, List.getLast?_append, List.getLast?_append] at hc
    cases hrest : rest.getLast? with
    | some d => exact ih h c (by simpa [hrest] using hc)
    | none =>
      cases hlast : gap.getLast? with
      | some d =>
        obtain rfl : d = c := by simpa [hrest, hlast] using hc
        exact .inr (hgap d (List.mem_of_getLast? hlast))
      | none =>
        obtain rfl : '-' = c := by simpa [hrest, hlast] using hc
        exact .inl rfl

/-- Text without a marker can be scanned to its end. -/
theorem isSome_scan_of_countOccurrences (h : countOccurrences beginMarker text = 0) :
    (scan beginMarker 0 text).isSome := by
  rw [← seek_eq_none_iff, Option.eq_none_iff_forall_ne_some]
  rintro ⟨before, rest⟩ hseek
  obtain ⟨rfl, -⟩ := (seek_eq_some_iff (by decide)).mp hseek
  have hfound := countOccurrences_append_le before (beginMarker ++ rest)
  rw [countOccurrences_append_self (by decide), ← List.append_assoc, h] at hfound
  omega

end

/-! ## Two texts with their blocks -/

/-- A text does not run into the next: it ends with its line, or its last block ends it and the next text begins with a
block. -/
def Parted (front back : List Char) : Prop :=
  (∃ start, front = start ++ ['\n']) ∨ (behind front = [] ∧ beginMarker <+: back.dropWhile isGap)

section
variable {front back : List Char}

/-- Where a first part of the marker ends with a dash or a gap, the other part neither begins with a gap nor is it a first
part itself. -/
theorem beginMarker_parts {first left : List Char} (h : first ++ left = beginMarker) (hfirst : first ≠ [])
    (hleft : left ≠ []) (hlast : ∀ c ∈ first.getLast?, c = '-' ∨ isGap c = true) :
    (∀ c ∈ left.head?, isGap c = false) ∧ ¬ left <+: beginMarker := by
  have hparts : ∀ n ∈ List.range 10,
      ((beginMarker.take (n + 1)).getLast?.all fun c => c = '-' || isGap c) = true →
        ((beginMarker.drop (n + 1)).head?.all fun c => !isGap c) = true ∧
          (beginMarker.drop (n + 1)).isPrefixOf beginMarker = false := by decide
  have hlength : first.length + left.length = 11 := by rw [← List.length_append, h]; rfl
  have hpos := List.length_pos_iff.mpr hfirst
  have hrest := List.length_pos_iff.mpr hleft
  obtain ⟨n, hn⟩ : ∃ n, first.length = n + 1 := ⟨first.length - 1, by omega⟩
  have htake : beginMarker.take (n + 1) = first := by rw [← h, List.take_left' hn]
  have hdrop : beginMarker.drop (n + 1) = left := by rw [← h, List.drop_left' hn]
  obtain ⟨hhead, hborder⟩ := hparts n (List.mem_range.mpr (by omega)) (by simpa [htake, Option.all_eq_true] using hlast)
  rw [hdrop] at hhead hborder
  refine ⟨by simpa [Option.all_eq_true] using hhead, fun hfirst => ?_⟩
  rw [List.isPrefixOf_iff_prefix.mpr hfirst] at hborder
  cases hborder

/-- What a region ends with does not begin a marker that goes on in the next text. -/
theorem not_marker_across (hfront : behind front = []) (hback : beginMarker <+: back.dropWhile isGap) {s : List Char}
    (hne : s ≠ []) (hs : s <:+ front) (h : beginMarker <+: s ++ back) : beginMarker <+: s := by
  obtain hle | hlt := Nat.le_total beginMarker.length s.length
  · exact List.prefix_of_prefix_length_le h (List.prefix_append s back) hle
  obtain ⟨left, hleft⟩ := List.prefix_of_prefix_length_le (List.prefix_append s back) h hlt
  obtain rfl | hrest := eq_or_ne left []
  · exact ⟨[], by rw [← hleft, List.append_nil, List.append_nil]⟩
  exfalso
  obtain ⟨start, rfl⟩ := hs
  have hlast : ∀ c ∈ s.getLast?, c = '-' ∨ isGap c = true := fun c hc =>
    getLast_of_behind hfront c (by rw [List.getLast?_append, Option.mem_def.mp hc]; rfl)
  obtain ⟨hhead, hborder⟩ := beginMarker_parts hleft hne hrest hlast
  have hgoes : left <+: back := by rwa [← hleft, List.prefix_append_right_inj] at h
  obtain ⟨c, left, rfl⟩ := List.exists_cons_of_ne_nil hrest
  obtain ⟨more, rfl⟩ := hgoes
  rw [List.cons_append, List.dropWhile_cons_of_neg (by simp [hhead c rfl]), ← List.cons_append] at hback
  refine hborder (List.prefix_of_prefix_length_le (List.prefix_append _ more) hback ?_)
  rw [← hleft, List.length_append]
  omega

theorem Parted.countOccurrences_append (h : Parted front back) : countOccurrences beginMarker (front ++ back) =
    countOccurrences beginMarker front + countOccurrences beginMarker back := by
  obtain ⟨start, rfl⟩ | ⟨hfront, hback⟩ := h
  · have hpart : ∀ rest, countOccurrences beginMarker (start ++ '\n' :: rest) = _ :=
      countOccurrences_append_cons (by decide) (by decide) start
    rw [List.append_assoc, List.singleton_append, hpart, hpart, countOccurrences.eq_1, Nat.add_zero]
  · exact countOccurrences_append_of_border fun s hne hs => not_marker_across hfront hback hne hs

theorem Parted.scan_behind (h : Parted front back) (hnone : countOccurrences beginMarker (behind front) = 0) :
    scan beginMarker 0 (behind front) = some 0 := by
  obtain ⟨start, rfl⟩ | ⟨hfront, -⟩ := h
  · obtain hnil | ⟨line, hline, -⟩ := List.suffix_concat_iff.mp (behind_suffix (start ++ ['\n']))
    · rw [hnil, scan]
    · have hsome := isSome_scan_of_countOccurrences hnone
      rw [hline] at hsome ⊢
      exact scan_snoc_of_not_mem (by decide) (isSome_scan_of_append hsome) (by decide)
  · rw [hfront, scan]

end

/-- The blocks of two texts one behind the other are those of the first and then those of the second. -/
theorem Comprises.append {front back : String} {ps qs : List Pem} (hp : Comprises front ps) (hq : Comprises back qs)
    (h : Parted front.toList back.toList) : Comprises (front ++ back) (ps ++ qs) := by
  obtain ⟨⟨rs, hrs, hreads⟩, hcount⟩ := hp
  obtain ⟨⟨rs', hrs', hreads'⟩, hcount'⟩ := hq
  rw [divided_iff] at hrs hrs'
  subst hrs hrs'
  have hnone : countOccurrences beginMarker (behind front.toList) = 0 := by
    have hle := length_regions_add_le front.toList
    have hlength := hreads.length_eq
    omega
  refine ⟨⟨_, divided_regions _, ?_⟩, ?_⟩
  · rw [String.toList_append, regions_append (h.scan_behind hnone)]
    exact List.rel_append hreads hreads'
  · rw [String.toList_append, h.countOccurrences_append, hcount, hcount', List.length_append]

end CertRotation.Pem
