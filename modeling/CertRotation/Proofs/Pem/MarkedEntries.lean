import CertRotation.Proofs.Pem.Joining

/-!
# The entries of a text

A text is cut before each BEGIN marker, so that an entry is what stands from one marker to the next. If all blocks of a
text are read, they are the entries, each read by itself. In general the regions of the entries before a damaged one are
those that are found in the whole text, unless a marker is hidden by a part of a marker that stands right before it.
-/
namespace CertRotation.Pem

/-- What stands before the first marker. -/
def lead : List Char → List Char
  | [] => []
  | c :: rest => if beginMarker <+: c :: rest then [] else c :: lead rest

/-- What stands from each marker to the next. -/
def entries : List Char → List (List Char)
  | [] => []
  | c :: rest => if beginMarker <+: c :: rest then (c :: lead rest) :: entries rest else entries rest

/-- The entry is a block by itself. -/
def Whole (entry : List Char) : Prop := ∃ p, parse (String.ofList entry) = .ok p

section
variable {text front entry : List Char} {p : Pem}

/-! ## Cutting -/

theorem lead_append_flatten (text : List Char) : lead text ++ (entries text).flatten = text := by
  induction text with
  | nil => rfl
  | cons c rest ih =>
    unfold lead entries
    split
    · rw [List.nil_append, List.flatten_cons, List.cons_append, ih]
    · rw [List.cons_append, ih]

theorem lead_prefix_self (text : List Char) : lead text <+: text := ⟨_, lead_append_flatten text⟩

theorem length_entries (text : List Char) : (entries text).length = countOccurrences beginMarker text := by
  induction text with
  | nil => rw [countOccurrences]; rfl
  | cons c rest ih =>
    rw [countOccurrences_cons, ← ih, entries]
    split <;> rfl

theorem countOccurrences_lead (text : List Char) : countOccurrences beginMarker (lead text) = 0 := by
  induction text with
  | nil => exact countOccurrences_eq_zero (by decide)
  | cons c rest ih =>
    unfold lead
    split
    · exact countOccurrences_eq_zero (by decide)
    · next hno =>
      have hlead : ¬ beginMarker <+: c :: lead rest := fun h =>
        hno (h.trans (List.cons_prefix_cons.mpr ⟨rfl, lead_prefix_self rest⟩))
      rw [countOccurrences_cons, ih, if_neg hlead]

/-- The only marker of an entry is that it begins with. -/
theorem countOccurrences_entry (h : entry ∈ entries text) : countOccurrences beginMarker entry ≤ 1 := by
  induction text with
  | nil => cases h
  | cons c rest ih =>
    unfold entries at h
    split at h
    · rcases List.mem_cons.mp h with rfl | h
      · rw [countOccurrences_cons, countOccurrences_lead]
        split <;> omega
      · exact ih h
    · exact ih h

/-- Text in which no marker begins belongs to what stands before it. -/
theorem cut_append (h : countOccurrences beginMarker (front ++ text) = countOccurrences beginMarker text) :
    lead (front ++ text) = front ++ lead text ∧ entries (front ++ text) = entries text := by
  induction front with
  | nil => exact ⟨rfl, rfl⟩
  | cons c front ih =>
    obtain ⟨hno, hfront⟩ := not_marker_of_countOccurrences h
    obtain ⟨hlead, hentries⟩ := ih hfront
    rw [List.cons_append, lead, entries, if_neg hno, if_neg hno, hlead, hentries]
    exact ⟨rfl, rfl⟩

/-- A marker begins an entry. -/
theorem cut_marker (text : List Char) :
    lead (beginMarker ++ text) = [] ∧ entries (beginMarker ++ text) = (beginMarker ++ lead text) :: entries text := by
  obtain ⟨hlead, hentries⟩ := cut_append (countOccurrences_tail text)
  have hmarker : beginMarker <+: '-' :: (beginMarker.tail ++ text) := ⟨text, rfl⟩
  have hcons : beginMarker ++ text = '-' :: (beginMarker.tail ++ text) := rfl
  rw [hcons, lead, entries, if_pos hmarker, if_pos hmarker, hlead, hentries]
  exact ⟨rfl, rfl⟩

/-! ## Whole entries -/

theorem parse_eq_ok_iff : parse (String.ofList text) = .ok p ↔ ∃ r rest, region? text = some (r, rest) ∧ Reads r p := by
  rw [parse, String.toList_ofList]
  cases h : region? text with
  | none => simp
  | some s =>
    obtain ⟨r, rest⟩ := s
    simp [ofRegion_eq_ok]

theorem legible_of_parse (h : parse (String.ofList text) = .ok p) : Legible p := by
  obtain ⟨r, rest, hregion, hreads⟩ := parse_eq_ok_iff.mp h
  obtain ⟨payload, left, hframed, hsplit, -⟩ := framed_of_region? hregion
  exact legible_of_framed hframed hsplit hreads

/-- A whole entry is one region, and nothing behind it is taken for a marker. -/
theorem regions_of_whole (hone : countOccurrences beginMarker entry ≤ 1) (h : parse (String.ofList entry) = .ok p) :
    ∃ r, regions entry = [r] ∧ Reads r p ∧ countOccurrences beginMarker (behind entry) = 0 := by
  obtain ⟨r, rest, hregion, hreads⟩ := parse_eq_ok_iff.mp h
  have hle := length_regions_add_le entry
  rw [regions_of_region? hregion, List.length_cons] at hle
  have hnil : regions rest = [] := List.length_eq_zero_iff.mp (by omega)
  exact ⟨r, by rw [regions_of_region? hregion, hnil], hreads, by omega⟩

/-- A region begins with a marker and stays the same whatever stands before that and behind it. -/
theorem exists_core_of_region? {r : Region} {left : List Char} (h : region? text = some (r, left)) :
    ∃ noise inner, text = noise ++ (beginMarker ++ (inner ++ left)) ∧
      ∀ more, ∃ rest, region? (beginMarker ++ (inner ++ more)) = some (r, rest) := by
  obtain ⟨payload, space, hframed, hsplit, -⟩ := exists_framed_of_region? h
  obtain @⟨noise, _, gap, _, _, _, -, htag, hgap, hstart, hpayload, hend⟩ := hframed
  refine ⟨noise, r.beginTag ++ dashes ++ (gap ++ (payload ++ endMarker ++ (r.endTag ++ dashes ++ space))), ?_,
    fun more => ⟨(space ++ more).dropWhile isGap, ?_⟩⟩
  · simp only [List.append_assoc]
  · have hcore : Framed _ r.beginTag payload r.endTag (space ++ more) :=
      @Framed.mk [] _ _ _ _ _ rfl htag hgap hstart hpayload hend
    have hregion := region?_of_framed hcore
    rw [hsplit] at hregion
    simpa only [List.nil_append, List.append_assoc] using hregion

/-- If all blocks of a text are read, its entries are these blocks, each read by itself. -/
theorem entries_of_reads {ps : List Pem} (hreads : List.Forall₂ Reads (regions text) ps)
    (hcount : countOccurrences beginMarker text = ps.length) :
    List.Forall₂ (fun entry p => parse (String.ofList entry) = .ok p) (entries text) ps := by
  fun_induction behind text generalizing ps with
  | case1 text hnone =>
    rw [regions_eq_nil (region?_eq_none_iff.mp hnone), List.forall₂_nil_left_iff] at hreads
    subst hreads
    rw [List.length_eq_zero_iff.mp ((length_entries text).trans hcount)]
    exact .nil
  | case2 text r rest hregion ih =>
    rw [regions_of_region? hregion] at hreads
    obtain _ | @⟨_, p, _, ps, hfirst, hothers⟩ := hreads
    obtain ⟨noise, inner, htext, hcore⟩ := exists_core_of_region? hregion
    -- every marker but that of this region stands behind it
    have hrest := length_regions_add_le rest
    have hnoise := countOccurrences_append_le noise (beginMarker ++ (inner ++ rest))
    have hmarker : countOccurrences beginMarker (beginMarker ++ (inner ++ rest)) = _ :=
      countOccurrences_append_self (by decide) _
    have hinner := countOccurrences_append_le inner rest
    have hlength := hothers.length_eq
    rw [htext, List.length_cons] at hcount
    have houtside : countOccurrences beginMarker (noise ++ (beginMarker ++ (inner ++ rest))) =
        countOccurrences beginMarker (beginMarker ++ (inner ++ rest)) := by omega
    have hinside : countOccurrences beginMarker (inner ++ rest) = countOccurrences beginMarker rest := by omega
    obtain ⟨-, hbefore⟩ := cut_append houtside
    obtain ⟨hlead, hwithin⟩ := cut_append hinside
    obtain ⟨_, hentry⟩ := hcore (lead rest)
    rw [htext, hbefore, (cut_marker _).2, hlead, hwithin]
    exact .cons (parse_eq_ok_iff.mpr ⟨r, _, hentry, hfirst⟩) (ih hothers (by omega))

theorem entries_of_comprises {text : String} {ps : List Pem} (h : Comprises text ps) :
    List.Forall₂ (fun entry p => parse (String.ofList entry) = .ok p) (entries text.toList) ps := by
  obtain ⟨⟨rs, hdivided, hreads⟩, hcount⟩ := h
  exact entries_of_reads (divided_iff.mp hdivided ▸ hreads) hcount

/-! ## The first damaged entry -/

/-- No marker stands right behind a part of one, which would hide it. -/
def Apart (text : List Char) : Prop :=
  ∀ piece ∈ (lead text :: entries text).dropLast, ∀ n < 10, ¬ beginMarker.take (n + 1) <:+ piece

instance : DecidablePred Apart := fun text =>
  inferInstanceAs (Decidable (∀ piece ∈ (lead text :: entries text).dropLast, ∀ n < 10, ¬ beginMarker.take (n + 1) <:+ piece))

theorem scan_eq_zero (hcount : countOccurrences beginMarker text = 0)
    (hpart : ∀ n < 10, ¬ beginMarker.take (n + 1) <:+ text) : scan beginMarker 0 text = some 0 := by
  obtain ⟨k, hk⟩ := Option.isSome_iff_exists.mp (isSome_scan_of_countOccurrences hcount)
  obtain ⟨hlt, start, rfl, -⟩ := exists_of_scan (by decide) hk
  cases k with
  | zero => exact hk
  | succ n =>
    have hn : n < 10 := Nat.lt_of_succ_lt_succ hlt
    exact absurd (List.suffix_append start _) (hpart n hn)

/-- Whole entries keep their regions in the text, and what follows them is searched as if they were not there. -/
theorem regions_flatten {before others : List (List Char)} {ps : List Pem}
    (hone : ∀ entry ∈ before, countOccurrences beginMarker entry ≤ 1)
    (hapart : ∀ entry ∈ (before ++ others).dropLast, ∀ n < 10, ¬ beginMarker.take (n + 1) <:+ entry)
    (hps : List.Forall₂ (fun entry p => parse (String.ofList entry) = .ok p) before ps) :
    ∃ rs, regions (before ++ others).flatten = rs ++ regions others.flatten ∧ List.Forall₂ Reads rs ps := by
  induction hps with
  | nil => exact ⟨[], rfl, .nil⟩
  | @cons entry p before ps hp hothers ih =>
    obtain ⟨hfirst, hone⟩ := List.forall_mem_cons.mp hone
    obtain ⟨r, hregions, hreads, hbehind⟩ := regions_of_whole hfirst hp
    rw [List.cons_append] at hapart ⊢
    rw [List.flatten_cons]
    by_cases hlast : before ++ others = []
    · obtain ⟨rfl, rfl⟩ := List.append_eq_nil_iff.mp hlast
      obtain ⟨⟩ := hothers
      refine ⟨[r], ?_, .cons hreads .nil⟩
      rw [List.nil_append, List.flatten_nil, List.append_nil, hregions, regions_nil, List.append_nil]
    · rw [List.dropLast_cons_of_ne_nil hlast] at hapart
      obtain ⟨hentry, hapart⟩ := List.forall_mem_cons.mp hapart
      obtain ⟨rs, hrs, hall⟩ := ih hone hapart
      have hscan : scan beginMarker 0 (behind entry) = some 0 :=
        scan_eq_zero hbehind fun n hn hpart => hentry n hn (hpart.trans (behind_suffix entry))
      exact ⟨r :: rs, by rw [regions_append hscan, hregions, hrs]; rfl, .cons hreads hall⟩

theorem regions_split {before others : List (List Char)} {ps : List Pem} (hapart : Apart text)
    (hentries : entries text = before ++ others)
    (hps : List.Forall₂ (fun entry p => parse (String.ofList entry) = .ok p) before ps) :
    ∃ rs, regions text = rs ++ regions others.flatten ∧ List.Forall₂ Reads rs ps := by
  have hone : ∀ entry ∈ before, countOccurrences beginMarker entry ≤ 1 := fun entry hentry =>
    countOccurrences_entry (hentries ▸ List.mem_append_left _ hentry)
  have htext := lead_append_flatten text
  rw [hentries] at htext
  rw [Apart, hentries] at hapart
  by_cases hnone : before ++ others = []
  · obtain ⟨rfl, rfl⟩ := List.append_eq_nil_iff.mp hnone
    obtain ⟨⟩ := hps
    have hcount : (regions text).length = 0 := by
      have hle := length_regions_add_le text
      rw [← length_entries text, hentries] at hle
      exact Nat.eq_zero_of_le_zero ((Nat.le_add_right _ _).trans hle)
    exact ⟨[], by rw [List.length_eq_zero_iff.mp hcount, List.flatten_nil, regions_nil]; rfl, .nil⟩
  · rw [List.dropLast_cons_of_ne_nil hnone] at hapart
    obtain ⟨hlead, hapart⟩ := List.forall_mem_cons.mp hapart
    obtain ⟨rs, hrs, hreads⟩ := regions_flatten hone hapart hps
    refine ⟨rs, ?_, hreads⟩
    rw [← hrs, ← htext, regions_noise (scan_eq_zero (countOccurrences_lead text) hlead)]

/-- The region is no block. -/
def Malformed (r : Region) : Prop := ∀ p, ¬ Reads r p

/-- How many blocks are reported as read: none if a region is malformed, else all regions. -/
theorem complete_of_blocks {text : String} {e : BlocksError} (h : blocks text = .error e) :
    ((∃ r ∈ regions text.toList, Malformed r) → e.complete = 0) ∧
      ((∀ r ∈ regions text.toList, ¬ Malformed r) → e.complete = (regions text.toList).length) := by
  unfold blocks at h
  cases hmany : parseMany text with
  | error x =>
    rw [hmany] at h
    obtain rfl := Except.error.inj h
    refine ⟨fun _ => rfl, fun hnone => ?_⟩
    obtain ⟨r, hr, hx⟩ := exists_of_mapM_eq_error hmany
    refine absurd (fun p hp => ?_) (hnone r hr)
    rw [ofRegion_eq_ok.mpr hp] at hx
    cases hx
  | ok ps =>
    rw [hmany] at h
    have hreads := parseMany_eq_ok.mp hmany
    have hcomplete : e.complete = ps.length := by
      dsimp only at h
      split at h
      · cases h
      · obtain rfl := Except.error.inj h
        rfl
    refine ⟨?_, fun _ => hcomplete.trans hreads.length_eq.symm⟩
    rintro ⟨r, hr, hmalformed⟩
    obtain ⟨p, -, hp⟩ := exists_of_mem_right hreads.flip hr
    exact absurd hp (hmalformed p)

/-- The first of the texts without the property has this number. -/
def FirstWithout (P : List Char → Prop) (texts : List (List Char)) (i : ℕ) : Prop :=
  ∃ before x after, texts = before ++ x :: after ∧ (∀ y ∈ before, P y) ∧ ¬ P x ∧ i = before.length

theorem FirstWithout.le {P : List Char → Prop} {texts : List (List Char)} {i j : ℕ} (hi : FirstWithout P texts i)
    (hj : FirstWithout P texts j) : j ≤ i := by
  obtain ⟨before, x, after, htexts, -, hx, rfl⟩ := hi
  obtain ⟨before', x', after', htexts', hbefore', -, rfl⟩ := hj
  by_contra hlt
  have hget : texts[before.length]? = some x := by simp [htexts]
  rw [htexts', List.getElem?_append_left (by omega)] at hget
  exact hx (hbefore' x (List.mem_of_getElem? hget))

theorem FirstWithout.unique {P : List Char → Prop} {texts : List (List Char)} {i j : ℕ} (hi : FirstWithout P texts i)
    (hj : FirstWithout P texts j) : i = j := Nat.le_antisymm (hj.le hi) (hi.le hj)

theorem exists_firstWithout {P : List Char → Prop} {texts : List (List Char)} (h : ∃ x ∈ texts, ¬ P x) :
    ∃ i, FirstWithout P texts i := by
  induction texts with
  | nil =>
    obtain ⟨x, hx, -⟩ := h
    cases hx
  | cons y texts ih =>
    by_cases hy : P y
    · have hlater : ∃ x ∈ texts, ¬ P x := by
        obtain ⟨x, hx, hno⟩ := h
        refine ⟨x, (List.mem_cons.mp hx).resolve_left ?_, hno⟩
        rintro rfl
        exact hno hy
      obtain ⟨i, before, x, after, rfl, hbefore, hno, rfl⟩ := ih hlater
      exact ⟨_, y :: before, x, after, rfl, List.forall_mem_cons.mpr ⟨hy, hbefore⟩, hno, rfl⟩
    · exact ⟨0, [], y, texts, rfl, List.forall_mem_nil _, hy, rfl⟩

/-- Texts that have the property where others have theirs. -/
theorem firstWithout_of_forall₂ {β : Type} {P : List Char → Prop} {Q : β → Prop} {texts : List (List Char)}
    {before after : List β} {y : β} (h : List.Forall₂ (fun x y => P x ↔ Q y) texts (before ++ y :: after))
    (hbefore : ∀ z ∈ before, Q z) (hy : ¬ Q y) : FirstWithout P texts before.length := by
  induction before generalizing texts with
  | nil =>
    obtain _ | @⟨x, _, others, _, hx, -⟩ := h
    exact ⟨[], x, others, rfl, List.forall_mem_nil _, mt hx.mp hy, rfl⟩
  | cons z before ih =>
    obtain _ | @⟨x, _, others, _, hx, hothers⟩ := h
    obtain ⟨hz, hbefore⟩ := List.forall_mem_cons.mp hbefore
    obtain ⟨front, x', back, rfl, hfront, hx', hlength⟩ := ih hothers hbefore
    exact ⟨x :: front, x', back, rfl, List.forall_mem_cons.mpr ⟨hx.mpr hz, hfront⟩, hx', by simp [hlength]⟩

theorem exists_forall₂_of_whole {texts : List (List Char)} (h : ∀ x ∈ texts, Whole x) :
    ∃ ps, List.Forall₂ (fun entry p => parse (String.ofList entry) = .ok p) texts ps := by
  induction texts with
  | nil => exact ⟨[], .nil⟩
  | cons x texts ih =>
    obtain ⟨⟨p, hp⟩, hothers⟩ := List.forall_mem_cons.mp h
    obtain ⟨ps, hps⟩ := ih hothers
    exact ⟨p :: ps, .cons hp hps⟩

/-- A text that cannot be read holds an entry that is no block by itself. -/
theorem exists_not_whole {text : String} {e : BlocksError} (hapart : Apart text.toList) (h : blocks text = .error e) :
    ∃ x ∈ entries text.toList, ¬ Whole x := by
  by_contra hno
  push Not at hno
  obtain ⟨ps, hps⟩ := exists_forall₂_of_whole hno
  obtain ⟨rs, hregions, hreads⟩ := regions_split hapart (List.append_nil _).symm hps
  rw [List.flatten_nil, regions_nil, List.append_nil] at hregions
  have hcomprises : Comprises text ps :=
    ⟨⟨rs, divided_iff.mpr hregions.symm, hreads⟩, by rw [← length_entries, hps.length_eq]⟩
  rw [blocks_eq_ok.mpr hcomprises] at h
  cases h

/-- The first damaged entry is the one that is reported exactly if no region is found from there on, or if it is the very
first and some region is malformed. -/
theorem complete_eq_iff {text : String} {e : BlocksError} (hapart : Apart text.toList) (h : blocks text = .error e) :
    ∃ k, FirstWithout Whole (entries text.toList) k ∧
      (e.complete = k ↔ regions ((entries text.toList).drop k).flatten = [] ∨
        k = 0 ∧ ∃ r ∈ regions text.toList, Malformed r) := by
  obtain ⟨k, before, x, after, hentries, hbefore, hx, rfl⟩ := exists_firstWithout (exists_not_whole hapart h)
  refine ⟨before.length, ⟨before, x, after, hentries, hbefore, hx, rfl⟩, ?_⟩
  obtain ⟨hnone, hall⟩ := complete_of_blocks h
  obtain ⟨ps, hps⟩ := exists_forall₂_of_whole hbefore
  obtain ⟨rs, hregions, hreads⟩ := regions_split hapart hentries hps
  have hlength : rs.length = before.length := hreads.length_eq.trans hps.length_eq.symm
  rw [hentries, List.drop_left]
  by_cases hmalformed : ∃ r ∈ regions text.toList, Malformed r
  · rw [hnone hmalformed]
    constructor
    · intro hzero
      exact .inr ⟨hzero.symm, hmalformed⟩
    · rintro (hleft | ⟨hzero, -⟩)
      · obtain ⟨r, hr, hr'⟩ := hmalformed
        rw [hregions, hleft, List.append_nil] at hr
        obtain ⟨p, -, hp⟩ := exists_of_mem_right hreads.flip hr
        exact absurd hp (hr' p)
      · exact hzero.symm
  · push Not at hmalformed
    rw [hall hmalformed, hregions, List.length_append, hlength]
    constructor
    · intro hsame
      exact .inl (List.length_eq_zero_iff.mp (by omega))
    · rintro (hleft | ⟨-, r, hr, hr'⟩)
      · rw [hleft, List.length_nil, Nat.add_zero]
      · exact absurd hr' (hmalformed r (hregions ▸ hr))

end
end CertRotation.Pem
