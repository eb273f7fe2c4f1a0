import Mathlib.Data.List.TakeWhile
import CertRotation.Pem.Blocks
import CertRotation.Proofs.Pem.Scanning

/-!
# The regions of a text

A text is divided into regions and what stands between them. `Framed` says where the first region stands, `Divided` where
all of them do. More text behind a region leaves it as it is, and so does text before it that leaves nothing of the BEGIN
marker behind.
-/
namespace CertRotation.Pem

/-- The text holds a region with this tag, payload and END tag, and after its END line the rest. -/
inductive Framed : (text tag payload endTag rest : List Char) → Prop where
  | mk {noise tag gap payload endTag rest : List Char} (noise_free : scan beginMarker 0 noise = some 0)
    (tag_free : scan dashes 0 tag = some 0) (gap_blank : ∀ c ∈ gap, isGap c = true)
    (payload_start : ∀ c ∈ payload.head?, isGap c = false) (payload_free : scan endMarker 0 payload = some 0)
    (endTag_free : scan dashes 0 endTag = some 0) :
    Framed (noise ++ beginMarker ++ (tag ++ dashes ++ (gap ++ (payload ++ endMarker ++ (endTag ++ dashes ++ rest)))))
      tag payload endTag rest

/-- The regions of a text in their order. Behind the last there is none. -/
inductive Divided : List Char → List Region → Prop where
  | last {text : List Char} (none_left : ∀ tag payload endTag rest, ¬ Framed text tag payload endTag rest) :
    Divided text []
  | next {text payload rest : List Char} {r : Region} {rs : List Region}
    (framed : Framed text r.beginTag payload r.endTag rest) (split : splitHeaders payload = (r.headers, r.data))
    (others : Divided rest rs) : Divided text (r :: rs)

section
variable {text tag payload endTag rest noise : List Char}

/-! ## The first region -/

theorem Framed.append (h : Framed text tag payload endTag rest) (more : List Char) :
    Framed (text ++ more) tag payload endTag (rest ++ more) := by
  obtain ⟨hnoise, htag, hgap, hstart, hpayload, hend⟩ := h
  have hframed : Framed _ tag payload endTag (rest ++ more) := Framed.mk hnoise htag hgap hstart hpayload hend
  simpa only [List.append_assoc] using hframed

theorem region?_of_framed (h : Framed text tag payload endTag rest) :
    region? text = some (⟨tag, (splitHeaders payload).1, (splitHeaders payload).2, endTag⟩, rest.dropWhile isGap) := by
  obtain @⟨noise, _, gap, _, _, _, hnoise, htag, hgap, hstart, hpayload, hend⟩ := h
  have hbegin : seek beginMarker _ = some (noise, tag ++ dashes ++ (gap ++ (payload ++ endMarker ++ (endTag ++ dashes ++
      rest)))) := (seek_eq_some_iff (by decide)).mpr ⟨rfl, hnoise⟩
  have hdashes : seek dashes _ = some (tag, gap ++ (payload ++ endMarker ++ (endTag ++ dashes ++ rest))) :=
    (seek_eq_some_iff (by decide)).mpr ⟨rfl, htag⟩
  have hdrop : (gap ++ (payload ++ endMarker ++ (endTag ++ dashes ++ rest))).dropWhile isGap =
      payload ++ endMarker ++ (endTag ++ dashes ++ rest) := by
    rw [List.dropWhile_append_of_pos hgap]
    -- the payload does not begin with a gap, and if it is empty a dash follows
    cases payload with
    | nil => rfl
    | cons c payload => exact List.dropWhile_cons_of_neg (by simp [hstart c rfl])
  have hmarker : seek endMarker _ = some (payload, endTag ++ dashes ++ rest) :=
    (seek_eq_some_iff (by decide)).mpr ⟨rfl, hpayload⟩
  have hclose : seek dashes _ = some (endTag, rest) := (seek_eq_some_iff (by decide)).mpr ⟨rfl, hend⟩
  simp only [region?, hbegin, hdashes, hdrop, hmarker, hclose, Option.bind_some, Option.map_some]

theorem framed_of_region? {r : Region} {left : List Char} (h : region? text = some (r, left)) :
    ∃ payload rest, Framed text r.beginTag payload r.endTag rest ∧ splitHeaders payload = (r.headers, r.data) ∧
      left = rest.dropWhile isGap := by
  simp only [region?, Option.bind_eq_some_iff, Option.map_eq_some_iff, Prod.exists, Prod.mk.injEq] at h
  obtain ⟨noise, t₁, h₁, tag, t₂, h₂, payload, t₃, h₃, endTag, rest, h₄, rfl, rfl⟩ := h
  obtain ⟨rfl, hnoise⟩ := (seek_eq_some_iff (by decide)).mp h₁
  obtain ⟨rfl, htag⟩ := (seek_eq_some_iff (by decide)).mp h₂
  obtain ⟨hdrop, hpayload⟩ := (seek_eq_some_iff (by decide)).mp h₃
  obtain ⟨rfl, hend⟩ := (seek_eq_some_iff (by decide)).mp h₄
  refine ⟨payload, rest, ?_, rfl, rfl⟩
  have hstart : ∀ c ∈ payload.head?, isGap c = false := by
    intro c hc
    have := List.head?_dropWhile_not isGap t₂
    rw [hdrop, List.append_assoc, List.head?_append, Option.mem_def.mp hc] at this
    simpa using this
  have hgap : ∀ c ∈ t₂.takeWhile isGap, isGap c = true := fun c hc => List.mem_takeWhile_imp hc
  have hframed : Framed _ tag payload endTag rest := Framed.mk hnoise htag hgap hstart hpayload hend
  rwa [← hdrop, List.takeWhile_append_dropWhile] at hframed

theorem region?_eq_none_iff : region? text = none ↔ ∀ tag payload endTag rest, ¬ Framed text tag payload endTag rest := by
  constructor
  · intro h _ _ _ _ hframed
    simp [region?_of_framed hframed] at h
  · intro h
    cases hr : region? text with
    | none => rfl
    | some r =>
      obtain ⟨_, _, hframed, -⟩ := framed_of_region? hr
      exact absurd hframed (h _ _ _ _)

/-- Text that leaves nothing of the BEGIN marker behind is passed over. -/
theorem region?_noise (h : scan beginMarker 0 noise = some 0) (text : List Char) :
    region? (noise ++ text) = region? text := by
  simp only [region?]
  have hseek : seek beginMarker (noise ++ text) = (seek beginMarker text).map fun s => (noise ++ s.1, s.2) := by
    cases hs : seek beginMarker text with
    | none =>
      rw [seek_eq_none_iff] at hs
      rw [Option.map_none, seek_eq_none_iff, scan_append, h]
      exact hs
    | some s =>
      obtain ⟨rfl, hscan⟩ := (seek_eq_some_iff (by decide)).mp hs
      refine (seek_eq_some_iff (by decide)).mpr ⟨by simp only [List.append_assoc], ?_⟩
      rw [scan_append, h, Option.bind_some, hscan]
  rw [hseek, Option.bind_map]
  rfl

/-! ## All regions -/

theorem regions_noise (h : scan beginMarker 0 noise = some 0) (text : List Char) :
    regions (noise ++ text) = regions text := by
  rw [regions, region?_noise h, ← regions]

theorem scan_gap {gap : List Char} (h : ∀ c ∈ gap, isGap c = true) : scan beginMarker 0 gap = some 0 :=
  scan_of_head_not_mem rfl fun hc => absurd (h '-' hc) (by decide)

theorem regions_dropWhile_isGap (text : List Char) : regions (text.dropWhile isGap) = regions text := by
  conv_rhs => rw [← List.takeWhile_append_dropWhile (p := isGap) (l := text)]
  exact (regions_noise (scan_gap fun c hc => List.mem_takeWhile_imp hc) _).symm

theorem regions_of_framed (h : Framed text tag payload endTag rest) :
    regions text = ⟨tag, (splitHeaders payload).1, (splitHeaders payload).2, endTag⟩ :: regions rest := by
  rw [regions]
  split
  · next hnone => simp [region?_of_framed h] at hnone
  · next r left hsome =>
    rw [region?_of_framed h] at hsome
    obtain ⟨rfl, rfl⟩ := Prod.mk.inj (Option.some.inj hsome)
    rw [regions_dropWhile_isGap]

theorem regions_eq_nil (h : ∀ tag payload endTag rest, ¬ Framed text tag payload endTag rest) : regions text = [] := by
  rw [regions]
  split
  · rfl
  · next r left hsome => simp [region?_eq_none_iff.mpr h] at hsome

theorem Framed.rest_length (h : Framed text tag payload endTag rest) : rest.length < text.length := by
  obtain ⟨⟩ := h
  have hmarker : 0 < beginMarker.length := by decide
  simp only [List.length_append]
  omega

theorem divided_regions (text : List Char) : Divided text (regions text) := by
  cases hr : region? text with
  | none =>
    have hnone := region?_eq_none_iff.mp hr
    rw [regions_eq_nil hnone]
    exact .last hnone
  | some s =>
    obtain ⟨payload, rest, hframed, hsplit, -⟩ := framed_of_region? hr
    rw [regions_of_framed hframed, hsplit]
    exact .next hframed hsplit (divided_regions rest)
termination_by text.length
decreasing_by exact hframed.rest_length

/-- No region is left out, and none is made up. -/
theorem divided_iff {rs : List Region} : Divided text rs ↔ rs = regions text := by
  constructor
  · intro h
    induction h with
    | last hnone => exact (regions_eq_nil hnone).symm
    | next hframed hsplit _ ih => rw [regions_of_framed hframed, hsplit, ih]
  · rintro rfl
    exact divided_regions text

end

/-! ## Counting markers -/

section
variable {pattern text front back : List Char} {c : Char}

theorem countOccurrences_eq_zero (h : text.length < pattern.length) : countOccurrences pattern text = 0 := by
  induction text with
  | nil => rw [countOccurrences]
  | cons c text ih =>
    have hno : ¬ pattern.isPrefixOf (c :: text) = true := fun hp =>
      absurd (List.isPrefixOf_iff_prefix.mp hp).length_le (by omega)
    rw [countOccurrences, if_neg hno]
    exact ih (by simp only [List.length_cons] at h; omega)

theorem one_le_countOccurrences (hp : pattern ≠ []) (h : pattern <+: text) : 1 ≤ countOccurrences pattern text := by
  cases text with
  | nil => exact absurd (List.prefix_nil.mp h) hp
  | cons c text =>
    rw [countOccurrences, if_pos (List.isPrefixOf_iff_prefix.mpr h)]
    omega

theorem countOccurrences_append_self (hp : pattern ≠ []) (rest : List Char) :
    countOccurrences pattern (pattern ++ rest) = countOccurrences pattern rest + 1 := by
  obtain ⟨c, tail, rfl⟩ := List.exists_cons_of_ne_nil hp
  have hfront : (c :: tail).isPrefixOf (c :: (tail ++ rest)) = true :=
    List.isPrefixOf_iff_prefix.mpr (List.prefix_append (c :: tail) rest)
  rw [List.cons_append, countOccurrences, if_pos hfront, List.length_cons, Nat.add_sub_cancel, List.drop_left]

/-- Where its first character is missing the pattern does not occur. -/
theorem countOccurrences_append_of_head_not_mem (hp : pattern.head? = some c) (h : c ∉ front) (back : List Char) :
    countOccurrences pattern (front ++ back) = countOccurrences pattern back := by
  obtain ⟨tail, rfl⟩ := List.head?_eq_some_iff.mp hp
  induction front with
  | nil => rfl
  | cons d front ih =>
    rw [List.mem_cons, not_or] at h
    have hno : ¬ (c :: tail).isPrefixOf (d :: (front ++ back)) = true := fun hfront =>
      h.1 (List.cons_prefix_cons.mp (List.isPrefixOf_iff_prefix.mp hfront)).1
    rw [List.cons_append, countOccurrences, if_neg hno, ih h.2]

theorem countOccurrences_of_head_not_mem (hp : pattern.head? = some c) (h : c ∉ text) :
    countOccurrences pattern text = 0 := by
  have hnone := countOccurrences_append_of_head_not_mem hp h []
  rwa [List.append_nil, countOccurrences.eq_1] at hnone

theorem isPrefix_of_append_cons (hc : c ∉ pattern) (front : List Char) (h : pattern <+: front ++ c :: back) :
    pattern <+: front := by
  obtain hlt | hle := Nat.lt_or_ge front.length pattern.length
  · have hshort : front ++ [c] <+: pattern :=
      List.prefix_of_prefix_length_le ⟨back, by simp⟩ h (by simp only [List.length_append, List.length_singleton]; omega)
    exact absurd (hshort.subset (by simp)) hc
  · exact List.prefix_of_prefix_length_le h (List.prefix_append _ _) hle

/-- A character that the pattern lacks parts the text. -/
theorem countOccurrences_append_cons (hp : pattern ≠ []) (hc : c ∉ pattern) (front back : List Char) :
    countOccurrences pattern (front ++ c :: back) = countOccurrences pattern front + countOccurrences pattern back := by
  match front with
  | [] =>
    have hno : ¬ pattern.isPrefixOf (c :: back) = true := fun h =>
      hp (List.prefix_nil.mp (isPrefix_of_append_cons hc [] (List.isPrefixOf_iff_prefix.mp h)))
    rw [List.nil_append, countOccurrences.eq_2, if_neg hno, countOccurrences.eq_1, Nat.zero_add]
  | d :: front =>
    rw [List.cons_append, countOccurrences, countOccurrences]
    by_cases h : pattern.isPrefixOf (d :: front) = true
    · have hfront := List.isPrefixOf_iff_prefix.mp h
      have hwhole : pattern.isPrefixOf (d :: (front ++ c :: back)) = true :=
        List.isPrefixOf_iff_prefix.mpr (hfront.trans (List.prefix_append (d :: front) _))
      have hlength := hfront.length_le
      rw [List.length_cons] at hlength
      rw [if_pos h, if_pos hwhole, List.drop_append_of_le_length (by omega),
        countOccurrences_append_cons hp hc (front.drop (pattern.length - 1)) back]
      omega
    · have hwhole : ¬ pattern.isPrefixOf (d :: (front ++ c :: back)) = true := fun hw =>
        h (List.isPrefixOf_iff_prefix.mpr (isPrefix_of_append_cons hc (d :: front)
          (List.isPrefixOf_iff_prefix.mp hw)))
      rw [if_neg h, if_neg hwhole, countOccurrences_append_cons hp hc front back]
termination_by front.length
decreasing_by all_goals simp only [List.length_drop, List.length_cons]; omega

end
end CertRotation.Pem
