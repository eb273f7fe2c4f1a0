import CertRotation.Asn1.Oid
import CertRotation.Proofs.Text.OneForm

/-!
# Identifiers by their text

An arc is written in as few octets as possible, so that the arcs of an identifier determine its octets. The text of such an
identifier, whether it shows the arcs or the octets, is that of no other one.
-/
namespace CertRotation.Oid

/-- The identifier with this first octet and, after that, these arcs. -/
def written (first : UInt8) (arcs : List Nat) : Oid := ⟨first :: arcs.flatMap fun n => arcDigits n []⟩

/-- All arcs but those of the first octet are in as few octets as possible. -/
def IsWritten (o : Oid) : Prop := ∃ first arcs, o = written first arcs

/-! ## Arcs -/

/-- The digits of `n` in base 128 on top of other ones, the last digit first. -/
def pushDigits (n : Nat) (group : List Nat) : List Nat :=
  if n < 128 then n :: group else n % 128 :: pushDigits (n / 128) group

theorem arcDigits_high_append (n : Nat) (x y : Bytes) : arcDigits.high n (x ++ y) = arcDigits.high n x ++ y := by
  fun_induction arcDigits.high n x with
  | case1 n x hn => rw [arcDigits.high, if_pos hn, List.cons_append]
  | case2 n x hn ih =>
    rw [arcDigits.high, if_neg hn, ← List.cons_append]
    exact ih

theorem arcDigits_append (n : Nat) (x : Bytes) : arcDigits n x = arcDigits n [] ++ x := by
  unfold arcDigits
  split
  · rfl
  · rw [← arcDigits_high_append, List.singleton_append]

theorem arcDigits_ne_nil (n : Nat) : arcDigits n [] ≠ [] := by
  have hhigh : ∀ m x, arcDigits.high m x ≠ [] := by
    intro m x
    fun_induction arcDigits.high m x with
    | case1 => simp
    | case2 m x hm ih => exact ih
  unfold arcDigits
  split
  · simp
  · exact hhigh _ _

/-- An octet with its highest bit set continues a group. -/
theorem digitGroups_continued {d : Nat} (hd : d < 128) (group : List Nat) (x : Bytes) :
    digitGroups group (UInt8.ofNat (128 + d) :: x) = digitGroups (d :: group) x := by
  have hvalue : (UInt8.ofNat (128 + d)).toNat = 128 + d := by
    rw [UInt8.toNat_ofNat']
    omega
  have hcontinued : ¬ UInt8.ofNat (128 + d) < 0x80 := by
    rw [UInt8.lt_iff_toNat_lt, hvalue]
    exact Nat.not_lt.mpr (Nat.le_add_right 128 d)
  rw [digitGroups]
  simp only [hvalue, if_neg hcontinued, Nat.add_mod_left, Nat.mod_eq_of_lt hd]

/-- An octet without it ends a group. -/
theorem digitGroups_ended {d : Nat} (hd : d < 128) (group : List Nat) (x : Bytes) :
    digitGroups group (UInt8.ofNat d :: x) = (d :: group).reverse :: digitGroups [] x := by
  have hvalue : (UInt8.ofNat d).toNat = d := by
    rw [UInt8.toNat_ofNat']
    omega
  have hended : UInt8.ofNat d < 0x80 := by
    rw [UInt8.lt_iff_toNat_lt, hvalue]
    exact hd
  rw [digitGroups]
  simp only [hvalue, if_pos hended, Nat.mod_eq_of_lt hd]

theorem digitGroups_high (n : Nat) (group : List Nat) (x : Bytes) :
    digitGroups group (arcDigits.high n x) = digitGroups (pushDigits n group) x := by
  fun_induction arcDigits.high n x with
  | case1 n x hn => rw [digitGroups_continued hn, pushDigits, if_pos hn]
  | case2 n x hn ih => rw [ih, digitGroups_continued (Nat.mod_lt _ (by decide)), pushDigits.eq_def n, if_neg hn]

theorem digitGroups_arcDigits (n : Nat) (x : Bytes) :
    digitGroups [] (arcDigits n x) = (pushDigits n []).reverse :: digitGroups [] x := by
  unfold arcDigits
  split
  · next hn => rw [digitGroups_ended hn, pushDigits, if_pos hn]
  · next hn =>
    rw [digitGroups_high, digitGroups_ended (Nat.mod_lt _ (by decide)), pushDigits.eq_def n, if_neg hn]

theorem arcValue_pushDigits (n : Nat) : arcValue (pushDigits n []).reverse = n := by
  rw [arcValue, List.foldl_reverse]
  fun_induction pushDigits n [] with
  | case1 n hn => simp
  | case2 n hn ih =>
    rw [List.foldr_cons, ih]
    exact Nat.div_add_mod n 128

theorem digitGroups_flatMap (as : List Nat) :
    digitGroups [] (as.flatMap fun n => arcDigits n []) = as.map fun n => (pushDigits n []).reverse := by
  induction as with
  | nil => rfl
  | cons n as ih => rw [List.flatMap_cons, ← arcDigits_append, digitGroups_arcDigits, ih, List.map_cons]

section
variable {first first' : UInt8} {as as' : List Nat} {o o' : Oid}

theorem arcs_written (h : ¬ (first = 0 ∧ as = [])) :
    (written first as).arcs = first.toNat / 40 :: first.toNat % 40 :: as := by
  have hmap : (as.map fun n => (pushDigits n []).reverse).map arcValue = as := by
    rw [List.map_map]
    exact List.map_id'' (fun n => arcValue_pushDigits n) as
  unfold arcs
  split
  · next hnil => cases hnil
  · next hzero =>
    obtain ⟨rfl, hrest⟩ := List.cons.inj hzero
    refine absurd ⟨rfl, ?_⟩ h
    cases as with
    | nil => rfl
    | cons n as => exact absurd (List.flatMap_eq_nil_iff.mp hrest n List.mem_cons_self) (arcDigits_ne_nil n)
  · next b rest _ hcons =>
    obtain ⟨rfl, rfl⟩ := List.cons.inj hcons
    rw [digitGroups_flatMap, hmap]

theorem arcs_zero : (written 0 []).arcs = [0] := rfl

theorem arcs_injective (ho : o.IsWritten) (ho' : o'.IsWritten) (h : o.arcs = o'.arcs) : o = o' := by
  obtain ⟨first, as, rfl⟩ := ho
  obtain ⟨first', as', rfl⟩ := ho'
  by_cases hz : first = 0 ∧ as = []
  · by_cases hz' : first' = 0 ∧ as' = []
    · rw [hz.1, hz.2, hz'.1, hz'.2]
    · rw [hz.1, hz.2, arcs_zero, arcs_written hz'] at h
      exact absurd (congrArg List.length h) (by simp)
  · by_cases hz' : first' = 0 ∧ as' = []
    · rw [hz'.1, hz'.2, arcs_zero, arcs_written hz] at h
      exact absurd (congrArg List.length h) (by simp)
    · rw [arcs_written hz, arcs_written hz'] at h
      simp only [List.cons.injEq] at h
      obtain ⟨hquotient, hremainder, rfl⟩ := h
      obtain rfl : first = first' := UInt8.toNat_inj.mp (by omega)
      rfl

end

/-! ## Texts -/

theorem mem_intercalate {c : Char} {between : List Char} {items : List (List Char)} (h : c ∈ between.intercalate items) :
    c ∈ between ∨ ∃ item ∈ items, c ∈ item := by
  induction items with
  | nil => cases h
  | cons item items ih =>
    cases items with
    | nil => exact .inr ⟨item, List.mem_cons_self, by simpa using h⟩
    | cons next items =>
      rw [List.intercalate_cons_cons, List.mem_append, List.mem_append] at h
      rcases h with (hitem | hbetween) | hrest
      · exact .inr ⟨item, List.mem_cons_self, hitem⟩
      · exact .inl hbetween
      · exact (ih hrest).imp id (Exists.imp fun x => And.imp (List.mem_cons_of_mem item) id)

/-- Items that are joined by a character that is in none of them can be told apart. -/
theorem items_eq_of_intercalate_eq {c : Char} {x y : List (List Char)} (hx : ∀ item ∈ x, c ∉ item)
    (hy : ∀ item ∈ y, c ∉ item) (hxnil : x ≠ []) (hynil : y ≠ []) (h : [c].intercalate x = [c].intercalate y) : x = y := by
  rw [← List.splitOn_intercalate c hx hxnil, h, List.splitOn_intercalate c hy hynil]

/-- The text shows the octets. -/
def octetsText (o : Oid) : String := " ".intercalate (o.contents.map (Bytes.octetText Bytes.lowerDigits))

theorem text_cases (o : Oid) : o.text = o.dotted ∨ o.text = o.octetsText ∧ 2 ≤ o.contents.length := by
  unfold text
  split
  · exact .inl rfl
  · next hlarge =>
    refine .inr ⟨rfl, ?_⟩
    obtain ⟨contents⟩ := o
    cases contents with
    | nil => exact absurd rfl hlarge
    | cons b contents =>
      cases contents with
      | nil => exact absurd rfl hlarge
      | cons c contents => exact Nat.le_add_left 2 _

theorem toList_dotted (o : Oid) : o.dotted.toList = ['.'].intercalate (o.arcs.map (Nat.toDigits 10)) := by
  rw [dotted, String.toList_intercalate, List.map_map]
  congr 1
  refine List.map_congr_left fun n _ => ?_
  simp [ToString.toString]

theorem toList_octetsText (o : Oid) : o.octetsText.toList =
    [' '].intercalate (o.contents.map fun b => (Bytes.octetText Bytes.lowerDigits b).toList) := by
  rw [octetsText, String.toList_intercalate, List.map_map]
  rfl

theorem isDigit_of_mem_dotted {o : Oid} {c : Char} (h : c ∈ o.dotted.toList) : c = '.' ∨ c.isDigit = true := by
  rw [toList_dotted] at h
  refine (mem_intercalate h).imp List.mem_singleton.mp ?_
  rintro ⟨item, hitem, hc⟩
  obtain ⟨n, -, rfl⟩ := List.mem_map.mp hitem
  exact Nat.isDigit_of_mem_toDigits (by decide) (by decide) hc

theorem mem_octetText {b : UInt8} {c : Char} (h : c ∈ (Bytes.octetText Bytes.lowerDigits b).toList) :
    c ∈ Bytes.lowerDigits := by
  have hb := b.toNat_lt
  have hdigit : ∀ i < 16, Bytes.lowerDigits.getD i '0' ∈ Bytes.lowerDigits := by decide
  rw [Bytes.octetText, String.toList_ofList] at h
  simp only [List.mem_cons, List.not_mem_nil, or_false] at h
  rcases h with rfl | rfl
  · exact hdigit _ (by omega)
  · exact hdigit _ (by omega)

theorem mem_octetsText {o : Oid} {c : Char} (h : c ∈ o.octetsText.toList) : c = ' ' ∨ c ∈ Bytes.lowerDigits := by
  rw [toList_octetsText] at h
  refine (mem_intercalate h).imp List.mem_singleton.mp ?_
  rintro ⟨item, hitem, hc⟩
  obtain ⟨b, -, rfl⟩ := List.mem_map.mp hitem
  exact mem_octetText hc

/-- A text is made of digits, dots and blanks. -/
theorem mem_text {o : Oid} {c : Char} (h : c ∈ o.text.toList) :
    c = '.' ∨ c = ' ' ∨ c.isDigit = true ∨ c ∈ Bytes.lowerDigits := by
  rcases text_cases o with htext | ⟨htext, -⟩
  · rw [htext] at h
    exact (isDigit_of_mem_dotted h).imp id fun h => .inr (.inl h)
  · rw [htext] at h
    exact .inr ((mem_octetsText h).imp id .inr)

/-- Only a text that shows octets has blanks. -/
theorem dotted_ne_octetsText {o o' : Oid} (hlen : 2 ≤ o'.contents.length) : o.dotted ≠ o'.octetsText := by
  intro h
  obtain ⟨contents⟩ := o'
  obtain ⟨b, c, rest, rfl⟩ : ∃ b c rest, contents = b :: c :: rest := by
    cases contents with
    | nil => simp at hlen
    | cons b contents =>
      cases contents with
      | nil => simp at hlen
      | cons c rest => exact ⟨b, c, rest, rfl⟩
  have hblank : ' ' ∈ o.dotted.toList := by
    rw [h, toList_octetsText, List.map_cons, List.map_cons, List.intercalate_cons_cons]
    simp
  exact absurd (isDigit_of_mem_dotted hblank) (by decide)

theorem arcs_ne_nil {o : Oid} (h : o.IsWritten) : o.arcs ≠ [] := by
  obtain ⟨first, as, rfl⟩ := h
  by_cases hz : first = 0 ∧ as = []
  · rw [hz.1, hz.2, arcs_zero]
    exact List.cons_ne_nil _ _
  · rw [arcs_written hz]
    exact List.cons_ne_nil _ _

theorem dotted_injective {o o' : Oid} (ho : o.IsWritten) (ho' : o'.IsWritten) (h : o.dotted = o'.dotted) : o = o' := by
  have hlist := congrArg String.toList h
  rw [toList_dotted, toList_dotted] at hlist
  have hdot : ∀ (ns : List Nat), ∀ item ∈ ns.map (Nat.toDigits 10), '.' ∉ item := by
    intro ns item hitem hmem
    obtain ⟨n, -, rfl⟩ := List.mem_map.mp hitem
    exact absurd (Nat.isDigit_of_mem_toDigits (by decide) (by decide) hmem) (by decide)
  have harcs := items_eq_of_intercalate_eq (hdot _) (hdot _) (by simpa using arcs_ne_nil ho) (by simpa using arcs_ne_nil ho')
    hlist
  refine arcs_injective ho ho' ((List.map_inj_right fun m n hmn => ?_).mp harcs)
  rw [← Nat.ofDigitChars_ten_toDigits (n := m), hmn, Nat.ofDigitChars_ten_toDigits]

theorem octetsText_injective {o o' : Oid} (ho : o.contents ≠ []) (ho' : o'.contents ≠ [])
    (h : o.octetsText = o'.octetsText) : o = o' := by
  have hlist := congrArg String.toList h
  rw [toList_octetsText, toList_octetsText] at hlist
  have hblank : ∀ (x : Bytes), ∀ item ∈ x.map fun b => (Bytes.octetText Bytes.lowerDigits b).toList, ' ' ∉ item := by
    intro x item hitem hmem
    obtain ⟨b, -, rfl⟩ := List.mem_map.mp hitem
    exact absurd (mem_octetText hmem) (by decide)
  have hitems := items_eq_of_intercalate_eq (hblank _) (hblank _) (by simpa using ho) (by simpa using ho') hlist
  have hcontents := (List.map_inj_right fun b c hbc =>
    Bytes.octetText_injective Bytes.distinct_lowerDigits (String.toList_inj.mp hbc)).mp hitems
  cases o
  cases o'
  exact congrArg Oid.mk hcontents

theorem text_injective {o o' : Oid} (ho : o.IsWritten) (ho' : o'.IsWritten) (h : o.text = o'.text) : o = o' := by
  have hnil : ∀ {p : Oid}, p.IsWritten → p.contents ≠ [] := by
    rintro p ⟨first, as, rfl⟩
    exact List.cons_ne_nil _ _
  rcases text_cases o with htext | ⟨htext, hlen⟩
  · rcases text_cases o' with htext' | ⟨htext', hlen'⟩
    · exact dotted_injective ho ho' (htext ▸ htext' ▸ h)
    · exact absurd (htext ▸ htext' ▸ h) (dotted_ne_octetsText hlen')
  · rcases text_cases o' with htext' | ⟨htext', -⟩
    · exact absurd (htext ▸ htext' ▸ h).symm (dotted_ne_octetsText hlen)
    · exact octetsText_injective (hnil ho) (hnil ho') (htext ▸ htext' ▸ h)

end CertRotation.Oid
