import CertRotation.Proofs.Asn1.DerRoundTrip

/-!
# DER that is read has been written so

`Exact r R` says which octets `r` takes for each value: those related to it by `R`, whatever follows them. The strict readers
take no other octets than `Der.Write` produces, so that every value has one encoding.
-/
namespace CertRotation.Der
variable {α β : Type}

/-- The reader takes the octets that are related to the value, and no others. -/
def Exact (r : Reader α) (R : Bytes → α → Prop) : Prop :=
  ∀ b a rest, r.run b = some (a, rest) ↔ ∃ used, b = used ++ rest ∧ R used a

section
variable {r : Reader α} {R : Bytes → α → Prop}

theorem Exact.congr {S : Bytes → α → Prop} (h : Exact r R) (hR : ∀ b a, R b a ↔ S b a) : Exact r S := by
  intro b a rest
  rw [h b a rest]
  simp only [hR]

theorem whole?_eq_some {b : Bytes} {a : α} : r.whole? b = some a ↔ r.run b = some (a, []) := by
  unfold Reader.whole?
  split
  · next x heq => simp [heq]
  · next hother =>
    constructor
    · intro h
      cases h
    · intro h
      exact absurd h (hother a)

theorem Exact.whole (h : Exact r R) {b : Bytes} {a : α} : r.whole? b = some a ↔ R b a := by
  rw [whole?_eq_some, h b a []]
  constructor
  · rintro ⟨used, rfl, hused⟩
    rwa [List.append_nil]
  · exact fun hb => ⟨b, (List.append_nil b).symm, hb⟩

theorem Exact.run_bind {f : α → Reader β} (h : Exact r R) {b rest : Bytes} {y : β} :
    (r >>= f).run b = some (y, rest) ↔ ∃ a u v, b = u ++ v ∧ R u a ∧ (f a).run v = some (y, rest) := by
  rw [run_bind_iff]
  constructor
  · rintro ⟨a, middle, ha, hy⟩
    obtain ⟨u, hb, hu⟩ := (h b a middle).mp ha
    exact ⟨a, u, middle, hb, hu, hy⟩
  · rintro ⟨a, u, v, hb, hu, hy⟩
    exact ⟨a, v, (h b a v).mpr ⟨u, hb, hu⟩, hy⟩

theorem Exact.bind {f : α → Reader β} {S : α → Bytes → β → Prop} (h : Exact r R) (hf : ∀ a, Exact (f a) (S a)) :
    Exact (r >>= f) fun b y => ∃ a u v, b = u ++ v ∧ R u a ∧ S a v y := by
  intro b y rest
  rw [h.run_bind]
  constructor
  · rintro ⟨a, u, middle, rfl, hu, hy⟩
    obtain ⟨v, rfl, hv⟩ := (hf a middle y rest).mp hy
    exact ⟨u ++ v, (List.append_assoc u v rest).symm, a, u, v, rfl, hu, hv⟩
  · rintro ⟨used, rfl, a, u, v, rfl, hu, hv⟩
    exact ⟨a, u, v ++ rest, List.append_assoc u v rest, hu, (hf a _ y rest).mpr ⟨v, rfl, hv⟩⟩

theorem exact_pure (a : α) : Exact (pure a) fun b x => b = [] ∧ x = a := by
  intro b x rest
  constructor
  · intro h
    obtain ⟨rfl, rfl⟩ := Prod.mk.inj (Option.some.inj h)
    exact ⟨[], rfl, rfl, rfl⟩
  · rintro ⟨used, rfl, rfl, rfl⟩
    rfl

theorem exact_require (p : Bool) : Exact (require p) fun b _ => b = [] ∧ p = true := by
  unfold require
  cases p with
  | true => exact (exact_pure ()).congr fun b a => by simp
  | false =>
    intro b a rest
    constructor
    · intro h
      cases h
    · rintro ⟨used, -, -, h⟩
      cases h

theorem exact_ofOption (o : Option α) : Exact (ofOption o) fun b a => b = [] ∧ o = some a := by
  intro b a rest
  constructor
  · intro h
    obtain ⟨x, hx, heq⟩ := Option.map_eq_some_iff.mp h
    obtain ⟨rfl, rfl⟩ := Prod.mk.inj heq
    exact ⟨[], rfl, rfl, hx⟩
  · rintro ⟨used, rfl, rfl, rfl⟩
    rfl

end

/-! ## Elements -/

theorem exact_octet : Exact octet fun b x => b = [x] := by
  intro b x rest
  constructor
  · intro h
    cases b with
    | nil => cases h
    | cons y b =>
      obtain ⟨rfl, rfl⟩ := Prod.mk.inj (Option.some.inj h)
      exact ⟨[y], rfl, rfl⟩
  · rintro ⟨used, rfl, rfl⟩
    rfl

theorem exact_take (n : Nat) : Exact (take n) fun b c => b = c ∧ c.length = n := by
  intro b c rest
  constructor
  · intro h
    obtain ⟨hlen, h⟩ := Option.ite_none_left_eq_some.mp h
    obtain ⟨rfl, rfl⟩ := Prod.mk.inj (Option.some.inj h)
    refine ⟨b.take n, (List.take_append_drop n b).symm, rfl, ?_⟩
    rw [List.length_take]
    omega
  · rintro ⟨used, rfl, rfl, hlen⟩
    exact run_take n hlen rest

theorem exact_tag : Exact tag fun b t => b = [t] ∧ isTag t = true := by
  refine (exact_octet.bind fun t => (exact_require _).bind fun _ => exact_pure t).congr fun b t => ?_
  constructor
  · rintro ⟨x, u, v, rfl, rfl, -, u', v', rfl, ⟨rfl, ht⟩, rfl, rfl⟩
    exact ⟨rfl, ht⟩
  · rintro ⟨rfl, ht⟩
    exact ⟨t, [t], [], rfl, rfl, (), [], [], rfl, ⟨rfl, ht⟩, rfl, rfl⟩

theorem write_length_short {x : UInt8} (h : x < 0x80) : Write.length x.toNat = [x] := by
  have hlt : x.toNat < 0x80 := h
  rw [Write.length, if_pos hlt, UInt8.ofNat_toNat]

/-- Digits are the length that they spell, if none of them is idle. -/
theorem write_length_long {x : UInt8} {digits : Bytes} (hx : ¬ x < 0x80)
    (hcount : digits.length = x.toNat - 0x80) (hlong : 0x80 ≤ Bytes.toNat digits)
    (hwidth : Bytes.width (Bytes.toNat digits) = x.toNat - 0x80) :
    Write.length (Bytes.toNat digits) = x :: digits := by
  have hx : 0x80 ≤ x.toNat := Nat.le_of_not_lt hx
  have hdigits : Bytes.minimal (Bytes.toNat digits) = digits := by
    have hpos : 1 ≤ digits.length := by
      cases digits with
      | nil => exact absurd hlong (by decide)
      | cons y digits => exact Nat.succ_pos _
    rw [Bytes.minimal, hwidth, ← hcount, Nat.max_eq_right hpos, Bytes.ofNat_toNat]
  have hfirst : UInt8.ofNat (0x80 + digits.length) = x := by
    rw [hcount, Nat.add_sub_cancel' hx, UInt8.ofNat_toNat]
  rw [Write.length, if_neg (Nat.not_lt_of_le hlong), hdigits]
  exact congrArg (· :: digits) hfirst

/-- A length is minimal, so that there is one way to write it. -/
theorem exact_length : Exact length fun b n => b = Write.length n ∧ n ≤ maxLength := by
  intro b n rest
  constructor
  · intro h
    unfold length at h
    rw [exact_octet.run_bind] at h
    obtain ⟨first, _, middle, rfl, rfl, h⟩ := h
    split at h
    · next hshort =>
      obtain ⟨_, rfl, rfl, rfl⟩ := (exact_pure _ _ _ _).mp h
      have hmax : first.toNat ≤ maxLength := le_trans (Nat.le_of_lt first.toNat_lt) (by decide)
      exact ⟨[first], rfl, (write_length_short hshort).symm, hmax⟩
    · next hlong =>
      dsimp only at h
      rw [(exact_require _).run_bind] at h
      obtain ⟨-, _, _, rfl, ⟨rfl, -⟩, h⟩ := h
      rw [(exact_take _).run_bind] at h
      obtain ⟨_, digits, _, rfl, ⟨rfl, hcount⟩, h⟩ := h
      rw [(exact_require _).run_bind] at h
      obtain ⟨-, _, _, rfl, ⟨rfl, hminimal⟩, h⟩ := h
      obtain ⟨_, rfl, rfl, rfl⟩ := (exact_pure _ _ _ _).mp h
      simp only [Bool.and_eq_true, decide_eq_true_eq] at hminimal
      obtain ⟨⟨hbig, hmax⟩, hwidth⟩ := hminimal
      exact ⟨first :: digits, by simp, (write_length_long hlong hcount hbig hwidth).symm, hmax⟩
  · rintro ⟨used, rfl, rfl, hn⟩
    exact reads_length hn rest

/-- The one encoding of an element. -/
def Element.encode (e : Element) : Bytes := Write.tlv e.tag e.contents

theorem Element.length_encode_pos (e : Element) : 0 < e.encode.length := Nat.succ_pos _

structure Element.Sound (e : Element) : Prop where
  tag : isTag e.tag = true
  fits : Fits e.contents

theorem exact_element : Exact element fun b e => b = e.encode ∧ e.Sound := by
  intro b e rest
  constructor
  · intro h
    unfold element at h
    rw [exact_tag.run_bind] at h
    obtain ⟨t, _, _, rfl, ⟨rfl, ht⟩, h⟩ := h
    rw [exact_length.run_bind] at h
    obtain ⟨n, _, _, rfl, ⟨rfl, hmax⟩, h⟩ := h
    rw [(exact_take n).run_bind] at h
    obtain ⟨_, contents, _, rfl, ⟨rfl, rfl⟩, h⟩ := h
    obtain ⟨_, rfl, rfl, rfl⟩ := (exact_pure _ _ _ _).mp h
    exact ⟨Write.tlv t contents, by simp [Write.tlv], rfl, ht, hmax⟩
  · rintro ⟨used, rfl, rfl, ht, hfits⟩
    exact reads_element ht hfits rest

section
variable {t : UInt8} {r : Reader α} {R : Bytes → α → Prop}

theorem exact_contentsOf (ht : isTag t = true) : Exact (contentsOf t) fun b c => b = Write.tlv t c ∧ Fits c := by
  intro b c rest
  constructor
  · intro h
    unfold contentsOf at h
    rw [exact_element.run_bind] at h
    obtain ⟨e, _, _, rfl, ⟨rfl, he⟩, h⟩ := h
    rw [(exact_require _).run_bind] at h
    obtain ⟨-, _, _, rfl, ⟨rfl, htag⟩, h⟩ := h
    obtain ⟨_, rfl, rfl, rfl⟩ := (exact_pure _ _ _ _).mp h
    exact ⟨e.encode, by simp, congrArg (Write.tlv · e.contents) (of_decide_eq_true htag), he.fits⟩
  · rintro ⟨used, rfl, rfl, hfits⟩
    exact reads_contentsOf ht hfits rest

theorem exact_nested (ht : isTag t = true) (h : ∀ b a, r.whole? b = some a ↔ R b a) :
    Exact (nested t r) fun b a => ∃ c, b = Write.tlv t c ∧ Fits c ∧ R c a := by
  refine ((exact_contentsOf ht).bind fun c => exact_ofOption (r.whole? c)).congr fun b a => ?_
  constructor
  · rintro ⟨c, _, _, rfl, ⟨rfl, hfits⟩, rfl, hwhole⟩
    exact ⟨c, List.append_nil _, hfits, (h c a).mp hwhole⟩
  · rintro ⟨c, rfl, hfits, hR⟩
    exact ⟨c, _, [], (List.append_nil _).symm, ⟨rfl, hfits⟩, rfl, (h c a).mpr hR⟩

theorem exact_octetString : Exact octetString fun b c => b = Write.octetString c ∧ Fits c :=
  exact_contentsOf (by decide)

end

/-! ## Numbers and identifiers -/

/-- What a number is written in. -/
def naturalContents (n : Nat) : Bytes :=
  if (Bytes.minimal n).headD 0 < 0x80 then Bytes.minimal n else 0 :: Bytes.minimal n

theorem naturalContents_of_lt {x : UInt8} {b : Bytes} (h : x ≠ 0 ∨ b = []) (hx : x < 0x80) :
    naturalContents (Bytes.toNat (x :: b)) = x :: b := by
  rw [naturalContents, Bytes.minimal_toNat h]
  exact if_pos hx

theorem naturalContents_of_not_lt {x : UInt8} (b : Bytes) (hx : ¬ x < 0x80) :
    naturalContents (Bytes.toNat (x :: b)) = 0 :: x :: b := by
  have hne : x ≠ 0 := fun h => hx (h ▸ by decide)
  rw [naturalContents, Bytes.minimal_toNat (.inl hne)]
  exact if_neg hx

theorem natural?_eq_some {c : Bytes} {n : Nat} : natural? c = some n ↔ c = naturalContents n := by
  constructor
  · intro h
    rcases c with _ | ⟨x, _ | ⟨y, rest⟩⟩
    · cases h
    · obtain ⟨hx, heq⟩ := Option.ite_none_right_eq_some.mp h
      have hvalue : Bytes.toNat [x] = x.toNat := by simp [Bytes.toNat]
      rw [← Option.some.inj heq, ← hvalue, naturalContents_of_lt (.inr rfl) hx]
    · by_cases hzero : x = 0
      · rw [natural?, if_pos hzero] at h
        obtain ⟨hy, heq⟩ := Option.ite_none_left_eq_some.mp h
        rw [← Option.some.inj heq, naturalContents_of_not_lt rest hy, hzero]
      · rw [natural?, if_neg hzero] at h
        obtain ⟨hx, heq⟩ := Option.ite_none_right_eq_some.mp h
        rw [← Option.some.inj heq, naturalContents_of_lt (.inl hzero) hx]
  · rintro rfl
    exact natural?_of_write n

theorem exact_natural : Exact natural fun b n => b = Write.natural n ∧ Fits (naturalContents n) := by
  refine ((exact_contentsOf (t := 0x02) (by decide)).bind fun c => exact_ofOption (natural? c)).congr fun b n => ?_
  constructor
  · rintro ⟨c, _, _, rfl, ⟨rfl, hfits⟩, rfl, hn⟩
    obtain rfl := natural?_eq_some.mp hn
    exact ⟨List.append_nil _, hfits⟩
  · rintro ⟨rfl, hfits⟩
    exact ⟨_, _, [], (List.append_nil _).symm, ⟨rfl, hfits⟩, rfl, natural?_eq_some.mpr rfl⟩

theorem exact_naturalBelow (limit : Nat) :
    Exact (naturalBelow limit) fun b n => b = Write.natural n ∧ Fits (naturalContents n) ∧ n < limit := by
  refine (exact_natural.bind fun n => (exact_require _).bind fun _ => exact_pure n).congr fun b n => ?_
  constructor
  · rintro ⟨m, _, _, rfl, ⟨rfl, hfits⟩, -, _, _, rfl, ⟨rfl, hlt⟩, rfl, rfl⟩
    exact ⟨by simp, hfits, of_decide_eq_true hlt⟩
  · rintro ⟨rfl, hfits, hlt⟩
    exact ⟨n, _, [], (List.append_nil _).symm, ⟨rfl, hfits⟩, (), [], [], rfl, ⟨rfl, decide_eq_true hlt⟩, rfl, rfl⟩

theorem exact_oid : Exact oid fun b o => b = Write.oid o ∧ o.isStrict = true := by
  refine ((exact_contentsOf (t := 0x06) (by decide)).bind fun c => exact_ofOption (oid? c)).congr fun b o => ?_
  constructor
  · rintro ⟨c, _, _, rfl, ⟨rfl, -⟩, rfl, ho⟩
    obtain ⟨hstrict, heq⟩ := Option.ite_none_right_eq_some.mp ho
    cases heq
    exact ⟨List.append_nil _, hstrict⟩
  · rintro ⟨rfl, hstrict⟩
    have hfits : Fits o.contents := le_trans (length_contents_of_isStrict hstrict) (by decide)
    exact ⟨_, _, [], (List.append_nil _).symm, ⟨rfl, hfits⟩, rfl, oid?_of_isStrict hstrict⟩

/-! ## Algorithms -/

def Algorithm.fields (a : Algorithm) : List Bytes := Write.oid a.oid :: a.parameters.toList.map Element.encode

/-- The one encoding of an algorithm identifier. -/
def Algorithm.encode (a : Algorithm) : Bytes := Write.sequence a.fields

structure Algorithm.Sound (a : Algorithm) : Prop where
  oid : a.oid.isStrict = true
  parameters : ∀ e ∈ a.parameters, e.Sound

theorem whole?_algorithmFields {b : Bytes} {a : Algorithm} :
    algorithmFields.whole? b = some a ↔ b = a.fields.flatten ∧ a.Sound := by
  rw [whole?_eq_some, algorithmFields, exact_oid.run_bind]
  constructor
  · rintro ⟨o, _, v, rfl, ⟨rfl, ho⟩, h⟩
    cases v with
    | nil =>
      obtain ⟨rfl, -⟩ := Prod.mk.inj (Option.some.inj h)
      exact ⟨rfl, ho, by simp⟩
    | cons t v =>
      obtain ⟨o', w, hpeek, h⟩ := run_bind_iff.mp h
      obtain ⟨-, heq⟩ := Option.ite_none_right_eq_some.mp hpeek
      obtain ⟨rfl, rfl⟩ := Prod.mk.inj (Option.some.inj heq)
      dsimp only at h
      rw [exact_element.run_bind] at h
      obtain ⟨e, _, _, hv, ⟨rfl, he⟩, h⟩ := h
      obtain ⟨_, rfl, rfl, rfl⟩ := (exact_pure _ _ _ _).mp h
      rw [hv]
      exact ⟨by simp [Algorithm.fields], ho, by simpa using he⟩
  · rintro ⟨rfl, hoid, hparameters⟩
    refine ⟨a.oid, _, _, rfl, ⟨rfl, hoid⟩, ?_⟩
    obtain ⟨o, p⟩ := a
    cases p with
    | none => rfl
    | some e =>
      have he : e.Sound := hparameters e rfl
      have hfield : (([e] : List Element).map Element.encode).flatten = e.encode := by simp
      have hpeek : peekTag.run e.encode = some (some e.tag, e.encode) := run_peekTag he.tag _
      rw [Option.toList_some, hfield, run_bind_iff]
      exact ⟨_, _, hpeek, run_bind_iff.mpr ⟨e, [], (exact_element _ _ _).mpr ⟨_, (List.append_nil _).symm, rfl, he⟩, rfl⟩⟩

theorem exact_algorithm : Exact algorithm fun b a => b = a.encode ∧ a.Sound ∧ Fits a.fields.flatten := by
  refine (exact_nested (by decide) fun _ _ => whole?_algorithmFields).congr fun b a => ?_
  constructor
  · rintro ⟨_, rfl, hfits, rfl, ha⟩
    exact ⟨rfl, ha, hfits⟩
  · rintro ⟨rfl, ha, hfits⟩
    exact ⟨_, rfl, hfits, rfl, ha⟩

/-! ## Several elements -/

theorem Exact.reads {r : Reader α} {R : Bytes → α → Prop} (h : Exact r R) {b : Bytes} {a : α} (hb : R b a) : Reads r b a :=
  fun rest => (h _ a rest).mpr ⟨b, rfl, hb⟩

/-- Values that are read until nothing is left stand one behind the other. -/
theorem run_many_iff {r : Reader α} {R : Bytes → α → Prop} (h : Exact r R) (hne : ∀ a, ¬ R [] a) {b rest : Bytes}
    {as : List α} : (many r).run b = some (as, rest) ↔
      rest = [] ∧ ∃ pieces : List Bytes, b = pieces.flatten ∧ List.Forall₂ R pieces as := by
  constructor
  · have key : ∀ fuel b as, many.go r fuel b = some (as, rest) →
        rest = [] ∧ ∃ pieces : List Bytes, b = pieces.flatten ∧ List.Forall₂ R pieces as := by
      intro fuel
      induction fuel with
      | zero =>
        intro b as hgo
        cases b with
        | nil =>
          obtain ⟨rfl, rfl⟩ := Prod.mk.inj (Option.some.inj hgo)
          exact ⟨rfl, [], rfl, .nil⟩
        | cons x b => cases hgo
      | succ fuel ih =>
        intro b as hgo
        cases b with
        | nil =>
          obtain ⟨rfl, rfl⟩ := Prod.mk.inj (Option.some.inj hgo)
          exact ⟨rfl, [], rfl, .nil⟩
        | cons x b =>
          obtain ⟨⟨a, middle⟩, ha, hgo⟩ := Option.bind_eq_some_iff.mp hgo
          obtain ⟨⟨others, last⟩, hothers, heq⟩ := Option.map_eq_some_iff.mp hgo
          obtain ⟨rfl, rfl⟩ := Prod.mk.inj heq
          obtain ⟨piece, hpiece, hR⟩ := (h _ a middle).mp ha
          obtain ⟨hrest, pieces, rfl, hall⟩ := ih middle others hothers
          exact ⟨hrest, piece :: pieces, hpiece, .cons hR hall⟩
    exact key b.length b as
  · rintro ⟨rfl, pieces, rfl, hall⟩
    refine whole?_eq_some.mp (whole?_many (hall.imp fun piece a hR => ⟨h.reads hR, ?_⟩))
    rintro rfl
    exact hne a hR

theorem exists_run_many_iff {r : Reader α} {R : Bytes → α → Prop} (h : Exact r R) (hne : ∀ a, ¬ R [] a) {b rest : Bytes} :
    (∃ as, (many r).run b = some (as, rest)) ↔
      rest = [] ∧ ∃ pieces : List Bytes, b = pieces.flatten ∧ ∀ p ∈ pieces, ∃ a, R p a := by
  have hall : ∀ pieces : List Bytes, (∃ as, List.Forall₂ R pieces as) ↔ ∀ p ∈ pieces, ∃ a, R p a := by
    intro pieces
    induction pieces with
    | nil => simp
    | cons p pieces ih =>
      rw [List.forall_mem_cons, ← ih]
      constructor
      · rintro ⟨_, _ | ⟨hp, hrest⟩⟩
        exact ⟨⟨_, hp⟩, _, hrest⟩
      · rintro ⟨⟨a, hp⟩, as, hrest⟩
        exact ⟨a :: as, .cons hp hrest⟩
  simp only [run_many_iff h hne, exists_and_left, ← hall]
  constructor
  · rintro ⟨hrest, as, pieces, hb, hpieces⟩
    exact ⟨hrest, pieces, hb, as, hpieces⟩
  · rintro ⟨hrest, pieces, hb, as, hpieces⟩
    exact ⟨hrest, as, pieces, hb, hpieces⟩

/-! ## Optional elements -/

/-- An element is there exactly if its tag comes next. -/
theorem run_optional_iff {t : UInt8} {r : Reader α} {R : Bytes → α → Prop} (h : Exact r R) (ht : isTag t = true)
    (hR : ∀ b a, R b a → b.head? = some t) {b rest : Bytes} {o : Option α} : (optional t r).run b = some (o, rest) ↔
      (o = none ∧ b = rest ∧ ∀ u ∈ rest.head?, isTag u = true ∧ u ≠ t) ∨ ∃ a used, o = some a ∧ b = used ++ rest ∧ R used a := by
  rw [optional, run_bind_iff]
  constructor
  · rintro ⟨tag, middle, hpeek, hread⟩
    cases b with
    | nil =>
      obtain ⟨rfl, rfl⟩ := Prod.mk.inj (Option.some.inj hpeek)
      obtain ⟨rfl, rfl⟩ := Prod.mk.inj (Option.some.inj hread)
      exact .inl ⟨rfl, rfl, by simp⟩
    | cons u c =>
      obtain ⟨hu, heq⟩ := Option.ite_none_right_eq_some.mp hpeek
      obtain ⟨rfl, rfl⟩ := Prod.mk.inj (Option.some.inj heq)
      by_cases hut : u = t
      · subst hut
        rw [if_pos rfl, h.run_bind] at hread
        obtain ⟨a, used, _, hb, hused, hpure⟩ := hread
        obtain ⟨rfl, rfl⟩ := Prod.mk.inj (Option.some.inj hpure)
        exact .inr ⟨a, used, rfl, hb, hused⟩
      · rw [if_neg fun h => hut (Option.some.inj h)] at hread
        obtain ⟨rfl, rfl⟩ := Prod.mk.inj (Option.some.inj hread)
        exact .inl ⟨rfl, rfl, by simp [hu, hut]⟩
  · rintro (⟨rfl, rfl, hhead⟩ | ⟨a, used, rfl, rfl, hused⟩)
    · cases b with
      | nil => exact ⟨none, [], rfl, rfl⟩
      | cons u c =>
        obtain ⟨hu, hut⟩ := hhead u rfl
        exact ⟨some u, u :: c, run_peekTag hu c, by rw [if_neg fun h => hut (Option.some.inj h)]; rfl⟩
    · obtain ⟨c, rfl⟩ := List.head?_eq_some_iff.mp (hR used a hused)
      refine ⟨some t, _, run_peekTag ht _, ?_⟩
      rw [if_pos rfl, h.run_bind]
      exact ⟨a, _, rest, rfl, hused, rfl⟩

/-! ## Elements under context tags -/

/-- Where the search for the context tag `n` comes to an end, and the tag if it is there. -/
inductive Found (n : UInt8) : Option UInt8 → Bytes → Prop where
  | nothing : Found n none []
  | here {t : UInt8} {rest : Bytes} (tag : isTag t = true) (context : isContext t = true) (number : t &&& 0x1f = n) :
      Found n (some t) (t :: rest)
  | beyond {t : UInt8} {rest : Bytes} (tag : isTag t = true) (number : isContext t = true → n < t &&& 0x1f) :
      Found n none (t :: rest)

/-- An element under a context tag below `n`. -/
def IsBelow (n : UInt8) (b : Bytes) : Prop :=
  ∃ e : Element, b = e.encode ∧ e.Sound ∧ isContext e.tag = true ∧ e.tag &&& 0x1f < n

theorem IsBelow.length_pos {n : UInt8} {b : Bytes} (h : IsBelow n b) : 0 < b.length := by
  obtain ⟨e, rfl, -⟩ := h
  exact e.length_encode_pos

section
variable {n : UInt8} {o : Option UInt8} {b s rest : Bytes} {fuel : Nat}

theorem seekContext_of_found (h : Found n o b) (hfuel : b.length ≤ fuel) : seekContext.go n fuel b = some (o, b) := by
  cases h with
  | nothing => cases fuel <;> rfl
  | here tag context number =>
    cases fuel with
    | zero => cases hfuel
    | succ fuel => simp [seekContext.go, tag, context, number]
  | @beyond t rest tag number =>
    cases fuel with
    | zero => cases hfuel
    | succ fuel =>
      have hstop : ¬ isContext t = true ∨ n < t &&& 0x1f := not_or_of_imp number
      rw [seekContext.go, if_neg (not_not_intro tag), if_pos hstop]

theorem seekContext_of_isBelow (h : IsBelow n s) (fuel : Nat) (b : Bytes) :
    seekContext.go n (fuel + 1) (s ++ b) = seekContext.go n fuel b := by
  obtain ⟨e, rfl, he, hcontext, hnumber⟩ := h
  have helement : element.run (e.encode ++ b) = some (e, b) := exact_element.reads ⟨rfl, he⟩ b
  have hgo : ¬ (¬ isContext e.tag = true ∨ n < e.tag &&& 0x1f) := by
    rintro (hother | hlt)
    · exact hother hcontext
    · exact UInt8.lt_asymm hlt hnumber
  rw [Element.encode, Write.tlv, List.cons_append, List.cons_append] at helement ⊢
  rw [seekContext.go, if_neg (not_not_intro he.tag), if_neg hgo, if_neg (UInt8.ne_of_lt hnumber), helement]
  rfl

/-- The search passes over the elements below. -/
theorem run_seekContext_iff : (seekContext n).run b = some (o, rest) ↔
    ∃ passed : List Bytes, (∀ s ∈ passed, IsBelow n s) ∧ b = passed.flatten ++ rest ∧ Found n o rest := by
  constructor
  · have key : ∀ fuel b, b.length ≤ fuel → seekContext.go n fuel b = some (o, rest) →
        ∃ passed : List Bytes, (∀ s ∈ passed, IsBelow n s) ∧ b = passed.flatten ++ rest ∧ Found n o rest := by
      intro fuel
      induction fuel with
      | zero =>
        intro b hfuel hgo
        obtain rfl := List.length_eq_zero_iff.mp (Nat.le_zero.mp hfuel)
        obtain ⟨rfl, rfl⟩ := Prod.mk.inj (Option.some.inj hgo)
        exact ⟨[], by simp, rfl, .nothing⟩
      | succ fuel ih =>
        intro b hfuel hgo
        cases b with
        | nil =>
          obtain ⟨rfl, rfl⟩ := Prod.mk.inj (Option.some.inj hgo)
          exact ⟨[], by simp, rfl, .nothing⟩
        | cons t b =>
          rw [seekContext.go] at hgo
          split_ifs at hgo with htag hstop hnumber
          · obtain ⟨rfl, rfl⟩ := Prod.mk.inj (Option.some.inj hgo)
            exact ⟨[], by simp, rfl, .beyond htag fun hcontext => hstop.resolve_left (not_not_intro hcontext)⟩
          · obtain ⟨rfl, rfl⟩ := Prod.mk.inj (Option.some.inj hgo)
            obtain ⟨hcontext, -⟩ := not_or.mp hstop
            exact ⟨[], by simp, rfl, .here htag (not_not.mp hcontext) hnumber⟩
          · obtain ⟨⟨e, middle⟩, he, hmiddle⟩ := Option.bind_eq_some_iff.mp hgo
            obtain ⟨_, hused, rfl, hsound⟩ := (exact_element _ e middle).mp he
            obtain ⟨rfl, -⟩ := List.cons.inj hused
            obtain ⟨hcontext, hle⟩ := not_or.mp hstop
            have hbelow : IsBelow n e.encode :=
              ⟨e, rfl, hsound, not_not.mp hcontext, UInt8.lt_of_le_of_ne (UInt8.not_lt.mp hle) hnumber⟩
            have hlen := congrArg List.length hused
            have hpos := e.length_encode_pos
            rw [List.length_append] at hlen
            obtain ⟨passed, hpassed, rfl, hfound⟩ := ih middle (by omega) hmiddle
            exact ⟨e.encode :: passed, List.forall_mem_cons.mpr ⟨hbelow, hpassed⟩,
              hused.trans (List.append_assoc _ _ _).symm, hfound⟩
    exact key b.length b le_rfl
  · rintro ⟨passed, hpassed, rfl, hfound⟩
    have key : ∀ fuel, (passed.flatten ++ rest).length ≤ fuel →
        seekContext.go n fuel (passed.flatten ++ rest) = some (o, rest) := by
      induction passed with
      | nil => exact fun fuel hfuel => seekContext_of_found hfound hfuel
      | cons s passed ih =>
        intro fuel hfuel
        obtain ⟨hs, hrest⟩ := List.forall_mem_cons.mp hpassed
        have hpos := hs.length_pos
        rw [List.flatten_cons, List.append_assoc] at hfuel ⊢
        rw [List.length_append] at hfuel
        obtain ⟨m, rfl⟩ : ∃ m, fuel = m + 1 := Nat.exists_eq_succ_of_ne_zero (by omega)
        rw [seekContext_of_isBelow hs]
        exact ih hrest m (by omega)
    exact key _ le_rfl

theorem run_implicit_iff {o : Option Bytes} (ht : isTag (0x80 ||| n) = true) (hx : isContext (0x80 ||| n) = true)
    (hn : (0x80 ||| n) &&& 0x1f = n) : (implicit n).run b = some (o, rest) ↔
      ∃ passed : List Bytes, (∀ s ∈ passed, IsBelow n s) ∧
        ((o = none ∧ b = passed.flatten ++ rest ∧ Found n none rest) ∨
          ∃ c, o = some c ∧ b = passed.flatten ++ (Write.implicit n c ++ rest) ∧ Fits c) := by
  rw [implicit, run_bind_iff]
  constructor
  · rintro ⟨tag, middle, hseek, h⟩
    obtain ⟨passed, hpassed, rfl, hfound⟩ := run_seekContext_iff.mp hseek
    cases tag with
    | none =>
      obtain ⟨rfl, rfl⟩ := Prod.mk.inj (Option.some.inj h)
      exact ⟨passed, hpassed, .inl ⟨rfl, rfl, hfound⟩⟩
    | some t =>
      dsimp only at h
      rw [(exact_contentsOf ht).run_bind] at h
      obtain ⟨c, _, _, rfl, ⟨rfl, hfits⟩, h⟩ := h
      obtain ⟨_, rfl, rfl, rfl⟩ := (exact_pure _ _ _ _).mp h
      exact ⟨passed, hpassed, .inr ⟨c, rfl, rfl, hfits⟩⟩
  · rintro ⟨passed, hpassed, ⟨rfl, rfl, hfound⟩ | ⟨c, rfl, rfl, hfits⟩⟩
    · exact ⟨none, rest, run_seekContext_iff.mpr ⟨passed, hpassed, rfl, hfound⟩, rfl⟩
    · refine ⟨some (0x80 ||| n), _, run_seekContext_iff.mpr ⟨passed, hpassed, rfl, .here ht hx hn⟩, ?_⟩
      exact (exact_contentsOf ht).run_bind.mpr ⟨c, _, rest, rfl, ⟨rfl, hfits⟩, rfl⟩

end

end CertRotation.Der
