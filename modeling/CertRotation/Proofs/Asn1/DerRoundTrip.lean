import Mathlib.Data.List.Perm.Basic
import CertRotation.Asn1.Der
import CertRotation.Asn1.Write
import CertRotation.Proofs.Numbers
import CertRotation.Proofs.Traversal

/-!
# DER is read as it was written

`Reads r b a` says that `r` takes exactly `b` from the front of any octets and gives `a`. The strict readers take what
`Der.Write` produces, as long as no element is longer than `maxLength`.
-/
namespace CertRotation.Der
variable {α β : Type}

/-- Whatever follows `b`, the reader takes `b` and gives `a`. -/
def Reads (r : Reader α) (b : Bytes) (a : α) : Prop := ∀ rest, r.run (b ++ rest) = some (a, rest)

theorem Reads.pure (a : α) : Reads (Pure.pure a) [] a := fun _ => rfl

theorem Reads.bind {r : Reader α} {f : α → Reader β} {b c : Bytes} {x : α} {y : β} (h : Reads r b x)
    (g : Reads (f x) c y) : Reads (r >>= f) (b ++ c) y := by
  intro rest
  rw [List.append_assoc, StateT.run_bind, h]
  exact g rest

theorem Reads.whole {r : Reader α} {b : Bytes} {a : α} (h : Reads r b a) : r.whole? b = some a := by
  have := h []
  rw [List.append_nil] at this
  simp [Reader.whole?, this]

theorem Reads.map {r : Reader α} {b : Bytes} {a : α} (f : α → β) (h : Reads r b a) :
    Reads (do let x ← r; Pure.pure (f x)) b (f a) := by
  intro rest
  simp [h rest]

/-! ## Sizes -/

/-- Octets that can stand inside an element. -/
def Fits (b : Bytes) : Prop := b.length ≤ maxLength

instance (b : Bytes) : Decidable (Fits b) := inferInstanceAs (Decidable (b.length ≤ maxLength))

theorem Fits.left {b c : Bytes} (h : Fits (b ++ c)) : Fits b := by
  unfold Fits at *
  rw [List.length_append] at h
  omega

theorem Fits.right {b c : Bytes} (h : Fits (b ++ c)) : Fits c := by
  unfold Fits at *
  rw [List.length_append] at h
  omega

theorem Fits.contents {t : UInt8} {c : Bytes} (h : Fits (Write.tlv t c)) : Fits c :=
  h.right

theorem Fits.item {items : List Bytes} {b : Bytes} (h : Fits items.flatten) (hb : b ∈ items) : Fits b :=
  le_trans (List.Sublist.length_le (List.sublist_flatten_of_mem hb)) h

theorem Fits.sequence {items : List Bytes} {b : Bytes} (h : Fits (Write.sequence items)) (hb : b ∈ items) : Fits b :=
  h.contents.item hb

/-! ## Single steps -/

theorem whole?_of_run {r : Reader α} {b : Bytes} {a : α} (h : r.run b = some (a, [])) : r.whole? b = some a := by
  simp [Reader.whole?, h]

theorem run_ofOption_some (a : α) (b : Bytes) : (ofOption (some a)).run b = some (a, b) := rfl

theorem run_require_true {p : Bool} (h : p = true) (b : Bytes) : (require p).run b = some ((), b) := by
  subst h
  rfl

theorem run_octet (x : UInt8) (b : Bytes) : octet.run (x :: b) = some (x, b) := rfl

theorem run_take {b : Bytes} (n : Nat) (h : b.length = n) (rest : Bytes) :
    (take n).run (b ++ rest) = some (b, rest) := by
  subst h
  show (if _ < _ then none else _) = _
  rw [if_neg (by simp)]
  simp

theorem reads_tag {t : UInt8} (h : isTag t = true) : Reads tag [t] t := by
  intro rest
  simp [tag, StateT.run_bind, run_octet, run_require_true h]

theorem reads_length {n : Nat} (h : n ≤ maxLength) : Reads length (Write.length n) n := by
  intro rest
  unfold Write.length
  split
  · next hn =>
    have h8 : (UInt8.ofNat n).toNat = n := by simp only [UInt8.toNat_ofNat']; omega
    have hlt : UInt8.ofNat n < 0x80 := by simpa [UInt8.lt_iff_toNat_lt, h8] using hn
    simp [length, StateT.run_bind, run_octet, hlt, h8]
  · next hn =>
    have hw : Bytes.width n ≤ 4 := Bytes.width_le (lt_of_le_of_lt h (by decide))
    have hw1 : 1 ≤ Bytes.width n := by
      unfold Bytes.width
      rw [if_neg (by omega)]
      omega
    have hlen : (Bytes.minimal n).length = Bytes.width n := by rw [Bytes.length_minimal]; omega
    have h8 : (UInt8.ofNat (0x80 + Bytes.width n)).toNat = 0x80 + Bytes.width n := by
      simp only [UInt8.toNat_ofNat']
      omega
    have hge : ¬ UInt8.ofNat (0x80 + Bytes.width n) < 0x80 := by
      rw [UInt8.lt_iff_toNat_lt, h8]
      simp
    have hsub : (UInt8.ofNat (0x80 + Bytes.width n)).toNat - 0x80 = Bytes.width n := by omega
    have hcount : (decide (1 ≤ Bytes.width n) && decide (Bytes.width n ≤ 4)) = true := by simp [hw, hw1]
    have hminimal : (decide (0x80 ≤ n) && decide (n ≤ maxLength) && decide True) = true := by
      simp [h]
      omega
    simp only [hlen, length, StateT.run_bind, List.cons_append, run_octet, Option.bind_eq_bind, Option.bind_some,
      if_neg hge, hsub, run_require_true hcount, run_take _ hlen, Bytes.toNat_minimal, run_require_true hminimal,
      StateT.run_pure, Option.pure_def]

theorem reads_element {t : UInt8} {c : Bytes} (ht : isTag t = true) (hc : Fits c) :
    Reads element (Write.tlv t c) ⟨t, c⟩ := by
  intro rest
  have htag := reads_tag ht (Write.length c.length ++ (c ++ rest))
  have hlen := reads_length hc (c ++ rest)
  simp only [List.singleton_append] at htag
  simp [element, Write.tlv, StateT.run_bind, htag, hlen, run_take _ rfl]

theorem reads_contentsOf {t : UInt8} {c : Bytes} (ht : isTag t = true) (hc : Fits c) :
    Reads (contentsOf t) (Write.tlv t c) c := by
  intro rest
  simp [contentsOf, StateT.run_bind, reads_element ht hc rest, run_require_true]

theorem reads_nested {t : UInt8} {r : Reader α} {c : Bytes} {a : α} (ht : isTag t = true)
    (hc : Fits c) (h : r.whole? c = some a) : Reads (nested t r) (Write.tlv t c) a := by
  intro rest
  simp [nested, StateT.run_bind, reads_contentsOf ht hc rest, h, run_ofOption_some]

theorem reads_sequence {r : Reader α} {items : List Bytes} {a : α} (hc : Fits items.flatten)
    (h : r.whole? items.flatten = some a) : Reads (sequence r) (Write.sequence items) a :=
  reads_nested (by decide) hc h

theorem reads_octetString {b : Bytes} (hb : Fits b) : Reads octetString (Write.octetString b) b :=
  reads_contentsOf (by decide) hb

theorem oid?_of_isStrict {o : Oid} (h : o.isStrict = true) : oid? o.contents = some o := by
  simp [oid?, h]

theorem length_contents_of_isStrict {o : Oid} (h : o.isStrict = true) : o.contents.length ≤ 39 := by
  simp only [Oid.isStrict, Bool.and_eq_true, decide_eq_true_eq] at h
  exact h.1.1.1.2

theorem reads_oid {o : Oid} (h : o.isStrict = true) : Reads oid (Write.oid o) o := by
  have hmax : Fits o.contents := le_trans (length_contents_of_isStrict h) (by decide)
  intro rest
  have hc := reads_contentsOf (t := 0x06) (by decide) hmax rest
  rw [show Write.oid o = Write.tlv 0x06 o.contents from rfl]
  simp [oid, StateT.run_bind, hc, oid?_of_isStrict h, run_ofOption_some]

/-! ## Numbers -/

theorem natural?_of_write (n : Nat) :
    natural? (if (Bytes.minimal n).headD 0 < 0x80 then Bytes.minimal n else 0 :: Bytes.minimal n) = some n := by
  have hn := Bytes.toNat_minimal n
  have hlen := Bytes.length_minimal n
  cases hm : Bytes.minimal n with
  | nil =>
    rw [hm] at hlen
    simp at hlen
    omega
  | cons x rest =>
    rw [hm] at hn
    by_cases hx : x < 0x80
    · cases rest with
      | nil => simpa [natural?, hx, Bytes.toNat_cons, Bytes.toNat] using hn
      | cons y rest =>
        have h0 := Bytes.minimal_head_ne_zero hm
        simp [natural?, hx, h0, hn]
    · simp [natural?, hx, hn]

theorem reads_natural {n : Nat} (h : Fits (Write.natural n)) : Reads natural (Write.natural n) n := by
  intro rest
  have hc := reads_contentsOf (t := 0x02) (by decide) h.contents rest
  simp only [natural, Write.natural, StateT.run_bind, hc, natural?_of_write, Option.bind_eq_bind, Option.bind_some,
    run_ofOption_some]

theorem reads_naturalBelow {n limit : Nat} (hn : n < limit) (h : Fits (Write.natural n)) :
    Reads (naturalBelow limit) (Write.natural n) n := by
  intro rest
  simp only [naturalBelow, StateT.run_bind, reads_natural h _, Option.bind_eq_bind, Option.bind_some,
    run_require_true (decide_eq_true hn)]
  rfl

/-! ## Looking ahead -/

theorem run_peekTag {t : UInt8} (h : isTag t = true) (b : Bytes) : peekTag.run (t :: b) = some (some t, t :: b) := by
  show (if _ then _ else none) = _
  rw [if_pos h]

theorem Reads.optional {t : UInt8} {r : Reader α} {b : Bytes} {a : α} (ht : isTag t = true)
    (h : Reads r (t :: b) a) : Reads (Der.optional t r) (t :: b) (some a) := by
  intro rest
  have hr := h rest
  rw [List.cons_append] at hr ⊢
  simp [Der.optional, StateT.run_bind, run_peekTag ht, hr]

/-- An optional element is passed over if another one comes next. -/
theorem run_optional_of_ne {t u : UInt8} (r : Reader α) (hu : isTag u = true) (h : u ≠ t) (b : Bytes) :
    (optional t r).run (u :: b) = some (none, u :: b) := by
  simp [optional, StateT.run_bind, run_peekTag hu, h]

theorem run_optional_nil (t : UInt8) (r : Reader α) : (optional t r).run [] = some (none, []) := rfl

theorem run_seekContext_of_eq {n t : UInt8} (ht : isTag t = true) (hc : isContext t = true) (hn : t &&& 0x1f = n)
    (b : Bytes) : (seekContext n).run (t :: b) = some (some t, t :: b) := by
  have hlt : ¬ n < n := by simp
  show seekContext.go n (b.length + 1) (t :: b) = _
  simp [seekContext.go, ht, hc, hn, hlt]

/-- A context element is passed over if what comes next is none, or has a higher number. -/
theorem run_seekContext_of_ne {n t : UInt8} (ht : isTag t = true) (hc : isContext t = false ∨ n < t &&& 0x1f)
    (b : Bytes) : (seekContext n).run (t :: b) = some (none, t :: b) := by
  show seekContext.go n (b.length + 1) (t :: b) = _
  rcases hc with hc | hc <;> simp [seekContext.go, ht, hc]

theorem reads_explicit {n : UInt8} {r : Reader α} {c : Bytes} {a : α} (ht : isTag (0xa0 ||| n) = true)
    (hx : isContext (0xa0 ||| n) = true) (hn : (0xa0 ||| n) &&& 0x1f = n) (hc : Fits c)
    (h : r.whole? c = some a) : Reads (explicit n r) (Write.explicit n c) (some a) := by
  intro rest
  have hr := reads_nested ht hc h rest
  rw [show Write.explicit n c = (0xa0 ||| n) :: (Write.length c.length ++ c) from rfl] at *
  rw [show Write.tlv (0xa0 ||| n) c = (0xa0 ||| n) :: (Write.length c.length ++ c) from rfl] at hr
  rw [List.cons_append] at hr ⊢
  simp only [explicit, StateT.run_bind, run_seekContext_of_eq ht hx hn, Option.bind_eq_bind, Option.bind_some, hr,
    StateT.run_pure, Option.pure_def]

theorem reads_implicit {n : UInt8} {c : Bytes} (ht : isTag (0x80 ||| n) = true) (hx : isContext (0x80 ||| n) = true)
    (hn : (0x80 ||| n) &&& 0x1f = n) (hc : Fits c) :
    Reads (implicit n) (Write.implicit n c) (some c) := by
  intro rest
  have hr := reads_contentsOf ht hc rest
  rw [show Write.implicit n c = (0x80 ||| n) :: (Write.length c.length ++ c) from rfl] at *
  rw [show Write.tlv (0x80 ||| n) c = (0x80 ||| n) :: (Write.length c.length ++ c) from rfl] at hr
  rw [List.cons_append] at hr ⊢
  simp only [implicit, StateT.run_bind, run_seekContext_of_eq ht hx hn, Option.bind_eq_bind, Option.bind_some, hr,
    StateT.run_pure, Option.pure_def]

theorem reads_algorithm {o : Oid} {t : UInt8} {c : Bytes} (ho : o.isStrict = true) (ht : isTag t = true)
    (hc : Fits (Write.sequence [Write.oid o, Write.tlv t c])) :
    Reads algorithm (Write.sequence [Write.oid o, Write.tlv t c]) ⟨o, some ⟨t, c⟩⟩ := by
  have hcl : Fits c := (hc.sequence (b := Write.tlv t c) (by simp)).contents
  apply reads_sequence hc.contents
  apply whole?_of_run
  have he := reads_element ht hcl []
  rw [show Write.tlv t c = t :: (Write.length c.length ++ c) from rfl] at *
  simp only [List.append_nil] at he
  simp [algorithmFields, StateT.run_bind, reads_oid ho _, run_peekTag ht, he]

/-! ## Several elements -/

theorem whole?_many {r : Reader α} {pieces : List Bytes} {values : List α}
    (h : List.Forall₂ (fun b a => Reads r b a ∧ b ≠ []) pieces values) :
    (many r).whole? pieces.flatten = some values := by
  have key : ∀ fuel, pieces.flatten.length ≤ fuel → many.go r fuel pieces.flatten = some (values, []) := by
    induction h with
    | nil => intro fuel _; cases fuel <;> rfl
    | @cons piece value pieces values hx _ ih =>
      intro fuel hf
      rw [List.flatten_cons] at hf ⊢
      have hpos : 0 < piece.length := List.length_pos_iff.mpr hx.2
      rw [List.length_append] at hf
      cases fuel with
      | zero => omega
      | succ fuel =>
        obtain ⟨y, b, hb⟩ : ∃ y b, piece ++ pieces.flatten = y :: b := by
          cases he : piece ++ pieces.flatten with
          | nil => simp [hx.2] at he
          | cons y b => exact ⟨y, b, rfl⟩
        have hgo : many.go r (fuel + 1) (y :: b) =
            (r.run (y :: b)).bind fun p => (many.go r fuel p.2).map fun q => (p.1 :: q.1, q.2) := rfl
        rw [hb, hgo, ← hb, hx.1, Option.bind_some, ih fuel (by omega)]
        rfl
  apply whole?_of_run
  exact key _ le_rfl

theorem run_encoded {t : UInt8} {c : Bytes} (ht : isTag t = true) (hc : Fits c) :
    Reads encoded (Write.tlv t c) (Write.tlv t c) := by
  intro rest
  have h := reads_element ht hc rest
  show (element.run _).map _ = _
  rw [h]
  simp

theorem perm_sortItems (items : List Bytes) : (Write.sortItems items).Perm items := List.mergeSort_perm _ _

theorem reads_setOf {r : Reader α} {items : List Bytes} (values : List α) (hd : items.Nodup) (hc : Fits items.flatten)
    (he : ∀ x ∈ items, ∃ t c, isTag t = true ∧ x = Write.tlv t c)
    (hr : List.Forall₂ (fun x a => r.whole? x = some a) items values) :
    ∃ values', values'.Perm values ∧ Reads (setOf r) (Write.set items) values' := by
  have hp := perm_sortItems items
  have hp2 := (perm_sortItems (Write.sortItems items)).trans hp
  obtain ⟨values', hvalues, hperm⟩ := List.perm_comp_forall₂ hp2 hr
  refine ⟨values', hperm, ?_⟩
  have hlen : Fits (Write.sortItems items).flatten := by rwa [Fits, hp.flatten.length_eq]
  have hmany : (many encoded).whole? (Write.sortItems items).flatten = some (Write.sortItems items) := by
    apply whole?_many
    rw [List.forall₂_same]
    intro x hx
    obtain ⟨t, c, ht, rfl⟩ := he x (hp.mem_iff.mp hx)
    exact ⟨run_encoded ht (hlen.item hx).contents, by simp [Write.tlv]⟩
  have hmap : (Write.sortItems (Write.sortItems items)).mapM r.whole? = some values' := mapM_eq_some.mpr hvalues
  intro rest
  have hset := reads_nested (t := 0x31) (by decide) hlen hmany rest
  rw [show Write.set items = Write.tlv 0x31 (Write.sortItems items).flatten from rfl]
  simp only [setOf, StateT.run_bind, hset, Option.bind_eq_bind, Option.bind_some]
  rw [run_require_true (by simpa using hp.nodup_iff.mpr hd), Option.bind_some]
  rw [show (Write.sortItems items).mergeSort (fun a b => decide (a ≤ b)) =
    Write.sortItems (Write.sortItems items) from rfl, hmap]
  rfl

/-! ## Sizes of what is written -/

theorem Write.length_tlv_le {t : UInt8} {c : Bytes} (h : c.length < 0x100000000) :
    (Write.tlv t c).length ≤ c.length + 6 := by
  have hw : Bytes.width c.length ≤ 4 := Bytes.width_le h
  have hl : (Write.length c.length).length ≤ 5 := by
    unfold Write.length
    split
    · simp
    · simp only [List.length_cons, Bytes.length_minimal]
      omega
  simp only [Write.tlv, List.length_append, List.length_cons]
  omega

theorem Write.length_sequence_le (items : List Bytes) {n : Nat} (h : items.flatten.length ≤ n)
    (hn : n < 0x100000000) : (Write.sequence items).length ≤ n + 6 :=
  le_trans (Write.length_tlv_le (by omega)) (by omega)

theorem Write.length_set_le (items : List Bytes) {n : Nat} (h : items.flatten.length ≤ n)
    (hn : n < 0x100000000) : (Write.set items).length ≤ n + 6 := by
  have hlen := (perm_sortItems items).flatten.length_eq
  exact le_trans (Write.length_tlv_le (by omega)) (by omega)

end CertRotation.Der
