import CertRotation.Certificate.Basic
import CertRotation.Proofs.Traversal

/-!
# Names by their encoding

The encoding of a name determines its parts, and so its text, although the element that a name stands in may go on after
its last part. For every reader takes what it needs from the front, and what follows makes no difference to it.
-/
namespace CertRotation.Asn1
variable {α β : Type}

/-- What the reader takes from the front does not hang on what follows. -/
def Local (r : Reader α) : Prop :=
  ∀ b a rest, r.run b = some (a, rest) → ∃ used, b = used ++ rest ∧ ∀ after, r.run (used ++ after) = some (a, after)

theorem Local.pure (a : α) : Local (Pure.pure a) := by
  intro b x rest h
  obtain ⟨rfl, rfl⟩ := Prod.mk.inj (Option.some.inj h)
  exact ⟨[], rfl, fun after => rfl⟩

theorem Local.bind {r : Reader α} {f : α → Reader β} (h : Local r) (g : ∀ a, Local (f a)) : Local (r >>= f) := by
  intro b y rest hrun
  obtain ⟨a, middle, ha, hy⟩ := run_bind_iff.mp hrun
  obtain ⟨used, rfl, hused⟩ := h b a middle ha
  obtain ⟨more, rfl, hmore⟩ := g a middle y rest hy
  refine ⟨used ++ more, (List.append_assoc _ _ _).symm, fun after => ?_⟩
  rw [StateT.run_bind, List.append_assoc, hused]
  exact hmore after

theorem Local.ite {p : Prop} [Decidable p] {r s : Reader α} (hr : Local r) (hs : Local s) :
    Local (if p then r else s) := by
  split
  · exact hr
  · exact hs

theorem local_refuse : Local (refuse : Reader α) := fun _ _ _ h => nomatch h

theorem local_require (p : Bool) : Local (require p) := .ite (.pure ()) local_refuse

theorem local_ofOption (o : Option α) : Local (ofOption o) := by
  cases o with
  | none => exact fun _ _ _ h => nomatch h
  | some a => exact .pure a

theorem local_octet : Local octet := by
  intro b x rest h
  cases b with
  | nil => cases h
  | cons y b =>
    obtain ⟨rfl, rfl⟩ := Prod.mk.inj (Option.some.inj h)
    exact ⟨[y], rfl, fun after => rfl⟩

theorem run_take_eq_some {n : Nat} {b c rest : Bytes} :
    (take n).run b = some (c, rest) ↔ b = c ++ rest ∧ c.length = n := by
  show (if _ then none else some _) = _ ↔ _
  constructor
  · intro h
    split at h
    · cases h
    · next hlen =>
      obtain ⟨rfl, rfl⟩ := Prod.mk.inj (Option.some.inj h)
      refine ⟨(List.take_append_drop n b).symm, ?_⟩
      rw [List.length_take]
      omega
  · rintro ⟨rfl, rfl⟩
    rw [if_neg (by simp), List.take_left, List.drop_left]

theorem local_take (n : Nat) : Local (take n) := by
  intro b c rest h
  obtain ⟨rfl, hlen⟩ := run_take_eq_some.mp h
  exact ⟨c, rfl, fun after => run_take_eq_some.mpr ⟨rfl, hlen⟩⟩

theorem local_longNumber (fuel n : Nat) : Local (longNumber fuel n) := by
  induction fuel generalizing n with
  | zero => exact local_refuse
  | succ fuel ih => exact local_octet.bind fun b => .ite (.pure _) (ih _)

theorem local_header : Local header := by
  refine local_octet.bind fun first => .ite ((local_longNumber 5 0).bind fun number => ?_)
    ((Local.pure _).bind fun number => ?_)
  all_goals
    refine local_octet.bind fun l => .ite ((Local.pure _).bind fun _ => .pure _) (.ite ?_ (.ite ?_ ?_))
    · exact ((local_require _).bind fun _ => .pure _).bind fun _ => .pure _
    · exact local_refuse.bind fun _ => .pure _
    · exact ((local_take _).bind fun _ => (local_ofOption _).bind fun _ => .pure _).bind fun _ => .pure _

theorem local_element : Local element := by
  refine local_header.bind fun h => ?_
  split
  · exact local_refuse
  · exact (local_take _).bind fun _ => .pure _

theorem local_numbered (n : Nat) : Local (numbered n) :=
  local_element.bind fun e => (local_require _).bind fun _ => .pure e

theorem local_inside (n : Nat) (r : Reader α) : Local (inside n r) :=
  (local_numbered n).bind fun _ => (local_ofOption _).bind fun _ => .pure _

/-! ## Elements in a row -/

/-- An element is its header and its contents, as many octets as the header says. -/
theorem run_element_eq_some {b rest : Bytes} {e : Element} (h : element.run b = some (e, rest)) :
    ∃ front, b = front ++ (e.contents ++ rest) ∧ front ≠ [] ∧ e.header.length = some e.contents.length ∧
      ∀ after, header.run (front ++ after) = some (e.header, after) := by
  obtain ⟨head, middle, hhead, hcontents⟩ := run_bind_iff.mp h
  obtain ⟨front, rfl, hfront⟩ := local_header b head middle hhead
  have hne : front ≠ [] := by
    rintro rfl
    cases hfront []
  split at hcontents
  · cases hcontents
  · next n hlen =>
    obtain ⟨contents, after, htake, hlast⟩ := run_bind_iff.mp hcontents
    obtain ⟨rfl, rfl⟩ := run_take_eq_some.mp htake
    obtain ⟨rfl, rfl⟩ := Prod.mk.inj (Option.some.inj hlast)
    exact ⟨front, rfl, hne, hlen, hfront⟩

theorem run_numbered_eq_some {n : Nat} {b rest : Bytes} {e : Element} (h : (numbered n).run b = some (e, rest)) :
    element.run b = some (e, rest) := by
  obtain ⟨x, after, hx, h⟩ := run_bind_iff.mp h
  obtain ⟨⟨⟩, last, hrequire, h⟩ := run_bind_iff.mp h
  obtain ⟨rfl, rfl⟩ := Prod.mk.inj (Option.some.inj h)
  unfold require at hrequire
  split at hrequire
  · obtain ⟨-, rfl⟩ := Prod.mk.inj (Option.some.inj hrequire)
    exact hx
  · cases hrequire

theorem run_inside_eq_some {n : Nat} {r : Reader α} {b rest : Bytes} {a : α}
    (h : (inside n r).run b = some (a, rest)) : ∃ e left, (numbered n).run b = some (e, rest) ∧
      r.run e.contents = some (a, left) := by
  obtain ⟨e, after, he, h⟩ := run_bind_iff.mp h
  obtain ⟨⟨x, left⟩, last, hread, h⟩ := run_bind_iff.mp h
  obtain ⟨rfl, rfl⟩ := Prod.mk.inj (Option.some.inj h)
  obtain ⟨y, hy, heq⟩ := Option.map_eq_some_iff.mp hread
  obtain ⟨rfl, rfl⟩ := Prod.mk.inj heq
  exact ⟨e, left, he, hy⟩

theorem ne_of_run_inside {n : Nat} {r : Reader α} {b rest : Bytes} {a : α}
    (h : (inside n r).run b = some (a, rest)) : rest ≠ b := by
  obtain ⟨e, -, he, -⟩ := run_inside_eq_some h
  obtain ⟨front, rfl, hne, -⟩ := run_element_eq_some (run_numbered_eq_some he)
  intro heq
  have hlen := congrArg List.length heq
  have hpos := List.length_pos_iff.mpr hne
  simp only [List.length_append] at hlen
  omega

theorem run_many_of_none {r : Reader α} {b : Bytes} (h : r.run b = none) (fuel : Nat) :
    (many r (fuel + 1)).run b = some ([], b) := by
  change many r (fuel + 1) b = _
  simp only [many, h]

theorem run_many_of_some {r : Reader α} {b middle : Bytes} {a : α} (h : r.run b = some (a, middle)) (fuel : Nat) :
    (many r (fuel + 1)).run b = ((many r fuel).run middle).map fun p => (a :: p.1, p.2) := by
  change many r (fuel + 1) b = _
  simp only [many, h]

theorem run_many_cons {r : Reader α} {fuel : Nat} {b rest : Bytes} {as : List α}
    (h : (many r (fuel + 1)).run b = some (as, rest)) :
    r.run b = none ∧ as = [] ∧ rest = b ∨ ∃ a middle others, r.run b = some (a, middle) ∧
      (many r fuel).run middle = some (others, rest) ∧ as = a :: others := by
  cases hr : r.run b with
  | none =>
    rw [run_many_of_none hr] at h
    obtain ⟨rfl, rfl⟩ := Prod.mk.inj (Option.some.inj h)
    exact .inl ⟨rfl, rfl, rfl⟩
  | some step =>
    obtain ⟨a, middle⟩ := step
    rw [run_many_of_some hr] at h
    obtain ⟨⟨others, last⟩, hmany, heq⟩ := Option.map_eq_some_iff.mp h
    obtain ⟨rfl, rfl⟩ := Prod.mk.inj heq
    exact .inr ⟨a, middle, others, rfl, hmany, rfl⟩

theorem suffix_of_run_many {r : Reader α} (hr : Local r) {fuel : Nat} {b rest : Bytes} {as : List α}
    (h : (many r fuel).run b = some (as, rest)) : rest <:+ b := by
  induction fuel generalizing b as with
  | zero =>
    obtain ⟨-, rfl⟩ := Prod.mk.inj (Option.some.inj h)
    exact List.suffix_rfl
  | succ fuel ih =>
    obtain ⟨-, -, rfl⟩ | ⟨a, middle, others, ha, hmany, -⟩ := run_many_cons h
    · exact List.suffix_rfl
    · obtain ⟨used, rfl, -⟩ := hr b a middle ha
      exact (ih hmany).trans (List.suffix_append used middle)

/-- The same octets are read as the same values, though other octets may follow them. -/
theorem many_unique {r : Reader α} (hr : Local r) (hprogress : ∀ b a rest, r.run b = some (a, rest) → rest ≠ b)
    {fuel : Nat} {c u u' : Bytes} {as as' : List α} (h : (many r fuel).run (c ++ u) = some (as, u))
    (h' : (many r fuel).run (c ++ u') = some (as', u')) : as = as' := by
  induction fuel generalizing c as as' with
  | zero =>
    obtain ⟨rfl, -⟩ := Prod.mk.inj (Option.some.inj h)
    obtain ⟨rfl, -⟩ := Prod.mk.inj (Option.some.inj h')
    rfl
  | succ fuel ih =>
    obtain ⟨-, rfl, hu⟩ | ⟨a, middle, others, ha, hmany, rfl⟩ := run_many_cons h
    · -- nothing is left of `c`, so that nothing can be read in front of `u'`
      obtain rfl : c = [] := List.self_eq_append_left.mp hu
      obtain ⟨-, rfl, -⟩ | ⟨a, middle, others, ha, hmany, -⟩ := run_many_cons h'
      · rfl
      · obtain ⟨used, heq, -⟩ := hr _ a middle ha
        have hlen := (suffix_of_run_many hr hmany).length_le
        have hused := congrArg List.length heq
        rw [List.nil_append, List.length_append] at hused
        obtain rfl : used = [] := List.length_eq_zero_iff.mp (by omega)
        exact absurd heq.symm (hprogress _ a middle ha)
    · obtain ⟨used, heq, hused⟩ := hr _ a middle ha
      obtain ⟨c', rfl⟩ := suffix_of_run_many hr hmany
      rw [← List.append_assoc] at heq
      obtain rfl := List.append_cancel_right heq
      rw [List.append_assoc] at h'
      obtain ⟨hnone, -, -⟩ | ⟨a', middle', others', ha', hmany', rfl⟩ := run_many_cons h'
      · rw [hused] at hnone
        cases hnone
      · obtain ⟨rfl, rfl⟩ := Prod.mk.inj (Option.some.inj ((hused _).symm.trans ha'))
        rw [ih hmany hmany']

end CertRotation.Asn1

namespace CertRotation.Certificate
open Asn1

/-! ## Names -/

/-- The encoding of a name is its header with the octets that its parts are read from. -/
theorem raw_of_run_name {b rest : Bytes} {n : Name} (h : name.run b = some (n, rest)) :
    ∃ (head : Header) (front c unread : Bytes) (fuel : Nat), n.raw = front ++ c ∧ head.length = some fuel ∧
      (∀ after, header.run (front ++ after) = some (head, after)) ∧
      (many attributeSet fuel).run (c ++ unread) = some (n.parts, unread) := by
  obtain ⟨⟨e, last⟩, he, h⟩ := Option.bind_eq_some_iff.mp h
  obtain ⟨⟨parts, unread⟩, hparts, h⟩ := Option.bind_eq_some_iff.mp h
  obtain ⟨rfl, rfl⟩ := Prod.mk.inj (Option.some.inj h)
  obtain ⟨front, rfl, -, hlen, hfront⟩ := run_element_eq_some (run_numbered_eq_some he)
  obtain ⟨c, hc⟩ := suffix_of_run_many (local_inside 17 _) hparts
  refine ⟨e.header, front, c, unread, e.contents.length, ?_, hlen, hfront, hc ▸ hparts⟩
  dsimp only
  have hcount : (front ++ (e.contents ++ last)).length - last.length - unread.length = (front ++ c).length := by
    rw [← hc]
    simp only [List.length_append]
    omega
  rw [hcount, ← hc, List.append_assoc, ← List.append_assoc, List.take_left]

/-- Names with one encoding have the same parts. -/
theorem parts_eq_of_raw_eq {b b' rest rest' : Bytes} {n n' : Name} (h : name.run b = some (n, rest))
    (h' : name.run b' = some (n', rest')) (hraw : n.raw = n'.raw) : n.parts = n'.parts := by
  obtain ⟨head, front, c, unread, fuel, hn, hfuel, hfront, hmany⟩ := raw_of_run_name h
  obtain ⟨head', front', c', unread', fuel', hn', hfuel', hfront', hmany'⟩ := raw_of_run_name h'
  have hheader := hfront c
  rw [← hn, hraw, hn', hfront'] at hheader
  obtain ⟨rfl, rfl⟩ := Prod.mk.inj (Option.some.inj hheader)
  obtain rfl := Option.some.inj (hfuel.symm.trans hfuel')
  exact many_unique (local_inside 17 _) (fun _ _ _ => ne_of_run_inside) hmany hmany'

theorem text_eq_of_raw_eq {b b' rest rest' : Bytes} {n n' : Name} (h : name.run b = some (n, rest))
    (h' : name.run b' = some (n', rest')) (hraw : n.raw = n'.raw) : n.text = n'.text := by
  rw [Name.text, Name.text, Name.text?, Name.text?, parts_eq_of_raw_eq h h' hraw]

theorem names_of_read? {b rest : Bytes} {c : Certificate} (h : read? b = some (c, rest)) :
    (∃ x y, name.run x = some (c.issuer, y)) ∧ ∃ x y, name.run x = some (c.subject, y) := by
  obtain ⟨_, _, -, h⟩ := run_inside_eq_some h
  obtain ⟨signed, _, hsigned, h⟩ := run_bind_iff.mp h
  obtain ⟨_, _, -, h⟩ := run_bind_iff.mp h
  obtain ⟨_, _, -, h⟩ := run_bind_iff.mp h
  obtain ⟨rfl, -⟩ := Prod.mk.inj (Option.some.inj h)
  obtain ⟨_, _, -, h⟩ := run_inside_eq_some hsigned
  obtain ⟨_, _, -, h⟩ := run_bind_iff.mp h
  obtain ⟨_, _, -, h⟩ := run_bind_iff.mp h
  obtain ⟨_, _, -, h⟩ := run_bind_iff.mp h
  obtain ⟨issuer, _, hissuer, h⟩ := run_bind_iff.mp h
  obtain ⟨_, _, -, h⟩ := run_bind_iff.mp h
  obtain ⟨subject, _, hsubject, h⟩ := run_bind_iff.mp h
  obtain ⟨_, _, -, h⟩ := run_bind_iff.mp h
  obtain ⟨_, _, -, h⟩ := run_bind_iff.mp h
  obtain ⟨_, _, -, h⟩ := run_bind_iff.mp h
  obtain ⟨_, _, -, h⟩ := run_bind_iff.mp h
  obtain ⟨rfl, -⟩ := Prod.mk.inj (Option.some.inj h)
  exact ⟨⟨_, _, hissuer⟩, ⟨_, _, hsubject⟩⟩

/-! ## Whole certificates -/

theorem parse_eq_ok {der : Bytes} {c : Certificate} : parse der = .ok c ↔ read? der = some (c, []) := by
  unfold parse
  split
  · next h => simp [h]
  · next c' h => simp [h]
  · next c' rest hrest h => simp [h, show rest ≠ [] from hrest]

theorem parse_eq_error {der : Bytes} {e : ParseError} : parse der = .error e ↔
    read? der = none ∧ e = .malformed ∨
      ∃ c rest, read? der = some (c, rest) ∧ rest ≠ [] ∧ e = .trailing rest.length := by
  unfold parse
  split
  · next h => simp [h, eq_comm]
  · next c h => simp [h]
  · next c rest hrest h => simp [h, show rest ≠ [] from hrest, eq_comm]

end CertRotation.Certificate
