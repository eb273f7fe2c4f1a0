import CertRotation.Proofs.Traversal
import CertRotation.Text.Utf16
import CertRotation.Text.Utf8
import Mathlib.Tactic.SplitIfs

/-!
# Octets by their text

A text in UTF-8 is read from one string of octets only, for a character is read from its own encoding and from no other.
The same holds of UTF-16, where the octets come in pairs, and of octets that are written in base 16.
-/
namespace CertRotation

/-! ## UTF-8 -/

namespace Utf8

/-- The octets of a code point. -/
def form (p : Nat) : Bytes :=
  if p < 0x80 then [UInt8.ofNat p]
  else if p < 0x800 then [UInt8.ofNat (0xc0 + p / 64), UInt8.ofNat (0x80 + p % 64)]
  else if p < 0x10000 then [UInt8.ofNat (0xe0 + p / 4096), UInt8.ofNat (0x80 + p / 64 % 64), UInt8.ofNat (0x80 + p % 64)]
  else [UInt8.ofNat (0xf0 + p / 262144), UInt8.ofNat (0x80 + p / 4096 % 64), UInt8.ofNat (0x80 + p / 64 % 64),
    UInt8.ofNat (0x80 + p % 64)]

section
variable {b low high : UInt8} {n point read p r : Nat} {rest : Bytes} {c : Char}

/-- How many octets follow a leading octet, and the bounds that keep the code point from having a shorter form, from being a
surrogate and from being too large. -/
theorem lead_cases (h : lead b = some (n, low, high)) : 0x80 ≤ low.toNat ∧ high.toNat ≤ 0xbf ∧
    ((n = 1 ∧ 0xc2 ≤ b.toNat ∧ b.toNat < 0xe0) ∨
      (n = 2 ∧ 0xe0 ≤ b.toNat ∧ b.toNat < 0xf0 ∧ (b.toNat = 0xe0 → 0xa0 ≤ low.toNat) ∧
        (b.toNat = 0xed → high.toNat ≤ 0x9f)) ∨
      (n = 3 ∧ 0xf0 ≤ b.toNat ∧ b.toNat ≤ 0xf4 ∧ (b.toNat = 0xf0 → 0x90 ≤ low.toNat) ∧
        (b.toNat = 0xf4 → high.toNat ≤ 0x8f))) := by
  simp only [lead, UInt8.lt_iff_toNat_lt, ← UInt8.toNat_inj] at h
  split_ifs at h
  all_goals
    cases h
    simp_all <;> omega

/-- The octets of a character beyond the first, one at a time. -/
theorem continuation_cons (h : continuation low high (n + 1) point read rest = (p, r, true)) :
    ∃ x after, rest = x :: after ∧ low.toNat ≤ x.toNat ∧ x.toNat ≤ high.toNat ∧
      continuation 0x80 0xbf n (64 * point + (x.toNat - 0x80)) (read + 1) after = (p, r, true) := by
  cases rest with
  | nil => simp [continuation] at h
  | cons x after =>
    rw [continuation] at h
    split at h
    · next hx => exact ⟨x, after, rfl, hx.1, hx.2, h⟩
    · simp at h

theorem continuation_nil (h : continuation low high 0 point read rest = (p, r, true)) : point = p ∧ read = r := by
  simpa [continuation] using h

theorem toNat_ofNat (h : p < 0xd800 ∨ 0xdfff < p ∧ p < 0x110000) : (Char.ofNat p).toNat = p := by
  have hvalid : p.isValidChar := h
  rw [Char.ofNat, dif_pos hvalid]
  rfl

theorem eq_ofNat {x : UInt8} (h : x.toNat = n) : x = UInt8.ofNat n := by
  rw [← h, UInt8.ofNat_toNat]

/-! An octet with bit pattern `10xxxxxx` has six bits of the code point. -/

section
variable {x y z : UInt8} (hx : 0x80 ≤ x.toNat ∧ x.toNat ≤ 0xbf) (hy : 0x80 ≤ y.toNat ∧ y.toNat ≤ 0xbf)
  (hz : 0x80 ≤ z.toNat ∧ z.toNat ≤ 0xbf)

include hx in
theorem form_two (hb : 0xc2 ≤ b.toNat ∧ b.toNat < 0xe0) (hp : 64 * (b.toNat % 32) + (x.toNat - 0x80) = p) :
    [b, x] = form (Char.ofNat p).toNat := by
  rw [toNat_ofNat (by omega), form, if_neg (by omega), if_pos (by omega)]
  rw [← eq_ofNat (x := b) (by omega), ← eq_ofNat (x := x) (by omega)]

include hx hy in
theorem form_three (hb : 0xe0 ≤ b.toNat ∧ b.toNat < 0xf0) (hshort : b.toNat = 0xe0 → 0xa0 ≤ x.toNat)
    (hsurrogate : b.toNat = 0xed → x.toNat ≤ 0x9f)
    (hp : 64 * (64 * (b.toNat % 16) + (x.toNat - 0x80)) + (y.toNat - 0x80) = p) :
    [b, x, y] = form (Char.ofNat p).toNat := by
  rw [toNat_ofNat (by omega), form, if_neg (by omega), if_neg (by omega), if_pos (by omega)]
  rw [← eq_ofNat (x := b) (by omega), ← eq_ofNat (x := x) (by omega), ← eq_ofNat (x := y) (by omega)]

include hx hy hz in
theorem form_four (hb : 0xf0 ≤ b.toNat ∧ b.toNat ≤ 0xf4) (hshort : b.toNat = 0xf0 → 0x90 ≤ x.toNat)
    (hlarge : b.toNat = 0xf4 → x.toNat ≤ 0x8f)
    (hp : 64 * (64 * (64 * (b.toNat % 8) + (x.toNat - 0x80)) + (y.toNat - 0x80)) + (z.toNat - 0x80) = p) :
    [b, x, y, z] = form (Char.ofNat p).toNat := by
  rw [toNat_ofNat (by omega), form, if_neg (by omega), if_neg (by omega), if_neg (by omega)]
  rw [← eq_ofNat (x := b) (by omega), ← eq_ofNat (x := x) (by omega), ← eq_ofNat (x := y) (by omega),
    ← eq_ofNat (x := z) (by omega)]

end

/-- The octets that are read as a longer character are those of its code point. -/
theorem form_of_lead (hlead : lead b = some (n, low, high))
    (hrun : continuation low high n (b.toNat % Nat.pow 2 (6 - n)) 0 rest = (p, r, true)) :
    b :: rest.take r = form (Char.ofNat p).toNat := by
  obtain ⟨hlow, hhigh, hcases⟩ := lead_cases hlead
  rcases hcases with ⟨rfl, hb⟩ | ⟨rfl, hb, hb', hshort, hsurrogate⟩ | ⟨rfl, hb, hb', hshort, hlarge⟩
  · obtain ⟨x, after, rfl, hx, hx', hrun⟩ := continuation_cons hrun
    obtain ⟨hp, rfl⟩ := continuation_nil hrun
    exact form_two ⟨by omega, by omega⟩ hb hp
  · obtain ⟨x, after, rfl, hx, hx', hrun⟩ := continuation_cons hrun
    obtain ⟨y, after, rfl, hy, hy', hrun⟩ := continuation_cons hrun
    obtain ⟨hp, rfl⟩ := continuation_nil hrun
    exact form_three ⟨by omega, by omega⟩ ⟨hy, hy'⟩ ⟨hb, hb'⟩ (fun h => Nat.le_trans (hshort h) hx)
      (fun h => Nat.le_trans hx' (hsurrogate h)) hp
  · obtain ⟨x, after, rfl, hx, hx', hrun⟩ := continuation_cons hrun
    obtain ⟨y, after, rfl, hy, hy', hrun⟩ := continuation_cons hrun
    obtain ⟨z, after, rfl, hz, hz', hrun⟩ := continuation_cons hrun
    obtain ⟨hp, rfl⟩ := continuation_nil hrun
    exact form_four ⟨by omega, by omega⟩ ⟨hy, hy'⟩ ⟨hz, hz'⟩ ⟨hb, hb'⟩ (fun h => Nat.le_trans (hshort h) hx)
      (fun h => Nat.le_trans hx' (hlarge h)) hp

theorem form_of_next (h : next b rest = (some c, n)) : b :: rest.take n = form c.toNat := by
  unfold next at h
  split at h
  · next hb =>
    obtain ⟨hc, rfl⟩ := Prod.mk.inj h
    obtain rfl := Option.some.inj hc
    have hb : b.toNat < 0x80 := hb
    rw [toNat_ofNat (by omega), form, if_pos hb, UInt8.ofNat_toNat, List.take_zero]
  · split at h
    · cases h
    · next k low high hlead =>
      rcases hrun : continuation low high k (b.toNat % Nat.pow 2 (6 - k)) 0 rest with ⟨p, r, complete⟩
      simp only [hrun] at h
      obtain ⟨hc, rfl⟩ := Prod.mk.inj h
      cases complete with
      | false => cases hc
      | true =>
        obtain rfl := Option.some.inj hc
        exact form_of_lead hlead hrun

/-- A well-formed text is the octets of its characters, one behind the other. -/
theorem eq_form_of_scan {x : Bytes} {cs : List Char} (h : (scan x).mapM id = some cs) :
    x = cs.flatMap fun c => form c.toNat := by
  fun_induction scan x generalizing cs with
  | case1 =>
    obtain rfl := Option.some.inj h
    rfl
  | case2 b rest o more hnext ih =>
    rw [List.mapM_cons, Option.bind_eq_bind, Option.bind_eq_some_iff] at h
    obtain ⟨c, rfl, h⟩ := h
    obtain ⟨cs', hrest, h⟩ := Option.bind_eq_some_iff.mp h
    obtain rfl := Option.some.inj h
    rw [List.flatMap_cons, ← form_of_next hnext, ← ih hrest, List.cons_append, List.take_append_drop]

theorem decode?_injective {x y : Bytes} {s : String} (hx : decode? x = some s) (hy : decode? y = some s) : x = y := by
  obtain ⟨cs, hcs, rfl⟩ := Option.map_eq_some_iff.mp hx
  obtain ⟨ds, hds, heq⟩ := Option.map_eq_some_iff.mp hy
  rw [eq_form_of_scan hcs, eq_form_of_scan hds, String.ofList_injective heq]

end
end Utf8

/-! ## UTF-16 -/

namespace Utf16

/-- The units of a code point: one, or a pair of surrogates. -/
def form (p : Nat) : List Nat :=
  if p < 0x10000 then [p] else [0xd800 + (p - 0x10000) / 1024, 0xdc00 + (p - 0x10000) % 1024]

theorem eq_form_of_decodeUnits? {us : List Nat} {cs : List Char} (h : decodeUnits? us = some cs)
    (hus : ∀ u ∈ us, u < 0x10000) : us = cs.flatMap fun c => form c.toNat := by
  fun_induction decodeUnits? us generalizing cs with
  | case1 =>
    obtain rfl := Option.some.inj h
    rfl
  | case2 u hu v rest hv ih =>
    obtain ⟨cs', hrest, rfl⟩ := Option.map_eq_some_iff.mp h
    have hpair : form (0x10000 + (u - 0xd800) * 1024 + (v - 0xdc00)) = [u, v] := by
      rw [form, if_neg (by omega), List.cons.injEq, List.cons.injEq]
      exact ⟨by omega, by omega, rfl⟩
    rw [List.flatMap_cons, Utf8.toNat_ofNat (by omega), hpair, ← ih hrest fun w hw => hus w (by simp [hw])]
    rfl
  | case3 u hu v rest hv => cases h
  | case4 u hu => cases h
  | case5 u rest hu hv => cases h
  | case6 u rest hu hv ih =>
    obtain ⟨cs', hrest, rfl⟩ := Option.map_eq_some_iff.mp h
    have hlarge := hus u List.mem_cons_self
    rw [List.flatMap_cons, Utf8.toNat_ofNat (by omega), form, if_pos hlarge, List.singleton_append,
      ← ih hrest fun w hw => hus w (List.mem_cons_of_mem u hw)]

theorem lt_of_mem_unevenUnits {x : Bytes} {u : Nat} (h : u ∈ unevenUnits x) : u < 0x10000 := by
  fun_induction unevenUnits x with
  | case1 => cases h
  | case2 a =>
    have ha := a.toNat_lt
    obtain rfl := List.mem_singleton.mp h
    omega
  | case3 a b rest ih =>
    have ha := a.toNat_lt
    have hb := b.toNat_lt
    rcases List.mem_cons.mp h with rfl | h
    · omega
    · exact ih h

/-- Octets that come in pairs are determined by their units. -/
theorem unevenUnits_injective {x y : Bytes} (hx : 2 ∣ x.length) (hy : 2 ∣ y.length) (h : unevenUnits x = unevenUnits y) :
    x = y := by
  fun_induction unevenUnits x generalizing y with
  | case1 =>
    cases y with
    | nil => rfl
    | cons c y => cases y <;> cases h
  | case2 a => simp at hx
  | case3 a b rest ih =>
    cases y with
    | nil => cases h
    | cons c y =>
      cases y with
      | nil => simp at hy
      | cons d rest' =>
        have ha := a.toNat_lt
        have hb := b.toNat_lt
        have hc := c.toNat_lt
        have hd := d.toNat_lt
        obtain ⟨hfirst, hrest⟩ := List.cons.inj h
        obtain rfl : a = c := UInt8.toNat_inj.mp (by omega)
        obtain rfl : b = d := UInt8.toNat_inj.mp (by omega)
        simp only [List.length_cons] at hx hy
        rw [ih (by omega) (by omega) hrest]

theorem decodeUneven?_injective {x y : Bytes} {s : String} (hxlen : 2 ∣ x.length) (hylen : 2 ∣ y.length)
    (hx : decodeUneven? x = some s) (hy : decodeUneven? y = some s) : x = y := by
  obtain ⟨cs, hcs, rfl⟩ := Option.map_eq_some_iff.mp hx
  obtain ⟨ds, hds, heq⟩ := Option.map_eq_some_iff.mp hy
  refine unevenUnits_injective hxlen hylen ?_
  rw [eq_form_of_decodeUnits? hcs fun _ => lt_of_mem_unevenUnits, eq_form_of_decodeUnits? hds fun _ => lt_of_mem_unevenUnits,
    String.ofList_injective heq]

end Utf16

/-! ## Base 16 -/

namespace Bytes

/-- Digits that are told apart. -/
def Distinct (digits : List Char) : Prop := ∀ i < 16, ∀ j < 16, digits.getD i '0' = digits.getD j '0' → i = j

theorem distinct_upperDigits : Distinct upperDigits := by unfold Distinct; decide

theorem distinct_lowerDigits : Distinct lowerDigits := by unfold Distinct; decide

theorem octetText_injective {digits : List Char} (hd : Distinct digits) {x y : UInt8}
    (h : octetText digits x = octetText digits y) : x = y := by
  obtain ⟨hhigh, hlow⟩ := by simpa only [octetText, String.ofList_inj, List.cons.injEq, and_true] using h
  have hx := x.toNat_lt
  have hy := y.toNat_lt
  have hhigh := hd _ (by omega) _ (by omega) hhigh
  have hlow := hd _ (by omega) _ (by omega) hlow
  exact UInt8.toNat_inj.mp (by omega)

theorem upperHex_injective {x y : Bytes} (h : upperHex x = upperHex y) : x = y := by
  have htexts : ∀ z : Bytes, (upperHex z).toList = (z.map (octetText upperDigits)).flatMap String.toList :=
    fun z => String.toList_join
  have hlist := congrArg String.toList h
  rw [htexts, htexts] at hlist
  clear h
  induction x generalizing y with
  | nil =>
    cases y with
    | nil => rfl
    | cons b y => simp [octetText] at hlist
  | cons a x ih =>
    cases y with
    | nil => simp [octetText] at hlist
    | cons b y =>
      obtain ⟨hfirst, hrest⟩ := List.append_inj hlist (by simp [octetText])
      rw [octetText_injective distinct_upperDigits (String.toList_inj.mp hfirst), ih hrest]

end Bytes
end CertRotation
