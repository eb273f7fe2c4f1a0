import Mathlib.Tactic.IntervalCases
import CertRotation.Pem.Base64
import CertRotation.Text.Blank
import CertRotation.Proofs.Numbers
import CertRotation.Proofs.Text.PlainText

/-!
# Base 64 read back

Every symbol stands for its six bits again, and four of them give back
three octets. What `Base64.encode` writes, `Base64.decode` reads.
-/
namespace CertRotation

namespace Base64

/-! ## Symbols -/

theorem map_value?_alphabet :
    alphabet.map (fun c => value? (plainOctet c)) = (List.range 64).map fun i => some (UInt8.ofNat i) := by decide

/-- No symbol is the padding sign, a dash or blank. -/
def isSymbol (c : Char) : Bool := c.toNat < 128 && plainOctet c != pad && c != '-' && !Text.isBlank c

theorem all_isSymbol_alphabet : alphabet.all isSymbol = true := by decide

theorem plain_alphabet {c : Char} (h : c ∈ alphabet) :
    c.toNat < 128 ∧ plainOctet c ≠ pad ∧ c ≠ '-' ∧ Text.isBlank c = false := by
  have hc := List.all_eq_true.mp all_isSymbol_alphabet c h
  simpa [isSymbol, and_assoc] using hc

theorem symbol_index_lt (v : UInt8) : v.toNat % 64 < alphabet.length := Nat.mod_lt _ (by decide)

theorem symbol_eq (v : UInt8) : symbol v = alphabet.get ⟨v.toNat % 64, symbol_index_lt v⟩ := by
  rw [symbol, List.getD_eq_getElem?_getD, List.getElem?_eq_getElem (symbol_index_lt v), Option.getD_some]
  rfl

theorem symbol_mem (v : UInt8) : symbol v ∈ alphabet := symbol_eq v ▸ List.getElem_mem _

theorem plainOctet_symbol_ne_pad (v : UInt8) : plainOctet (symbol v) ≠ pad :=
  (plain_alphabet (symbol_mem v)).2.1

theorem value?_symbol (v : UInt8) : value? (plainOctet (symbol v)) = some (v &&& 0x3f) := by
  have hlt := symbol_index_lt v
  have hget := congrArg (·[v.toNat % 64]?) map_value?_alphabet
  simp only [List.getElem?_map, List.getElem?_eq_getElem hlt, Option.map_some,
    List.getElem?_range (Nat.mod_lt v.toNat (show 0 < 64 by decide)), Option.some.injEq] at hget
  have hmask : v &&& 0x3f = UInt8.ofNat (v.toNat % 64) := by
    apply UInt8.toNat_inj.mp
    rw [UInt8.toNat_and, UInt8.toNat_ofNat', show (0x3f : UInt8).toNat = 2 ^ 6 - 1 by rfl,
      Nat.and_two_pow_sub_one_eq_mod]
    omega
  rw [symbol_eq, List.get_eq_getElem, hget, hmask]

theorem mem_encode {b : Bytes} {c : Char} (h : c ∈ encode b) : (∃ v, c = symbol v) ∨ c = '=' := by
  fun_induction encode b with
  | case1 => simp at h
  | case2 a =>
    simp only [List.mem_cons, List.not_mem_nil, or_false] at h
    grind
  | case3 a b =>
    simp only [List.mem_cons, List.not_mem_nil, or_false] at h
    grind
  | case4 a b d rest ih =>
    simp only [List.mem_cons] at h
    grind

theorem values_symbols (offset : Nat) (vs : List UInt8) :
    values offset (vs.map fun v => plainOctet (symbol v)) = .ok (vs.map (· &&& 0x3f)) := by
  induction vs generalizing offset with
  | nil => rfl
  | cons v vs ih => simp only [List.map_cons, values, value?_symbol, ih]; rfl

/-! ## Three octets in four symbols -/

theorem pack_first (a b : UInt8) :
    (((a >>> 2) &&& 0x3f) <<< 2) ||| ((((a <<< 4) ||| (b >>> 4)) &&& 0x3f) >>> 4) = a := by
  apply UInt8.toBitVec_inj.mp
  apply BitVec.eq_of_getLsbD_eq
  intro i hi
  interval_cases i <;> simp

theorem pack_second (a b c : UInt8) :
    ((((a <<< 4) ||| (b >>> 4)) &&& 0x3f) <<< 4) ||| ((((b <<< 2) ||| (c >>> 6)) &&& 0x3f) >>> 2) = b := by
  apply UInt8.toBitVec_inj.mp
  apply BitVec.eq_of_getLsbD_eq
  intro i hi
  interval_cases i <;> simp

theorem pack_third (b c : UInt8) :
    ((((b <<< 2) ||| (c >>> 6)) &&& 0x3f) <<< 6) ||| (c &&& 0x3f) = c := by
  apply UInt8.toBitVec_inj.mp
  apply BitVec.eq_of_getLsbD_eq
  intro i hi
  interval_cases i <;> simp

def sextets : Bytes → List UInt8
  | a :: b :: c :: rest =>
    (a >>> 2) :: ((a <<< 4) ||| (b >>> 4)) :: ((b <<< 2) ||| (c >>> 6)) :: c :: sextets rest
  | _ => []

theorem pack_sextets {b : Bytes} (h : b.length % 3 = 0) : pack ((sextets b).map (· &&& 0x3f)) = b := by
  fun_induction sextets b with
  | case1 a b c rest ih =>
    have hrest : rest.length % 3 = 0 := by simp only [List.length_cons] at h; omega
    simp only [List.map_cons, pack, pack_first, pack_second, pack_third, ih hrest]
  | case2 b hb =>
    match b, h, hb with
    | [], _, _ => rfl
    | a :: b :: c :: rest, _, hb => exact absurd rfl (hb a b c rest)

theorem length_sextets {b : Bytes} (h : b.length % 3 = 0) : (sextets b).length % 4 = 0 := by
  fun_induction sextets b with
  | case1 a b c rest ih =>
    have hrest : rest.length % 3 = 0 := by simp only [List.length_cons] at h; omega
    have := ih hrest
    simp only [List.length_cons]
    omega
  | case2 => rfl

theorem encode_append {front : Bytes} (h : front.length % 3 = 0) (last : Bytes) :
    encode (front ++ last) = (sextets front).map symbol ++ encode last := by
  fun_induction sextets front with
  | case1 a b c rest ih =>
    have hrest : rest.length % 3 = 0 := by simp only [List.length_cons] at h; omega
    simp only [List.cons_append, encode, ih hrest, List.map_cons]
  | case2 b hb =>
    match b, h, hb with
    | [], _, _ => rfl
    | a :: b :: c :: rest, _, hb => exact absurd rfl (hb a b c rest)

/-! ## The last group -/

/-- A last group of symbols and padding, no bits of which are to spare. -/
theorem decodeLast_symbols (offset : Nat) (vs : List UInt8) (n : Nat) (h2 : 2 ≤ vs.length) (h4 : (vs.length + n) % 4 = 0)
    (hspare : spareBits (vs.map (· &&& 0x3f)) = 0) :
    decodeLast offset ((vs.map fun v => plainOctet (symbol v)) ++ List.replicate n pad) =
      .ok (pack (vs.map (· &&& 0x3f))) := by
  have hsymbols : ∀ x ∈ vs.map (fun v => plainOctet (symbol v)), (x != pad) = true := by
    intro x hx
    obtain ⟨v, -, rfl⟩ := List.mem_map.mp hx
    exact bne_iff_ne.mpr (plainOctet_symbol_ne_pad v)
  have htake : ((vs.map fun v => plainOctet (symbol v)) ++ List.replicate n pad).takeWhile (· != pad) =
      vs.map fun v => plainOctet (symbol v) := by
    rw [List.takeWhile_append_of_pos hsymbols]
    cases n <;> simp [List.replicate_succ]
  have hdrop : ((vs.map fun v => plainOctet (symbol v)) ++ List.replicate n pad).dropWhile (· != pad) =
      List.replicate n pad := by
    rw [List.dropWhile_append_of_pos hsymbols]
    cases n <;> simp [List.replicate_succ]
  have hn : ¬ vs.length < 2 := by omega
  unfold decodeLast
  simp only [htake, hdrop, values_symbols, List.length_map, List.length_append, List.length_replicate]
  simp [hn, h4, hspare, bind, Except.bind, pure, Except.pure]

theorem spare_four (a : UInt8) : ((a <<< 4) &&& 0x3f) &&& 0x0f = 0 := by
  apply UInt8.toBitVec_inj.mp
  apply BitVec.eq_of_getLsbD_eq
  intro i hi
  interval_cases i <;> simp

theorem spare_two (b : UInt8) : ((b <<< 2) &&& 0x3f) &&& 0x03 = 0 := by
  apply UInt8.toBitVec_inj.mp
  apply BitVec.eq_of_getLsbD_eq
  intro i hi
  interval_cases i <;> simp

theorem decodeLast_encode (offset : Nat) {last : Bytes} (h0 : last ≠ []) (h3 : last.length ≤ 3) :
    decodeLast offset ((encode last).map plainOctet) = .ok last := by
  match last, h0, h3 with
  | [a], _, _ =>
    have h := decodeLast_symbols offset [a >>> 2, a <<< 4] 2 (by simp) (by simp) (spare_four a)
    have hpack := pack_first a 0
    simp only [UInt8.zero_shiftRight, UInt8.or_zero] at hpack
    simp only [List.map_cons, List.map_nil, pack, hpack] at h
    exact h
  | [a, b], _, _ =>
    have h := decodeLast_symbols offset [a >>> 2, (a <<< 4) ||| (b >>> 4), b <<< 2] 1 (by simp) (by simp)
      (spare_two b)
    have hpack := pack_second a b 0
    simp only [UInt8.zero_shiftRight, UInt8.or_zero] at hpack
    simp only [List.map_cons, List.map_nil, pack, pack_first, hpack] at h
    exact h
  | [a, b, c], _, _ =>
    have h := decodeLast_symbols offset (sextets [a, b, c]) 0 (by simp [sextets]) (by simp [sextets]) rfl
    rw [pack_sextets (show [a, b, c].length % 3 = 0 by simp)] at h
    exact h

theorem length_encode_last {last : Bytes} (h0 : last ≠ []) (h3 : last.length ≤ 3) : (encode last).length = 4 := by
  match last, h0, h3 with
  | [_], _, _ => rfl
  | [_, _], _, _ => rfl
  | [_, _, _], _, _ => rfl

/-! ## The whole text -/

theorem decode_append {head group rest : Bytes} {vs : List UInt8} (hh : head.length % 4 = 0) (hg : group.length = 4)
    (hv : values 0 head = .ok vs) (hl : decodeLast head.length group = .ok rest) :
    decode (head ++ group) = .ok (pack vs ++ rest) := by
  have hextra : (head.length + 4) % 4 = 0 := by omega
  unfold decode
  simp only [List.length_append, hg, hextra, if_true, Nat.add_sub_cancel, List.take_left, List.drop_left, hv, hl]
  rfl

/-- What is written is read back. -/
theorem decode_encode (b : Bytes) : decode ((encode b).map plainOctet) = .ok b := by
  by_cases hb : b = []
  · subst hb
    rfl
  have hlen : 0 < b.length := List.length_pos_iff.mpr hb
  -- the last group keeps one, two or three octets
  obtain ⟨n, hn, hlt, hle⟩ : ∃ n, n % 3 = 0 ∧ n < b.length ∧ b.length ≤ n + 3 :=
    ⟨3 * ((b.length - 1) / 3), by omega, by omega, by omega⟩
  have hfront : (b.take n).length % 3 = 0 := by rw [List.length_take]; omega
  have hlast : b.drop n ≠ [] := fun h => by have := List.drop_eq_nil_iff.mp h; omega
  have hthree : (b.drop n).length ≤ 3 := by rw [List.length_drop]; omega
  have hsymbols : ((sextets (b.take n)).map fun v => plainOctet (symbol v)).length % 4 = 0 := by
    rw [List.length_map, length_sextets hfront]
  have h := decode_append hsymbols (by rw [List.length_map, length_encode_last hlast hthree])
    (values_symbols 0 (sextets (b.take n))) (decodeLast_encode _ hlast hthree)
  rw [pack_sextets hfront, List.take_append_drop] at h
  rw [← List.take_append_drop n b, encode_append hfront, List.map_append, List.map_map, List.take_append_drop]
  exact h

end Base64
end CertRotation
