import CertRotation.Text.Utf8

/-!
# Plain text

Characters below 128 are one octet each, and are read as they were written.
-/
namespace CertRotation

theorem ByteArray.toList_loop (b : ByteArray) (i : Nat) (r : Bytes) :
    ByteArray.toList.loop b i r = r.reverse ++ b.data.toList.drop i := by
  fun_induction ByteArray.toList.loop b i r with
  | case1 i r hi ih =>
    have hlt : i < b.data.toList.length := by simpa using hi
    rw [ih, List.drop_eq_getElem_cons hlt, List.reverse_cons, List.append_assoc]
    have hget : b.get! i = b.data.toList[i] := by
      show b.data[i]! = _
      rw [getElem!_pos b.data i (by simpa using hi), Array.getElem_toList]
    rw [hget]
    rfl
  | case2 i r hi =>
    have hle : b.data.toList.length ≤ i := by simpa using hi
    rw [List.drop_eq_nil_of_le hle, List.append_nil]

theorem ByteArray.toList_toByteArray (l : Bytes) : l.toByteArray.toList = l := by
  rw [ByteArray.toList, ByteArray.toList_loop]
  simp

/-- The characters of a known text are checked one by one. -/
theorem ascii_of_all {cs : List Char} (h : (cs.all fun c => c.toNat < 128) = true) : ∀ c ∈ cs, c.toNat < 128 :=
  fun c hc => of_decide_eq_true (List.all_eq_true.mp h c hc)

def plainOctet (c : Char) : UInt8 := UInt8.ofNat c.toNat

theorem Bytes.ofString_ofList {cs : List Char} (h : ∀ c ∈ cs, c.toNat < 128) :
    Bytes.ofString (String.ofList cs) = cs.map plainOctet := by
  have hencode : cs.flatMap String.utf8EncodeChar = cs.map plainOctet := by
    induction cs with
    | nil => rfl
    | cons c cs ih =>
      have hc : c.val.toNat ≤ 0x7f := Nat.le_of_lt_succ (h c List.mem_cons_self)
      rw [List.flatMap_cons, List.map_cons, ih fun d hd => h d (List.mem_cons_of_mem _ hd), String.utf8EncodeChar,
        if_pos hc]
      rfl
  unfold Bytes.ofString String.toUTF8
  rw [String.toByteArray_ofList, List.utf8Encode, hencode, ByteArray.toList_toByteArray]

namespace Utf8

theorem scan_plain {cs : List Char} (h : ∀ c ∈ cs, c.toNat < 128) : scan (cs.map plainOctet) = cs.map some := by
  induction cs with
  | nil => rw [List.map_nil, scan, List.map_nil]
  | cons c cs ih =>
    have hc : c.toNat < 128 := h c List.mem_cons_self
    have hoctet : (plainOctet c).toNat = c.toNat := by
      rw [plainOctet, UInt8.toNat_ofNat']
      omega
    have hlow : plainOctet c < 0x80 := by rw [UInt8.lt_iff_toNat_lt, hoctet]; exact hc
    rw [List.map_cons, scan, next, if_pos hlow, hoctet, Char.ofNat_toNat]
    simp only [List.drop_zero, ih fun d hd => h d (List.mem_cons_of_mem _ hd), List.map_cons]

/-- Plain text is read as it is written. -/
theorem decode?_ofString {s : String} (h : ∀ c ∈ s.toList, c.toNat < 128) : decode? (Bytes.ofString s) = some s := by
  have hmapM : ∀ cs : List Char, (cs.map some).mapM id = some cs := by
    intro cs
    induction cs with
    | nil => rfl
    | cons c cs ih => rw [List.map_cons, List.mapM_cons, ih]; rfl
  have hoctets : Bytes.ofString s = s.toList.map plainOctet := by
    rw [← Bytes.ofString_ofList h, String.ofList_toList]
  rw [hoctets, decode?, scan_plain h, hmapM, Option.map_some, String.ofList_toList]

end Utf8
end CertRotation
