import CertRotation.Proofs.Numbers
import CertRotation.Text.Utf16

/-!
# UTF-16 is read as it was written

Characters of the basic plane are one unit each, and none of them is a surrogate.
-/
namespace CertRotation.Utf16

theorem units?_encode {l : List Char} (h : ∀ c ∈ l, isBasic c = true) :
    units? (l.flatMap fun c => Bytes.ofNat 2 c.toNat) = some (l.map Char.toNat) := by
  induction l with
  | nil => rfl
  | cons c l ih =>
    have hc : c.toNat < 0xffff := by simpa [isBasic] using h c (by simp)
    have hunit : 256 * (UInt8.ofNat (c.toNat >>> 8)).toNat + (UInt8.ofNat c.toNat).toNat = c.toNat := by
      simp only [UInt8.toNat_ofNat', Nat.shiftRight_eq_div_pow]
      omega
    rw [List.flatMap_cons, show Bytes.ofNat 2 c.toNat = [UInt8.ofNat (c.toNat >>> 8), UInt8.ofNat c.toNat] from rfl]
    rw [List.cons_append, List.singleton_append, units?, ih fun d hd => h d (by simp [hd]), hunit]
    rfl

theorem decodeUnits?_toNat {l : List Char} (h : ∀ c ∈ l, isBasic c = true) :
    decodeUnits? (l.map Char.toNat) = some l := by
  induction l with
  | nil => rfl
  | cons c l ih =>
    have hc : c.toNat < 0xffff := by simpa [isBasic] using h c (by simp)
    have hsurrogate : ¬ (0xd800 ≤ c.toNat ∧ c.toNat < 0xe000) := by
      have hv := c.valid
      unfold UInt32.isValidChar Nat.isValidChar at hv
      unfold Char.toNat
      omega
    rw [List.map_cons, decodeUnits?.eq_def]
    simp only
    rw [if_neg (by omega), if_neg (by omega), ih fun d hd => h d (by simp [hd]), Char.ofNat_toNat]
    rfl

theorem decodeBasic?_of_encode {s : String} {b : Bytes} (h : encodeBasic? s = some b) : decodeBasic? b = some s := by
  unfold encodeBasic? at h
  split at h
  · next hall =>
    obtain rfl := Option.some.inj h
    have hbasic : ∀ c ∈ s.toList, isBasic c = true := by simpa using hall
    simp only [decodeBasic?, decode?, units?_encode hbasic, Option.bind_some, decodeUnits?_toNat hbasic,
      Option.map_some, String.ofList_toList, Option.filter, hall]
    rfl
  · simp at h

end CertRotation.Utf16
