import CertRotation.Proofs.Asn1.DerExact
import CertRotation.Proofs.Bundle.CanonicalForm
import CertRotation.Proofs.Bundle.Stages
import CertRotation.Proofs.Certificate.Names
import CertRotation.Proofs.Text.WellFormed

/-!
# Formats and decoders

What a file seems to be is a guess from its octets, and decoders read all of them. Every file that is decoded as a bundle
seems to be one, and every text with a certificate seems to be PEM. A certificate seems to be one unless it is a short text
with a marker in it, or names plain data early, both of which it may do.
-/
namespace CertRotation
open CertRotation.Bundle

namespace Format

/-- Text with a BEGIN marker somewhere in it. -/
def Marked (data : Bytes) : Prop := ∃ text, Utf8.decode? data = some text ∧ Pem.beginMarker <:+: text.toList

/-- A sequence with the identifier of plain data among its first fifty octets. -/
def NamesData (data : Bytes) : Prop := data.head? = some 0x30 ∧ dataOid <:+: data.take 50

section
variable {data front back : Bytes}

/-! ## The guess -/

theorem contains_iff {α : Type} [BEq α] [LawfulBEq α] {pattern s : List α} : contains pattern s = true ↔ pattern <:+: s := by
  induction s with
  | nil => simp [contains]
  | cons x s ih => rw [contains, Bool.or_eq_true, ih, List.infix_cons_iff, List.isPrefixOf_iff_prefix]

theorem looksLikePem_iff : looksLikePem data = true ↔ Marked data := by
  unfold looksLikePem Marked
  cases Utf8.decode? data with
  | none => simp
  | some text => simp [contains_iff]

theorem looksLikePkcs12_iff : looksLikePkcs12 data = true ↔ NamesData data := by
  have hfirst : data.headD 0 = 0x30 ↔ data.head? = some 0x30 := by
    cases data with
    | nil => decide
    | cons b data => simp
  simp only [looksLikePkcs12, NamesData, Bool.and_eq_true, decide_eq_true_eq, contains_iff, hfirst]
  constructor
  · exact fun h => ⟨h.1.2, h.2⟩
  · rintro ⟨hhead, hoid⟩
    have hlen := hoid.length_le
    rw [List.length_take, show dataOid.length = 11 from rfl] at hlen
    exact ⟨⟨by omega, hhead⟩, hoid⟩

theorem detect?_of_marked (h : Marked data) : detect? data = some pem := by
  rw [detect?, if_pos (looksLikePem_iff.mpr h)]

theorem detect?_of_namesData (h : ¬ Marked data) (hnames : NamesData data) : detect? data = some pkcs12 := by
  rw [detect?, if_neg (mt looksLikePem_iff.mp h), if_pos (looksLikePkcs12_iff.mpr hnames)]

theorem detect?_of_read (h : ¬ Marked data) (hnames : ¬ NamesData data) (hread : (Certificate.read? data).isSome) :
    detect? data = some der := by
  rw [detect?, if_neg (mt looksLikePem_iff.mp h), if_neg (mt looksLikePkcs12_iff.mp hnames), if_pos hread]

/-- The identifier holds an octet that no text has there. -/
theorem not_marked_of_dataOid (front back : Bytes) : ¬ Marked (front ++ dataOid ++ back) := by
  rintro ⟨text, htext, -⟩
  have hsplit : front ++ dataOid ++ back =
      (front ++ [0x06, 0x09]) ++ 0x2a :: 0x86 :: ([0x48, 0x86, 0xf7, 0x0d, 0x01, 0x07, 0x01] ++ back) := by
    simp [dataOid]
  rw [hsplit] at htext
  have hlead := (Utf8.exists_of_decode? (by decide) (by decide) (Option.isSome_of_eq_some htext)).1
  exact absurd hlead (by decide)

theorem infix_take {pattern : Bytes} {n : Nat} (h : front.length + pattern.length ≤ n) (back : Bytes) :
    pattern <:+: (front ++ pattern ++ back).take n := by
  rw [List.take_append, List.take_of_length_le (by simpa using h)]
  exact List.infix_append _ _ _

end
end Format

/-! ## Bundles -/

namespace Keystore
open Der

/-- What stands in a sequence comes after six octets at most. -/
theorem exists_of_sequence {α : Type} {r : Reader α} {b rest : Bytes} {a : α}
    (h : (sequence r).run b = some (a, rest)) :
    ∃ l c, b = 0x30 :: l ++ c ++ rest ∧ l.length ≤ 5 ∧ r.whole? c = some a := by
  obtain ⟨used, rfl, c, rfl, hfits, hwhole⟩ := (exact_nested (by decide) (fun _ _ => Iff.rfl) b a rest).mp h
  have hlen := Write.length_tlv_le (t := 0x30) (c := c) (lt_of_le_of_lt hfits (by decide))
  simp only [Write.tlv, List.length_cons, List.length_append] at hlen
  exact ⟨Write.length c.length, c, rfl, by omega, hwhole⟩

/-- A part begins with its type. -/
theorem exists_of_part {b rest : Bytes} {p : Part} (h : Part.reader.run b = some (p, rest)) :
    ∃ l back, b = 0x30 :: l ++ Write.oid p.type ++ back ∧ l.length ≤ 5 := by
  obtain ⟨l, c, rfl, hl, hwhole⟩ := exists_of_sequence h
  rw [whole?_eq_some, exact_oid.run_bind] at hwhole
  obtain ⟨type, _, fields, rfl, ⟨rfl, -⟩, hcontent⟩ := hwhole
  obtain ⟨o, _, -, hlast⟩ := run_bind_iff.mp hcontent
  cases o with
  | none => cases hlast
  | some content =>
    obtain ⟨rfl, -⟩ := Prod.mk.inj (Option.some.inj hlast)
    exact ⟨l, fields ++ rest, by simp, hl⟩

/-- A keystore begins with its version, and the type of its body stands behind that. -/
theorem exists_of_envelope {data : Bytes} {v : Envelope} (h : Envelope.reader.whole? data = some v) :
    ∃ front back, data = 0x30 :: front ++ Write.oid v.body.type ++ back ∧ front.length ≤ 14 := by
  obtain ⟨l, c, rfl, hl, hwhole⟩ := exists_of_sequence (whole?_eq_some.mp h)
  rw [whole?_eq_some, exact_natural.run_bind] at hwhole
  obtain ⟨version, _, fields, rfl, ⟨rfl, -⟩, hfields⟩ := hwhole
  rw [(exact_require _).run_bind] at hfields
  obtain ⟨-, _, _, rfl, ⟨rfl, hversion⟩, hfields⟩ := hfields
  obtain rfl : version = 3 := of_decide_eq_true hversion
  obtain ⟨body, middle, hbody, hmac⟩ := run_bind_iff.mp hfields
  obtain ⟨mac, _, -, hlast⟩ := run_bind_iff.mp hmac
  obtain ⟨rfl, -⟩ := Prod.mk.inj (Option.some.inj hlast)
  obtain ⟨l', back, rfl, hl'⟩ := exists_of_part hbody
  have hthree : Write.natural 3 = [0x02, 0x01, 0x03] := by decide
  refine ⟨l ++ (Write.natural 3 ++ 0x30 :: l'), back, by simp, ?_⟩
  rw [hthree]
  simp only [List.length_append, List.length_cons, List.length_nil]
  omega

theorem type_of_reveal {v : Envelope} {password : String} {body : Bytes} (h : v.reveal password = .ok body) :
    v.body.type = dataOid := by
  unfold Envelope.reveal at h
  cases hmac : v.mac with
  | none =>
    simp only [hmac] at h
    exact not_not.mp (guard_eq_ok.mp h).1
  | some m =>
    simp only [hmac] at h
    obtain ⟨_, -, h⟩ := bind_eq_ok.mp h
    exact not_not.mp (guard_eq_ok.mp h).1

theorem exists_of_read {data : Bytes} {password : String} {named : Entries} (h : read data password = .ok named) :
    ∃ front back, data = 0x30 :: front ++ Format.dataOid ++ back ∧ front.length ≤ 14 := by
  obtain ⟨items, hitems, -⟩ := bind_eq_ok.mp h
  obtain ⟨v, hv, hrest⟩ := bind_eq_ok.mp hitems
  obtain ⟨body, hbody, -⟩ := bind_eq_ok.mp hrest
  have henvelope : Envelope.reader.whole? data = some v := orError_eq_ok.mp hv
  have hoid : Write.oid dataOid = Format.dataOid := by cbv
  obtain ⟨front, back, hdata, hfront⟩ := exists_of_envelope henvelope
  rw [type_of_reveal hbody, hoid] at hdata
  exact ⟨front, back, hdata, hfront⟩

end Keystore

/-! ## Certificates -/

namespace Asn1

/-- A length of nine octets or more that does not begin with zeros is too long. -/
theorem lengthValue?_eq_none {x : UInt8} {digits : Bytes} (hx : 0 < x.toNat) (hlen : 8 ≤ digits.length) :
    lengthValue? (x :: digits) = none := by
  have hlarge : 0x10000000000000000 ≤ Bytes.toNat (x :: digits) := by
    rw [Bytes.toNat_cons]
    calc 0x10000000000000000 = 1 * 256 ^ 8 := by norm_num
      _ ≤ x.toNat * 256 ^ digits.length := Nat.mul_le_mul hx (Nat.pow_le_pow_right (by decide) hlen)
      _ ≤ _ := Nat.le_add_right _ _
  exact if_neg (Nat.not_lt.mpr hlarge)

theorem run_octet (x : UInt8) (b : Bytes) : octet.run (x :: b) = some (x, b) := rfl

theorem run_refuse {α : Type} (b : Bytes) : (refuse : Reader α).run b = none := rfl

/-- A sequence with a short length. -/
theorem run_header_short {l : UInt8} (h : l < 0x80) (rest : Bytes) :
    header.run (0x30 :: l :: rest) = some (⟨0, true, 16, some l.toNat⟩, rest) := by
  have hfirst : (0x30 : UInt8) >>> 6 = 0 ∧ (0x30 : UInt8) &&& 0x20 ≠ 0 := by decide
  simp [header, run_octet, h, hfirst.1, hfirst.2]

/-- A sequence that might be text, with a length of its own octets, is not read. -/
theorem run_header_long {l x : UInt8} (hl : 0xc2 ≤ l) (hx : 0x80 ≤ x) (rest : Bytes) :
    header.run (0x30 :: l :: x :: rest) = none := by
  have hnat : 0xc2 ≤ l.toNat := hl
  have hlong : ¬ l < 0x80 := fun h => absurd (UInt8.lt_iff_toNat_lt.mp h) (by simp; omega)
  have hdefinite : ¬ l = 0x80 := fun h => by simp [h] at hnat
  have hdigits : ∀ digits after, (take (l.toNat - 0x80)).run (x :: rest) = some (digits, after) →
      (ofOption (lengthValue? digits)).run after = none := by
    intro digits after h
    obtain ⟨hsplit, hcount⟩ := run_take_eq_some.mp h
    cases digits with
    | nil =>
      rw [List.length_nil] at hcount
      omega
    | cons y digits =>
      obtain ⟨rfl, -⟩ := List.cons.inj hsplit
      rw [List.length_cons] at hcount
      rw [lengthValue?_eq_none (Nat.lt_of_lt_of_le (by decide) (UInt8.le_iff_toNat_le.mp hx)) (by omega)]
      rfl
  by_cases hmax : l = 0xff
  · simp [header, run_octet, hmax, run_refuse]
  · simpa [header, run_octet, hlong, hdefinite, hmax] using hdigits

end Asn1

namespace Certificate
open Asn1

/-- A sequence that is a certificate and text is short. -/
theorem length_of_text {data : Bytes} {c : Certificate} (hread : read? data = some (c, []))
    (hhead : data.head? = some 0x30) (htext : (Utf8.decode? data).isSome) : data.length ≤ 129 := by
  obtain ⟨e, -, helement, -⟩ := run_inside_eq_some hread
  obtain ⟨h, after, hheader, hcontents⟩ := run_bind_iff.mp (run_numbered_eq_some helement)
  rcases data with _ | ⟨first, _ | ⟨l, rest⟩⟩
  · cases hhead
  · simp
  obtain rfl := Option.some.inj hhead
  by_cases hl : l < 0x80
  · rw [run_header_short hl] at hheader
    obtain ⟨rfl, rfl⟩ := Prod.mk.inj (Option.some.inj hheader)
    obtain ⟨contents, last, htake, hlast⟩ := run_bind_iff.mp hcontents
    obtain ⟨-, rfl⟩ := Prod.mk.inj (Option.some.inj hlast)
    obtain ⟨rfl, hcount⟩ := run_take_eq_some.mp htake
    have hbound : l.toNat < 0x80 := hl
    simp only [List.length_cons, List.append_nil, hcount]
    omega
  · obtain ⟨hlead, x, rest', rfl, hx⟩ := Utf8.exists_of_decode? (x := []) (by decide) hl htext
    rw [run_header_long hlead hx] at hheader
    cases hheader

end Certificate

/-! ## Texts -/

/-- A text is only read as PEM if the marker stands in it. -/
theorem Pem.infix_of_parse {text : String} {p : Pem} (h : Pem.parse text = .ok p) : beginMarker <:+: text.toList := by
  unfold parse at h
  split at h
  · cases h
  · next r rest hregion =>
    obtain ⟨⟨before, after⟩, hseek, -⟩ := Option.bind_eq_some_iff.mp hregion
    exact ⟨before, after, ((seek_eq_some_iff (by decide)).mp hseek).1.symm⟩

namespace Format

section
variable {data : Bytes} {password : String}

/-! ## Guesses and decoders -/

theorem detect?_of_decode {b : Bundle} (h : Bundle.decode data password = .ok b) : detect? data = some pkcs12 := by
  obtain ⟨named, hread, -⟩ := decode_eq_ok h
  obtain ⟨front, back, rfl, hfront⟩ := Keystore.exists_of_read hread
  refine detect?_of_namesData (not_marked_of_dataOid _ _) ⟨rfl, infix_take ?_ back⟩
  rw [List.length_cons, show dataOid.length = 11 from rfl]
  omega

theorem marked_of_ofPem {text : String} {der : Bytes} (htext : Utf8.decode? data = some text)
    (h : Certificate.ofPem text = .ok der) : Marked data := by
  obtain ⟨_, p, hp, -⟩ := Certificate.ofPem_iff_certifies.mp h
  exact ⟨text, htext, Pem.infix_of_parse hp⟩

/-- What a certificate seems to be. -/
inductive Seems (data : Bytes) : Format → Prop
  | pem (marked : Marked data) (short : data.head? = some 0x30 → data.length ≤ 129) : Seems data .pem
  | pkcs12 (unmarked : ¬ Marked data) (names : NamesData data) : Seems data .pkcs12
  | der (unmarked : ¬ Marked data) (nameless : ¬ NamesData data) : Seems data .der

theorem exists_seems {c : Certificate} (h : Certificate.parse data = .ok c) :
    ∃ f, detect? data = some f ∧ Seems data f := by
  have hread := Certificate.parse_eq_ok.mp h
  by_cases hmarked : Marked data
  · refine ⟨pem, detect?_of_marked hmarked, .pem hmarked fun hhead => ?_⟩
    obtain ⟨text, htext, -⟩ := hmarked
    exact Certificate.length_of_text hread hhead (Option.isSome_of_eq_some htext)
  · by_cases hnames : NamesData data
    · exact ⟨pkcs12, detect?_of_namesData hmarked hnames, .pkcs12 hmarked hnames⟩
    · exact ⟨der, detect?_of_read hmarked hnames (Option.isSome_of_eq_some hread), .der hmarked hnames⟩

/-- A hint names what a file seems to be, and never a bundle. -/
theorem hint_eq {e : Keystore.Error} {f : Format}
    (h : Bundle.decode data password = .error (.decode (.keystore e (some f)))) :
    detect? data = some f ∧ f ≠ pkcs12 := by
  unfold Bundle.decode at h
  split at h
  · obtain ⟨-, hformat⟩ := DecodeError.keystore.inj (Error.decode.inj (Except.error.inj h))
    simpa [otherFormat?, Option.filter_eq_some_iff] using hformat
  · obtain ⟨x, -, hx⟩ := mapError_eq_error.mp h
    cases hx

end

/-- A file that is decoded as a bundle seems to be one, and a text that is read as a PEM certificate seems to be PEM. A
certificate seems to be one, but for a marker that makes it seem PEM, and it is short then, or for the identifier of plain
data near its front that makes it seem a bundle. A hint goes by that: it is only given for files that no password opens, and
it is right about certificates without the marker and about texts with certificates. -/
theorem detect_agrees (data : Bytes) :
    (∀ password b, Bundle.decode data password = .ok b → detect? data = some pkcs12) ∧
    (∀ c, Certificate.parse data = .ok c → ∃ f, detect? data = some f ∧ Seems data f) ∧
    (∀ text der, Utf8.decode? data = some text → Certificate.ofPem text = .ok der → detect? data = some pem) ∧
    ∀ password e f, Bundle.decode data password = .error (.decode (.keystore e (some f))) →
      (∀ password' b, Bundle.decode data password' ≠ .ok b) ∧
      (∀ c, Certificate.parse data = .ok c → f = der ∧ ¬ Marked data ∨ f = pem ∧ Marked data) ∧
      ∀ text der, Utf8.decode? data = some text → Certificate.ofPem text = .ok der → f = pem := by
  refine ⟨fun password b => detect?_of_decode, fun c => exists_seems,
    fun text der htext h => detect?_of_marked (marked_of_ofPem htext h), fun password e f hhint => ?_⟩
  obtain ⟨hguess, hother⟩ := hint_eq hhint
  refine ⟨fun password' b h => ?_, fun c hc => ?_, fun text der htext h => ?_⟩
  · exact hother (Option.some.inj (hguess.symm.trans (detect?_of_decode h)))
  · obtain ⟨f', hguess', hseems⟩ := exists_seems hc
    obtain rfl := Option.some.inj (hguess.symm.trans hguess')
    cases hseems with
    | pem hmarked => exact .inr ⟨rfl, hmarked⟩
    | pkcs12 => exact absurd rfl hother
    | der hmarked => exact .inl ⟨rfl, hmarked⟩
  · exact Option.some.inj (hguess.symm.trans (detect?_of_marked (marked_of_ofPem htext h)))

/-! ## Certificates that seem to be something else -/

/-- A certificate without an issuer's name, with this serial number, whose subject is called `name`. -/
def plainCertificate (serial : Nat) (name : String) : Bytes :=
  let commonName : Bytes := Der.Write.oid (.ofArcs [2, 5, 4, 3])
  Der.Write.sequence [
    Der.Write.sequence [Der.Write.natural serial, Der.Write.sequence [commonName], Der.Write.sequence [],
      Der.Write.sequence [Der.Write.tlv 0x17 (Bytes.ofString "250101000000Z"),
        Der.Write.tlv 0x17 (Bytes.ofString "260101000000Z")],
      Der.Write.sequence [Der.Write.tlv 0x31 (Der.Write.sequence [commonName,
        Der.Write.tlv 0x0c (Bytes.ofString name)])],
      Der.Write.sequence [Der.Write.sequence [commonName], Der.Write.bitString [0]]],
    Der.Write.sequence [commonName], Der.Write.bitString [0]]

/-- The subject of the first is called like the marker, and the serial number of the second has the octets of the identifier.
Both are certificates, neither seems to be one, and the hint about the first is wrong. -/
theorem detect_plainCertificate :
    (Certificate.parse (plainCertificate 3 "-----BEGIN ")).isOk = true ∧
    detect? (plainCertificate 3 "-----BEGIN ") = some pem ∧
    Bundle.decode (plainCertificate 3 "-----BEGIN ") "password" =
      .error (.decode (.keystore .malformed (some pem))) ∧
    (Certificate.parse (plainCertificate (Bytes.toNat dataOid) "x")).isOk = true ∧
    detect? (plainCertificate (Bytes.toNat dataOid) "x") = some pkcs12 := by
  decide +kernel

end Format
end CertRotation
