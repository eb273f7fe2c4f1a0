import CertRotation.Key.PrivateKey
import CertRotation.Proofs.Asn1.DerRoundTrip

/-!
# The normal form of a private key

Whatever a private key came as, its plain PKCS#8 form is read as the same key. The two older forms are written anew,
and what is written passes the checks that the key has passed before.
-/
namespace CertRotation.PrivateKey

theorem isStrict_rsaOid : RsaKey.oid.isStrict = true := by cbv
theorem isStrict_curveAlgorithm : curveAlgorithm.isStrict = true := by cbv
theorem curveAlgorithm_ne_rsaOid : curveAlgorithm ≠ RsaKey.oid := by decide_cbv

/-! ## The wrapping -/

theorem info?_wrap {algorithm inner : Bytes} {a : Der.Algorithm} (ha : Der.Reads Der.algorithm algorithm a)
    (h : Der.Fits (wrap algorithm inner)) : info? (wrap algorithm inner) = some ⟨a, inner⟩ := by
  have hinner : Der.Fits (Der.Write.octetString inner) := h.sequence (by simp)
  have hread := Der.reads_octetString hinner.contents []
  rw [List.append_nil] at hread
  refine (Der.reads_sequence h.contents ?_).whole
  apply Der.whole?_of_run
  simp only [infoFields, List.flatten_cons, List.flatten_nil, List.append_nil, StateT.run_bind,
    Der.reads_natural (n := 0) (by decide) _, Der.run_require_true (p := decide (0 ≤ 1)) (by decide), ha _,
    hread, Option.bind_eq_bind, Option.bind_some]
  rfl

/-! ## RSA -/

theorem fields_of_numbers {k : RsaKey} {d1 d2 c : Nat} {l : List Nat}
    (hl : l = [0, k.modulus, k.publicExponent, k.privateExponent, k.prime1, k.prime2, d1, d2, c])
    (h : Der.Fits (l.map Der.Write.natural).flatten) :
    RsaKey.fields.whole? (l.map Der.Write.natural).flatten = some k := by
  have hread : ∀ n ∈ l, Der.Reads Der.natural (Der.Write.natural n) n := fun n hn =>
    Der.reads_natural (h.item (List.mem_map_of_mem hn))
  subst hl
  simp only [List.mem_cons, List.not_mem_nil, or_false, forall_eq_or_imp, forall_eq] at hread
  obtain ⟨h0, hm, he, hd, hp, hq, h1, h2, hc⟩ := hread
  have hlast := hc []
  rw [List.append_nil] at hlast
  apply Der.whole?_of_run
  simp only [RsaKey.fields, List.map_cons, List.map_nil, List.flatten_cons, List.flatten_nil, List.append_nil,
    StateT.run_bind, h0 _, Der.run_require_true (p := decide True) (by decide), hm _, he _, hd _, hp _, hq _, h1 _,
    h2 _, hlast, Option.bind_eq_bind, Option.bind_some, StateT.run_pure]
  rfl

theorem parse?_of_encode {k : RsaKey} {inner : Bytes} (hs : k.isSound = true) (he : k.encode? = some inner)
    (h : Der.Fits inner) : RsaKey.parse? inner = some k := by
  obtain ⟨coefficient, -, rfl⟩ := Option.map_eq_some_iff.mp he
  have hfields := (Der.reads_sequence h.contents (fields_of_numbers rfl h.contents)).whole
  simp only [RsaKey.parse?, hfields, hs, if_true]

theorem isSound_of_parse? {b : Bytes} {k : RsaKey} (h : RsaKey.parse? b = some k) : k.isSound = true := by
  unfold RsaKey.parse? at h
  split at h
  · split at h
    · next hs => rwa [Option.some.inj h] at hs
    · simp at h
  · simp at h

theorem reads_rsaAlgorithm : Der.Reads Der.algorithm RsaKey.algorithm ⟨RsaKey.oid, some ⟨0x05, []⟩⟩ :=
  Der.reads_algorithm isStrict_rsaOid (by decide) (by cbv)

theorem ofPkcs1_eq_ok {b : Bytes} {k : PrivateKey} : ofPkcs1 b = .ok k ↔ ∃ key inner, RsaKey.parse? b = some key ∧
    key.encode? = some inner ∧ Der.Fits (wrap RsaKey.algorithm inner) ∧
      k = ⟨.rsa, wrap RsaKey.algorithm inner, key.publicKey⟩ := by
  unfold ofPkcs1
  constructor
  · intro h
    split at h
    · cases h
    · next key hkey =>
      split at h
      · cases h
      · next inner hinner =>
        dsimp only at h
        split at h
        · next hf => exact ⟨key, inner, hkey, hinner, hf, (Except.ok.inj h).symm⟩
        · cases h
  · rintro ⟨key, inner, hkey, hinner, hf, rfl⟩
    simp only [hkey, hinner]
    exact if_pos hf

theorem ofPkcs8_of_ofPkcs1 {b : Bytes} {k : PrivateKey} (h : ofPkcs1 b = .ok k) : ofPkcs8 k.encoded = .ok k := by
  obtain ⟨key, inner, hkey, hinner, hf, rfl⟩ := ofPkcs1_eq_ok.mp h
  have hoctets : Der.Fits (Der.Write.octetString inner) := Der.Fits.sequence
    (show Der.Fits (Der.Write.sequence [Der.Write.natural 0, RsaKey.algorithm, Der.Write.octetString inner]) from hf)
    (by simp)
  have hparse := parse?_of_encode (isSound_of_parse? hkey) hinner hoctets.contents
  have hinfo := info?_wrap reads_rsaAlgorithm hf
  have hrsa : (⟨⟨RsaKey.oid, some ⟨0x05, []⟩⟩, inner⟩ : Info).rsa? = some key := by
    simpa [Info.rsa?, Der.Element.isNull] using hparse
  simp only [ofPkcs8, hinfo, hrsa]

/-! ## Elliptic curves -/

/-- What the written form of a key needs of its curve. -/
structure CurveFits (c : Curve) : Prop where
  oid : c.oid.isStrict = true
  size : 24 ≤ c.size
  size_le : c.size ≤ 66
  order : c.order ≤ 256 ^ c.size

theorem curveFits_p256 : CurveFits .p256 where
  oid := by cbv
  size := by decide
  size_le := by decide
  order := by decide

theorem curveFits_p384 : CurveFits .p384 where
  oid := by cbv
  size := by decide
  size_le := by decide
  order := by decide

def ecInner (c : Curve) (secret : Nat) (xy : Nat × Nat) : Bytes :=
  Der.Write.sequence [Der.Write.natural 1, Der.Write.octetString (Bytes.ofNat c.size secret),
    Der.Write.explicit 1 (Der.Write.bitString (c.uncompressed xy))]

def ecAlgorithm (c : Curve) : Bytes := Der.Write.sequence [Der.Write.oid curveAlgorithm, Der.Write.oid c.oid]

theorem wholeBits?_zero (b : Bytes) : Der.wholeBits? (0 :: b) = some b := by
  simp [Der.wholeBits?, Der.bits?]

theorem ecFields_of_inner {c : Curve} {secret : Nat} {xy : Nat × Nat} (h : Der.Fits (ecInner c secret xy)) :
    (Der.sequence ecFields).whole? (ecInner c secret xy) =
      some ⟨Bytes.ofNat c.size secret, some (c.uncompressed xy)⟩ := by
  have hsecret : Der.Fits (Der.Write.octetString (Bytes.ofNat c.size secret)) := h.sequence (by simp)
  have hexplicit : Der.Fits (Der.Write.explicit 1 (Der.Write.bitString (c.uncompressed xy))) := h.sequence (by simp)
  have hbits : (do
      let contents ← Der.contentsOf 0x03
      Der.ofOption (Der.wholeBits? contents) : Der.Reader Bytes).whole?
      (Der.Write.bitString (c.uncompressed xy)) = some (c.uncompressed xy) := by
    have hcontents := Der.reads_contentsOf (t := 0x03) (by decide) hexplicit.contents.contents []
    rw [List.append_nil] at hcontents
    apply Der.whole?_of_run
    simp only [Der.Write.bitString, StateT.run_bind, hcontents, wholeBits?_zero, Der.run_ofOption_some,
      Option.bind_eq_bind, Option.bind_some]
  have hpoint := Der.reads_explicit (n := 1) (by decide) (by decide) (by decide) hexplicit.contents hbits []
  rw [List.append_nil] at hpoint
  have hname : (Der.explicit 0 Der.oid).run (Der.Write.explicit 1 (Der.Write.bitString (c.uncompressed xy))) =
      some (none, Der.Write.explicit 1 (Der.Write.bitString (c.uncompressed xy))) := by
    have hseek := Der.run_seekContext_of_ne (n := 0) (t := 0xa1) (by decide) (.inr (by decide))
      (Der.Write.length (Der.Write.bitString (c.uncompressed xy)).length ++ Der.Write.bitString (c.uncompressed xy))
    simp only [Der.explicit, StateT.run_bind]
    rw [show Der.Write.explicit 1 (Der.Write.bitString (c.uncompressed xy)) = 0xa1 ::
      (Der.Write.length (Der.Write.bitString (c.uncompressed xy)).length ++
        Der.Write.bitString (c.uncompressed xy)) from rfl, hseek]
    rfl
  refine (Der.reads_sequence h.contents ?_).whole
  apply Der.whole?_of_run
  simp only [ecFields, List.flatten_cons, List.flatten_nil, List.append_nil, StateT.run_bind,
    Der.reads_natural (n := 1) (by decide) _, Der.run_require_true (p := decide True) (by decide),
    Der.reads_octetString hsecret.contents _, hname, hpoint, Option.bind_eq_bind, Option.bind_some, StateT.run_pure]
  rfl

theorem ecKey?_eq_some {c : Curve} {b : Bytes} {n : Nat} {xy : Nat × Nat} (h : ecKey? c b = some (n, xy)) :
    0 < n ∧ n < c.order ∧ xy = c.coordinates (c.multiply n) := by
  obtain ⟨k, -, h⟩ := Option.bind_eq_some_iff.mp h
  obtain ⟨m, hm, h⟩ := Option.bind_eq_some_iff.mp h
  have hrange : 0 < m ∧ m < c.order := by
    unfold Curve.secret? at hm
    dsimp only at hm
    split at hm
    · next hr =>
      rw [← Option.some.inj hm]
      exact ⟨hr.2.2.1, hr.2.2.2⟩
    · simp at hm
  have hpair : some (m, c.coordinates (c.multiply m)) = some (n, xy) := by
    dsimp only at h
    split at h
    · exact h
    · split at h
      · exact h
      · simp at h
  obtain ⟨rfl, rfl⟩ := Prod.mk.inj (Option.some.inj hpair)
  exact ⟨hrange.1, hrange.2, rfl⟩

/-- The secret number comes back from its full size, and the point is its own. -/
theorem ecKey?_of_inner {c : Curve} (hc : CurveFits c) {n : Nat} (h0 : 0 < n) (hn : n < c.order)
    (h : Der.Fits (ecInner c n (c.coordinates (c.multiply n)))) :
    ecKey? c (ecInner c n (c.coordinates (c.multiply n))) = some (n, c.coordinates (c.multiply n)) := by
  have hsecret : c.secret? (Bytes.ofNat c.size n) = some n := by
    have hval := Bytes.toNat_ofNat (lt_of_lt_of_le hn hc.order)
    simp [Curve.secret?, hval, hc.size, h0, hn]
  simp [ecKey?, ecFields_of_inner h, EcKey.point?, hsecret]

theorem reads_ecAlgorithm {c : Curve} (h : Der.Fits (ecAlgorithm c)) :
    Der.Reads Der.algorithm (ecAlgorithm c) ⟨curveAlgorithm, some ⟨0x06, c.oid.contents⟩⟩ :=
  Der.reads_algorithm isStrict_curveAlgorithm (by decide) h

/-- The written form of a curve key is recognised on its curve and on no other. -/
theorem info?_ecEncode {c : Curve} {n : Nat} {xy : Nat × Nat} (h : Der.Fits (ecEncode c n xy)) :
    info? (ecEncode c n xy) = some ⟨⟨curveAlgorithm, some ⟨0x06, c.oid.contents⟩⟩, ecInner c n xy⟩ := by
  have halgorithm : Der.Fits (ecAlgorithm c) := Der.Fits.sequence
    (show Der.Fits (Der.Write.sequence [Der.Write.natural 0, ecAlgorithm c, Der.Write.octetString (ecInner c n xy)])
      from h) (by simp)
  exact info?_wrap (reads_ecAlgorithm halgorithm) h

theorem ec?_self {c : Curve} (hc : CurveFits c) {n : Nat} (h0 : 0 < n) (hn : n < c.order)
    (h : Der.Fits (ecInner c n (c.coordinates (c.multiply n)))) :
    (⟨⟨curveAlgorithm, some ⟨0x06, c.oid.contents⟩⟩, ecInner c n (c.coordinates (c.multiply n))⟩ : Info).ec? c =
      some (c.coordinates (c.multiply n)) := by
  simp [Info.ec?, Der.oid?_of_isStrict hc.oid, ecKey?_of_inner hc h0 hn h]

theorem ec?_other {c d : Curve} (hc : CurveFits c) (h : c.oid ≠ d.oid) (inner : Bytes) :
    (⟨⟨curveAlgorithm, some ⟨0x06, c.oid.contents⟩⟩, inner⟩ : Info).ec? d = none := by
  simp [Info.ec?, Der.oid?_of_isStrict hc.oid, h]

theorem rsa?_curveAlgorithm (p : Option Der.Element) (inner : Bytes) :
    (⟨⟨curveAlgorithm, p⟩, inner⟩ : Info).rsa? = none := by
  simp [Info.rsa?, curveAlgorithm_ne_rsaOid]

theorem fits_ecInner {c : Curve} {n : Nat} {xy : Nat × Nat} (h : Der.Fits (ecEncode c n xy)) :
    Der.Fits (ecInner c n xy) := by
  have hoctets : Der.Fits (Der.Write.octetString (ecInner c n xy)) := Der.Fits.sequence
    (show Der.Fits (Der.Write.sequence [Der.Write.natural 0, ecAlgorithm c, Der.Write.octetString (ecInner c n xy)])
      from h) (by simp)
  exact hoctets.contents

theorem length_ecAlgorithm_le {c : Curve} (hc : CurveFits c) : (ecAlgorithm c).length ≤ 60 := by
  have hoid := Der.length_contents_of_isStrict hc.oid
  have hname : (Der.Write.oid c.oid).length ≤ c.oid.contents.length + 6 := Der.Write.length_tlv_le (by omega)
  have hcurve : (Der.Write.oid curveAlgorithm).length = 9 := by cbv
  refine Der.Write.length_sequence_le _ (n := 54) ?_ (by omega)
  simp only [List.flatten_cons, List.flatten_nil, List.append_nil, List.length_append, hcurve]
  omega

theorem length_ecInner_le {c : Curve} (hc : CurveFits c) (n : Nat) (xy : Nat × Nat) :
    (ecInner c n xy).length ≤ 227 := by
  have hsize := hc.size_le
  have hpoint : (c.uncompressed xy).length = 2 * c.size + 1 := by
    simp only [Curve.uncompressed, List.length_append, List.length_cons, Bytes.length_ofNat]
    omega
  have hversion : (Der.Write.natural 1).length = 3 := by decide
  have hsecret := Der.Write.length_tlv_le (t := 0x04) (c := Bytes.ofNat c.size n) (by rw [Bytes.length_ofNat]; omega)
  have hbits := Der.Write.length_tlv_le (t := 0x03) (c := 0 :: c.uncompressed xy) (by rw [List.length_cons]; omega)
  rw [Bytes.length_ofNat] at hsecret
  rw [List.length_cons, hpoint] at hbits
  have hexplicit := Der.Write.length_tlv_le (t := 0xa0 ||| 1) (c := Der.Write.tlv 0x03 (0 :: c.uncompressed xy)) (by omega)
  refine Der.Write.length_sequence_le _ (n := 221) ?_ (by omega)
  simp only [Der.Write.octetString, Der.Write.explicit, Der.Write.bitString, List.flatten_cons, List.flatten_nil,
    List.append_nil, List.length_append]
  omega

/-- A curve key has a few hundred octets at most. -/
theorem fits_ecEncode {c : Curve} (hc : CurveFits c) (n : Nat) (xy : Nat × Nat) : Der.Fits (ecEncode c n xy) := by
  have halgorithm := length_ecAlgorithm_le hc
  have hinner := length_ecInner_le hc n xy
  have hversion : (Der.Write.natural 0).length = 3 := by decide
  have hoctets := Der.Write.length_tlv_le (t := 0x04) (c := ecInner c n xy) (by omega)
  have hwhole := Der.Write.length_sequence_le
    [Der.Write.natural 0, ecAlgorithm c, Der.Write.octetString (ecInner c n xy)] (n := 296)
    (by simp only [Der.Write.octetString, List.flatten_cons, List.flatten_nil, List.append_nil, List.length_append]; omega)
    (by omega)
  exact le_trans hwhole (by decide)

theorem p384_oid_ne_p256_oid : Curve.p384.oid ≠ Curve.p256.oid := by decide

theorem ofPkcs8_of_ofSec1 {b : Bytes} {k : PrivateKey} (h : ofSec1 b = .ok k) : ofPkcs8 k.encoded = .ok k := by
  unfold ofSec1 at h
  split at h
  · next n xy hkey =>
    obtain rfl := Except.ok.inj h
    obtain ⟨h0, hn, rfl⟩ := ecKey?_eq_some hkey
    have hf := fits_ecEncode curveFits_p256 n (Curve.p256.coordinates (Curve.p256.multiply n))
    simp only [ofPkcs8, info?_ecEncode hf, rsa?_curveAlgorithm,
      ec?_self curveFits_p256 h0 hn (fits_ecInner hf)]
  · split at h
    · next n xy hkey =>
      obtain rfl := Except.ok.inj h
      obtain ⟨h0, hn, rfl⟩ := ecKey?_eq_some hkey
      have hf := fits_ecEncode curveFits_p384 n (Curve.p384.coordinates (Curve.p384.multiply n))
      simp only [ofPkcs8, info?_ecEncode hf, rsa?_curveAlgorithm,
        ec?_other curveFits_p384 p384_oid_ne_p256_oid, ec?_self curveFits_p384 h0 hn (fits_ecInner hf)]
    · cases h

/-! ## All forms -/

theorem encoded_of_ofPkcs8 {b : Bytes} {k : PrivateKey} (h : ofPkcs8 b = .ok k) : k.encoded = b := by
  unfold ofPkcs8 at h
  split at h
  · simp at h
  · split at h <;> first | (obtain rfl := Except.ok.inj h; rfl) | simp at h

/-- The normal form of a key is read as the key itself. -/
theorem ofPkcs8_encoded_of_ofBlock {p : Pem} {password : Option String} {k : PrivateKey}
    (h : ofBlock p password = .ok k) : ofPkcs8 k.encoded = .ok k := by
  have hself : ∀ {b : Bytes}, ofPkcs8 b = .ok k → ofPkcs8 k.encoded = .ok k := fun {b} hb => by
    rwa [encoded_of_ofPkcs8 hb]
  unfold ofBlock at h
  split_ifs at h with hlegacy hplain hencrypted hrsa hec
  · exact hself h
  · obtain ⟨plain, -, hparse⟩ := bind_eq_ok.mp h
    exact hself (mapError_eq_ok.mp hparse)
  · exact ofPkcs8_of_ofPkcs1 h
  · exact ofPkcs8_of_ofSec1 h

theorem ofPkcs8_encoded {text : String} {password : Option String} {k : PrivateKey}
    (h : parse text password = .ok k) : ofPkcs8 k.encoded = .ok k := by
  unfold parse at h
  split at h
  · cases h
  · exact ofPkcs8_encoded_of_ofBlock h

end CertRotation.PrivateKey
