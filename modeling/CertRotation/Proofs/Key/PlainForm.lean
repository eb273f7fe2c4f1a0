import CertRotation.Bundle.Basic
import CertRotation.Proofs.Asn1.DerExact
import CertRotation.Proofs.Key.Containers

/-!
# Plain private keys and what becomes of them

`IsPlain` says how plain PKCS#8 is written around a key of any algorithm. Whether a text with such a block is a key hangs on
the algorithm that is named alone: the key inside must be one of that algorithm. All other plain keys are called unsupported.
-/
namespace CertRotation
open Der

namespace PrivateKey

/-! ## The form -/

/-- The element `x` under a context tag. -/
def Tagged (b : Bytes) (x : Element) : Prop :=
  ∃ e : Element, b = e.encode ∧ e.Sound ∧ isContext e.tag = true ∧ e.tag &&& 0x20 ≠ 0 ∧ e.contents = x.encode ∧ x.Sound

/-- What may stand behind the key: attributes under context tag 0, the public half under context tag 1, which the second
version has and the first has not, and other elements under context tags. Without a public half these begin beyond its tag. -/
inductive IsTail : (version : Nat) → List Bytes → Prop where
  | first {attributes others : List Bytes} (below : ∀ b ∈ attributes, IsBelow 1 b) (tagged : ∀ b ∈ others, ∃ x, Tagged b x)
      (beyond : ∀ t rest, others.flatten = t :: rest → 1 < t &&& 0x1f) : IsTail 0 (attributes ++ others)
  | second {attributes others : List Bytes} {half : Bytes} (below : ∀ b ∈ attributes, IsBelow 1 b)
      (tagged : ∀ b ∈ others, ∃ x, Tagged b x) : IsTail 1 (attributes ++ Write.implicit 1 (0 :: half) :: others)

def plainFields (version : Nat) (i : Info) (tail : List Bytes) : List Bytes :=
  Write.natural version :: i.algorithm.encode :: Write.octetString i.key :: tail

/-- The octets are plain PKCS#8 with a key of any algorithm. -/
def IsPlain (b : Bytes) (i : Info) : Prop :=
  ∃ version tail, b = Write.sequence (plainFields version i tail) ∧ i.algorithm.Sound ∧ IsTail version tail ∧
    Fits (plainFields version i tail).flatten

theorem wholeBits?_eq_some {c octets : Bytes} : wholeBits? c = some octets ↔ c = 0 :: octets := by
  constructor
  · intro h
    obtain ⟨⟨unused, rest⟩, hbits, hzero⟩ := Option.bind_eq_some_iff.mp h
    obtain ⟨rfl, rfl⟩ : unused = 0 ∧ rest = octets := by simpa using hzero
    cases c with
    | nil => cases hbits
    | cons x c =>
      obtain ⟨-, heq⟩ := Option.ite_none_right_eq_some.mp hbits
      obtain ⟨hx, rfl⟩ := Prod.mk.inj (Option.some.inj heq)
      rw [UInt8.toNat_inj.mp (hx.trans UInt8.toNat_zero.symm)]
  · rintro rfl
    exact wholeBits?_zero octets

theorem exact_tagged : Exact (do
    let e ← element
    require (isContext e.tag && e.tag &&& 0x20 != 0)
    ofOption (element.whole? e.contents)) Tagged := by
  refine (exact_element.bind fun e => (exact_require _).bind fun _ => exact_ofOption _).congr fun b x => ?_
  constructor
  · rintro ⟨e, _, _, rfl, ⟨rfl, he⟩, -, _, _, rfl, ⟨rfl, htag⟩, rfl, hwhole⟩
    obtain ⟨hcontents, hx⟩ := exact_element.whole.mp hwhole
    simp only [Bool.and_eq_true, bne_iff_ne] at htag
    exact ⟨e, by simp, he, htag.1, htag.2, hcontents, hx⟩
  · rintro ⟨e, rfl, he, hcontext, hconstructed, hcontents, hx⟩
    refine ⟨e, _, [], (List.append_nil _).symm, ⟨rfl, he⟩, (), [], [], rfl, ⟨rfl, ?_⟩, rfl, ?_⟩
    · simp [hcontext, hconstructed]
    · exact exact_element.whole.mpr ⟨hcontents, hx⟩

theorem not_tagged_nil (x : Element) : ¬ Tagged [] x := by
  rintro ⟨e, hnil, -⟩
  cases hnil

/-- Tagged elements begin with a context tag. -/
theorem tag_of_tagged {others : List Bytes} (h : ∀ p ∈ others, ∃ x, Tagged p x) {t : UInt8} {rest : Bytes}
    (hrest : others.flatten = t :: rest) : isTag t = true ∧ isContext t = true := by
  cases others with
  | nil => cases hrest
  | cons p others =>
    obtain ⟨x, e, rfl, he, hcontext, -⟩ := h p List.mem_cons_self
    obtain ⟨rfl, -⟩ := List.cons.inj hrest
    exact ⟨he.tag, hcontext⟩

theorem found_others_iff {others : List Bytes} (h : ∀ p ∈ others, ∃ x, Tagged p x) :
    Found 1 none others.flatten ↔ ∀ t rest, others.flatten = t :: rest → 1 < t &&& 0x1f := by
  constructor
  · intro hfound t rest hrest
    rw [hrest] at hfound
    cases hfound with
    | beyond tag number => exact number (tag_of_tagged h hrest).2
  · intro hbeyond
    cases hrest : others.flatten with
    | nil => exact .nothing
    | cons t rest => exact .beyond (tag_of_tagged h hrest).1 fun _ => hbeyond t rest hrest

theorem run_others {b : Bytes} {i j : Info} : (do
      let _ ← many (do
        let e ← element
        require (isContext e.tag && e.tag &&& 0x20 != 0)
        ofOption (element.whole? e.contents))
      pure i : Reader Info).run b = some (j, []) ↔
    j = i ∧ ∃ others : List Bytes, b = others.flatten ∧ ∀ p ∈ others, ∃ x, Tagged p x := by
  rw [run_bind_iff]
  constructor
  · rintro ⟨xs, rest, hmany, h⟩
    obtain ⟨_, rfl, rfl, rfl⟩ := (exact_pure _ _ _ _).mp h
    exact ⟨rfl, ((exists_run_many_iff exact_tagged not_tagged_nil).mp ⟨xs, hmany⟩).2⟩
  · rintro ⟨rfl, hothers⟩
    obtain ⟨xs, hmany⟩ := (exists_run_many_iff exact_tagged not_tagged_nil).mpr ⟨rfl, hothers⟩
    exact ⟨xs, [], hmany, rfl⟩

theorem fields_of_run {c : Bytes} {i : Info} (h : infoFields.run c = some (i, [])) : ∃ version tail,
    c = (plainFields version i tail).flatten ∧ i.algorithm.Sound ∧ IsTail version tail := by
  unfold infoFields at h
  rw [exact_natural.run_bind] at h
  obtain ⟨version, _, _, rfl, ⟨rfl, -⟩, h⟩ := h
  rw [(exact_require _).run_bind] at h
  obtain ⟨-, _, _, rfl, ⟨rfl, -⟩, h⟩ := h
  rw [exact_algorithm.run_bind] at h
  obtain ⟨algorithm, _, _, rfl, ⟨rfl, halgorithm, -⟩, h⟩ := h
  rw [exact_octetString.run_bind] at h
  obtain ⟨key, _, _, rfl, ⟨rfl, -⟩, h⟩ := h
  rw [run_bind_iff] at h
  obtain ⟨publicKey, _, himplicit, h⟩ := h
  obtain ⟨attributes, hbelow, ⟨rfl, rfl, hfound⟩ | ⟨c, rfl, rfl, -⟩⟩ :=
    (run_implicit_iff (by decide) (by decide) (by decide)).mp himplicit
  all_goals
    dsimp only at h
    rw [(exact_require _).run_bind] at h
    obtain ⟨-, _, _, rfl, ⟨rfl, hversion⟩, h⟩ := h
    obtain ⟨rfl, others, rfl, htagged⟩ := run_others.mp h
  · obtain rfl := of_decide_eq_true hversion
    refine ⟨0, attributes ++ others, by simp [plainFields], halgorithm, .first hbelow htagged ?_⟩
    exact (found_others_iff htagged).mp hfound
  · simp only [Bool.and_eq_true, decide_eq_true_eq] at hversion
    obtain ⟨rfl, hbits⟩ := hversion
    obtain ⟨half, hhalf⟩ := Option.isSome_iff_exists.mp hbits
    obtain rfl := wholeBits?_eq_some.mp hhalf
    exact ⟨1, attributes ++ Write.implicit 1 (0 :: half) :: others, by simp [plainFields], halgorithm, .second hbelow htagged⟩

theorem run_of_fields {version : Nat} {i : Info} {tail : List Bytes} (halgorithm : i.algorithm.Sound)
    (htail : IsTail version tail) (h : Fits (plainFields version i tail).flatten) :
    infoFields.run (plainFields version i tail).flatten = some (i, []) := by
  have hidentifier : Fits i.algorithm.encode := h.item (by simp [plainFields])
  have hkey : Fits (Write.octetString i.key) := h.item (by simp [plainFields])
  have hversion : version ≤ 1 ∧ Fits (naturalContents version) := by
    cases htail <;> decide
  rw [plainFields, List.flatten_cons, List.flatten_cons, List.flatten_cons, infoFields, exact_natural.run_bind]
  refine ⟨version, _, _, rfl, ⟨rfl, hversion.2⟩, ?_⟩
  rw [(exact_require _).run_bind]
  refine ⟨(), [], _, rfl, ⟨rfl, decide_eq_true hversion.1⟩, ?_⟩
  rw [exact_algorithm.run_bind]
  refine ⟨_, _, _, rfl, ⟨rfl, halgorithm, hidentifier.contents⟩, ?_⟩
  rw [exact_octetString.run_bind]
  refine ⟨_, _, _, rfl, ⟨rfl, hkey.contents⟩, ?_⟩
  rw [run_bind_iff]
  cases htail with
  | @first attributes others below tagged beyond =>
    refine ⟨none, others.flatten, (run_implicit_iff (by decide) (by decide) (by decide)).mpr
      ⟨attributes, below, .inl ⟨rfl, List.flatten_append, (found_others_iff tagged).mpr beyond⟩⟩, ?_⟩
    dsimp only
    rw [(exact_require _).run_bind]
    exact ⟨(), [], _, rfl, ⟨rfl, rfl⟩, run_others.mpr ⟨rfl, others, rfl, tagged⟩⟩
  | @second attributes others half below tagged =>
    have hhalf : Fits (Write.implicit 1 (0 :: half)) := h.item (by simp [plainFields])
    refine ⟨some (0 :: half), others.flatten, (run_implicit_iff (by decide) (by decide) (by decide)).mpr
      ⟨attributes, below, .inr ⟨0 :: half, rfl, by simp, hhalf.contents⟩⟩, ?_⟩
    dsimp only
    rw [(exact_require _).run_bind]
    refine ⟨(), [], _, rfl, ⟨rfl, ?_⟩, run_others.mpr ⟨rfl, others, rfl, tagged⟩⟩
    rw [wholeBits?_zero]
    rfl

theorem info?_eq_some_iff {b : Bytes} {i : Info} : info? b = some i ↔ IsPlain b i := by
  unfold info? Der.sequence
  rw [(exact_nested (by decide) fun _ _ => Iff.rfl).whole]
  constructor
  · rintro ⟨c, rfl, hfits, hfields⟩
    obtain ⟨version, tail, rfl, halgorithm, htail⟩ := fields_of_run (whole?_eq_some.mp hfields)
    exact ⟨version, tail, rfl, halgorithm, htail, hfits⟩
  · rintro ⟨version, tail, rfl, halgorithm, htail, hfits⟩
    exact ⟨_, rfl, hfits, whole?_eq_some.mpr (run_of_fields halgorithm htail hfits)⟩

/-! ## The verdict -/

end PrivateKey

/-- The algorithm identifier of keys of this type. -/
def KeyType.identifier : KeyType → Algorithm
  | rsa => ⟨RsaKey.oid, some ⟨0x05, []⟩⟩
  | p256 => ⟨PrivateKey.curveAlgorithm, some ⟨0x06, Curve.p256.oid.contents⟩⟩
  | p384 => ⟨PrivateKey.curveAlgorithm, some ⟨0x06, Curve.p384.oid.contents⟩⟩

/-- The public half of the inner key, if it is a sound key of this type. -/
def KeyType.publicHalf? : KeyType → Bytes → Option Bytes
  | rsa, b => (RsaKey.parse? b).map RsaKey.publicKey
  | p256, b => (PrivateKey.ecKey? .p256 b).map fun k => PrivateKey.ecPublicKey .p256 k.2
  | p384, b => (PrivateKey.ecKey? .p384 b).map fun k => PrivateKey.ecPublicKey .p384 k.2

namespace PrivateKey

theorem eq_of_identifier_eq {s t : KeyType} (h : s.identifier = t.identifier) : s = t := by
  have hcontents : Curve.p384.oid.contents ≠ Curve.p256.oid.contents := fun h =>
    p384_oid_ne_p256_oid (congrArg Oid.mk h)
  cases s <;> cases t <;>
    simp_all [KeyType.identifier, curveAlgorithm_ne_rsaOid, curveAlgorithm_ne_rsaOid.symm, hcontents.symm]

theorem rsa?_eq (i : Info) : i.rsa? = if i.algorithm = KeyType.rsa.identifier then RsaKey.parse? i.key else none := by
  have hnull : ∀ p : Option Element, p.any Element.isNull = true ↔ p = some ⟨0x05, []⟩ := by
    rintro (_ | ⟨t, c⟩) <;> simp [Element.isNull]
  obtain ⟨⟨o, p⟩, key⟩ := i
  simp only [Info.rsa?, hnull, KeyType.identifier, Algorithm.mk.injEq]

theorem ec?_eq {c : Curve} (hc : CurveFits c) (i : Info) : i.ec? c =
    if i.algorithm = ⟨curveAlgorithm, some ⟨0x06, c.oid.contents⟩⟩ then (ecKey? c i.key).map (·.2) else none := by
  have hname : ∀ contents, oid? contents = some c.oid ↔ contents = c.oid.contents := by
    intro contents
    constructor
    · intro h
      obtain ⟨-, heq⟩ := Option.ite_none_right_eq_some.mp h
      rw [← Option.some.inj heq]
    · rintro rfl
      exact oid?_of_isStrict hc.oid
  have hcurve : ∀ p : Option Element, (p.any fun e => e.tag = 0x06 && oid? e.contents = some c.oid) = true ↔
      p = some ⟨0x06, c.oid.contents⟩ := by
    rintro (_ | ⟨t, contents⟩) <;> simp [hname]
  obtain ⟨⟨o, p⟩, key⟩ := i
  simp only [Info.ec?, hcurve, Algorithm.mk.injEq]

section
variable {b : Bytes} {i : Info}

/-- The named algorithm alone decides about the key inside. -/
theorem ofPkcs8_of_identifier (h : info? b = some i) {type : KeyType} (ha : i.algorithm = type.identifier) :
    ofPkcs8 b = (type.publicHalf? i.key).elim (.error (.unsupported i.algorithm.oid)) fun half => .ok ⟨type, b, half⟩ := by
  have hrsa : type ≠ .rsa → i.rsa? = none := fun hne =>
    (rsa?_eq i).trans (if_neg fun heq => hne (eq_of_identifier_eq (ha.symm.trans heq)))
  have h256 : type ≠ .p256 → i.ec? .p256 = none := fun hne =>
    (ec?_eq curveFits_p256 i).trans (if_neg fun heq => hne (eq_of_identifier_eq (t := .p256) (ha.symm.trans heq)))
  have h384 : type ≠ .p384 → i.ec? .p384 = none := fun hne =>
    (ec?_eq curveFits_p384 i).trans (if_neg fun heq => hne (eq_of_identifier_eq (t := .p384) (ha.symm.trans heq)))
  cases type with
  | rsa =>
    have hself : i.rsa? = RsaKey.parse? i.key := (rsa?_eq i).trans (if_pos ha)
    simp only [ofPkcs8, h, hself, h256 (by decide), h384 (by decide), KeyType.publicHalf?]
    cases RsaKey.parse? i.key <;> rfl
  | p256 =>
    have hself : i.ec? .p256 = (ecKey? .p256 i.key).map (·.2) := (ec?_eq curveFits_p256 i).trans (if_pos ha)
    simp only [ofPkcs8, h, hself, hrsa (by decide), h384 (by decide), KeyType.publicHalf?]
    cases ecKey? .p256 i.key <;> rfl
  | p384 =>
    have hself : i.ec? .p384 = (ecKey? .p384 i.key).map (·.2) := (ec?_eq curveFits_p384 i).trans (if_pos ha)
    simp only [ofPkcs8, h, hself, hrsa (by decide), h256 (by decide), KeyType.publicHalf?]
    cases ecKey? .p384 i.key <;> rfl

theorem ofPkcs8_of_other (h : info? b = some i) (ha : ∀ type : KeyType, i.algorithm ≠ type.identifier) :
    ofPkcs8 b = .error (.unsupported i.algorithm.oid) := by
  have hrsa : i.rsa? = none := (rsa?_eq i).trans (if_neg (ha .rsa))
  have h256 : i.ec? .p256 = none := (ec?_eq curveFits_p256 i).trans (if_neg (ha .p256))
  have h384 : i.ec? .p384 = none := (ec?_eq curveFits_p384 i).trans (if_neg (ha .p384))
  simp only [ofPkcs8, h, hrsa, h256, h384]

theorem ofPkcs8_of_not_plain (h : ∀ i, ¬ IsPlain b i) : ofPkcs8 b = .error (.parse .pkcs8) := by
  have hinfo : info? b = none := Option.eq_none_iff_forall_not_mem.mpr fun i hi => h i (info?_eq_some_iff.mp hi)
  simp only [ofPkcs8, hinfo]

theorem ofPkcs8_of_usable {type : KeyType} {half : Bytes} (h : IsPlain b i) (ha : i.algorithm = type.identifier)
    (hhalf : type.publicHalf? i.key = some half) : ofPkcs8 b = .ok ⟨type, b, half⟩ := by
  rw [ofPkcs8_of_identifier (info?_eq_some_iff.mpr h) ha, hhalf]
  rfl

theorem ofPkcs8_of_unusable (h : IsPlain b i)
    (hnone : ∀ type : KeyType, i.algorithm = type.identifier → type.publicHalf? i.key = none) :
    ofPkcs8 b = .error (.unsupported i.algorithm.oid) := by
  by_cases hnamed : ∃ type : KeyType, i.algorithm = type.identifier
  · obtain ⟨type, ha⟩ := hnamed
    rw [ofPkcs8_of_identifier (info?_eq_some_iff.mpr h) ha, hnone type ha]
    rfl
  · exact ofPkcs8_of_other (info?_eq_some_iff.mpr h) fun type ha => hnamed ⟨type, ha⟩

/-- Octets are no plain PKCS#8, or hold a key that is usable or one that is not. -/
theorem plain_cases (b : Bytes) : (∀ i, ¬ IsPlain b i) ∨ ∃ i, IsPlain b i ∧
    ((∃ (type : KeyType) (half : Bytes), i.algorithm = type.identifier ∧ type.publicHalf? i.key = some half) ∨
      ∀ type : KeyType, i.algorithm = type.identifier → type.publicHalf? i.key = none) := by
  by_cases hplain : ∃ i, IsPlain b i
  · obtain ⟨i, hi⟩ := hplain
    refine .inr ⟨i, hi, ?_⟩
    by_cases husable : ∃ (type : KeyType) (half : Bytes), i.algorithm = type.identifier ∧ type.publicHalf? i.key = some half
    · exact .inl husable
    · exact .inr fun type ha => Option.eq_none_iff_forall_not_mem.mpr fun half hhalf => husable ⟨type, half, ha, hhalf⟩
  · exact .inl fun i hi => hplain ⟨i, hi⟩

theorem ofPkcs8_eq_ok {k : PrivateKey} : ofPkcs8 b = .ok k ↔ ∃ i, IsPlain b i ∧ i.algorithm = k.type.identifier ∧
    k.type.publicHalf? i.key = some k.publicKey ∧ k.encoded = b := by
  constructor
  · intro h
    rcases plain_cases b with hnone | ⟨i, hi, ⟨type, half, ha, hhalf⟩ | hnone⟩
    · cases h.symm.trans (ofPkcs8_of_not_plain hnone)
    · obtain rfl := Except.ok.inj (h.symm.trans (ofPkcs8_of_usable hi ha hhalf))
      exact ⟨i, hi, ha, hhalf, rfl⟩
    · cases h.symm.trans (ofPkcs8_of_unusable hi hnone)
  · rintro ⟨i, hi, ha, hhalf, rfl⟩
    exact ofPkcs8_of_usable hi ha hhalf

theorem ofPkcs8_eq_error {e : Error} : ofPkcs8 b = .error e ↔ (e = .parse .pkcs8 ∧ ∀ i, ¬ IsPlain b i) ∨
    ∃ i, IsPlain b i ∧ e = .unsupported i.algorithm.oid ∧
      ∀ type : KeyType, i.algorithm = type.identifier → type.publicHalf? i.key = none := by
  constructor
  · intro h
    rcases plain_cases b with hnone | ⟨i, hi, ⟨type, half, ha, hhalf⟩ | hnone⟩
    · exact .inl ⟨Except.error.inj (h.symm.trans (ofPkcs8_of_not_plain hnone)), hnone⟩
    · cases h.symm.trans (ofPkcs8_of_usable hi ha hhalf)
    · exact .inr ⟨i, hi, Except.error.inj (h.symm.trans (ofPkcs8_of_unusable hi hnone)), hnone⟩
  · rintro (⟨rfl, hnone⟩ | ⟨i, hi, rfl, hnone⟩)
    · exact ofPkcs8_of_not_plain hnone
    · exact ofPkcs8_of_unusable hi hnone

end

/-- A block with plain PKCS#8 is a key exactly if it names a supported algorithm and has a sound key of it inside. What is not
plain PKCS#8 does not parse. Everything else is called an unsupported algorithm, whether the algorithm is unsupported or
the key inside is no sound key of it. -/
theorem plain_key_verdict {text : String} {b : Bytes} (h : Holds text "PRIVATE KEY" b) (password : Option String) :
    (∀ k, parse text password = .ok k ↔ ∃ i, IsPlain b i ∧ i.algorithm = k.type.identifier ∧
      k.type.publicHalf? i.key = some k.publicKey ∧ k.encoded = b) ∧
    ∀ e, (parse text password).mapError Bundle.Error.ofKey = .error e ↔
      (e = .keyParse .pkcs8 ∧ ∀ i, ¬ IsPlain b i) ∨
      ∃ i, IsPlain b i ∧ e = .encode (.key i.algorithm.oid) ∧
        ∀ type : KeyType, i.algorithm = type.identifier → type.publicHalf? i.key = none := by
  have hparse : parse text password = ofPkcs8 b := parse_of_holds h password
  rw [hparse]
  refine ⟨fun k => ofPkcs8_eq_ok, fun e => ?_⟩
  rw [mapError_eq_error]
  constructor
  · rintro ⟨x, hx, rfl⟩
    rcases ofPkcs8_eq_error.mp hx with ⟨rfl, hnone⟩ | ⟨i, hi, rfl, htypes⟩
    · exact .inl ⟨rfl, hnone⟩
    · exact .inr ⟨i, hi, rfl, htypes⟩
  · rintro (⟨rfl, hnone⟩ | ⟨i, hi, rfl, htypes⟩)
    · exact ⟨_, ofPkcs8_of_not_plain hnone, rfl⟩
    · exact ⟨_, ofPkcs8_eq_error.mpr (.inr ⟨i, hi, rfl, htypes⟩), rfl⟩

/-- Plain PKCS#8 that names RSA, around an octet that is no key. -/
def emptyRsa : Bytes := wrap RsaKey.algorithm [0]

theorem isPlain_emptyRsa : IsPlain emptyRsa ⟨KeyType.rsa.identifier, [0]⟩ :=
  info?_eq_some_iff.mp (info?_wrap reads_rsaAlgorithm (by cbv))

theorem publicHalf?_empty : KeyType.rsa.publicHalf? [0] = none := by decide

theorem plain_key_verdict_samples :
    (parse (⟨"PRIVATE KEY", [], emptyRsa⟩ : Pem).encode none).mapError Bundle.Error.ofKey =
        .error (.encode (.key RsaKey.oid)) ∧
      (parse (⟨"PRIVATE KEY", [], [0]⟩ : Pem).encode none).mapError Bundle.Error.ofKey = .error (.keyParse .pkcs8) ∧
      ∃ b, parse (⟨"PRIVATE KEY", [], b⟩ : Pem).encode none = .ok ⟨.rsa, b, smallRsaKey.publicKey⟩ := by
  have hholds : ∀ b, Holds (⟨"PRIVATE KEY", [], b⟩ : Pem).encode "PRIVATE KEY" b := holds_encode (by decide) (by decide)
  have hunusable : ∀ type : KeyType, KeyType.rsa.identifier = type.identifier → type.publicHalf? [0] = none := by
    intro type htype
    obtain rfl := eq_of_identifier_eq htype
    exact publicHalf?_empty
  have hother : ∀ i, ¬ IsPlain [0] i := fun i hi => Option.some_ne_none i (info?_eq_some_iff.mpr hi).symm
  let inner := smallRsaKey.encode?.getD []
  have hfits : Fits (wrap RsaKey.algorithm inner) := by cbv
  have hplain : IsPlain (wrap RsaKey.algorithm inner) ⟨KeyType.rsa.identifier, inner⟩ :=
    info?_eq_some_iff.mp (info?_wrap reads_rsaAlgorithm hfits)
  have hinner : smallRsaKey.encode? = some inner := by decide
  have hkey : RsaKey.parse? inner = some smallRsaKey := parse?_of_encode (by decide) hinner (by cbv)
  have hhalf : KeyType.rsa.publicHalf? inner = some smallRsaKey.publicKey :=
    congrArg (Option.map RsaKey.publicKey) hkey
  exact ⟨((plain_key_verdict (hholds _) none).2 _).mpr (.inr ⟨_, isPlain_emptyRsa, rfl, hunusable⟩),
    ((plain_key_verdict (hholds _) none).2 _).mpr (.inl ⟨rfl, hother⟩),
    _, ((plain_key_verdict (hholds _) none).1 _).mpr ⟨_, hplain, rfl, hhalf, rfl⟩⟩

/-- A key that names RSA and is malformed is said to be of an unsupported algorithm, RSA. In the older container the same octets
do not parse. -/
theorem malformed_called_unsupported :
    Holds (⟨"PRIVATE KEY", [], emptyRsa⟩ : Pem).encode "PRIVATE KEY" emptyRsa ∧
      IsPlain emptyRsa ⟨KeyType.rsa.identifier, [0]⟩ ∧ KeyType.rsa.publicHalf? [0] = none ∧
      ∀ password, (parse (⟨"PRIVATE KEY", [], emptyRsa⟩ : Pem).encode password).mapError Bundle.Error.ofKey =
          .error (.encode (.key RsaKey.oid)) ∧
        (parse (⟨"RSA PRIVATE KEY", [], [0]⟩ : Pem).encode password).mapError Bundle.Error.ofKey =
          .error (.keyParse .pkcs1) := by
  have hholds : Holds (⟨"PRIVATE KEY", [], emptyRsa⟩ : Pem).encode "PRIVATE KEY" emptyRsa :=
    holds_encode (by decide) (by decide) _
  refine ⟨hholds, isPlain_emptyRsa, publicHalf?_empty, fun password => ⟨?_, ?_⟩⟩
  · rw [parse_of_holds hholds password]
    have ha : (⟨KeyType.rsa.identifier, [0]⟩ : Info).algorithm = KeyType.rsa.identifier := rfl
    show (ofPkcs8 emptyRsa).mapError Bundle.Error.ofKey = _
    rw [ofPkcs8_of_identifier (info?_eq_some_iff.mpr isPlain_emptyRsa) ha, publicHalf?_empty]
    rfl
  · rw [parse_of_holds (holds_encode (by decide) (by decide) [0]) password]
    rfl

end PrivateKey
end CertRotation
