import CertRotation.Proofs.Key.Inverse
import CertRotation.Proofs.Key.Normalisation
import CertRotation.Proofs.Pem.RoundTrip

/-!
# One key in several containers

What a key is reported with, its type and its public half, is compared between the older forms and plain PKCS#8. A plain
curve key is read on the curve that its algorithm names, an older one on the first curve that it fits, whatever curve it
names itself. So the two agree exactly if the first curve that fits is the named one.
-/
namespace CertRotation.PrivateKey

/-- What is reported of a key that is read. -/
def facts (r : Except Error PrivateKey) : Option (KeyType × Bytes) := r.toOption.map fun k => (k.type, k.publicKey)

theorem facts_eq_some {r : Except Error PrivateKey} {f : KeyType × Bytes} :
    facts r = some f ↔ ∃ k, r = .ok k ∧ (k.type, k.publicKey) = f := by
  cases r <;> simp [facts, Except.toOption]

/-! ## RSA -/

/-- The key can be written anew: its primes have no divisor in common, and what is written is not too long. -/
def Rewritable (k : RsaKey) : Prop :=
  Nat.Coprime k.prime1 k.prime2 ∧ ∀ inner, k.encode? = some inner → Der.Fits (wrap RsaKey.algorithm inner)

section
variable {b inner : Bytes} {k : RsaKey} {f : KeyType × Bytes}

theorem rewritable_iff (h : k.isSound = true) :
    Rewritable k ↔ ∃ inner, k.encode? = some inner ∧ Der.Fits (wrap RsaKey.algorithm inner) := by
  rw [Rewritable, ← RsaKey.encode?_isSome h]
  constructor
  · rintro ⟨hsome, hfits⟩
    obtain ⟨inner, hinner⟩ := Option.isSome_iff_exists.mp hsome
    exact ⟨inner, hinner, hfits inner hinner⟩
  · rintro ⟨inner, hinner, hfits⟩
    refine ⟨Option.isSome_iff_exists.mpr ⟨inner, hinner⟩, fun other hother => ?_⟩
    rwa [← Option.some.inj (hinner.symm.trans hother)]

theorem parse?_of_fields (h : (Der.sequence RsaKey.fields).whole? b = some k) :
    RsaKey.parse? b = if k.isSound then some k else none := by
  rw [RsaKey.parse?, h]

theorem facts_ofPkcs1 (h : (Der.sequence RsaKey.fields).whole? b = some k) :
    facts (ofPkcs1 b) = some f ↔ k.isSound = true ∧ Rewritable k ∧ (.rsa, k.publicKey) = f := by
  rw [facts_eq_some]
  constructor
  · rintro ⟨key, hkey, rfl⟩
    obtain ⟨found, inner, hfound, hinner, hfits, rfl⟩ := ofPkcs1_eq_ok.mp hkey
    have hsound := isSound_of_parse? hfound
    rw [parse?_of_fields h] at hfound
    obtain ⟨-, heq⟩ := Option.ite_none_right_eq_some.mp hfound
    obtain rfl := Option.some.inj heq
    exact ⟨hsound, (rewritable_iff hsound).mpr ⟨inner, hinner, hfits⟩, rfl⟩
  · rintro ⟨hsound, hrewritable, rfl⟩
    obtain ⟨inner, hinner, hfits⟩ := (rewritable_iff hsound).mp hrewritable
    refine ⟨_, ofPkcs1_eq_ok.mpr ⟨k, inner, ?_, hinner, hfits, rfl⟩, rfl⟩
    rw [parse?_of_fields h, if_pos hsound]

theorem facts_ofPkcs8_of_rsa (hinfo : info? b = some ⟨⟨RsaKey.oid, some ⟨0x05, []⟩⟩, inner⟩)
    (h : (Der.sequence RsaKey.fields).whole? inner = some k) :
    facts (ofPkcs8 b) = some f ↔ k.isSound = true ∧ (.rsa, k.publicKey) = f := by
  have hrsa : (⟨⟨RsaKey.oid, some ⟨0x05, []⟩⟩, inner⟩ : Info).rsa? = if k.isSound then some k else none := by
    simp [Info.rsa?, Der.Element.isNull, parse?_of_fields h]
  have hec : ∀ c, (⟨⟨RsaKey.oid, some ⟨0x05, []⟩⟩, inner⟩ : Info).ec? c = none := fun c => by
    simp [Info.ec?, curveAlgorithm_ne_rsaOid.symm]
  by_cases hsound : k.isSound = true <;> simp [ofPkcs8, hinfo, hrsa, hec, hsound, facts, Except.toOption]

end

/-! ## Elliptic curves -/

/-- The curves in the order in which they are tried. -/
def curves : List (KeyType × Curve) := [(.p256, .p256), (.p384, .p384)]

/-- The first curve that the key fits. -/
def firstFit? (k : EcKey) : Option (KeyType × Curve) := curves.find? fun c => (k.point? c.2).isSome

/-- What is reported of a key that is taken for one on `c`. -/
def factsOn? (k : EcKey) (c : KeyType × Curve) : Option (KeyType × Bytes) :=
  (k.point? c.2).map fun found => (c.1, ecPublicKey c.2 found.2)

/-- An older curve key with the curve that it names. -/
def ecNamedFields : Der.Reader (Option Oid × EcKey) := do
  let version ← Der.natural
  Der.require (version = 1)
  let secret ← Der.octetString
  let name ← Der.explicit 0 Der.oid
  let point ← Der.explicit 1 (do
    let contents ← Der.contentsOf 0x03
    Der.ofOption (Der.wholeBits? contents))
  pure (name, ⟨secret, point⟩)

theorem ecFields_eq : ecFields = Prod.snd <$> ecNamedFields := by
  simp [ecFields, ecNamedFields, map_bind]

theorem whole?_map {α β : Type} (f : α → β) (r : Der.Reader α) (b : Bytes) :
    (f <$> r).whole? b = (r.whole? b).map f := by
  unfold Der.Reader.whole?
  rw [StateT.run_map]
  rcases r.run b with _ | ⟨a, _ | ⟨x, rest⟩⟩ <;> rfl

theorem sequence_map {α β : Type} (f : α → β) (r : Der.Reader α) : Der.sequence (f <$> r) = f <$> Der.sequence r := by
  unfold Der.sequence Der.nested
  rw [map_bind]
  congr 1
  funext contents b
  show ((f <$> r).whole? contents).map (·, b) = _
  rw [whole?_map]
  cases h : r.whole? contents with
  | none => simp; rfl
  | some a => rfl

/-- The name of the curve is all that an older key says besides. -/
theorem fields_of_named {b : Bytes} {o : Option Oid} {k : EcKey}
    (h : (Der.sequence ecNamedFields).whole? b = some (o, k)) : (Der.sequence ecFields).whole? b = some k := by
  rw [ecFields_eq, sequence_map, whole?_map, h]
  rfl

section
variable {b inner : Bytes} {o : Oid} {k k' : EcKey}

theorem facts_ofSec1 (h : (Der.sequence ecFields).whole? b = some k) :
    facts (ofSec1 b) = curves.findSome? (factsOn? k) := by
  have hkey : ∀ c, ecKey? c b = k.point? c := fun c => by rw [ecKey?, h, Option.bind_some]
  cases h256 : k.point? .p256 <;> cases h384 : k.point? .p384 <;>
    simp [ofSec1, hkey, facts, Except.toOption, curves, factsOn?, h256, h384]

theorem ec?_named {c : Curve} (hc : CurveFits c) (h : (Der.sequence ecFields).whole? inner = some k) :
    (⟨⟨curveAlgorithm, some ⟨0x06, o.contents⟩⟩, inner⟩ : Info).ec? c =
      if c.oid = o then (k.point? c).map (·.2) else none := by
  have hname : Der.oid? o.contents = some c.oid ↔ c.oid = o := by
    constructor
    · intro h
      obtain ⟨-, heq⟩ := Option.ite_none_right_eq_some.mp h
      exact (Option.some.inj heq).symm
    · rintro rfl
      exact Der.oid?_of_isStrict hc.oid
  simp [Info.ec?, hname, ecKey?, h]

theorem facts_ofPkcs8_of_ec (hinfo : info? b = some ⟨⟨curveAlgorithm, some ⟨0x06, o.contents⟩⟩, inner⟩)
    (h : (Der.sequence ecFields).whole? inner = some k) :
    facts (ofPkcs8 b) = curves.findSome? fun c => if c.2.oid = o then factsOn? k c else none := by
  simp only [ofPkcs8, hinfo, rsa?_curveAlgorithm, ec?_named curveFits_p256 h, ec?_named curveFits_p384 h]
  by_cases h256 : Curve.p256.oid = o <;> by_cases h384 : Curve.p384.oid = o <;>
    cases hp256 : k.point? .p256 <;> cases hp384 : k.point? .p384 <;>
      simp [h256, h384, hp256, hp384, facts, Except.toOption, curves, factsOn?]

/-- The two say the same of the key: one secret, and a point that is kept belongs to it on the named curve in both or in
neither. -/
structure Alike (o : Oid) (k k' : EcKey) : Prop where
  secret : k'.secret = k.secret
  point : ∀ c ∈ curves, c.2.oid = o → ((k'.point? c.2).isSome ↔ (k.point? c.2).isSome)

theorem point?_of_isSome {c : Curve} (h : (k.point? c).isSome) :
    k.point? c = (c.secret? k.secret).map fun n => (n, c.coordinates (c.multiply n)) := by
  unfold EcKey.point? at *
  cases hn : c.secret? k.secret with
  | none => rfl
  | some n =>
    rw [hn, Option.bind_some] at h
    rw [Option.bind_some, Option.map_some]
    dsimp only at *
    split at h
    · rfl
    · split at h
      · next hown => rw [if_pos hown]
      · cases h

theorem Alike.refl (o : Oid) (k : EcKey) : Alike o k k := ⟨rfl, fun _ _ _ => Iff.rfl⟩

theorem Alike.factsOn? (h : Alike o k k') {c : KeyType × Curve} (hc : c ∈ curves) (ho : c.2.oid = o) :
    factsOn? k' c = factsOn? k c := by
  have hpoint : k'.point? c.2 = k.point? c.2 := by
    have hsome := h.point c hc ho
    by_cases hk : (k.point? c.2).isSome
    · rw [point?_of_isSome hk, point?_of_isSome (hsome.mpr hk), h.secret]
    · rw [Option.not_isSome_iff_eq_none.mp hk, Option.not_isSome_iff_eq_none.mp (mt hsome.mp hk)]
  rw [PrivateKey.factsOn?, PrivateKey.factsOn?, hpoint]

/-- The public point may be left out of a sound key. -/
theorem alike_without_point (h : ∀ c ∈ curves, c.2.oid = o → (k.point? c.2).isSome) :
    Alike o k ⟨k.secret, none⟩ where
  secret := rfl
  point c hc ho := by
    obtain ⟨v, hv⟩ := Option.isSome_iff_exists.mp (h c hc ho)
    obtain ⟨n, hn, -⟩ := Option.bind_eq_some_iff.mp hv
    rw [hv]
    simp [EcKey.point?, hn]

/-- Which form a public point has, is told by its length. -/
theorem length_of_point? {c : Curve} {p : Bytes} (h : (k.point? c).isSome) (hp : k.point = some p) :
    p.length = 2 * c.size + 1 ∨ p.length = c.size + 1 := by
  obtain ⟨v, hv⟩ := Option.isSome_iff_exists.mp h
  obtain ⟨n, -, hv⟩ := Option.bind_eq_some_iff.mp hv
  simp only [hp] at hv
  obtain ⟨rfl | rfl, -⟩ := Option.ite_none_right_eq_some.mp hv
  · left
    simp only [Curve.uncompressed, List.length_append, List.length_cons, Bytes.length_ofNat]
    omega
  · right
    rw [Curve.compressed, List.length_cons, Bytes.length_ofNat]

theorem length_secret_of_point? {c : Curve} (h : (k.point? c).isSome) : k.secret.length ≤ c.size := by
  obtain ⟨v, hv⟩ := Option.isSome_iff_exists.mp h
  obtain ⟨n, hn, -⟩ := Option.bind_eq_some_iff.mp hv
  unfold Curve.secret? at hn
  exact (Option.ite_none_right_eq_some.mp hn).1.2.1

/-- A sound key with a secret of full length or with its point fits no curve that is tried before its own. -/
theorem firstFit?_of_complete {c : KeyType × Curve} (hc : c ∈ curves) (hfit : (k.point? c.2).isSome)
    (hcomplete : k.secret.length = c.2.size ∨ k.point.isSome) : firstFit? k = some c := by
  obtain rfl | rfl : c = (.p256, .p256) ∨ c = (.p384, .p384) := by simpa [curves] using hc
  · simp [firstFit?, curves, hfit]
  · have hother : ¬ (k.point? .p256).isSome := by
      intro h256
      have hlength : k.secret.length ≤ 32 := length_secret_of_point? h256
      rcases hcomplete with hfull | hpoint
      · rw [hfull] at hlength
        exact absurd hlength (by decide)
      · obtain ⟨p, hp⟩ := Option.isSome_iff_exists.mp hpoint
        have h65 : p.length = 2 * 32 + 1 ∨ p.length = 32 + 1 := length_of_point? h256 hp
        have h97 : p.length = 2 * 48 + 1 ∨ p.length = 48 + 1 := length_of_point? hfit hp
        omega
    simp [firstFit?, curves, hfit, hother]

end

/-- If different members never give the same, the first member that gives anything decides whether only members with the
property may be asked. -/
theorem findSome?_filtered_iff {α β : Type} {f : α → Option β} {q : α → Prop} [DecidablePred q] {l : List α}
    (hf : ∀ a ∈ l, ∀ a' ∈ l, ∀ v, f a = some v → f a' = some v → a = a') :
    (l.findSome? f = l.findSome? fun a => if q a then f a else none) ↔ ∀ a ∈ l.find? fun a => (f a).isSome, q a := by
  induction l with
  | nil => simp
  | cons a l ih =>
    have htail := ih fun b hb c hc => hf b (List.mem_cons_of_mem _ hb) c (List.mem_cons_of_mem _ hc)
    cases ha : f a with
    | none => simpa [ha] using htail
    | some v =>
      by_cases hq : q a
      · simp [ha, hq]
      · -- another member that has the property gives something else
        have hne : (l.findSome? fun a => if q a then f a else none) ≠ some v := by
          intro hv
          obtain ⟨b, hb, hbv⟩ := List.exists_of_findSome?_eq_some hv
          obtain ⟨hqb, hbv⟩ := Option.ite_none_right_eq_some.mp hbv
          exact hq (hf a List.mem_cons_self b (List.mem_cons_of_mem _ hb) v ha hbv ▸ hqb)
        simpa [ha, hq] using hne.symm

theorem eq_of_factsOn? {k : EcKey} {c d : KeyType × Curve} {f : KeyType × Bytes} (hc : c ∈ curves) (hd : d ∈ curves)
    (hcf : factsOn? k c = some f) (hdf : factsOn? k d = some f) : c = d := by
  obtain ⟨_, -, rfl⟩ := Option.map_eq_some_iff.mp hcf
  obtain ⟨_, -, hf⟩ := Option.map_eq_some_iff.mp hdf
  have htype : d.1 = c.1 := (Prod.mk.inj hf).1
  simp only [curves, List.mem_cons, List.not_mem_nil, or_false] at hc hd
  rcases hc with rfl | rfl <;> rcases hd with rfl | rfl <;> first | rfl | cases htype

theorem type_of_factsOn? {k : EcKey} {c : KeyType × Curve} (h : (k.point? c.2).isSome) :
    (factsOn? k c).map (·.1) = some c.1 := by
  obtain ⟨v, hv⟩ := Option.isSome_iff_exists.mp h
  rw [factsOn?, hv]
  rfl

theorem isSome_factsOn? {k : EcKey} {c : KeyType × Curve} : (factsOn? k c).isSome = (k.point? c.2).isSome := by
  rw [factsOn?, Option.isSome_map]

theorem findSome?_congr {α β : Type} {f g : α → Option β} {l : List α} (h : ∀ a ∈ l, f a = g a) :
    l.findSome? f = l.findSome? g := by
  induction l with
  | nil => rfl
  | cons a l ih =>
    rw [List.findSome?_cons, List.findSome?_cons, h a List.mem_cons_self, ih fun b hb => h b (List.mem_cons_of_mem _ hb)]

theorem findSome?_eq_find?_bind {α β : Type} (f : α → Option β) (l : List α) :
    l.findSome? f = (l.find? fun a => (f a).isSome).bind f := by
  induction l with
  | nil => rfl
  | cons a l ih => cases ha : f a <;> simp [ha, ih]

/-! ## Texts -/

/-- The first block of the text has this tag and these contents, and the PEM layer has not encrypted it. -/
def Holds (text tag : String) (b : Bytes) : Prop :=
  ∃ p, Pem.parse text = .ok p ∧ isLegacyEncrypted p = false ∧ p.tag = tag ∧ p.contents = b

theorem parse_of_holds {text tag : String} {b : Bytes} (h : Holds text tag b) (password : Option String) :
    parse text password = ofBlock ⟨tag, [], b⟩ password := by
  obtain ⟨p, hp, hlegacy, rfl, rfl⟩ := h
  have hplain : isLegacyEncrypted ⟨p.tag, [], p.contents⟩ = false := rfl
  simp only [parse, hp, ofBlock, hlegacy, hplain]

theorem holds_encode {tag : String} (hempty : tag ≠ "") (hdash : '-' ∉ tag.toList) (b : Bytes) :
    Holds (⟨tag, [], b⟩ : Pem).encode tag b :=
  ⟨_, Pem.parse_encode hempty hdash b, rfl, rfl, rfl⟩

def OlderRsa (k : RsaKey) (text : String) : Prop :=
  ∃ b, Holds text "RSA PRIVATE KEY" b ∧ (Der.sequence RsaKey.fields).whole? b = some k

def PlainRsa (k : RsaKey) (text : String) : Prop :=
  ∃ b inner, Holds text "PRIVATE KEY" b ∧ info? b = some ⟨⟨RsaKey.oid, some ⟨0x05, []⟩⟩, inner⟩ ∧
    (Der.sequence RsaKey.fields).whole? inner = some k

/-- An older curve key that names the curve `o`. -/
def OlderEc (o : Oid) (k : EcKey) (text : String) : Prop :=
  ∃ b, Holds text "EC PRIVATE KEY" b ∧ (Der.sequence ecNamedFields).whole? b = some (some o, k)

/-- A plain key whose algorithm names the curve `o`. What the key inside names does not matter. -/
def PlainEc (o : Oid) (k : EcKey) (text : String) : Prop :=
  ∃ b inner, Holds text "PRIVATE KEY" b ∧ info? b = some ⟨⟨curveAlgorithm, some ⟨0x06, o.contents⟩⟩, inner⟩ ∧
    (Der.sequence ecFields).whole? inner = some k

section
variable {older plain : String} {o : Oid} {k k' : EcKey}

theorem facts_of_olderRsa {k : RsaKey} (h : OlderRsa k older) (password : Option String) {f : KeyType × Bytes} :
    facts (parse older password) = some f ↔ k.isSound = true ∧ Rewritable k ∧ (.rsa, k.publicKey) = f := by
  obtain ⟨b, hb, hk⟩ := h
  rw [parse_of_holds hb]
  exact facts_ofPkcs1 hk

theorem facts_of_plainRsa {k : RsaKey} (h : PlainRsa k plain) (password : Option String) {f : KeyType × Bytes} :
    facts (parse plain password) = some f ↔ k.isSound = true ∧ (.rsa, k.publicKey) = f := by
  obtain ⟨b, inner, hb, hinfo, hk⟩ := h
  rw [parse_of_holds hb]
  exact facts_ofPkcs8_of_rsa hinfo hk

theorem facts_of_olderEc (h : OlderEc o k older) (password : Option String) :
    facts (parse older password) = curves.findSome? (factsOn? k) := by
  obtain ⟨b, hb, hk⟩ := h
  rw [parse_of_holds hb]
  exact facts_ofSec1 (fields_of_named hk)

theorem facts_of_plainEc (h : PlainEc o k' plain) (halike : Alike o k k') (password : Option String) :
    facts (parse plain password) = curves.findSome? fun c => if c.2.oid = o then factsOn? k c else none := by
  obtain ⟨b, inner, hb, hinfo, hk⟩ := h
  rw [parse_of_holds hb]
  refine (facts_ofPkcs8_of_ec hinfo hk).trans (findSome?_congr fun c hc => ?_)
  split
  · next ho => exact halike.factsOn? hc ho
  · rfl

theorem facts_of_plainEc_named (h : PlainEc o k' plain) (halike : Alike o k k') {c : KeyType × Curve} (hc : c ∈ curves)
    (ho : c.2.oid = o) (password : Option String) : facts (parse plain password) = factsOn? k c := by
  subst ho
  rw [facts_of_plainEc h halike]
  obtain rfl | rfl : c = (.p256, .p256) ∨ c = (.p384, .p384) := by simpa [curves] using hc
  · cases hk : factsOn? k (.p256, .p256) <;> simp [curves, hk, p384_oid_ne_p256_oid]
  · cases hk : factsOn? k (.p384, .p384) <;> simp [curves, hk, p384_oid_ne_p256_oid.symm]

theorem facts_of_plainEc_of_ne (h : PlainEc o k' plain) (halike : Alike o k k') (ho : ∀ c ∈ curves, c.2.oid ≠ o)
    (password : Option String) : facts (parse plain password) = none := by
  rw [facts_of_plainEc h halike, List.findSome?_eq_none_iff]
  exact fun c hc => if_neg (ho c hc)

theorem facts_agree_iff (holder : OlderEc o k older) (hplain : PlainEc o k' plain) (halike : Alike o k k')
    (password password' : Option String) :
    facts (parse older password) = facts (parse plain password') ↔ ∀ c ∈ firstFit? k, c.2.oid = o := by
  rw [facts_of_olderEc holder, facts_of_plainEc hplain halike, findSome?_filtered_iff]
  · simp only [isSome_factsOn?, firstFit?]
  · exact fun c hc d hd f hcf hdf => eq_of_factsOn? hc hd hcf hdf

theorem facts_of_olderEc_eq_bind (h : OlderEc o k older) (password : Option String) :
    facts (parse older password) = (firstFit? k).bind (factsOn? k) := by
  rw [facts_of_olderEc h, findSome?_eq_find?_bind, firstFit?]
  simp only [isSome_factsOn?]

/-- A key in an older form and the same key in plain PKCS#8 are reported alike, or both refused, exactly if the RSA key can
be written anew, or the first curve that the curve key fits is the one that both name. It is, if the key is sound on the
named curve and has a secret of full length or its public point. A key that names no supported curve is refused as plain
PKCS#8, but in the older form it is taken for one on the first curve that it fits. -/
theorem containers_agree_iff (older plain : String) (password password' : Option String) :
    (∀ k, OlderRsa k older → PlainRsa k plain →
      (facts (parse older password) = facts (parse plain password') ↔ (k.isSound = true → Rewritable k))) ∧
    ∀ o k k', OlderEc o k older → PlainEc o k' plain → Alike o k k' →
      (facts (parse older password) = facts (parse plain password') ↔ ∀ c ∈ firstFit? k, c.2.oid = o) ∧
      (∀ c ∈ curves, c.2.oid = o → (k.point? c.2).isSome → k.secret.length = c.2.size ∨ k.point.isSome →
        facts (parse older password) = factsOn? k c ∧ facts (parse plain password') = factsOn? k c) ∧
      ((∀ c ∈ curves, c.2.oid ≠ o) →
        facts (parse plain password') = none ∧ facts (parse older password) = (firstFit? k).bind (factsOn? k)) := by
  refine ⟨fun k holder hplain => ?_, fun o k k' holder hplain halike => ⟨?_, ?_, ?_⟩⟩
  · rw [Option.ext_iff]
    simp only [facts_of_olderRsa holder, facts_of_plainRsa hplain]
    constructor
    · exact fun h hsound => ((h (.rsa, k.publicKey)).mpr ⟨hsound, rfl⟩).2.1
    · exact fun h f => ⟨fun hf => ⟨hf.1, hf.2.2⟩, fun hf => ⟨hf.1, h hf.1, hf.2⟩⟩
  · exact facts_agree_iff holder hplain halike password password'
  · intro c hc ho hfit hcomplete
    refine ⟨?_, facts_of_plainEc_named hplain halike hc ho password'⟩
    rw [facts_of_olderEc_eq_bind holder, firstFit?_of_complete hc hfit hcomplete, Option.bind_some]
  · exact fun hother =>
      ⟨facts_of_plainEc_of_ne hplain halike hother password', facts_of_olderEc_eq_bind holder password⟩

end

/-! ## Some keys -/

/-- The number one as a secret of `n` octets, without its point. -/
def bareKey (n : Nat) : EcKey := ⟨Bytes.ofNat n 1, none⟩

def bareInner (o : Oid) (n : Nat) : Bytes :=
  Der.Write.sequence [Der.Write.natural 1, Der.Write.octetString (Bytes.ofNat n 1), Der.Write.explicit 0 (Der.Write.oid o)]

def bareInfo (o : Oid) (n : Nat) : Bytes :=
  wrap (Der.Write.sequence [Der.Write.oid curveAlgorithm, Der.Write.oid o]) (bareInner o n)

theorem olderEc_bare {o : Oid} {n : Nat}
    (h : (Der.sequence ecNamedFields).whole? (bareInner o n) = some (some o, bareKey n)) :
    OlderEc o (bareKey n) (⟨"EC PRIVATE KEY", [], bareInner o n⟩ : Pem).encode :=
  ⟨_, holds_encode (by decide) (by decide) _, h⟩

theorem plainEc_bare {o : Oid} {n : Nat}
    (hinfo : info? (bareInfo o n) = some ⟨⟨curveAlgorithm, some ⟨0x06, o.contents⟩⟩, bareInner o n⟩)
    (h : (Der.sequence ecNamedFields).whole? (bareInner o n) = some (some o, bareKey n)) :
    PlainEc o (bareKey n) (⟨"PRIVATE KEY", [], bareInfo o n⟩ : Pem).encode :=
  ⟨_, _, holds_encode (by decide) (by decide) _, hinfo, fields_of_named h⟩

theorem point?_bare : ((bareKey 32).point? .p256).isSome ∧ ((bareKey 32).point? .p384).isSome ∧
    ((bareKey 48).point? .p384).isSome ∧ Curve.p384.secret? (Bytes.ofNat 48 1) = some 1 := by
  decide +kernel

/-- A curve that is not supported. -/
def secp256k1 : Oid := .ofArcs [1, 3, 132, 0, 10]

theorem named_bare :
    (Der.sequence ecNamedFields).whole? (bareInner secp256k1 32) = some (some secp256k1, bareKey 32) ∧
    (Der.sequence ecNamedFields).whole? (bareInner Curve.p384.oid 32) = some (some Curve.p384.oid, bareKey 32) ∧
    (Der.sequence ecNamedFields).whole? (bareInner Curve.p384.oid 48) = some (some Curve.p384.oid, bareKey 48) ∧
    info? (bareInfo secp256k1 32) =
      some ⟨⟨curveAlgorithm, some ⟨0x06, secp256k1.contents⟩⟩, bareInner secp256k1 32⟩ ∧
    info? (bareInfo Curve.p384.oid 32) =
      some ⟨⟨curveAlgorithm, some ⟨0x06, Curve.p384.oid.contents⟩⟩, bareInner Curve.p384.oid 32⟩ := by
  decide +kernel

theorem firstFit?_bare : firstFit? (bareKey 32) = some (.p256, .p256) :=
  firstFit?_of_complete (by simp [curves]) point?_bare.1 (.inl rfl)

/-- The P-384 key has a secret of full length in both containers, and its point in one of them. -/
theorem alike_bare : Alike Curve.p384.oid (bareKey 48)
    ⟨Bytes.ofNat 48 1, some (Curve.p384.uncompressed (Curve.p384.coordinates (Curve.p384.multiply 1)))⟩ := by
  refine ⟨rfl, fun c hc ho => ?_⟩
  obtain rfl | rfl : c = (.p256, .p256) ∨ c = (.p384, .p384) := by simpa [curves] using hc
  · exact absurd ho.symm p384_oid_ne_p256_oid
  · exact iff_of_true (by simp [EcKey.point?, point?_bare.2.2.2]) point?_bare.2.2.1

/-- A short RSA key, sound and with primes that have no common divisor. -/
def smallRsaKey : RsaKey := ⟨55, 3, 27, 5, 11⟩

theorem containers_agree_samples :
    (∃ older plain, OlderRsa smallRsaKey older ∧ PlainRsa smallRsaKey plain ∧
      facts (parse older none) = facts (parse plain none)) ∧
    ∃ older plain k', OlderEc Curve.p384.oid (bareKey 48) older ∧ PlainEc Curve.p384.oid k' plain ∧ k'.point.isSome ∧
      facts (parse older none) = factsOn? (bareKey 48) (.p384, .p384) ∧
      facts (parse plain none) = factsOn? (bareKey 48) (.p384, .p384) := by
  constructor
  · let inner := smallRsaKey.encode?.getD []
    have hinner : smallRsaKey.encode? = some inner := by decide
    obtain ⟨hfits, hfields⟩ : Der.Fits (wrap RsaKey.algorithm inner) ∧
        (Der.sequence RsaKey.fields).whole? inner = some smallRsaKey := by decide +kernel
    have holder : OlderRsa smallRsaKey (⟨"RSA PRIVATE KEY", [], inner⟩ : Pem).encode :=
      ⟨_, holds_encode (by decide) (by decide) _, hfields⟩
    have hplain : PlainRsa smallRsaKey (⟨"PRIVATE KEY", [], wrap RsaKey.algorithm inner⟩ : Pem).encode :=
      ⟨_, _, holds_encode (by decide) (by decide) _, info?_wrap reads_rsaAlgorithm hfits, hfields⟩
    exact ⟨_, _, holder, hplain, ((containers_agree_iff _ _ none none).1 _ holder hplain).mpr fun hsound =>
      (rewritable_iff hsound).mpr ⟨inner, hinner, hfits⟩⟩
  · have holder := olderEc_bare named_bare.2.2.1
    have hfits := fits_ecEncode curveFits_p384 1 (Curve.p384.coordinates (Curve.p384.multiply 1))
    have hplain := ecFields_of_inner (fits_ecInner hfits)
    have hforms : PlainEc Curve.p384.oid _ (⟨"PRIVATE KEY", [], ecEncode .p384 1 _⟩ : Pem).encode :=
      ⟨_, _, holds_encode (by decide) (by decide) _, info?_ecEncode hfits, hplain⟩
    exact ⟨_, _, _, holder, hforms, rfl, ((containers_agree_iff _ _ none none).2 _ _ _ holder hforms alike_bare).2.1
      (.p384, .p384) (by simp [curves]) rfl point?_bare.2.2.1 (.inl rfl)⟩

/-- An older key that names an unsupported curve is read as one on P-256, and so is a P-384 key with a short secret. In
plain PKCS#8 the one is refused, and the other is a P-384 key. -/
theorem named_curve_ignored :
    (∃ older plain, OlderEc secp256k1 (bareKey 32) older ∧ PlainEc secp256k1 (bareKey 32) plain ∧
      (facts (parse older none)).map (·.1) = some .p256 ∧ facts (parse plain none) = none) ∧
    ∃ older plain, OlderEc Curve.p384.oid (bareKey 32) older ∧ PlainEc Curve.p384.oid (bareKey 32) plain ∧
      (facts (parse older none)).map (·.1) = some .p256 ∧ (facts (parse plain none)).map (·.1) = some .p384 := by
  have hfirst : ∀ o text, OlderEc o (bareKey 32) text → (facts (parse text none)).map (·.1) = some .p256 := by
    intro o text holder
    rw [facts_of_olderEc_eq_bind holder, firstFit?_bare]
    exact type_of_factsOn? point?_bare.1
  have hforeign := plainEc_bare named_bare.2.2.2.1 named_bare.1
  have hother : ∀ c ∈ curves, c.2.oid ≠ secp256k1 := by
    simp only [curves, List.forall_mem_cons]
    exact ⟨by decide_cbv, by decide_cbv, by simp⟩
  have hplain := plainEc_bare named_bare.2.2.2.2 named_bare.2.1
  refine ⟨⟨_, _, olderEc_bare named_bare.1, hforeign, hfirst _ _ (olderEc_bare named_bare.1),
      facts_of_plainEc_of_ne hforeign (.refl _ _) hother none⟩,
    ⟨_, _, olderEc_bare named_bare.2.1, hplain, hfirst _ _ (olderEc_bare named_bare.2.1), ?_⟩⟩
  rw [facts_of_plainEc_named hplain (.refl _ _) (c := (.p384, .p384)) (by simp [curves]) rfl]
  exact type_of_factsOn? point?_bare.2.1

end CertRotation.PrivateKey
