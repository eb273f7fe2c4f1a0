import CertRotation.Encryption.Pbes2
import CertRotation.Proofs.Asn1.DerExact

/-!
# How schemes are written

`IsScheme` is the grammar of the algorithm identifiers for password based encryption. Parameters that may be left out leave
nothing behind, and what is written in them is in its only encoding.
-/
namespace CertRotation.Pbes2
open Der

/-! ## The grammar -/

/-- The identifier of a keyed hash, with empty parameters. -/
structure IsHash (a : Algorithm) (name : HashName) : Prop where
  sound : a.Sound
  parameters : a.parameters = some ⟨0x05, []⟩
  known : hashes.lookup a.oid = some name

def pbkdf2Items (salt : Bytes) (rounds : Nat) (keySize : Option Nat) (hash : Option Algorithm) : List Bytes :=
  Write.octetString salt :: Write.natural rounds ::
    (keySize.toList.map Write.natural ++ hash.toList.map Algorithm.encode)

def scryptItems (salt : Bytes) (cost blockSize lanes : Nat) (keySize : Option Nat) : List Bytes :=
  Write.octetString salt :: Write.natural cost :: Write.natural blockSize :: Write.natural lanes ::
    keySize.toList.map Write.natural

/-- The parameters of PBKDF2. SHA-1 is the hash that need not be named. -/
inductive IsPbkdf2 : Bytes → Derivation → Prop where
  | mk {salt : Bytes} {rounds : Nat} {keySize : Option Nat} {hash : Option Algorithm} {name : HashName}
      (rounds_lt : rounds < 0x100000000) (keySize_lt : ∀ n ∈ keySize, n < 0x10000) (named : ∀ a ∈ hash, IsHash a name)
      (unnamed : hash = none → name = .sha1) :
      IsPbkdf2 (pbkdf2Items salt rounds keySize hash).flatten (.pbkdf2 salt rounds keySize name)

inductive IsScrypt : Bytes → Derivation → Prop where
  | mk {salt : Bytes} {cost blockSize lanes : Nat} {keySize : Option Nat} (cost_lt : cost < 0x10000000000000000)
      (blockSize_lt : blockSize < 0x10000) (lanes_lt : lanes < 0x10000) (keySize_lt : ∀ n ∈ keySize, n < 0x10000) :
      IsScrypt (scryptItems salt cost blockSize lanes keySize).flatten (.scrypt salt cost blockSize lanes keySize)

/-- The identifier of a key derivation. -/
def IsDerivation (a : Algorithm) (d : Derivation) : Prop :=
  ∃ c, a.parameters = some ⟨0x30, c⟩ ∧ (a.oid = pbkdf2Oid ∧ IsPbkdf2 c d ∨ a.oid = scryptOid ∧ IsScrypt c d)

/-- The identifier of AES with a key of `keySize` octets and an initial vector. -/
structure IsCipher (a : Algorithm) (keySize : Nat) (iv : Bytes) : Prop where
  parameters : a.parameters = some ⟨0x04, iv⟩
  length : iv.length = 16
  known : ciphers.lookup a.oid = some keySize

/-- The parameters of the second scheme of PKCS#5: a derivation and a cipher. -/
inductive IsAes : Bytes → Scheme → Prop where
  | mk {a b : Algorithm} {d : Derivation} {keySize : Nat} {iv : Bytes} (sound : a.Sound) (sound' : b.Sound)
      (derivation : IsDerivation a d) (cipher : IsCipher b keySize iv) :
      IsAes [a.encode, b.encode].flatten (.aes d keySize iv)

/-- The parameters of a cipher of the first scheme. -/
inductive IsWeak : Bytes → Scheme → Prop where
  | mk {salt : Bytes} {rounds : Nat} (length : salt.length = 8) (rounds_lt : rounds < 0x10000) :
      IsWeak [Write.octetString salt, Write.natural rounds].flatten .weak

/-- The identifier of a scheme. -/
def IsScheme (a : Algorithm) (s : Scheme) : Prop :=
  ∃ c, a.parameters = some ⟨0x30, c⟩ ∧ (a.oid = schemeOid ∧ IsAes c s ∨ a.oid ∈ weakSchemes ∧ IsWeak c s)

/-! ## Derivations -/

section
variable {a : Algorithm} {c : Bytes} {d : Derivation} {s : Scheme}

theorem hash?_eq_some {name : HashName} :
    hash? a = some name ↔ a.parameters = some ⟨0x05, []⟩ ∧ hashes.lookup a.oid = some name := by
  obtain ⟨o, p⟩ := a
  rcases p with _ | ⟨t, contents⟩
  · simp [hash?]
  · simp [hash?, Element.isNull]

theorem exact_hash : Exact (do
    let a ← algorithm
    ofOption (hash? a)) fun b name => ∃ a : Algorithm, b = a.encode ∧ IsHash a name ∧ Fits a.fields.flatten := by
  refine (exact_algorithm.bind fun a => exact_ofOption (hash? a)).congr fun b name => ?_
  constructor
  · rintro ⟨a, _, _, rfl, ⟨rfl, hsound, hfits⟩, rfl, hhash⟩
    obtain ⟨hparameters, hknown⟩ := hash?_eq_some.mp hhash
    exact ⟨a, List.append_nil _, ⟨hsound, hparameters, hknown⟩, hfits⟩
  · rintro ⟨a, rfl, ⟨hsound, hparameters, hknown⟩, hfits⟩
    exact ⟨a, _, [], (List.append_nil _).symm, ⟨rfl, hsound, hfits⟩, rfl, hash?_eq_some.mpr ⟨hparameters, hknown⟩⟩

theorem run_keySize {b rest : Bytes} {o : Option Nat} : (optional 0x02 (naturalBelow 0x10000)).run b = some (o, rest) ↔
    b = (o.toList.map Write.natural).flatten ++ rest ∧ (∀ n ∈ o, Fits (naturalContents n) ∧ n < 0x10000) ∧
      (o = none → ∀ u ∈ rest.head?, isTag u = true ∧ u ≠ 0x02) := by
  rw [run_optional_iff (exact_naturalBelow _) (by decide) fun b n h => by rw [h.1]; rfl]
  cases o with
  | none => simp
  | some n => simp

/-- A hash that stands last. -/
theorem run_hash {b : Bytes} {o : Option HashName} : (optional 0x30 (do
      let a ← algorithm
      ofOption (hash? a))).run b = some (o, []) ↔
    ∃ hash : Option Algorithm, b = (hash.toList.map Algorithm.encode).flatten ∧
      (∀ a ∈ hash, ∃ name, o = some name ∧ IsHash a name ∧ Fits a.fields.flatten) ∧ (hash = none → o = none) := by
  have hhead : ∀ (b : Bytes) (name : HashName), (∃ a : Algorithm, b = a.encode ∧ IsHash a name ∧ Fits a.fields.flatten) →
      b.head? = some 0x30 := by
    rintro b name ⟨a, rfl, -⟩
    rfl
  rw [run_optional_iff exact_hash (by decide) hhead]
  constructor
  · rintro (⟨rfl, rfl, -⟩ | ⟨name, _, rfl, rfl, a, rfl, hhash, hfits⟩)
    · exact ⟨none, rfl, by simp, fun _ => rfl⟩
    · exact ⟨some a, by simp, by simpa using ⟨hhash, hfits⟩, by simp⟩
  · rintro ⟨_ | a, rfl, hsome, hnone⟩
    · exact .inl ⟨hnone rfl, rfl, by simp⟩
    · obtain ⟨name, rfl, hhash, hfits⟩ := hsome a rfl
      exact .inr ⟨name, a.encode, rfl, by simp, a, rfl, hhash, hfits⟩

theorem isPbkdf2_of_whole? (h : pbkdf2Fields.whole? c = some d) : IsPbkdf2 c d := by
  rw [whole?_eq_some, pbkdf2Fields, exact_octetString.run_bind] at h
  obtain ⟨salt, _, _, rfl, ⟨rfl, -⟩, h⟩ := h
  rw [(exact_naturalBelow _).run_bind] at h
  obtain ⟨rounds, _, _, rfl, ⟨rfl, -, hrounds⟩, h⟩ := h
  obtain ⟨keySize, _, hkeySize, h⟩ := run_bind_iff.mp h
  obtain ⟨o, _, hhash, h⟩ := run_bind_iff.mp h
  obtain ⟨rfl, rfl⟩ := Prod.mk.inj (Option.some.inj h)
  obtain ⟨rfl, hsize, -⟩ := run_keySize.mp hkeySize
  obtain ⟨hash, rfl, hnamed, hnone⟩ := run_hash.mp hhash
  have hitems : Write.octetString salt ++ (Write.natural rounds ++ ((keySize.toList.map Write.natural).flatten ++
      (hash.toList.map Algorithm.encode).flatten)) = (pbkdf2Items salt rounds keySize hash).flatten := by
    simp [pbkdf2Items]
  rw [hitems]
  refine .mk hrounds (fun n hn => (hsize n hn).2) (fun a ha => ?_) fun h => by rw [hnone h]; rfl
  obtain ⟨name, rfl, hhash, -⟩ := hnamed a ha
  exact hhash

theorem whole?_of_isPbkdf2 (hc : Fits c) (h : IsPbkdf2 c d) : pbkdf2Fields.whole? c = some d := by
  obtain @⟨salt, rounds, keySize, hash, name, hrounds, hsize, hnamed, hunnamed⟩ := h
  have hsalt : Fits (Write.octetString salt) := hc.item (by simp [pbkdf2Items])
  have hnumber : Fits (Write.natural rounds) := hc.item (by simp [pbkdf2Items])
  have hkeySize : ∀ n ∈ keySize, Fits (naturalContents n) ∧ n < 0x10000 := fun n hn =>
    ⟨(hc.item (b := Write.natural n) (by simp [pbkdf2Items, Option.mem_def.mp hn])).contents, hsize n hn⟩
  have hhash : ∀ a ∈ hash, ∃ x, hash.map (fun _ => name) = some x ∧ IsHash a x ∧ Fits a.fields.flatten := fun a ha =>
    ⟨name, by simp [Option.mem_def.mp ha], hnamed a ha,
      (hc.item (b := a.encode) (by simp [pbkdf2Items, Option.mem_def.mp ha])).contents⟩
  have hnext : ∀ u ∈ (hash.toList.map Algorithm.encode).flatten.head?, isTag u = true ∧ u ≠ 0x02 := by
    cases hash with
    | none => simp
    | some a =>
      intro u hu
      obtain rfl : 0x30 = u := Option.some.inj hu
      decide
  have hname : (hash.map fun _ => name).getD .sha1 = name := by
    cases hash with
    | none => exact (hunnamed rfl).symm
    | some a => rfl
  rw [whole?_eq_some, pbkdf2Fields, pbkdf2Items, List.flatten_cons, List.flatten_cons, List.flatten_append,
    exact_octetString.run_bind]
  refine ⟨salt, _, _, rfl, ⟨rfl, hsalt.contents⟩, ?_⟩
  rw [(exact_naturalBelow _).run_bind]
  refine ⟨rounds, _, _, rfl, ⟨rfl, hnumber.contents, hrounds⟩, run_bind_iff.mpr ⟨keySize, _,
    run_keySize.mpr ⟨rfl, hkeySize, fun _ => hnext⟩, run_bind_iff.mpr ⟨hash.map fun _ => name, [],
      run_hash.mpr ⟨hash, rfl, hhash, fun h => by rw [h]; rfl⟩, ?_⟩⟩⟩
  rw [hname]
  rfl

theorem isScrypt_of_whole? (h : scryptFields.whole? c = some d) : IsScrypt c d := by
  rw [whole?_eq_some, scryptFields, exact_octetString.run_bind] at h
  obtain ⟨salt, _, _, rfl, ⟨rfl, -⟩, h⟩ := h
  rw [(exact_naturalBelow _).run_bind] at h
  obtain ⟨cost, _, _, rfl, ⟨rfl, -, hcost⟩, h⟩ := h
  rw [(exact_naturalBelow _).run_bind] at h
  obtain ⟨blockSize, _, _, rfl, ⟨rfl, -, hblockSize⟩, h⟩ := h
  rw [(exact_naturalBelow _).run_bind] at h
  obtain ⟨lanes, _, _, rfl, ⟨rfl, -, hlanes⟩, h⟩ := h
  obtain ⟨keySize, _, hkeySize, h⟩ := run_bind_iff.mp h
  obtain ⟨rfl, rfl⟩ := Prod.mk.inj (Option.some.inj h)
  obtain ⟨rfl, hsize, -⟩ := run_keySize.mp hkeySize
  have hitems : Write.octetString salt ++ (Write.natural cost ++ (Write.natural blockSize ++ (Write.natural lanes ++
      ((keySize.toList.map Write.natural).flatten ++ [])))) = (scryptItems salt cost blockSize lanes keySize).flatten := by
    simp [scryptItems]
  rw [hitems]
  exact .mk hcost hblockSize hlanes fun n hn => (hsize n hn).2

theorem whole?_of_isScrypt (hc : Fits c) (h : IsScrypt c d) : scryptFields.whole? c = some d := by
  obtain @⟨salt, cost, blockSize, lanes, keySize, hcost, hblockSize, hlanes, hsize⟩ := h
  have hsalt : Fits (Write.octetString salt) := hc.item (by simp [scryptItems])
  have hfits : ∀ n, Write.natural n ∈ scryptItems salt cost blockSize lanes keySize → Fits (naturalContents n) :=
    fun n hn => (hc.item hn).contents
  have hkeySize : ∀ n ∈ keySize, Fits (naturalContents n) ∧ n < 0x10000 := fun n hn =>
    ⟨hfits n (by simp [scryptItems, Option.mem_def.mp hn]), hsize n hn⟩
  rw [whole?_eq_some, scryptFields, scryptItems, List.flatten_cons, List.flatten_cons, List.flatten_cons,
    List.flatten_cons, exact_octetString.run_bind]
  refine ⟨salt, _, _, rfl, ⟨rfl, hsalt.contents⟩, ?_⟩
  rw [(exact_naturalBelow _).run_bind]
  refine ⟨cost, _, _, rfl, ⟨rfl, hfits cost (by simp [scryptItems]), hcost⟩, ?_⟩
  rw [(exact_naturalBelow _).run_bind]
  refine ⟨blockSize, _, _, rfl, ⟨rfl, hfits blockSize (by simp [scryptItems]), hblockSize⟩, ?_⟩
  rw [(exact_naturalBelow _).run_bind]
  refine ⟨lanes, _, _, rfl, ⟨rfl, hfits lanes (by simp [scryptItems]), hlanes⟩, ?_⟩
  exact run_bind_iff.mpr ⟨keySize, [], run_keySize.mpr ⟨(List.append_nil _).symm, hkeySize, by simp⟩, rfl⟩

/-! ## Identifiers -/

theorem within?_eq_some {α : Type} {e : Element} {t : UInt8} {r : Reader α} {x : α} :
    e.within? t r = some x ↔ e = ⟨t, e.contents⟩ ∧ r.whole? e.contents = some x := by
  obtain ⟨u, c⟩ := e
  simp [Element.within?]

theorem derivation?_eq_some_iff (ha : a.Sound) : derivation? a = some d ↔ IsDerivation a d := by
  have hne : scryptOid ≠ pbkdf2Oid := by decide
  have hfits : ∀ c, a.parameters = some ⟨0x30, c⟩ → Fits c := fun c hc => (ha.parameters _ hc).fits
  unfold derivation?
  rw [Option.bind_eq_some_iff]
  constructor
  · rintro ⟨p, hp, h⟩
    split at h
    · next hoid =>
      obtain ⟨he, hwhole⟩ := within?_eq_some.mp h
      exact ⟨p.contents, he ▸ hp, .inl ⟨hoid, isPbkdf2_of_whole? hwhole⟩⟩
    · next =>
      obtain ⟨hoid, h⟩ := Option.ite_none_right_eq_some.mp h
      obtain ⟨he, hwhole⟩ := within?_eq_some.mp h
      exact ⟨p.contents, he ▸ hp, .inr ⟨hoid, isScrypt_of_whole? hwhole⟩⟩
  · rintro ⟨c, hc, ⟨hoid, h⟩ | ⟨hoid, h⟩⟩
    · exact ⟨_, hc, by rw [if_pos hoid]; exact within?_eq_some.mpr ⟨rfl, whole?_of_isPbkdf2 (hfits c hc) h⟩⟩
    · refine ⟨_, hc, ?_⟩
      rw [if_neg fun h => hne (hoid.symm.trans h), if_pos hoid]
      exact within?_eq_some.mpr ⟨rfl, whole?_of_isScrypt (hfits c hc) h⟩

theorem cipher?_eq_some_iff {keySize : Nat} {iv : Bytes} : cipher? a = some (keySize, iv) ↔ IsCipher a keySize iv := by
  obtain ⟨o, p⟩ := a
  constructor
  · intro h
    obtain ⟨⟨t, c⟩, rfl, h⟩ := Option.bind_eq_some_iff.mp h
    obtain ⟨⟨rfl, hlength⟩, h⟩ := Option.ite_none_right_eq_some.mp h
    obtain ⟨n, hn, heq⟩ := Option.map_eq_some_iff.mp h
    obtain ⟨rfl, rfl⟩ := Prod.mk.inj heq
    exact ⟨rfl, hlength, hn⟩
  · rintro ⟨rfl, hlength, hn⟩
    refine Option.bind_eq_some_iff.mpr ⟨_, rfl, ?_⟩
    rw [if_pos ⟨rfl, hlength⟩, hn]
    rfl

theorem isAes_of_whole? (h : fields.whole? c = some s) : IsAes c s := by
  rw [whole?_eq_some, fields, exact_algorithm.run_bind] at h
  obtain ⟨a, _, _, rfl, ⟨rfl, ha, -⟩, h⟩ := h
  rw [exact_algorithm.run_bind] at h
  obtain ⟨b, _, _, rfl, ⟨rfl, hb, -⟩, h⟩ := h
  rw [(exact_ofOption _).run_bind] at h
  obtain ⟨d, _, _, rfl, ⟨rfl, hd⟩, h⟩ := h
  rw [(exact_ofOption _).run_bind] at h
  obtain ⟨⟨keySize, iv⟩, _, _, rfl, ⟨rfl, hcipher⟩, h⟩ := h
  obtain ⟨rfl, rfl⟩ := Prod.mk.inj (Option.some.inj h)
  exact .mk ha hb ((derivation?_eq_some_iff ha).mp hd) (cipher?_eq_some_iff.mp hcipher)

theorem whole?_of_isAes (hc : Fits c) (h : IsAes c s) : fields.whole? c = some s := by
  obtain @⟨a, b, d, keySize, iv, ha, hb, hd, hcipher⟩ := h
  have hfirst : Fits a.encode := hc.item (by simp)
  have hsecond : Fits b.encode := hc.item (by simp)
  rw [whole?_eq_some, fields, List.flatten_cons, exact_algorithm.run_bind]
  refine ⟨a, _, _, rfl, ⟨rfl, ha, hfirst.contents⟩, ?_⟩
  rw [exact_algorithm.run_bind]
  refine ⟨b, _, [], List.flatten_cons, ⟨rfl, hb, hsecond.contents⟩, ?_⟩
  rw [(exact_ofOption _).run_bind]
  refine ⟨d, [], [], rfl, ⟨rfl, (derivation?_eq_some_iff ha).mpr hd⟩, ?_⟩
  rw [(exact_ofOption _).run_bind]
  exact ⟨(keySize, iv), [], [], rfl, ⟨rfl, cipher?_eq_some_iff.mpr hcipher⟩, rfl⟩

theorem whole?_weakFields (hc : Fits c) : weakFields.whole? c = some s ↔ IsWeak c s := by
  rw [whole?_eq_some, weakFields, exact_octetString.run_bind]
  constructor
  · rintro ⟨salt, _, _, rfl, ⟨rfl, -⟩, h⟩
    rw [(exact_require _).run_bind] at h
    obtain ⟨-, _, _, rfl, ⟨rfl, hlength⟩, h⟩ := h
    rw [(exact_naturalBelow _).run_bind] at h
    obtain ⟨rounds, _, _, rfl, ⟨rfl, -, hrounds⟩, h⟩ := h
    obtain ⟨rfl, rfl⟩ := Prod.mk.inj (Option.some.inj h)
    exact .mk (of_decide_eq_true hlength) hrounds
  · rintro @⟨salt, rounds, hlength, hrounds⟩
    have hsalt : Fits (Write.octetString salt) := hc.item (by simp)
    have hnumber : Fits (Write.natural rounds) := hc.item (by simp)
    refine ⟨salt, _, [Write.natural rounds].flatten, List.flatten_cons, ⟨rfl, hsalt.contents⟩, ?_⟩
    rw [(exact_require _).run_bind]
    refine ⟨(), [], [Write.natural rounds].flatten, rfl, ⟨rfl, decide_eq_true hlength⟩, ?_⟩
    rw [(exact_naturalBelow _).run_bind]
    exact ⟨rounds, Write.natural rounds, [], by simp, ⟨rfl, hnumber.contents, hrounds⟩, rfl⟩

/-- A scheme is what its identifier says. -/
theorem scheme?_eq_some_iff (ha : a.Sound) : scheme? a = some s ↔ IsScheme a s := by
  have hnot : weakSchemes.contains schemeOid = false := by cbv
  have hfits : ∀ c, a.parameters = some ⟨0x30, c⟩ → Fits c := fun c hc => (ha.parameters _ hc).fits
  unfold scheme?
  rw [Option.bind_eq_some_iff]
  constructor
  · rintro ⟨p, hp, h⟩
    split at h
    · next hoid =>
      obtain ⟨he, hwhole⟩ := within?_eq_some.mp h
      exact ⟨p.contents, he ▸ hp, .inl ⟨hoid, isAes_of_whole? hwhole⟩⟩
    · next =>
      obtain ⟨hoid, h⟩ := Option.ite_none_right_eq_some.mp h
      obtain ⟨he, hwhole⟩ := within?_eq_some.mp h
      exact ⟨p.contents, he ▸ hp, .inr ⟨by simpa using hoid, (whole?_weakFields (hfits _ (he ▸ hp))).mp hwhole⟩⟩
  · rintro ⟨c, hc, ⟨hoid, h⟩ | ⟨hoid, h⟩⟩
    · exact ⟨_, hc, by rw [if_pos hoid]; exact within?_eq_some.mpr ⟨rfl, whole?_of_isAes (hfits c hc) h⟩⟩
    · refine ⟨_, hc, ?_⟩
      have hother : a.oid ≠ schemeOid := fun heq => by simp [← heq, hoid] at hnot
      rw [if_neg hother, if_pos (by simpa using hoid)]
      exact within?_eq_some.mpr ⟨rfl, (whole?_weakFields (hfits c hc)).mpr h⟩

end
end CertRotation.Pbes2
