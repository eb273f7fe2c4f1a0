import CertRotation.Proofs.Keystore.FileRoundTrip

/-!
# The entry that a written keystore holds

`write` stores all certificates that it is given, but an entry has only those on the way from issuer to issuer. What is
read back is one entry with the key, the first certificate and that way.
-/
namespace CertRotation.Keystore

/-- The certificates with the attributes that they are stored with. -/
def named (id : Bytes) : List StoredCertificate → List StoredCertificate
  | [] => []
  | leaf :: rest =>
    { leaf with attributes := { friendlyName := some leaf.subject, localKeyId := some id } } ::
      rest.map fun c => { c with attributes := { friendlyName := some c.subject } }

theorem chainAttributes_eq (id : Bytes) (certificates : List StoredCertificate) :
    chainAttributes id certificates = (named id certificates).map fun c => (c.der, c.attributes) := by
  cases certificates with
  | nil => rfl
  | cons leaf rest => simp [chainAttributes, named]

def StoredCertificate.bare (c : StoredCertificate) : StoredCertificate := { c with attributes := {} }

theorem map_bare_named (id : Bytes) {certificates : List StoredCertificate}
    (h : ∀ c ∈ certificates, c.attributes = {}) : (named id certificates).map StoredCertificate.bare = certificates := by
  have hbare : ∀ (c : StoredCertificate) (a : Attributes), c.attributes = {} →
      StoredCertificate.bare { c with attributes := a } = c := by
    rintro ⟨der, subject, issuer, attributes⟩ a rfl
    rfl
  cases certificates with
  | nil => rfl
  | cons leaf rest =>
    simp only [named, List.map_cons, List.map_map, hbare leaf _ (h leaf (by simp)), List.cons.injEq, true_and]
    conv_rhs => rw [← List.map_id rest]
    exact List.map_congr_left fun c hc => hbare c _ (h c (by simp [hc]))

theorem not_trusted_of_mem_named {id : Bytes} {certificates : List StoredCertificate} {c : StoredCertificate}
    (h : c ∈ named id certificates) : c.attributes.trusted = false := by
  cases certificates with
  | nil => simp [named] at h
  | cons leaf rest =>
    rcases List.mem_cons.mp h with rfl | h
    · rfl
    · obtain ⟨d, -, rfl⟩ := List.mem_map.mp h
      rfl

/-! ## Writing -/

theorem ofDer?_der {der : Bytes} {a : Attributes} {c : StoredCertificate} (h : StoredCertificate.ofDer? der a = some c) :
    c.der = der ∧ c.attributes = a := by
  obtain ⟨p, -, rfl⟩ := Option.map_eq_some_iff.mp h
  exact ⟨rfl, rfl⟩

theorem holds_certificate {c : StoredCertificate} {b : Bytes} (password : String)
    (hc : StoredCertificate.ofDer? c.der {} = some c.bare) (h : encodeCertificate? c.der c.attributes = some b)
    (hb : Der.Fits b) :
    ∃ bag, Der.Reads Bag.reader b bag ∧ b ≠ [] ∧ bag.item? password = .ok (some (.certificate c)) := by
  obtain ⟨hread, hne, hvalue⟩ := reads_bag isStrict_certificateOid h hb
  exact ⟨_, hread, hne, item?_certificate (c := c.bare) c.attributes password hvalue hc⟩

theorem holds_key {seed : Pbes2.Seed} {password : String} {key b : Bytes} {a : Attributes}
    (h : encodeKey? seed password key a = some b) (hb : Der.Fits b) :
    ∃ bag, Der.Reads Bag.reader b bag ∧ b ≠ [] ∧ bag.item? password = .ok (some (.key ⟨key, a⟩)) := by
  obtain ⟨hread, hne, hvalue⟩ := reads_bag isStrict_encryptedKeyOid h hb
  exact ⟨_, hread, hne, item?_key a hvalue⟩

/-- An encryption is no shorter than what it encrypts. -/
theorem fits_of_encrypt {seed : Pbes2.Seed} {password plain : Bytes} (h : Der.Fits (seed.encrypt password plain)) :
    Der.Fits plain := by
  unfold Der.Fits at *
  rw [seed.length_encrypt] at h
  omega

theorem fits_encodeEncrypted {seed : Pbes2.Seed} {password : String} {contents : Bytes}
    (h : Der.Fits (encodeEncrypted seed password contents)) : Der.Fits contents := by
  have hexplicit : Der.Fits (Der.Write.tlv 0xa0 (Der.Write.sequence [Der.Write.natural 0, Der.Write.sequence
      [Der.Write.oid dataOid, seed.algorithm,
        Der.Write.implicit 0 (seed.encrypt (Bytes.ofString password) contents)]])) :=
    h.sequence (by simp [Der.Write.explicit])
  have hsequence : Der.Fits (Der.Write.sequence [Der.Write.oid dataOid, seed.algorithm,
      Der.Write.implicit 0 (seed.encrypt (Bytes.ofString password) contents)]) :=
    hexplicit.contents.sequence (by simp)
  have himplicit : Der.Fits (Der.Write.tlv 0x80 (seed.encrypt (Bytes.ofString password) contents)) :=
    hsequence.sequence (by simp [Der.Write.implicit])
  exact fits_of_encrypt himplicit.contents

theorem holds_certificates {certificates : List StoredCertificate} {bags : List Bytes} (password : String)
    (hc : ∀ c ∈ certificates, StoredCertificate.ofDer? c.der {} = some c.bare)
    (h : List.Forall₂ (fun (c : StoredCertificate) b => encodeCertificate? c.der c.attributes = some b)
      certificates bags) (hb : Der.Fits bags.flatten) :
    List.Forall₂ (fun b i => ∃ bag, Der.Reads Bag.reader b bag ∧ b ≠ [] ∧ bag.item? password = .ok (some i))
      bags (certificates.map Item.certificate) := by
  induction h with
  | nil => exact .nil
  | cons hx _ ih =>
    exact .cons (holds_certificate password (hc _ (by simp)) hx hb.left)
      (ih (fun c hmem => hc c (by simp [hmem])) hb.right)

theorem bare_of_mem_named {id : Bytes} {certificates : List StoredCertificate}
    (h : ∀ c ∈ certificates, StoredCertificate.ofDer? c.der {} = some c) :
    ∀ c ∈ named id certificates, StoredCertificate.ofDer? c.der {} = some c.bare := by
  have hbare : (named id certificates).map StoredCertificate.bare = certificates :=
    map_bare_named _ fun c hc => (ofDer?_der (h c hc)).2
  intro c hc
  have hmem : c.bare ∈ certificates := by
    rw [← hbare]
    exact List.mem_map_of_mem hc
  exact h c.bare hmem

/-- A written file is sealed around the bags of the certificates and the bag of the key. -/
theorem write_eq_some {seeds : Seeds} {password label : String} {key id file : Bytes}
    {certificates : List StoredCertificate} (h : write seeds password label key id certificates = some file) :
    ∃ bags keyBag, List.Forall₂ (fun (c : StoredCertificate) b => encodeCertificate? c.der c.attributes = some b)
        (named id certificates) bags ∧
      encodeKey? seeds.key password key { friendlyName := some label, localKeyId := some id } = some keyBag ∧
      seal? seeds.mac password [encodeEncrypted seeds.certificates password (Der.Write.sequence bags),
        encodePlain (Der.Write.sequence [keyBag])] = some file ∧ Der.Fits file := by
  obtain ⟨bags, hbags, h⟩ := Option.bind_eq_some_iff.mp h
  obtain ⟨keyBag, hkey, h⟩ := Option.bind_eq_some_iff.mp h
  obtain ⟨sealed, hseal, h⟩ := Option.bind_eq_some_iff.mp h
  obtain ⟨hfits, rfl⟩ : Der.Fits sealed ∧ sealed = file := by
    unfold fitting? at h
    split at h
    · next hle => exact ⟨hle, Option.some.inj h⟩
    · simp at h
  rw [chainAttributes_eq, mapM_eq_some, List.forall₂_map_left_iff] at hbags
  exact ⟨bags, keyBag, hbags, hkey, hseal, hfits⟩

/-- All that `write` was given is read again, item by item. -/
theorem readItems_write {seeds : Seeds} {password label : String} {key id file : Bytes}
    {certificates : List StoredCertificate} (h : write seeds password label key id certificates = some file)
    (hc : ∀ c ∈ certificates, StoredCertificate.ofDer? c.der {} = some c) :
    readItems file password = .ok ((named id certificates).map Item.certificate ++
      [.key ⟨key, { friendlyName := some label, localKeyId := some id }⟩]) := by
  obtain ⟨bags, keyBag, hbags, hkey, hseal, hfits⟩ := write_eq_some h
  have hparts := fits_of_seal hseal hfits
  simp only [List.flatten_cons, List.flatten_nil, List.append_nil] at hparts
  have hplain := fits_encodePlain hparts.right
  have hencrypted := fits_encodeEncrypted hparts.left
  have hcertificates := itemsOf_of_forall₂
    (holds_certificates password (bare_of_mem_named hc) hbags hencrypted.contents) hencrypted.contents
  have hkeys := itemsOf_of_forall₂
    (.cons (holds_key hkey (hplain.sequence (List.mem_singleton_self _))) .nil) hplain.contents
  have hread := readItems_of_seal hseal hfits (.cons ⟨_, holds_encodeEncrypted hparts.left, hcertificates⟩
    (.cons ⟨_, holds_encodePlain hparts.right, hkeys⟩ .nil))
  simpa using hread

/-! ## The one entry -/

/-- The way from issuer to issuer does not depend on attributes. -/
theorem issuers_bare (candidates : List StoredCertificate) (leafSubject : String) (fuel : Nat) (issuer : String) :
    issuers (candidates.map StoredCertificate.bare) leafSubject fuel issuer =
      (issuers candidates leafSubject fuel issuer).map StoredCertificate.bare := by
  induction fuel generalizing issuer with
  | zero => rfl
  | succ fuel ih =>
    have hfind : (candidates.map StoredCertificate.bare).find? (fun c => c.subject = issuer) =
        (candidates.find? fun c => c.subject = issuer).map StoredCertificate.bare := List.find?_map
    rw [issuers, issuers, hfind]
    cases candidates.find? fun c => c.subject = issuer with
    | none => rfl
    | some c =>
      simp only [Option.map_some, StoredCertificate.bare]
      split
      · rfl
      · split
        · rfl
        · exact congrArg _ (ih c.issuer)

theorem filter_not_trusted {certificates : List StoredCertificate}
    (h : ∀ c ∈ certificates, c.attributes.trusted = false) :
    certificates.filter (fun c => !c.attributes.trusted) = certificates := by
  rw [List.filter_eq_self]
  intro c hc
  simp [h c hc]

theorem map_der_chainFrom_named (id : Bytes) {leaf : StoredCertificate} {rest : List StoredCertificate}
    (h : ∀ c ∈ leaf :: rest, c.attributes = {}) {leaf' : StoredCertificate} (hl : leaf'.bare = leaf) :
    (chainFrom (named id (leaf :: rest)) leaf').map (·.der) = (chainFrom (leaf :: rest) leaf).map (·.der) := by
  have hbare := map_bare_named id h
  have hder : (fun c : StoredCertificate => c.der) ∘ StoredCertificate.bare = fun c => c.der := rfl
  subst hl
  rw [chainFrom, chainFrom, filter_not_trusted fun c hc => not_trusted_of_mem_named hc,
    filter_not_trusted fun c hc => by rw [h c hc]]
  conv_rhs => rw [← hbare]
  rw [issuers_bare, List.length_map, List.map_cons, List.map_cons, List.map_map, hder]
  rfl

theorem certificatesOf_append_key (certificates : List StoredCertificate) (k : StoredKey) :
    certificatesOf (certificates.map Item.certificate ++ [.key k]) = certificates := by
  simp [certificatesOf]

theorem keysOf_append_key (certificates : List StoredCertificate) (k : StoredKey) :
    keysOf (certificates.map Item.certificate ++ [.key k]) = [k] := by
  simp [keysOf]

/-- Items with one key and no trusted certificate make up one entry. -/
theorem entriesOf_named (label : String) (key id : Bytes) {leaf : StoredCertificate} {rest : List StoredCertificate}
    (h : ∀ c ∈ leaf :: rest, c.attributes = {}) :
    entriesOf ((named id (leaf :: rest)).map Item.certificate ++
      [.key ⟨key, { friendlyName := some label, localKeyId := some id }⟩]) =
      [(label, .keyChain key ((chainFrom (leaf :: rest) leaf).map (·.der)))] := by
  obtain ⟨leaf', hleaf⟩ : ∃ c : StoredCertificate,
      c = { leaf with attributes := { friendlyName := some leaf.subject, localKeyId := some id } } := ⟨_, rfl⟩
  have hbare : leaf'.bare = leaf := by
    have hl := h leaf (by simp)
    rw [hleaf]
    cases leaf
    simp_all [StoredCertificate.bare]
  have hchain := map_der_chainFrom_named id h hbare
  have hfind : (named id (leaf :: rest)).find? (fun c => c.attributes.localKeyId = some id) = some leaf' := by
    rw [hleaf]
    simp [named]
  have hown : (named id (leaf :: rest)).filterMap entryOfCertificate? = [] := by
    rw [List.filterMap_eq_nil_iff]
    intro c hmem
    simp [entryOfCertificate?, not_trusted_of_mem_named hmem]
  simp only [entriesOf, certificatesOf_append_key, keysOf_append_key, hown, List.filterMap_cons, List.filterMap_nil,
    entryOfKey?, ownCertificate?, hfind, Option.map_some, Option.getD_some, List.append_nil, List.foldl_cons,
    List.foldl_nil, hchain]
  rfl

/-- A written keystore holds one entry: the key with the first certificate and its issuers. -/
theorem read_write {seeds : Seeds} {password label : String} {key id file : Bytes} {leaf : StoredCertificate}
    {rest : List StoredCertificate} (h : write seeds password label key id (leaf :: rest) = some file)
    (hc : ∀ c ∈ leaf :: rest, StoredCertificate.ofDer? c.der {} = some c) :
    read file password =
      .ok [(label, .keyChain key ((chainFrom (leaf :: rest) leaf).map (·.der)))] := by
  have hattributes : ∀ c ∈ leaf :: rest, c.attributes = {} := fun c hmem => (ofDer?_der (hc c hmem)).2
  have hentries := entriesOf_named label key id hattributes
  simp only [read, readItems_write h hc, bind, Except.bind, hentries]
  rfl

end CertRotation.Keystore
