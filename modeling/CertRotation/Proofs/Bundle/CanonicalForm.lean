import CertRotation.Proofs.Bundle.Issuers
import CertRotation.Proofs.Bundle.Leaf

/-!
# Bundles that are decoded as they are

A bundle with its own leaf is decoded as it was encoded exactly if its certificates are linked. They are linked once it has
been decoded from a file that was encoded with such a leaf, so that from then on nothing changes any more.
-/
namespace CertRotation.Bundle

/-! ## Files with one entry -/

section
variable {items : List Keystore.Item}

theorem orError_eq_ok {α : Type} {e : Keystore.Error} {o : Option α} {a : α} :
    Keystore.orError e o = .ok a ↔ o = some a := by
  cases o <;> simp [Keystore.orError]

theorem named_of_item? {bag : Keystore.Bag} {password : String} {c : Keystore.StoredCertificate}
    (h : bag.item? password = .ok (some (.certificate c))) : Named c := by
  unfold Keystore.Bag.item? at h
  split at h
  · obtain ⟨⟨type, der⟩, -, h⟩ := bind_eq_ok.mp h
    obtain ⟨-, h⟩ := guard_eq_ok.mp h
    obtain ⟨d, hd, h⟩ := bind_eq_ok.mp h
    obtain rfl := Keystore.Item.certificate.inj (Option.some.inj (Except.ok.inj h))
    exact named_of_ofDer? (orError_eq_ok.mp hd)
  · split at h
    · obtain ⟨_, -, h⟩ := bind_eq_ok.mp h
      obtain ⟨_, -, h⟩ := bind_eq_ok.mp h
      cases h
    · cases h

/-- Whatever a keystore is read from, its certificates are known by their own names. -/
theorem named_of_readItems {data : Bytes} {password : String} (h : Keystore.readItems data password = .ok items) :
    ∀ c ∈ Keystore.certificatesOf items, Named c := by
  obtain ⟨envelope, -, h⟩ := bind_eq_ok.mp h
  obtain ⟨body, -, h⟩ := bind_eq_ok.mp h
  obtain ⟨parts, -, h⟩ := bind_eq_ok.mp h
  obtain ⟨lists, hlists, h⟩ := bind_eq_ok.mp h
  obtain rfl := Except.ok.inj h
  intro c hc
  obtain ⟨item, hitem, hcertificate⟩ := List.mem_filterMap.mp hc
  obtain ⟨list, hlist, hmem⟩ := List.mem_flatten.mp hitem
  obtain ⟨part, -, hpart⟩ := exists_of_mem_right (mapM_eq_ok.mp hlists) hlist
  obtain ⟨contents, -, hcontents⟩ := bind_eq_ok.mp hpart
  obtain ⟨bags, -, hbags⟩ := bind_eq_ok.mp hcontents
  obtain ⟨found, hfound, hlast⟩ := bind_eq_ok.mp hbags
  obtain rfl := Except.ok.inj hlast
  obtain ⟨o, ho, heq⟩ := List.mem_filterMap.mp hmem
  obtain ⟨bag, -, hbag⟩ := exists_of_mem_right (mapM_eq_ok.mp hfound) ho
  cases item with
  | key k => cases hcertificate
  | certificate d =>
    obtain rfl := Option.some.inj hcertificate
    rw [show o = some (.certificate d) from heq] at hbag
    exact named_of_item? hbag

theorem mem_insert {label : String} {e : Keystore.Entry} {entries : Keystore.Entries} {x : String × Keystore.Entry}
    (h : x ∈ Keystore.insert label e entries) : x = (label, e) ∨ x ∈ entries := by
  fun_induction Keystore.insert label e entries with
  | case1 => exact .inl (List.mem_singleton.mp h)
  | case2 => exact List.mem_cons.mp h
  | case3 => exact (List.mem_cons.mp h).imp_right (List.mem_cons_of_mem _)
  | case4 a y rest hlt hne ih =>
    rcases List.mem_cons.mp h with rfl | h
    · exact .inr List.mem_cons_self
    · exact (ih h).imp_right (List.mem_cons_of_mem _)

theorem mem_foldl_insert {l entries : Keystore.Entries} {x : String × Keystore.Entry}
    (h : x ∈ l.foldl (fun entries e => Keystore.insert e.1 e.2 entries) entries) : x ∈ l ∨ x ∈ entries := by
  induction l generalizing entries with
  | nil => exact .inr h
  | cons e l ih =>
    rcases ih h with h | h
    · exact .inl (List.mem_cons_of_mem e h)
    · rcases mem_insert h with rfl | h
      · exact .inl List.mem_cons_self
      · exact .inr h

/-- A key stands in a keystore with a certificate and the issuers that are found for that. -/
theorem chain_of_mem_entriesOf {label : String} {key : Bytes} {own : List Bytes}
    (h : (label, .keyChain key own) ∈ Keystore.entriesOf items) :
    ∃ leaf ∈ Keystore.certificatesOf items,
      own = (Keystore.chainFrom (Keystore.certificatesOf items) leaf).map (·.der) := by
  rcases mem_foldl_insert h with h | h
  · rcases List.mem_append.mp h with h | h
    · obtain ⟨k, -, hk⟩ := List.mem_filterMap.mp h
      obtain ⟨leaf, hleaf, heq⟩ := Option.map_eq_some_iff.mp hk
      obtain ⟨-, hentry⟩ := Prod.mk.inj heq
      obtain ⟨-, rfl⟩ := Keystore.Entry.keyChain.inj hentry
      refine ⟨leaf, ?_, rfl⟩
      unfold Keystore.ownCertificate? at hleaf
      split at hleaf
      · cases hleaf
      · exact List.mem_of_find?_eq_some hleaf
    · obtain ⟨c, -, hc⟩ := List.mem_filterMap.mp h
      obtain ⟨-, heq⟩ := Option.ite_none_right_eq_some.mp hc
      cases (Prod.mk.inj (Option.some.inj heq)).2
  · cases h

/-- What is decoded from a file with one entry, whose first certificate belongs to its key, is linked. -/
theorem linked_of_read {data : Bytes} {password label : String} {key leaf : Bytes} {rest : List Bytes}
    (h : Keystore.read data password = .ok [(label, .keyChain key (leaf :: rest))])
    (hk : ∀ k, inspectKey? key = some k → belongsTo k leaf = true) :
    ∃ chain, decode data password = .ok ⟨key, leaf, chain⟩ ∧ Linked leaf chain := by
  obtain ⟨items, hitems, hentries⟩ := bind_eq_ok.mp h
  have hmem : (label, .keyChain key (leaf :: rest)) ∈ Keystore.entriesOf items := by
    rw [Except.ok.inj hentries]
    exact List.mem_singleton_self _
  obtain ⟨c, hc, hown⟩ := chain_of_mem_entriesOf hmem
  obtain ⟨rfl, -⟩ := List.cons.inj hown
  have hnamed := named_of_readItems hitems
  have hall : ∀ d ∈ c :: Keystore.certificatesOf items, Named d :=
    List.forall_mem_cons.mpr ⟨hnamed c hc, hnamed⟩
  have hlinked := linked_chainFrom hall hown
  refine ⟨_, ?_, hlinked⟩
  rw [decode_of_read h, List.map_cons, List.map_nil, ofEntries_keyChain hk, orderChain_of_linked hlinked]
  rfl

end

/-- A bundle whose leaf belongs to its key is decoded, once it has been encoded, with the same key and leaf and with the
certificates on the way to the issuers of the leaf, and these are linked. So it is decoded as it was exactly if it was
linked before. It was, if it was decoded from a file with one entry whose first certificate belongs to the key, as all
files are that have been encoded with such a leaf. -/
theorem decode_encode_iff_linked (password : String) :
    (∀ (seeds : Keystore.Seeds) (d : Bundle) data,
      (∀ k, PrivateKey.ofPkcs8 d.privateKey = .ok k → PemMaterial.keysMatch d.certificate k = .ok true) →
      d.encode seeds password = .ok data →
        (∃ chain, decode data password = .ok ⟨d.privateKey, d.certificate, chain⟩ ∧ Linked d.certificate chain ∧
          ∀ c, c ∈ chain ↔ c ≠ d.certificate ∧ c ∈ issuerPath d.certificate d.chain) ∧
        (decode data password = .ok d ↔ Linked d.certificate d.chain)) ∧
    ∀ data label key leaf rest,
      Keystore.read data password = .ok [(label, .keyChain key (leaf :: rest))] →
      (∀ k, PrivateKey.ofPkcs8 key = .ok k → PemMaterial.keysMatch leaf k = .ok true) →
        ∃ chain, decode data password = .ok ⟨key, leaf, chain⟩ ∧ Linked leaf chain := by
  have hbelongs : ∀ key leaf, (∀ k, PrivateKey.ofPkcs8 key = .ok k → PemMaterial.keysMatch leaf k = .ok true) →
      ∀ k, inspectKey? key = some k → belongsTo k leaf = true := fun key leaf h k hk =>
    keysMatch_eq_ok_true.mp (h k (toOption_eq_some.mp hk))
  refine ⟨fun seeds d data hmatch h => ?_, fun data label key leaf rest h hmatch =>
    linked_of_read h (hbelongs key leaf hmatch)⟩
  obtain ⟨hdecode, hlinked, hkept⟩ := decode_encode_linked h (hbelongs _ _ hmatch)
  refine ⟨⟨_, hdecode, hlinked, fun c => ?_⟩, ?_⟩
  · rw [keptChain, List.mem_eraseDups, List.mem_filter]
    simp [and_comm]
  · rw [hdecode, ← hkept]
    constructor
    · exact fun heq => congrArg Bundle.chain (Except.ok.inj heq)
    · exact fun heq => by rw [heq]

/-! ## Two certificates -/

/-- A certificate without an issuer's name, whose subject is called `x`. -/
def namedCertificate : Bytes :=
  Der.Write.sequence [
    Der.Write.sequence [Der.Write.natural 3, Der.Write.sequence [Der.Write.oid RsaKey.oid], Der.Write.sequence [],
      Der.Write.sequence [Der.Write.tlv 0x17 (Bytes.ofString "250101000000Z"),
        Der.Write.tlv 0x17 (Bytes.ofString "260101000000Z")],
      Der.Write.sequence [Der.Write.tlv 0x31 (Der.Write.sequence [Der.Write.oid (.ofArcs [2, 5, 4, 3]),
        Der.Write.tlv 0x0c (Bytes.ofString "x")])],
      otherKey.publicKey],
    Der.Write.sequence [Der.Write.oid RsaKey.oid], Der.Write.bitString [0]]

/-- A bundle whose leaf belongs to the key and is issued by the nameless certificate. -/
def issuedBundle : Bundle := { mismatched with certificate := namedCertificate, chain := [sampleCertificate 1] }

/-- The same certificates with the key of the issuer. -/
def swappedBundle : Bundle := { sampleBundle with certificate := namedCertificate, chain := [sampleCertificate 1] }

/-- The certificate is sound and small, and it belongs to the other key. -/
theorem namedCertificate_sound :
    Keystore.StoredCertificate.ofDer? namedCertificate {} = some ⟨namedCertificate, "CN=x", "", {}⟩ ∧
      belongsTo ⟨.rsa, sampleBundle.privateKey, sampleKey.publicKey⟩ namedCertificate = false ∧
      belongsTo ⟨.rsa, mismatched.privateKey, otherKey.publicKey⟩ namedCertificate = true ∧
      namedCertificate.length < 0x10000 ∧ mismatched.privateKey.length < 0x80000 := by
  decide +kernel

/-- Each certificate belongs to its own key only. -/
theorem belongsTo_pair :
    belongsTo ⟨.rsa, sampleBundle.privateKey, sampleKey.publicKey⟩ (sampleCertificate 1) = true ∧
      belongsTo ⟨.rsa, sampleBundle.privateKey, sampleKey.publicKey⟩ namedCertificate = false ∧
      belongsTo ⟨.rsa, mismatched.privateKey, otherKey.publicKey⟩ namedCertificate = true :=
  ⟨keysMatch_eq_ok_true.mp sampleCertificate_sound.2.2.1, namedCertificate_sound.2.1, namedCertificate_sound.2.2.1⟩

theorem ofDer?_issued : [namedCertificate, sampleCertificate 1].mapM (fun der => Keystore.StoredCertificate.ofDer? der {}) =
    some [⟨namedCertificate, "CN=x", "", {}⟩, ⟨sampleCertificate 1, "", "", {}⟩] :=
  mapM_eq_some.mpr (.cons namedCertificate_sound.1 (.cons ofDer?_leaf .nil))

theorem ofDer?_swapped : [sampleCertificate 1, namedCertificate].mapM (fun der => Keystore.StoredCertificate.ofDer? der {}) =
    some [⟨sampleCertificate 1, "", "", {}⟩, ⟨namedCertificate, "CN=x", "", {}⟩] :=
  mapM_eq_some.mpr (.cons ofDer?_leaf (.cons namedCertificate_sound.1 .nil))

theorem issuerPath_issued : issuerPath namedCertificate [sampleCertificate 1] = [sampleCertificate 1] := by
  rw [issuerPath, ofDer?_issued]
  simp [Keystore.issuers]

theorem issuerPath_swapped : issuerPath (sampleCertificate 1) [namedCertificate] = [] := by
  rw [issuerPath, ofDer?_swapped]
  simp [Keystore.issuers]

theorem linked_issued : Linked namedCertificate [sampleCertificate 1] := by
  have hnamed := (map_der_of_stored (mapM_eq_some.mp ofDer?_issued)).2
  exact (linked_iff hnamed).mpr (by simp)

theorem room_pair :
    Keystore.room [⟨namedCertificate, "CN=x", "", {}⟩, ⟨sampleCertificate 1, "", "", {}⟩] < 0x100000 ∧
      Keystore.room [⟨sampleCertificate 1, "", "", {}⟩, ⟨namedCertificate, "CN=x", "", {}⟩] < 0x100000 := by
  obtain ⟨-, -, -, hnamed, -⟩ := namedCertificate_sound
  obtain ⟨-, -, -, hsample, -⟩ := sampleCertificate_sound
  exact ⟨room_two hnamed hsample (by decide) (by decide), room_two hsample hnamed (by decide) (by decide)⟩

theorem exists_encode_issued : ∃ data, issuedBundle.encode sampleSeeds "password" = .ok data :=
  exists_encode_small ofDer?_issued (by decide) room_pair.1 namedCertificate_sound.2.2.2.2

theorem decode_encode_sample : ∃ data chain, issuedBundle.encode sampleSeeds "password" = .ok data ∧
    decode data "password" = .ok issuedBundle ∧ decode data "password" = .ok { issuedBundle with chain } ∧
      Linked namedCertificate chain := by
  obtain ⟨data, hdata⟩ := exists_encode_issued
  have hmatch : ∀ k, PrivateKey.ofPkcs8 issuedBundle.privateKey = .ok k →
      PemMaterial.keysMatch issuedBundle.certificate k = .ok true := by
    intro k hk
    obtain rfl := Except.ok.inj (ofPkcs8_mismatched.symm.trans hk)
    exact keysMatch_eq_ok_true.mpr belongsTo_pair.2.2
  obtain ⟨chain, hdecode, hlinked⟩ := (decode_encode_iff_linked _).2 _ _ _ _ _ (read_encode hdata) hmatch
  exact ⟨data, chain, hdata, ((decode_encode_iff_linked _).1 _ _ _ hmatch hdata).2.mpr linked_issued, hdecode, hlinked⟩

theorem ofPkcs8_sample : PrivateKey.ofPkcs8 sampleBundle.privateKey =
    .ok ⟨.rsa, sampleBundle.privateKey, sampleKey.publicKey⟩ :=
  PrivateKey.ofPkcs8_encoded (mapError_eq_ok.mp parseKey_sample)

/-- The second certificate is the leaf, and the first is left over. -/
theorem ofEntries_swapped : ofEntries [.keyChain sampleBundle.privateKey [namedCertificate, sampleCertificate 1]] =
    .ok ⟨sampleBundle.privateKey, sampleCertificate 1, [namedCertificate]⟩ := by
  have hnodup : [namedCertificate, sampleCertificate 1].eraseDups = [namedCertificate, sampleCertificate 1] :=
    eraseDups_of_nodup linked_issued.nodup
  have hindex : leafIndex sampleBundle.privateKey [namedCertificate, sampleCertificate 1] = 1 := by
    rw [leafIndex, inspectKey?, ofPkcs8_sample]
    simp [Except.toOption, List.findIdx?_cons, belongsTo_pair.2.1, belongsTo_pair.1]
  have horder : orderChain (sampleCertificate 1) [namedCertificate] = [namedCertificate] :=
    List.perm_singleton.mp (perm_orderChain _ _)
  simp [ofEntries, keyOf?, certificatesOf, hnodup, hindex, horder]

/-- A bundle that was decoded, with a leaf that belongs to its key, and that is not decoded again as it was. Its leaf stood
behind a certificate that it had issued. -/
theorem decoded_not_canonical : ∃ data d again d', decode data "password" = .ok d ∧
    (∀ k, PrivateKey.ofPkcs8 d.privateKey = .ok k → PemMaterial.keysMatch d.certificate k = .ok true) ∧
    d.encode sampleSeeds "password" = .ok again ∧ decode again "password" = .ok d' ∧
    d.chain = [namedCertificate] ∧ d'.chain = [] := by
  let d : Bundle := ⟨sampleBundle.privateKey, sampleCertificate 1, [namedCertificate]⟩
  obtain ⟨data, hdata⟩ : ∃ data, swappedBundle.encode sampleSeeds "password" = .ok data :=
    exists_encode_small ofDer?_issued (by decide) room_pair.1 sampleCertificate_sound.2.2.2.2.2
  obtain ⟨again, hagain⟩ : ∃ again, d.encode sampleSeeds "password" = .ok again :=
    exists_encode_small ofDer?_swapped (by decide) room_pair.2 sampleCertificate_sound.2.2.2.2.2
  have hmatch : ∀ k, PrivateKey.ofPkcs8 d.privateKey = .ok k → PemMaterial.keysMatch d.certificate k = .ok true := by
    intro k hk
    obtain rfl := Except.ok.inj (ofPkcs8_sample.symm.trans hk)
    exact keysMatch_eq_ok_true.mpr belongsTo_pair.1
  have hfirst : decode data "password" = .ok d := by
    rw [decode_of_read (read_encode hdata)]
    show (ofEntries [.keyChain _ (namedCertificate :: issuerPath namedCertificate [sampleCertificate 1])]).mapError _ = _
    rw [issuerPath_issued]
    exact mapError_eq_ok.mpr ofEntries_swapped
  have hsecond := decode_encode hagain fun k hk => keysMatch_eq_ok_true.mp (hmatch k (toOption_eq_some.mp hk))
  refine ⟨data, d, again, _, hfirst, hmatch, hagain, hsecond, rfl, ?_⟩
  show orderChain _ ((issuerPath (sampleCertificate 1) [namedCertificate]).filter _).eraseDups = []
  rw [issuerPath_swapped]
  exact (perm_orderChain _ []).eq_nil

end CertRotation.Bundle
