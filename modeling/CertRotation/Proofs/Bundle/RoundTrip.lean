import CertRotation.Bundle.Basic
import CertRotation.Proofs.Keystore.WriteRead

/-!
# Bundles are decoded as they were encoded

The key and the leaf come back octet for octet. Of the other certificates those come back that stand on the way from
the leaf to its issuers, each once; the rest is lost, because entries of a keystore hold nothing else.
-/
namespace CertRotation.Bundle

/-! ## Order -/

/-- Ordering loses nothing and adds nothing. -/
theorem perm_orderChain (leaf : Bytes) (rest : List Bytes) : (orderChain leaf rest).Perm rest := by
  fun_induction orderChain leaf rest with
  | case1 leaf rest h => exact .refl rest
  | case2 leaf rest next others h ih =>
    have hperm : rest.Perm (next :: others) := by
      unfold takeIssuer? at h
      split at h
      · simp at h
      · split at h
        · simp at h
        · next hfind =>
          obtain ⟨rfl, rfl⟩ := Prod.mk.inj (Option.some.inj h)
          exact List.perm_cons_erase (List.mem_of_find?_eq_some hfind)
    exact (List.Perm.cons next ih).trans hperm.symm

theorem nodup_eraseDups (l : List Bytes) : l.eraseDups.Nodup := by
  match l with
  | [] => simp
  | b :: l =>
    rw [List.eraseDups_cons, List.nodup_cons]
    refine ⟨?_, nodup_eraseDups (l.filter fun c => !c == b)⟩
    simp [List.mem_eraseDups]
termination_by l.length
decreasing_by
  have := List.length_filter_le (fun c => !c == b) l
  simp only [List.length_cons]
  omega

/-! ## The entry of a key -/

/-- The leaf stands first, and where the key can be inspected it belongs to the leaf. -/
theorem leafIndex_eq_zero {key leaf : Bytes} (rest : List Bytes)
    (h : ∀ k, inspectKey? key = some k → belongsTo k leaf = true) : leafIndex key (leaf :: rest) = 0 := by
  unfold leafIndex
  cases hk : inspectKey? key with
  | none => rfl
  | some k => simp [List.findIdx?_cons, h k hk]

/-- One entry with a key makes a bundle whose leaf is the first certificate. -/
theorem ofEntries_keyChain {key leaf : Bytes} {rest : List Bytes}
    (h : ∀ k, inspectKey? key = some k → belongsTo k leaf = true) :
    ofEntries [.keyChain key (leaf :: rest)] =
      .ok ⟨key, leaf, orderChain leaf (rest.filter fun b => !b == leaf).eraseDups⟩ := by
  have hdups : (leaf :: rest).eraseDups = leaf :: (rest.filter fun b => !b == leaf).eraseDups := List.eraseDups_cons
  have hindex := leafIndex_eq_zero (rest.filter fun b => !b == leaf).eraseDups h
  simp [ofEntries, keyOf?, certificatesOf, hdups, hindex]

/-! ## Encoding and decoding -/

/-- The certificates that stand on the way from a leaf to its issuers, as a keystore finds them among `chain`. -/
def issuerPath (leaf : Bytes) (chain : List Bytes) : List Bytes :=
  match (leaf :: chain).mapM fun der => Keystore.StoredCertificate.ofDer? der {} with
  | some (c :: rest) =>
    (Keystore.issuers (c :: rest) c.subject (rest.length + 1) c.issuer).map (·.der)
  | _ => []

theorem stored_eq_ok {der : Bytes} {c : Keystore.StoredCertificate} :
    stored der = .ok c ↔ Keystore.StoredCertificate.ofDer? der {} = some c := by
  unfold stored
  cases Keystore.StoredCertificate.ofDer? der {} <;> simp

theorem encode_eq_ok {seeds : Keystore.Seeds} {b : Bundle} {password : String} {data : Bytes}
    (h : b.encode seeds password = .ok data) :
    ∃ leaf rest, List.Forall₂ (fun der c => Keystore.StoredCertificate.ofDer? der {} = some c)
        (b.certificate :: b.chain) (leaf :: rest) ∧
      Keystore.write seeds password label b.privateKey (sha256.digest b.certificate) (leaf :: rest) = some data := by
  unfold encode at h
  obtain ⟨-, h⟩ := guard_eq_ok.mp h
  obtain ⟨certificates, hstored, h⟩ := bind_eq_ok.mp h
  have hforall := mapM_eq_ok.mp hstored
  simp only [stored_eq_ok] at hforall
  obtain _ | ⟨leaf, rest⟩ := certificates
  · simp at hforall
  · refine ⟨leaf, rest, hforall, ?_⟩
    split at h
    · next hwrite => rw [hwrite, Except.ok.inj h]
    · simp [throw, throwThe, MonadExceptOf.throw] at h

theorem issuerPath_eq {leaf : Bytes} {chain : List Bytes} {c : Keystore.StoredCertificate}
    {rest : List Keystore.StoredCertificate}
    (h : List.Forall₂ (fun der c => Keystore.StoredCertificate.ofDer? der {} = some c) (leaf :: chain) (c :: rest)) :
    (Keystore.chainFrom (c :: rest) c).map (·.der) = leaf :: issuerPath leaf chain := by
  have hder : ∀ d ∈ c :: rest, d.attributes = {} := by
    intro d hd
    obtain ⟨der, -, hofDer⟩ := exists_of_mem_right h hd
    exact (Keystore.ofDer?_der hofDer).2
  have hleaf : c.der = leaf := by
    cases h with
    | cons hc _ => exact (Keystore.ofDer?_der hc).1
  rw [Keystore.chainFrom, Keystore.filter_not_trusted fun d hd => by rw [hder d hd], issuerPath, mapM_eq_some.mpr h]
  simp [hleaf]

/-- A keystore that was encoded holds one entry: the key with the certificate and the issuers of that. -/
theorem read_encode {seeds : Keystore.Seeds} {b : Bundle} {password : String} {data : Bytes}
    (h : b.encode seeds password = .ok data) : Keystore.read data password =
      .ok [(label, .keyChain b.privateKey (b.certificate :: issuerPath b.certificate b.chain))] := by
  obtain ⟨leaf, rest, hstored, hwrite⟩ := encode_eq_ok h
  have hself : ∀ c ∈ leaf :: rest, Keystore.StoredCertificate.ofDer? c.der {} = some c := by
    intro c hc
    obtain ⟨der, -, hofDer⟩ := exists_of_mem_right hstored hc
    rwa [(Keystore.ofDer?_der hofDer).1]
  have hread := Keystore.read_write hwrite hself
  rwa [issuerPath_eq hstored] at hread

/-- What was encoded is decoded with the same key and leaf and with the issuers of the leaf. -/
theorem decode_encode {seeds : Keystore.Seeds} {b : Bundle} {password : String} {data : Bytes}
    (h : b.encode seeds password = .ok data)
    (hk : ∀ k, inspectKey? b.privateKey = some k → belongsTo k b.certificate = true) :
    decode data password = .ok ⟨b.privateKey, b.certificate, orderChain b.certificate
      ((issuerPath b.certificate b.chain).filter fun der => !der == b.certificate).eraseDups⟩ := by
  simp only [decode, read_encode h, List.map_cons, List.map_nil, ofEntries_keyChain hk, Except.mapError]

end CertRotation.Bundle
