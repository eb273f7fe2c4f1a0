import CertRotation.Proofs.Bundle.ChainOrder
import CertRotation.Proofs.Bundle.Leaf

/-!
# The order in which certificates are stored

A keystore may hold the certificates of a bundle in any order, beside the key or on their own. Where one of them carries the
public half of the key and no two of the others have the same subject, there is one leaf and one way from it to the issuers,
and the bundle has them however they were stored. Only certificates off that way keep the order in which they stood.
-/
namespace CertRotation.Bundle

/-! ## The way to the issuers -/

/-- `path` leads from the leaf from issuer to issuer through certificates among the others, and none of those leads on. -/
structure IssuerPath (leaf : Bytes) (others : Bytes → Prop) (path : List Bytes) : Prop where
  follows : (leaf :: path).IsChain Follows
  among : ∀ c ∈ path, others c
  nodup : path.Nodup
  ended : ∀ c, others c → c ∉ path → ¬ Follows (path.getLastD leaf) c

/-- No two of the certificates have the same subject. What cannot be read has none. -/
def DistinctSubjects (others : Bytes → Prop) : Prop :=
  ∀ c d name, others c → others d → subjectName? c = some name → subjectName? d = some name → c = d

section
variable {leaf current : Bytes} {others : Bytes → Prop} {left rest walked path path' : List Bytes}

theorem DistinctSubjects.follows_unique (h : DistinctSubjects others) {c d : Bytes} (hc : others c) (hd : others d)
    (hcurrent : Follows current c) (hcurrent' : Follows current d) : c = d := by
  obtain ⟨name, hissuer, hsubject⟩ := hcurrent
  obtain ⟨name', hissuer', hsubject'⟩ := hcurrent'
  obtain rfl := Option.some.inj (hissuer.symm.trans hissuer')
  exact h c d name hc hd hsubject hsubject'

/-- Where the way goes on, it goes on to a certificate that it has not come to before. -/
theorem IssuerPath.next (h : IssuerPath leaf others (walked ++ current :: rest)) :
    others current ∧ current ∉ walked ∧ Follows (walked.getLastD leaf) current := by
  have hfollows := h.follows
  rw [← List.cons_append, List.isChain_append] at hfollows
  have hdisjoint := (List.nodup_append.mp h.nodup).2.2
  refine ⟨h.among current (by simp), fun hmem => hdisjoint current hmem current List.mem_cons_self rfl, ?_⟩
  exact hfollows.2.2 _ (by simp [List.getLast?_cons]) current rfl

/-- Two ways that have gone together so far end together. -/
theorem IssuerPath.unique_from (hdistinct : DistinctSubjects others) (h : IssuerPath leaf others (walked ++ path))
    (h' : IssuerPath leaf others (walked ++ path')) : path = path' := by
  induction path generalizing walked path' with
  | nil =>
    cases path' with
    | nil => rfl
    | cons c path' =>
      obtain ⟨hc, hnew, hfollows⟩ := h'.next
      rw [List.append_nil] at h
      exact absurd hfollows (h.ended c hc hnew)
  | cons c path ih =>
    obtain ⟨hc, hnew, hfollows⟩ := h.next
    cases path' with
    | nil =>
      rw [List.append_nil] at h'
      exact absurd hfollows (h'.ended c hc hnew)
    | cons d path' =>
      obtain ⟨hd, -, hfollows'⟩ := h'.next
      obtain rfl := hdistinct.follows_unique hc hd hfollows hfollows'
      rw [List.append_cons] at h h'
      rw [ih h h']

theorem IssuerPath.unique (hdistinct : DistinctSubjects others) (h : IssuerPath leaf others path)
    (h' : IssuerPath leaf others path') : path = path' :=
  @unique_from leaf others [] path path' hdistinct h h'

/-- What ordering walks along is such a way. -/
theorem Walk.issuerPath (h : Walk leaf left path rest) (hl : left.Nodup) (hothers : ∀ c, c ∈ left ↔ others c) :
    IssuerPath leaf others path := by
  have hmem : ∀ c, c ∈ path ++ rest ↔ others c := fun c => h.perm.mem_iff.trans (hothers c)
  refine ⟨h.isChain, fun c hc => (hmem c).mp (List.mem_append_left rest hc), ?_, fun c hc hnew => ?_⟩
  · exact (List.nodup_append.mp (h.perm.nodup_iff.mpr hl)).1
  · exact h.ended c ((List.mem_append.mp ((hmem c).mpr hc)).resolve_left hnew)

/-- What is left off the way, however it was stored. -/
theorem Walk.rest_perm {left' rest' : List Bytes} (h : Walk leaf left path rest) (h' : Walk leaf left' path rest')
    (hperm : left.Perm left') : rest.Perm rest' :=
  List.perm_append_left_iff path |>.mp (h.perm.trans (hperm.trans h'.perm.symm))

end

/-! ## Entries that hold the same certificates -/

/-- One key, with certificates beside it and others on their own. -/
def HoldsKey (key : Bytes) (entries : List Keystore.Entry) : Prop :=
  ∃ before own after, entries = before ++ .keyChain key own :: after ∧ ∀ e ∈ before ++ after, ∃ der, e = .certificate der

/-- The certificate carries the public half of the key. -/
def Carries (key der : Bytes) : Prop :=
  ∃ k, PrivateKey.ofPkcs8 key = .ok k ∧ PemMaterial.keysMatch der k = .ok true

section
variable {key leaf : Bytes} {entries : List Keystore.Entry} {l : List Bytes}

theorem carries_iff {k : PrivateKey} (hk : PrivateKey.ofPkcs8 key = .ok k) (c : Bytes) :
    Carries key c ↔ belongsTo k c = true := by
  rw [← keysMatch_eq_ok_true]
  constructor
  · rintro ⟨k', hk', hmatch⟩
    obtain rfl := Except.ok.inj (hk.symm.trans hk')
    exact hmatch
  · exact fun hmatch => ⟨k, hk, hmatch⟩

theorem HoldsKey.keyOf? (h : HoldsKey key entries) : keyOf? entries = some key := by
  obtain ⟨before, own, after, rfl, hothers⟩ := h
  exact keyOf?_eq_some.mpr ⟨before, own, after, rfl, fun e he => hothers e (List.mem_append_left after he)⟩

/-- The only certificate that carries the public half of the key is the leaf. -/
theorem leafOf?_of_carries (hmem : leaf ∈ l) (hcarries : Carries key leaf) (hunique : ∀ c ∈ l, Carries key c → c = leaf) :
    leafOf? key l = some leaf := by
  obtain ⟨k, hk, hmatch⟩ := hcarries
  cases hleaf : leafOf? key l with
  | none => exact absurd hmem (by simp [leafOf?_eq_none.mp hleaf])
  | some c =>
    have hchosen := chosen_of_leafOf? hk hleaf
    rw [hunique c hchosen.mem ⟨k, hk, hchosen.carries.mpr ⟨leaf, hmem, hmatch⟩⟩]

/-- All other certificates, each once, are put in order behind the leaf. -/
theorem ofEntries_of_leafOf? (hkey : keyOf? entries = some key) (hleaf : leafOf? key (certificatesOf entries) = some leaf) :
    ∃ left, ofEntries entries = .ok ⟨key, leaf, orderChain leaf left⟩ ∧ left.Nodup ∧
      ∀ c, c ∈ left ↔ c ∈ certificatesOf entries ∧ c ≠ leaf := by
  rw [← leafOf?_eraseDups, ← getElem?_leafIndex] at hleaf
  obtain ⟨hindex, hget⟩ := List.getElem?_eq_some_iff.mp hleaf
  have hperm := List.getElem_cons_eraseIdx_perm hindex
  rw [hget] at hperm
  obtain ⟨hnew, hnodup⟩ := List.nodup_cons.mp (hperm.nodup_iff.mpr (nodup_eraseDups _))
  refine ⟨_, by simp only [ofEntries, hkey, hleaf], hnodup, fun c => ?_⟩
  have hmem : c ∈ certificatesOf entries ↔ c = leaf ∨ c ∈ _ :=
    List.mem_eraseDups.symm.trans (hperm.mem_iff.symm.trans List.mem_cons)
  rw [hmem]
  constructor
  · exact fun hc => ⟨.inr hc, fun heq => hnew (heq ▸ hc)⟩
  · exact fun hc => hc.1.resolve_left hc.2

/-- The leaf, the way to the issuers that is walked from it, and what is left. -/
theorem exists_ofEntries_walk (hkey : HoldsKey key entries)
    (hleaf : ∀ c, c ∈ certificatesOf entries ∧ Carries key c ↔ c = leaf) :
    ∃ left path rest, ofEntries entries = .ok ⟨key, leaf, path ++ rest⟩ ∧ Walk leaf left path rest ∧ left.Nodup ∧
      ∀ c, c ∈ left ↔ c ∈ certificatesOf entries ∧ c ≠ leaf := by
  obtain ⟨hmem, hcarries⟩ := (hleaf leaf).mpr rfl
  have hfirst := leafOf?_of_carries hmem hcarries fun c hc hcarries => (hleaf c).mp ⟨hc, hcarries⟩
  obtain ⟨left, hbundle, hnodup, hothers⟩ := ofEntries_of_leafOf? hkey.keyOf? hfirst
  obtain ⟨path, rest, hwalk, horder⟩ := walk_orderChain (fun h => ((hothers leaf).mp h).2 rfl) hnodup
  exact ⟨left, path, rest, horder ▸ hbundle, hwalk, hnodup, hothers⟩

end

/-- Two keystores hold one key and the same certificates, of which only the leaf carries the public half of the key, and no
two of the others have the same subject. Then they make bundles with that leaf and with the one way from it to the issuers,
and what is off that way differs in its order at most. So the bundles are the same if nothing is off it. -/
theorem ofEntries_stored_anyhow {key leaf : Bytes} {entries entries' : List Keystore.Entry} (hkey : HoldsKey key entries)
    (hkey' : HoldsKey key entries') (hsame : ∀ c, c ∈ certificatesOf entries ↔ c ∈ certificatesOf entries')
    (hleaf : ∀ c, c ∈ certificatesOf entries ∧ Carries key c ↔ c = leaf)
    (hdistinct : DistinctSubjects fun c => c ∈ certificatesOf entries ∧ c ≠ leaf) :
    ∃ path rest rest', ofEntries entries = .ok ⟨key, leaf, path ++ rest⟩ ∧
      ofEntries entries' = .ok ⟨key, leaf, path ++ rest'⟩ ∧
      (∀ path', IssuerPath leaf (fun c => c ∈ certificatesOf entries ∧ c ≠ leaf) path' ↔ path' = path) ∧
      rest.Perm rest' ∧
      ((∀ c ∈ certificatesOf entries, c = leaf ∨ c ∈ path) → ofEntries entries = ofEntries entries') ∧
      ∀ data password named, Keystore.read data password = .ok named →
        (named.map (·.2) = entries → decode data password = .ok ⟨key, leaf, path ++ rest⟩) ∧
        (named.map (·.2) = entries' → decode data password = .ok ⟨key, leaf, path ++ rest'⟩) := by
  obtain ⟨left, path, rest, hbundle, hwalk, hnodup, hothers⟩ := exists_ofEntries_walk hkey hleaf
  obtain ⟨left', path', rest', hbundle', hwalk', hnodup', hothers'⟩ :=
    exists_ofEntries_walk hkey' fun c => by rw [← hsame, hleaf]
  have hpath := hwalk.issuerPath hnodup hothers
  have hothersSame : ∀ c, c ∈ left' ↔ c ∈ certificatesOf entries ∧ c ≠ leaf := fun c => by
    rw [hsame, hothers']
  obtain rfl := hpath.unique hdistinct (hwalk'.issuerPath hnodup' hothersSame)
  have hperm : left.Perm left' :=
    (List.perm_ext_iff_of_nodup hnodup hnodup').mpr fun c => (hothers c).trans (hothersSame c).symm
  refine ⟨path, rest, rest', hbundle, hbundle', fun way => ⟨fun hway => hway.unique hdistinct hpath, fun heq => heq ▸ hpath⟩,
    hwalk.rest_perm hwalk' hperm, fun hall => ?_, fun data password named hread => ⟨fun h => ?_, fun h => ?_⟩⟩
  · -- nothing is left off the way in either list
    have hnone : rest = [] := List.eq_nil_iff_forall_not_mem.mpr fun c hc => by
      obtain ⟨-, -, hoff⟩ := List.nodup_append.mp (hwalk.perm.nodup_iff.mpr hnodup)
      obtain ⟨hmem, hne⟩ := (hothers c).mp (hwalk.perm.mem_iff.mp (List.mem_append_right _ hc))
      exact hoff c ((hall c hmem).resolve_left hne) c hc rfl
    have hnone' := hwalk.rest_perm hwalk' hperm
    rw [hnone, List.nil_perm] at hnone'
    rw [hbundle, hbundle', hnone, hnone']
  · rw [decode_of_read hread, h, hbundle]
    rfl
  · rw [decode_of_read hread, h, hbundle']
    rfl

/-! ## Three certificates in two orders -/

/-- The certificate of a key, that of its issuer and octets that are no certificate, all beside the key. -/
def storedTogether : List Keystore.Entry :=
  [.keyChain mismatched.privateKey [namedCertificate, sampleCertificate 1, [0]]]

/-- The same with the issuer first and the certificate of the key last, both on their own. -/
def storedApart : List Keystore.Entry :=
  [.certificate (sampleCertificate 1), .keyChain mismatched.privateKey [[0]], .certificate namedCertificate]

theorem mem_storedTogether (c : Bytes) :
    c ∈ certificatesOf storedTogether ↔ c = namedCertificate ∨ c = sampleCertificate 1 ∨ c = [0] := by
  simp [certificatesOf, storedTogether]

theorem mem_storedApart (c : Bytes) :
    c ∈ certificatesOf storedApart ↔ c = namedCertificate ∨ c = sampleCertificate 1 ∨ c = [0] := by
  simp only [certificatesOf, storedApart, List.flatMap_cons, List.flatMap_nil, List.append_nil, List.mem_append,
    List.mem_singleton]
  tauto

theorem belongsTo_others :
    belongsTo ⟨.rsa, mismatched.privateKey, otherKey.publicKey⟩ (sampleCertificate 1) = false ∧
      belongsTo ⟨.rsa, mismatched.privateKey, otherKey.publicKey⟩ [0] = false :=
  ⟨mismatched_sound.2.1, rfl⟩

theorem carries_storedTogether (c : Bytes) :
    c ∈ certificatesOf storedTogether ∧ Carries mismatched.privateKey c ↔ c = namedCertificate := by
  rw [mem_storedTogether, carries_iff ofPkcs8_mismatched]
  constructor
  · rintro ⟨rfl | rfl | rfl, hcarries⟩
    · rfl
    · exact absurd (belongsTo_others.1.symm.trans hcarries) Bool.false_ne_true
    · exact absurd (belongsTo_others.2.symm.trans hcarries) Bool.false_ne_true
  · rintro rfl
    exact ⟨.inl rfl, belongsTo_pair.2.2⟩

theorem distinct_storedTogether :
    DistinctSubjects fun c => c ∈ certificatesOf storedTogether ∧ c ≠ namedCertificate := by
  have hnone := tangledChain_names.2.2.1
  rintro c d name ⟨hc, hcleaf⟩ ⟨hd, hdleaf⟩ hcname hdname
  rw [mem_storedTogether] at hc hd
  rcases hc.resolve_left hcleaf with rfl | rfl
  · rcases hd.resolve_left hdleaf with rfl | rfl
    · rfl
    · exact absurd (hnone.symm.trans hdname) (Option.some_ne_none name).symm
  · exact absurd (hnone.symm.trans hcname) (Option.some_ne_none name).symm

theorem issuerPath_storedTogether : IssuerPath namedCertificate
    (fun c => c ∈ certificatesOf storedTogether ∧ c ≠ namedCertificate) [sampleCertificate 1] := by
  obtain ⟨hleaf, -, hnone, hissuers, hsubjects⟩ := tangledChain_names
  simp only [List.map_cons, List.map_nil, List.replicate_succ, List.replicate_zero, List.cons.injEq, and_true]
    at hissuers hsubjects
  refine ⟨List.isChain_pair.mpr ⟨_, hissuers.1, hsubjects.1⟩, fun c hc => ?_, List.nodup_singleton _, fun c hc hnew => ?_⟩
  · obtain rfl := List.mem_singleton.mp hc
    refine ⟨(mem_storedTogether _).mpr (.inr (.inl rfl)), fun heq => hleaf ?_⟩
    rw [← heq]
    exact List.mem_cons_of_mem _ List.mem_cons_self
  · rintro ⟨name, -, hsubject⟩
    obtain rfl | rfl := ((mem_storedTogether c).mp hc.1).resolve_left hc.2
    · exact hnew (List.mem_singleton_self _)
    · exact absurd (hnone.symm.trans hsubject) (Option.some_ne_none name).symm

theorem ofEntries_storedApart : HoldsKey mismatched.privateKey storedTogether ∧
    HoldsKey mismatched.privateKey storedApart ∧
    (∀ c, c ∈ certificatesOf storedTogether ↔ c ∈ certificatesOf storedApart) ∧
    (∀ c, c ∈ certificatesOf storedTogether ∧ Carries mismatched.privateKey c ↔ c = namedCertificate) ∧
    (DistinctSubjects fun c => c ∈ certificatesOf storedTogether ∧ c ≠ namedCertificate) ∧
    ∃ rest rest', ofEntries storedTogether = .ok ⟨mismatched.privateKey, namedCertificate, sampleCertificate 1 :: rest⟩ ∧
      ofEntries storedApart = .ok ⟨mismatched.privateKey, namedCertificate, sampleCertificate 1 :: rest'⟩ ∧
      rest.Perm rest' := by
  have hkey : HoldsKey mismatched.privateKey storedTogether := ⟨[], _, [], rfl, by simp⟩
  have hkey' : HoldsKey mismatched.privateKey storedApart :=
    ⟨[.certificate (sampleCertificate 1)], _, [.certificate namedCertificate], rfl, by simp⟩
  have hsame : ∀ c, c ∈ certificatesOf storedTogether ↔ c ∈ certificatesOf storedApart := fun c =>
    (mem_storedTogether c).trans (mem_storedApart c).symm
  obtain ⟨path, rest, rest', hbundle, hbundle', hunique, hperm, -⟩ :=
    ofEntries_stored_anyhow hkey hkey' hsame carries_storedTogether distinct_storedTogether
  obtain rfl := (hunique _).mp issuerPath_storedTogether
  exact ⟨hkey, hkey', hsame, carries_storedTogether, distinct_storedTogether, rest, rest', hbundle, hbundle', hperm⟩

end CertRotation.Bundle
