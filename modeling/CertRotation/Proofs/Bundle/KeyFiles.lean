import CertRotation.Proofs.Bundle.Sources
import CertRotation.Proofs.Key.Containers
import CertRotation.Proofs.Pem.Joining

/-!
# A key in a file of its own

A key file is taken over as it stands, and the packaging reads its first block. Among the blocks of the certificate file
the key is searched for by its tag. The two ways give the same key, or refuse it alike, exactly if the key file begins with
the key, or if the PEM layer has encrypted both the key and the block that stands before it.
-/
namespace CertRotation

/-! ## What a block is refused for -/

namespace PrivateKey
variable {p : Pem} {b : Bytes} {password : Option String} {e : Error}

theorem ofBlock_trim (p : Pem) (password : Option String) :
    ofBlock { p with headers := p.headers.map Text.trim } password = ofBlock p password := by
  have hlegacy : isLegacyEncrypted { p with headers := p.headers.map Text.trim } = isLegacyEncrypted p := by
    rw [isLegacyEncrypted, isLegacyEncrypted, Pem.header?_trim]
  rw [ofBlock, ofBlock, hlegacy]

/-- The error is neither about the tag nor about the encryption of a block. -/
def Error.OfContents (e : Error) : Prop := e ≠ .decrypt .legacy ∧ ∀ tag, e ≠ .parse (.blockType tag)

theorem ofContents_of_ofPkcs8 (h : ofPkcs8 b = .error e) : e.OfContents ∧ e.ofDecrypted.OfContents := by
  unfold ofPkcs8 at h
  split at h
  · cases h
    simp [Error.OfContents, Error.ofDecrypted]
  · split at h <;> cases h
    simp [Error.OfContents, Error.ofDecrypted]

theorem ofContents_of_decrypt (h : decrypt b password = .error e) : e.OfContents := by
  unfold decrypt at h
  split at h
  · cases h
    simp [Error.OfContents]
  · split at h
    · cases h
      simp [Error.OfContents]
    · split at h
      · cases h
        simp [Error.OfContents]
      · split at h <;> cases h
        simp [Error.OfContents]

theorem ofContents_of_ofPkcs1 (h : ofPkcs1 b = .error e) : e.OfContents := by
  unfold ofPkcs1 at h
  split at h
  · cases h
    simp [Error.OfContents]
  · split at h
    · cases h
      simp [Error.OfContents]
    · dsimp only at h
      split at h <;> cases h
      simp [Error.OfContents]

theorem ofContents_of_ofSec1 (h : ofSec1 b = .error e) : e.OfContents := by
  unfold ofSec1 at h
  split at h
  · cases h
  · split at h <;> cases h
    simp [Error.OfContents]

theorem ofBlock_eq_error (h : ofBlock p password = .error e) :
    isLegacyEncrypted p = true ∧ e = .decrypt .legacy ∨
      isLegacyEncrypted p = false ∧ (e = .parse (.blockType p.tag) ∨ e.OfContents) := by
  unfold ofBlock at h
  split at h
  · next hlegacy => exact .inl ⟨hlegacy, (Except.error.inj h).symm⟩
  · next hlegacy =>
    refine .inr ⟨by simpa using hlegacy, ?_⟩
    split at h
    · exact .inr (ofContents_of_ofPkcs8 h).1
    split at h
    · obtain hdecrypt | ⟨plain, -, h⟩ := bind_eq_error.mp h
      · exact .inr (ofContents_of_decrypt hdecrypt)
      · obtain ⟨inner, hinner, rfl⟩ := mapError_eq_error.mp h
        exact .inr (ofContents_of_ofPkcs8 hinner).2
    split at h
    · exact .inr (ofContents_of_ofPkcs1 h)
    split at h
    · exact .inr (ofContents_of_ofSec1 h)
    · exact .inl (Except.error.inj h).symm

/-- A block that does not have the tag of a key is refused. -/
theorem ofBlock_of_not_isPrivateKey (h : PemSource.isPrivateKey p = false) (password : Option String) :
    ofBlock p password = .error (if isLegacyEncrypted p then .decrypt .legacy else .parse (.blockType p.tag)) := by
  have htag : ∀ tag, ("PRIVATE KEY".toList.isSuffixOf tag.toList) = true → p.tag ≠ tag := by
    rintro tag htag rfl
    exact absurd (htag.symm.trans h) (by simp)
  unfold ofBlock
  rw [if_neg (htag _ (by decide)), if_neg (htag _ (by decide)), if_neg (htag _ (by decide)), if_neg (htag _ (by decide))]
  split <;> rfl

/-- Such a block and one with the tag of a key are refused alike only for their encryption. -/
theorem ofBlock_eq_iff {first key : Pem} (hfirst : PemSource.isPrivateKey first = false)
    (hkey : PemSource.isPrivateKey key = true) (password : Option String) :
    ofBlock first password = ofBlock key password ↔ isLegacyEncrypted first = true ∧ isLegacyEncrypted key = true := by
  rw [ofBlock_of_not_isPrivateKey hfirst]
  constructor
  · intro h
    obtain ⟨hlegacy, he⟩ | ⟨-, he⟩ := ofBlock_eq_error h.symm
    · refine ⟨?_, hlegacy⟩
      by_contra hno
      rw [if_neg hno] at he
      cases he
    · exfalso
      split at he
      · obtain he | he := he
        · cases he
        · exact he.1 rfl
      · obtain he | he := he
        · obtain htag : first.tag = key.tag := by simpa using he
          rw [PemSource.isPrivateKey, htag] at hfirst
          exact absurd (hkey.symm.trans hfirst) (by simp)
        · exact he.2 _ rfl
  · rintro ⟨hlegacy, hlegacy'⟩
    rw [if_pos hlegacy, ofBlock, if_pos hlegacy']

end PrivateKey

/-! ## The two ways -/

namespace PemSource
variable {s : PemSource} {t : FileTree} {a b c front back : String} {ps qs : List Pem}

theorem not_isPrivateKey_of_isCertificate {p : Pem} (h : isCertificate p = true) : isPrivateKey p = false := by
  have htag : p.tag = "CERTIFICATE" := of_decide_eq_true h
  rw [isPrivateKey, htag]
  decide

/-- A certificate file that begins with the leaf. -/
theorem load_of_leaf {text key : String} {leaf : Pem} {others : List Pem} (hread : t.readText s.certificate = .ok text)
    (hblocks : Pem.Comprises text (leaf :: others)) (hleaf : isCertificate leaf = true)
    (hkey : s.keyText t others = .ok key) (hchain : s.chain = none) :
    s.load t = .ok ⟨leaf.encode, key, (others.filter isCertificate).map Pem.encode, s.keyPassword⟩ := by
  have hsplit : splitLeaf text (leaf :: others) = (leaf.encode, others) := by
    simp [splitLeaf, List.findIdx?_cons, hleaf]
  have hfurther : ∀ count, s.furtherEntries t count = .ok [] := by simp [furtherEntries, hchain]
  rw [load_eq]
  refine bind_eq_ok.mpr ⟨text, readText_eq_ok.mpr hread, bind_eq_ok.mpr ⟨leaf :: others, ?_,
    bind_eq_ok.mpr ⟨key, by rwa [hsplit], bind_eq_ok.mpr ⟨[], hfurther _, ?_⟩⟩⟩⟩
  · exact mapError_eq_ok.mpr (Pem.blocks_eq_ok.mpr hblocks)
  · rw [hsplit, List.append_nil]
    rfl

/-- Certificates stand in one file, other blocks with a key in a second, and both one behind the other in a third. -/
structure TwoWays (t : FileTree) (a b c front back : String) (ps qs : List Pem) : Prop where
  certificates : t.readText a = .ok front
  keys : t.readText b = .ok back
  both : t.readText c = .ok (front ++ back)
  parted : Pem.Parted front.toList back.toList
  front_blocks : Pem.Comprises front ps
  front_ne : ps ≠ []
  front_tags : ∀ p ∈ ps, isCertificate p = true
  back_blocks : Pem.Comprises back qs
  back_tags : ∀ p ∈ qs, isCertificate p = false
  key : ∃ p ∈ qs, isPrivateKey p = true

section
variable {leaf first key : Pem} {issuers rest : List Pem}

/-- The key file is taken over as it stands. -/
theorem TwoWays.load_apart (h : TwoWays t a b c front back (leaf :: issuers) qs) :
    load { certificate := a, privateKey := some b } t =
      .ok ⟨leaf.encode, back, (issuers.filter isCertificate).map Pem.encode, none⟩ :=
  load_of_leaf h.certificates h.front_blocks (h.front_tags leaf List.mem_cons_self) (readText_eq_ok.mpr h.keys) rfl

/-- No certificate is taken for the key, and no other block for a certificate. -/
theorem TwoWays.load_together (h : TwoWays t a b c front back (leaf :: issuers) qs)
    (hkey : qs.find? isPrivateKey = some key) :
    load { certificate := c } t =
      .ok ⟨leaf.encode, key.encode, (issuers.filter isCertificate).map Pem.encode, none⟩ := by
  have hfound : (issuers ++ qs).find? isPrivateKey = some key := by
    have hnone : issuers.find? isPrivateKey = none := List.find?_eq_none.mpr fun p hp => by
      simp [not_isPrivateKey_of_isCertificate (h.front_tags p (List.mem_cons_of_mem _ hp))]
    rw [List.find?_append, hnone, Option.none_or, hkey]
  have hcertificates : (issuers ++ qs).filter isCertificate = issuers.filter isCertificate := by
    have hnone : qs.filter isCertificate = [] := List.filter_eq_nil_iff.mpr fun p hp => by simp [h.back_tags p hp]
    rw [List.filter_append, hnone, List.append_nil]
  have hkeyText : keyText { certificate := c } t (issuers ++ qs) = .ok key.encode := by simp [keyText, hfound]
  have hblocks : Pem.Comprises (front ++ back) (leaf :: (issuers ++ qs)) := h.front_blocks.append h.back_blocks h.parted
  rw [load_of_leaf (s := { certificate := c }) h.both hblocks (h.front_tags leaf List.mem_cons_self) hkeyText rfl,
    hcertificates]

theorem TwoWays.parse_apart (h : TwoWays t a b c front back ps (first :: rest)) (password : Option String) :
    PrivateKey.parse back password = PrivateKey.ofBlock first password := by
  simp only [PrivateKey.parse, Pem.parse_of_comprises_cons h.back_blocks]

/-- A key is the same when it is written anew. -/
theorem TwoWays.parse_together (h : TwoWays t a b c front back ps qs) (hkey : key ∈ qs) (password : Option String) :
    PrivateKey.parse key.encode password = PrivateKey.ofBlock key password := by
  simp only [PrivateKey.parse, Pem.parse_encode_of_legible (h.back_blocks.legible key hkey), PrivateKey.ofBlock_trim]

end

/-- The two ways give the same certificates. They give the same key, or refuse it alike, exactly if the first block of the
key file is the first key in it, or if both are encrypted by the PEM layer. -/
theorem keys_agree_iff (h : TwoWays t a b c front back ps qs) :
    ∃ m m' first key, load { certificate := a, privateKey := some b } t = .ok m ∧
      load { certificate := c } t = .ok m' ∧ m'.certificate = m.certificate ∧ m'.chain = m.chain ∧
      qs.head? = some first ∧ qs.find? isPrivateKey = some key ∧
      ∀ password, PrivateKey.parse m.privateKey password = PrivateKey.ofBlock first password ∧
        PrivateKey.parse m'.privateKey password = PrivateKey.ofBlock key password ∧
        (PrivateKey.parse m.privateKey password = PrivateKey.parse m'.privateKey password ↔
          isPrivateKey first = true ∨
            PrivateKey.isLegacyEncrypted first = true ∧ PrivateKey.isLegacyEncrypted key = true) := by
  obtain ⟨leaf, issuers, rfl⟩ := List.exists_cons_of_ne_nil h.front_ne
  obtain ⟨key, hfind⟩ := Option.isSome_iff_exists.mp (List.find?_isSome.mpr h.key)
  obtain ⟨first, rest, rfl⟩ := List.exists_cons_of_ne_nil (List.ne_nil_of_mem (List.mem_of_find?_eq_some hfind))
  refine ⟨_, _, first, key, h.load_apart, h.load_together hfind, rfl, rfl, rfl, hfind, fun password => ?_⟩
  have hparse := h.parse_apart password
  have hparse' := h.parse_together (List.mem_of_find?_eq_some hfind) password
  refine ⟨hparse, hparse', ?_⟩
  rw [hparse, hparse']
  by_cases htag : isPrivateKey first = true
  · rw [List.find?_cons_of_pos htag] at hfind
    obtain rfl := Option.some.inj hfind
    simp [htag]
  · rw [PrivateKey.ofBlock_eq_iff (by simpa using htag) (List.find?_some hfind)]
    simp [htag]

/-! ## Sample files -/

/-- A certificate in one file, these blocks in a second, and all of them in a third. -/
def keyFiles (qs : List Pem) : FileTree :=
  ⟨[(["a"], .file (Bytes.ofString (String.ofList (Pem.written [sampleBlock 1]))) 0),
    (["b"], .file (Bytes.ofString (String.ofList (Pem.written qs))) 0),
    (["c"], .file (Bytes.ofString (String.ofList (Pem.written (sampleBlock 1 :: qs)))) 0)], []⟩

theorem twoWays_keyFiles (hplain : ∀ p ∈ qs, p.Plain) (htags : ∀ p ∈ qs, isCertificate p = false)
    (hkey : ∃ p ∈ qs, isPrivateKey p = true) :
    TwoWays (keyFiles qs) "a" "b" "c" (String.ofList (Pem.written [sampleBlock 1])) (String.ofList (Pem.written qs))
      [sampleBlock 1] qs := by
  have hnames : FileTree.SingleName "a" ∧ FileTree.SingleName "b" ∧ FileTree.SingleName "c" := by decide
  have hfirst : ∀ p ∈ [sampleBlock 1], p.Plain := by simp [plain_sampleBlock]
  have hall : ∀ p ∈ sampleBlock 1 :: qs, p.Plain := List.forall_mem_cons.mpr ⟨plain_sampleBlock 1, hplain⟩
  have hwritten : String.ofList (Pem.written (sampleBlock 1 :: qs)) =
      String.ofList (Pem.written [sampleBlock 1]) ++ String.ofList (Pem.written qs) := by
    rw [← String.ofList_append, Pem.written_cons, Pem.written_cons, List.append_assoc]
    rfl
  obtain ⟨start, hstart⟩ := Pem.exists_encode_eq (sampleBlock 1)
  exact {
    certificates := readText_ascii hnames.1 rfl rfl (Pem.ascii_written hfirst)
    keys := readText_ascii hnames.2.1 rfl rfl (Pem.ascii_written hplain)
    both := hwritten ▸ readText_ascii hnames.2.2 rfl rfl (Pem.ascii_written hall)
    parted := .inl ⟨Pem.beginMarker ++ start ++ ['-', '\r'], by simp [Pem.written, hstart]⟩
    front_blocks := Pem.blocks_eq_ok.mp (Pem.blocks_written hfirst)
    front_ne := List.cons_ne_nil _ _
    front_tags := by simp [sampleBlock, isCertificate, Certificate.pemTag]
    back_blocks := Pem.blocks_eq_ok.mp (Pem.blocks_written hplain)
    back_tags := htags
    key := hkey }

theorem keys_agree_sample : ∃ m m',
    load { certificate := "a", privateKey := some "b" } (keyFiles [sampleKeyBlock]) = .ok m ∧
      load { certificate := "c" } (keyFiles [sampleKeyBlock]) = .ok m' ∧
      ∀ password, PrivateKey.parse m.privateKey password = PrivateKey.parse m'.privateKey password := by
  have hplain : ∀ p ∈ [sampleKeyBlock], p.Plain := by simp [plain_sampleKeyBlock]
  have h := twoWays_keyFiles hplain (List.forall_mem_singleton.mpr rfl) ⟨sampleKeyBlock, by simp, rfl⟩
  obtain ⟨m, m', first, key, hload, hload', -, -, hfirst, -, hkeys⟩ := keys_agree_iff h
  obtain rfl : sampleKeyBlock = first := Option.some.inj hfirst
  exact ⟨m, m', hload, hload', fun password => (hkeys password).2.2.mpr (.inl (by decide))⟩

/-- The name of a curve and a key on it. -/
def parametersBlock : Pem := ⟨"EC PARAMETERS", [], Der.Write.oid Curve.p256.oid⟩

def curveKeyBlock : Pem := ⟨"EC PRIVATE KEY", [], PrivateKey.bareInner Curve.p256.oid 32⟩

theorem plain_curveBlocks : parametersBlock.Plain ∧ curveKeyBlock.Plain :=
  ⟨⟨rfl, by decide, by decide, ascii_of_all (by decide)⟩, ⟨rfl, by decide, by decide, ascii_of_all (by decide)⟩⟩

theorem ofBlock_curveKeyBlock (password : Option String) : (PrivateKey.ofBlock curveKeyBlock password).isOk = true := by
  have hnamed : (Der.sequence PrivateKey.ecNamedFields).whole? (PrivateKey.bareInner Curve.p256.oid 32) =
      some (some Curve.p256.oid, PrivateKey.bareKey 32) := by decide +kernel
  obtain ⟨point, hpoint⟩ := Option.isSome_iff_exists.mp PrivateKey.point?_bare.1
  have hkey : PrivateKey.ecKey? .p256 (PrivateKey.bareInner Curve.p256.oid 32) = some point := by
    rw [PrivateKey.ecKey?, PrivateKey.fields_of_named hnamed, Option.bind_some, hpoint]
  have hblock : PrivateKey.ofBlock curveKeyBlock password = PrivateKey.ofSec1 (PrivateKey.bareInner Curve.p256.oid 32) := rfl
  rw [hblock, PrivateKey.ofSec1, hkey]
  rfl

/-- Behind the parameters of its curve a key is found among the certificates, but not in a file of its own. -/
theorem key_behind_parameters : ∃ m m',
    load { certificate := "a", privateKey := some "b" } (keyFiles [parametersBlock, curveKeyBlock]) = .ok m ∧
      load { certificate := "c" } (keyFiles [parametersBlock, curveKeyBlock]) = .ok m' ∧
      ∀ password, PrivateKey.parse m.privateKey password = .error (.parse (.blockType "EC PARAMETERS")) ∧
        (PrivateKey.parse m'.privateKey password).isOk = true := by
  obtain ⟨hparameters, hkey⟩ := plain_curveBlocks
  have hplain : ∀ p ∈ [parametersBlock, curveKeyBlock], p.Plain := by simp [hparameters, hkey]
  have htags : ∀ p ∈ [parametersBlock, curveKeyBlock], isCertificate p = false :=
    List.forall_mem_cons.mpr ⟨rfl, List.forall_mem_singleton.mpr rfl⟩
  have h := twoWays_keyFiles hplain htags ⟨curveKeyBlock, by simp, rfl⟩
  have hfind : [parametersBlock, curveKeyBlock].find? isPrivateKey = some curveKeyBlock := rfl
  refine ⟨_, _, h.load_apart, h.load_together hfind, fun password => ⟨?_, ?_⟩⟩
  · exact (h.parse_apart password).trans (PrivateKey.ofBlock_of_not_isPrivateKey (by decide) password)
  · have hparse := h.parse_together (List.mem_of_find?_eq_some hfind) password
    exact (congrArg Except.isOk hparse).trans (ofBlock_curveKeyBlock password)

end PemSource
end CertRotation
