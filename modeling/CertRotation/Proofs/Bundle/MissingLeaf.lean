import CertRotation.Proofs.Bundle.KeyFiles
import CertRotation.Proofs.Bundle.Stages

/-!
# A certificate file without a certificate

Where no block is a certificate the first one stands for it, and without any block the whole text does. Packaging refuses it
as no certificate, but only after it has asked for the key. The key is searched for behind the block that was taken, so that
it is missing if this block was the only key.
-/
namespace CertRotation

theorem Pem.Comprises.unique {text : String} {ps qs : List Pem} (hps : Pem.Comprises text ps) (hqs : Pem.Comprises text qs) :
    ps = qs :=
  Except.ok.inj ((Pem.blocks_eq_ok.mpr hps).symm.trans (Pem.blocks_eq_ok.mpr hqs))

theorem Pem.not_blank_encode (p : Pem) : Text.isBlankText p.encode = false := by
  obtain ⟨front, hfront⟩ := Pem.exists_encode_eq p
  rw [Text.isBlankText, hfront]
  rfl

namespace PemMaterial
variable {seeds : Keystore.Seeds} {m : PemMaterial} {password : String} {x : Certificate.Error}

/-! ## What packaging refuses first -/

theorem package_of_blank_certificate (hp : password ≠ "") (hc : Text.isBlankText m.certificate = true) :
    m.package seeds password = .error (.missingMaterial .certificate) := by
  rw [refuses_package]
  exact ⟨[.password], .certificateText, _, rfl, by simp [Fault, hp], hc, rfl⟩

theorem package_of_blank_key (hp : password ≠ "") (hc : Text.isBlankText m.certificate = false)
    (hk : Text.isBlankText m.privateKey = true) : m.package seeds password = .error (.missingMaterial .privateKey) := by
  rw [refuses_package]
  exact ⟨[.password, .certificateText], .keyText, _, rfl, by simp [Fault, hp, hc], hk, rfl⟩

theorem package_of_rejects (hp : password ≠ "") (hc : Text.isBlankText m.certificate = false)
    (hk : Text.isBlankText m.privateKey = false) (hx : Certificate.Rejects m.certificate x) :
    m.package seeds password = .error (.certificate x) := by
  rw [refuses_package]
  exact ⟨[.password, .certificateText, .keyText], .leaf, _, rfl, by simp [Fault, hp, hc, hk], x, hx, rfl⟩

end PemMaterial

namespace PemSource
variable {s : PemSource} {t : FileTree} {text key password : String} {first : Pem} {ps others : List Pem}

/-! ## What stands for the certificate -/

/-- The bundle that is made from the files. -/
def packaged (s : PemSource) (t : FileTree) (seeds : Keystore.Seeds) (password : String) : Except LoadError Bytes := do
  let m ← s.load t
  (m.package seeds password).mapError .bundle

/-- No block of the certificate file is a certificate. A key is supplied, in a file of its own or as a block, and all other
files can be read. -/
structure WithoutCertificate (s : PemSource) (t : FileTree) (text : String) : Prop where
  file : t.readText s.certificate = .ok text
  no_certificate : ∀ ps, Pem.Comprises text ps → ∀ p ∈ ps, isCertificate p = false
  keyFile : ∀ path ∈ s.privateKey, ∃ key, t.readText path = .ok key ∧ Text.isBlankText key = false
  keyBlock : s.privateKey = none → ∀ ps, Pem.Comprises text ps → ∃ p ∈ ps, isPrivateKey p = true
  chainFile : ∀ path ∈ s.chain, ∃ chainText further, t.readText path = .ok chainText ∧ Pem.Comprises chainText further

/-- The error says that there is no certificate: that none was given, or that what was given is none. It is not about the
octets of a certificate. -/
def MissesCertificate (e : Bundle.Error) : Prop :=
  e = .missingMaterial .certificate ∨ ∃ x, e = .certificate x ∧ ∀ y, x ≠ .certificate y

/-- There is no key file, and behind the first block of the certificate file there is no key. -/
def KeyTaken (s : PemSource) (text : String) : Prop :=
  s.privateKey = none ∧ ∃ first others, Pem.Comprises text (first :: others) ∧ ∀ p ∈ others, isPrivateKey p = false

theorem splitLeaf_of_no_certificate (h : ∀ p ∈ first :: others, isCertificate p = false) :
    splitLeaf text (first :: others) = (first.encode, others) := by
  have hnone : (first :: others).findIdx? isCertificate = none := List.findIdx?_eq_none_iff.mpr h
  simp only [splitLeaf, hnone, Option.getD_none, List.getElem?_cons_zero, List.eraseIdx_zero, List.tail_cons]

theorem exists_furtherEntries
    (h : ∀ path ∈ s.chain, ∃ chainText further, t.readText path = .ok chainText ∧ Pem.Comprises chainText further)
    (count : Nat) : ∃ entries, s.furtherEntries t count = .ok entries := by
  unfold furtherEntries
  cases hchain : s.chain with
  | none => exact ⟨[], rfl⟩
  | some path =>
    obtain ⟨chainText, further, hread, hfurther⟩ := h path hchain
    exact ⟨_, bind_eq_ok.mpr ⟨chainText, readText_eq_ok.mpr hread,
      bind_eq_ok.mpr ⟨further, mapError_eq_ok.mpr (Pem.blocks_eq_ok.mpr hfurther), rfl⟩⟩⟩

/-- Files that can be read give material, whatever stands for the certificate. -/
theorem WithoutCertificate.load_eq_ok (h : WithoutCertificate s t text) (hblocks : Pem.Comprises text ps)
    (hkey : s.keyText t (splitLeaf text ps).2 = .ok key) :
    ∃ chain, s.load t = .ok ⟨(splitLeaf text ps).1, key, chain, s.keyPassword⟩ := by
  obtain ⟨entries, hentries⟩ := exists_furtherEntries h.chainFile
    (((splitLeaf text ps).2.filter isCertificate).map Pem.encode).length
  refine ⟨((splitLeaf text ps).2.filter isCertificate).map Pem.encode ++ entries, ?_⟩
  rw [load_eq]
  exact bind_eq_ok.mpr ⟨text, readText_eq_ok.mpr h.file, bind_eq_ok.mpr ⟨ps, mapError_eq_ok.mpr (Pem.blocks_eq_ok.mpr hblocks),
    bind_eq_ok.mpr ⟨key, hkey, bind_eq_ok.mpr ⟨entries, hentries, rfl⟩⟩⟩⟩

/-- A key that is supplied is found, unless it was taken for the certificate. -/
theorem WithoutCertificate.keyText_eq_ok (h : WithoutCertificate s t text) (hblocks : Pem.Comprises text (first :: others)) :
    ∃ key, s.keyText t others = .ok key ∧ (Text.isBlankText key = true ↔ KeyTaken s text) := by
  unfold keyText
  cases hfile : s.privateKey with
  | some path =>
    obtain ⟨key, hread, hblank⟩ := h.keyFile path hfile
    exact ⟨key, readText_eq_ok.mpr hread, by simp [hblank, KeyTaken, hfile]⟩
  | none =>
    refine ⟨_, rfl, ?_⟩
    cases hfind : others.find? isPrivateKey with
    | some p =>
      refine iff_of_false (by simp [Pem.not_blank_encode]) ?_
      rintro ⟨-, first', others', hblocks', hnone⟩
      obtain ⟨-, rfl⟩ := List.cons.inj (hblocks.unique hblocks')
      simpa [List.find?_some hfind] using hnone p (List.mem_of_find?_eq_some hfind)
    | none => exact iff_of_true rfl ⟨hfile, first, others, hblocks, by simpa using List.find?_eq_none.mp hfind⟩

theorem WithoutCertificate.rejects_first (h : WithoutCertificate s t text) (hblocks : Pem.Comprises text (first :: others)) :
    Certificate.Rejects first.encode (.blockType first.tag) := by
  have htag : isCertificate first = false := h.no_certificate _ hblocks first List.mem_cons_self
  exact .blockType (p := { first with headers := first.headers.map Text.trim })
    (Pem.parse_encode_of_legible (hblocks.legible first List.mem_cons_self)) (of_decide_eq_false htag)

/-- Without any block the whole text is refused, before the key is asked for if it is blank. -/
theorem WithoutCertificate.packaged_of_no_block (h : WithoutCertificate s t text) (hp : password ≠ "")
    (seeds : Keystore.Seeds) (hblocks : Pem.Comprises text []) :
    ∃ e, s.packaged t seeds password = .error (.bundle e) ∧ MissesCertificate e := by
  -- without a block there is no key among the blocks
  obtain ⟨path, hfile⟩ : ∃ path, s.privateKey = some path := by
    cases hfile : s.privateKey with
    | some path => exact ⟨path, rfl⟩
    | none =>
      obtain ⟨p, hmem, -⟩ := h.keyBlock hfile [] hblocks
      cases hmem
  obtain ⟨key, hread, hkey⟩ := h.keyFile path hfile
  have hkeyText : s.keyText t (splitLeaf text []).2 = .ok key := by
    rw [keyText, hfile]
    exact readText_eq_ok.mpr hread
  obtain ⟨chain, hload⟩ := h.load_eq_ok hblocks hkeyText
  cases hblank : Text.isBlankText text with
  | true =>
    refine ⟨_, ?_, .inl rfl⟩
    rw [packaged, hload]
    exact mapError_eq_error.mpr ⟨_, PemMaterial.package_of_blank_certificate hp hblank, rfl⟩
  | false =>
    have hrejects : Certificate.Rejects text (.pem .framing) := .pem (Pem.parse_of_comprises_nil hblocks)
    refine ⟨.certificate (.pem .framing), ?_, .inr ⟨_, rfl, by simp⟩⟩
    rw [packaged, hload]
    exact mapError_eq_error.mpr ⟨_, PemMaterial.package_of_rejects hp hblank hkey hrejects, rfl⟩

/-- The first block is refused for its tag, if there is still a key behind it. -/
theorem WithoutCertificate.packaged_of_first (h : WithoutCertificate s t text) (hp : password ≠ "")
    (seeds : Keystore.Seeds) (hblocks : Pem.Comprises text (first :: others)) :
    ∃ e, s.packaged t seeds password = .error (.bundle e) ∧ (¬ KeyTaken s text → MissesCertificate e) ∧
      (KeyTaken s text → e = .missingMaterial .privateKey) := by
  have hsplit : splitLeaf text (first :: others) = (first.encode, others) :=
    splitLeaf_of_no_certificate (h.no_certificate _ hblocks)
  obtain ⟨key, hkey, htaken⟩ := h.keyText_eq_ok hblocks
  have hfound : s.keyText t (splitLeaf text (first :: others)).2 = .ok key := by
    rw [hsplit]
    exact hkey
  obtain ⟨chain, hload⟩ := h.load_eq_ok hblocks hfound
  rw [hsplit] at hload
  have hleaf := Pem.not_blank_encode first
  cases hblank : Text.isBlankText key with
  | true =>
    refine ⟨_, ?_, fun hno => absurd (htaken.mp hblank) hno, fun _ => rfl⟩
    rw [packaged, hload]
    exact mapError_eq_error.mpr ⟨_, PemMaterial.package_of_blank_key hp hleaf hblank, rfl⟩
  | false =>
    refine ⟨.certificate (.blockType first.tag), ?_, fun _ => .inr ⟨_, rfl, by simp⟩, fun hyes => ?_⟩
    · rw [packaged, hload]
      exact mapError_eq_error.mpr ⟨_, PemMaterial.package_of_rejects hp hleaf hblank (h.rejects_first hblocks), rfl⟩
    · exact absurd (htaken.mpr hyes) (by simp [hblank])

/-- A certificate file without a certificate makes no bundle. The error is that there is no certificate, unless the only
key was taken for it: then it is that there is no key. -/
theorem packaged_without_certificate (h : WithoutCertificate s t text) (hp : password ≠ "") (seeds : Keystore.Seeds) :
    ∃ e, s.packaged t seeds password = .error (.bundle e) ∧ (¬ KeyTaken s text → MissesCertificate e) ∧
      (KeyTaken s text → e = .missingMaterial .privateKey) := by
  cases hblocks : Pem.blocks text with
  | error e =>
    have htaken : ¬ KeyTaken s text := by
      rintro ⟨-, first, others, hcomprises, -⟩
      rw [Pem.blocks_eq_ok.mpr hcomprises] at hblocks
      cases hblocks
    refine ⟨.certificate (.file s.certificate e), ?_, fun _ => .inr ⟨_, rfl, by simp⟩,
      fun hyes => absurd hyes htaken⟩
    refine bind_eq_error.mpr (.inl ?_)
    rw [load_eq]
    exact bind_eq_error.mpr (.inr ⟨text, readText_eq_ok.mpr h.file,
      bind_eq_error.mpr (.inl (mapError_eq_error.mpr ⟨e, hblocks, rfl⟩))⟩)
  | ok ps =>
    cases ps with
    | nil =>
      obtain ⟨e, herror, hmisses⟩ := h.packaged_of_no_block hp seeds (Pem.blocks_eq_ok.mp hblocks)
      refine ⟨e, herror, fun _ => hmisses, ?_⟩
      rintro ⟨-, first, others, hcomprises, -⟩
      rw [Pem.blocks_eq_ok.mpr hcomprises] at hblocks
      cases hblocks
    | cons first others => exact h.packaged_of_first hp seeds (Pem.blocks_eq_ok.mp hblocks)

/-! ## Files of keys -/

/-- A file of keys stands for the certificate file. -/
theorem TwoWays.withoutCertificate {a b c front back : String} {ps qs : List Pem} (h : TwoWays t a b c front back ps qs) :
    WithoutCertificate { certificate := b } t back where
  file := h.keys
  no_certificate rs hrs := h.back_blocks.unique hrs ▸ h.back_tags
  keyFile path hpath := by cases hpath
  keyBlock _ rs hrs := h.back_blocks.unique hrs ▸ h.key
  chainFile path hpath := by cases hpath

/-- The key is still there behind the parameters, which are taken for the certificate. -/
theorem packaged_parameters : ∃ e,
    packaged { certificate := "b" } (keyFiles [parametersBlock, curveKeyBlock]) Bundle.sampleSeeds "pw" =
      .error (.bundle e) ∧ MissesCertificate e := by
  have hplain : ∀ p ∈ [parametersBlock, curveKeyBlock], p.Plain := by simp [plain_curveBlocks]
  have htags : ∀ p ∈ [parametersBlock, curveKeyBlock], isCertificate p = false :=
    List.forall_mem_cons.mpr ⟨rfl, List.forall_mem_singleton.mpr rfl⟩
  have h := twoWays_keyFiles hplain htags ⟨curveKeyBlock, by simp, rfl⟩
  obtain ⟨e, herror, hmisses, -⟩ := packaged_without_certificate h.withoutCertificate (show "pw" ≠ "" by decide)
    Bundle.sampleSeeds
  refine ⟨e, herror, hmisses ?_⟩
  rintro ⟨-, first, others, hblocks, hnone⟩
  obtain ⟨rfl, rfl⟩ := List.cons.inj (h.back_blocks.unique hblocks)
  exact absurd (hnone curveKeyBlock List.mem_cons_self) (by decide)

/-- Of a file with nothing but a key it is said that the key is missing. -/
theorem lone_key_taken : ∃ text,
    WithoutCertificate { certificate := "b" } (keyFiles [sampleKeyBlock]) text ∧
      (∀ seeds, packaged { certificate := "b" } (keyFiles [sampleKeyBlock]) seeds "pw" =
        .error (.bundle (.missingMaterial .privateKey))) ∧
      ¬ MissesCertificate (.missingMaterial .privateKey) := by
  have hplain : ∀ p ∈ [sampleKeyBlock], p.Plain := by simp [plain_sampleKeyBlock]
  have h := twoWays_keyFiles hplain (List.forall_mem_singleton.mpr rfl) ⟨sampleKeyBlock, by simp, rfl⟩
  refine ⟨_, h.withoutCertificate, fun seeds => ?_, by simp [MissesCertificate]⟩
  obtain ⟨e, herror, -, htaken⟩ := h.withoutCertificate.packaged_of_first (show "pw" ≠ "" by decide) seeds h.back_blocks
  rw [herror, htaken ⟨rfl, _, _, h.back_blocks, List.forall_mem_nil _⟩]

end PemSource
end CertRotation
