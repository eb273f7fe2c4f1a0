import CertRotation.Bundle.Source
import CertRotation.Proofs.Bundle.Packaging
import CertRotation.Proofs.Files.Places
import CertRotation.Proofs.Pem.WholeFiles

/-!
# From PEM files to a bundle

Every certificate block of the certificate file and every block of the chain file is taken over into the bundle, in the
order of the files. The material in between is text again, but it is text that is read as the blocks it was written from.
-/
namespace CertRotation

/-! ## Certificates in written blocks -/

theorem Certificate.ofPem_eq_ok {text : String} {der : Bytes} :
    Certificate.ofPem text = .ok der ↔ ∃ p, Pem.parse text = .ok p ∧ PemSource.isCertificate p = true ∧
      (Certificate.parse p.contents).isOk = true ∧ der = p.contents := by
  unfold Certificate.ofPem
  constructor
  · intro h
    obtain ⟨p, hp, h⟩ := bind_eq_ok.mp h
    obtain ⟨htag, h⟩ := guard_eq_ok.mp h
    obtain ⟨c, hc, h⟩ := bind_eq_ok.mp h
    exact ⟨p, mapError_eq_ok.mp hp, by simpa [PemSource.isCertificate] using htag, by rw [mapError_eq_ok.mp hc]; rfl,
      (Except.ok.inj h).symm⟩
  · rintro ⟨p, hp, htag, hparse, rfl⟩
    obtain ⟨c, hc⟩ : ∃ c, Certificate.parse p.contents = .ok c := by
      cases hc : Certificate.parse p.contents with
      | error e => rw [hc] at hparse; cases hparse
      | ok c => exact ⟨c, rfl⟩
    refine bind_eq_ok.mpr ⟨p, mapError_eq_ok.mpr hp, guard_eq_ok.mpr ⟨?_, bind_eq_ok.mpr ⟨c, mapError_eq_ok.mpr hc, rfl⟩⟩⟩
    simpa [PemSource.isCertificate] using htag

/-- Of a block that can be read back, the certificate is the contents. -/
theorem Certificate.ofPem_encode_eq_ok {p : Pem} {der : Bytes} (hp : p.Legible) (h : ofPem p.encode = .ok der) :
    PemSource.isCertificate p = true ∧ der = p.contents := by
  obtain ⟨q, hq, htag, -, rfl⟩ := Certificate.ofPem_eq_ok.mp h
  rw [Pem.parse_encode_of_legible hp] at hq
  obtain rfl := Except.ok.inj hq
  exact ⟨htag, rfl⟩

theorem PemMaterial.decodeChainFrom_eq_ok {index : Nat} {chain : List String} {ders : List Bytes} :
    decodeChainFrom index chain = .ok ders ↔ List.Forall₂ (fun text der => Certificate.ofPem text = .ok der) chain ders := by
  induction chain generalizing index ders with
  | nil => cases ders <;> simp [decodeChainFrom]
  | cons text chain ih =>
    rw [decodeChainFrom]
    constructor
    · intro h
      obtain ⟨der, hder, h⟩ := bind_eq_ok.mp h
      obtain ⟨rest, hrest, h⟩ := bind_eq_ok.mp h
      obtain rfl := Except.ok.inj h
      exact .cons (mapError_eq_ok.mp hder) (ih.mp hrest)
    · rintro (_ | ⟨hder, hrest⟩)
      exact bind_eq_ok.mpr ⟨_, mapError_eq_ok.mpr hder, bind_eq_ok.mpr ⟨_, ih.mpr hrest, rfl⟩⟩

/-- A chain of blocks that can be read back stands for their contents. -/
theorem contents_of_decodeChain {ps : List Pem} {ders : List Bytes} (hps : ∀ p ∈ ps, p.Legible)
    (h : List.Forall₂ (fun text der => Certificate.ofPem text = .ok der) (ps.map Pem.encode) ders) :
    (∀ p ∈ ps, PemSource.isCertificate p = true) ∧ ders = ps.map (·.contents) := by
  rw [List.forall₂_map_left_iff] at h
  induction h with
  | nil => exact ⟨by simp, rfl⟩
  | @cons p der ps ders hp _ ih =>
    obtain ⟨htag, rfl⟩ := Certificate.ofPem_encode_eq_ok (hps p List.mem_cons_self) hp
    obtain ⟨htags, rfl⟩ := ih fun q hq => hps q (List.mem_cons_of_mem _ hq)
    exact ⟨List.forall_mem_cons.mpr ⟨htag, htags⟩, rfl⟩

namespace PemSource
variable {s : PemSource} {t : FileTree} {m : PemMaterial} {password : String}

/-! ## The files -/

theorem readText_eq_ok {path text : String} : readText t path = .ok text ↔ t.readText path = .ok text := by
  rw [readText, mapError_eq_ok, Files.about, mapError_eq_ok]

/-- The blocks of the chain file, if there is one. Text in it that is not blank holds at least one. -/
def FurtherBlocks (s : PemSource) (t : FileTree) (further : List Pem) : Prop :=
  match s.chain with
  | none => further = []
  | some path => ∃ text, t.readText path = .ok text ∧ Pem.Comprises text further ∧
      (Text.isBlankText text = false → further ≠ [])

/-- The material consists of these blocks: the leaf and the issuers are the certificates of the certificate file, the
others are the blocks of the chain file. -/
structure TakenFrom (s : PemSource) (t : FileTree) (m : PemMaterial) (blocks : List Pem) (leaf : Pem)
    (issuers further : List Pem) : Prop where
  file : ∃ text, t.readText s.certificate = .ok text ∧ Pem.Comprises text blocks
  certificates : blocks.filter isCertificate = leaf :: issuers
  furtherFile : s.FurtherBlocks t further
  certificate : m.certificate = leaf.encode
  chain : m.chain = (issuers ++ further).map Pem.encode

theorem TakenFrom.legible {blocks issuers further : List Pem} {leaf : Pem}
    (h : TakenFrom s t m blocks leaf issuers further) : ∀ p ∈ blocks ++ further, p.Legible := by
  obtain ⟨text, -, hblocks⟩ := h.file
  have hfurther := h.furtherFile
  unfold FurtherBlocks at hfurther
  intro p hp
  rcases List.mem_append.mp hp with hp | hp
  · exact hblocks.legible p hp
  · split at hfurther
    · simp [hfurther] at hp
    · obtain ⟨_, -, hfurther, -⟩ := hfurther
      exact hfurther.legible p hp

theorem TakenFrom.legible_chain {blocks issuers further : List Pem} {leaf : Pem}
    (h : TakenFrom s t m blocks leaf issuers further) : ∀ p ∈ issuers ++ further, p.Legible := by
  intro p hp
  refine h.legible p ?_
  rcases List.mem_append.mp hp with hp | hp
  · have hmem : p ∈ blocks.filter isCertificate := h.certificates ▸ List.mem_cons_of_mem leaf hp
    exact List.mem_append_left _ (List.mem_filter.mp hmem).1
  · exact List.mem_append_right _ hp

/-- The key in a file of its own or among the blocks. -/
def keyText (s : PemSource) (t : FileTree) (others : List Pem) : Except LoadError String :=
  match s.privateKey with
  | some path => readText t path
  | none => .ok (((others.find? isPrivateKey).map Pem.encode).getD "")

/-- The entries from the chain file, if there is one. -/
def furtherEntries (s : PemSource) (t : FileTree) (count : Nat) : Except LoadError (List String) :=
  match s.chain with
  | some path => loadChain t count path
  | none => .ok []

/-- The certificate file is read first, then the key, then the chain file. -/
theorem load_eq (s : PemSource) (t : FileTree) : s.load t = (do
    let text ← readText t s.certificate
    let blocks ← (Pem.blocks text).mapError fun e => .bundle (.certificate (.file s.certificate e))
    let issuers := ((splitLeaf text blocks).2.filter isCertificate).map Pem.encode
    let key ← s.keyText t (splitLeaf text blocks).2
    let further ← s.furtherEntries t issuers.length
    pure ⟨(splitLeaf text blocks).1, key, issuers ++ further, s.keyPassword⟩) := by
  unfold load keyText furtherEntries
  cases s.privateKey <;> cases s.chain <;> rfl

def paths (s : PemSource) : List String := s.certificate :: (s.privateKey.toList ++ s.chain.toList)

/-- Where the files can be read as they were, the material is the same. -/
theorem load_congr {t' : FileTree}
    (hpaths : ∀ path ∈ s.paths, ∀ text, t.readText path = .ok text → t'.readText path = .ok text)
    (h : s.load t = .ok m) : s.load t' = .ok m := by
  have hread : ∀ path ∈ s.paths, ∀ text, readText t path = .ok text → readText t' path = .ok text := fun path hp text h =>
    readText_eq_ok.mpr (hpaths path hp text (readText_eq_ok.mp h))
  rw [load_eq] at h ⊢
  obtain ⟨text, htext, h⟩ := bind_eq_ok.mp h
  obtain ⟨blocks, hblocks, h⟩ := bind_eq_ok.mp h
  obtain ⟨key, hkey, h⟩ := bind_eq_ok.mp h
  obtain ⟨further, hfurther, h⟩ := bind_eq_ok.mp h
  refine bind_eq_ok.mpr ⟨text, hread _ (by simp [paths]) text htext, bind_eq_ok.mpr ⟨blocks, hblocks,
    bind_eq_ok.mpr ⟨key, ?_, bind_eq_ok.mpr ⟨further, ?_, h⟩⟩⟩⟩
  · unfold keyText at hkey ⊢
    cases hkeyPath : s.privateKey with
    | none => simpa [hkeyPath] using hkey
    | some path =>
      simp only [hkeyPath] at hkey ⊢
      exact hread path (by simp [paths, hkeyPath]) key hkey
  · unfold furtherEntries at hfurther ⊢
    cases hchain : s.chain with
    | none => simpa [hchain] using hfurther
    | some path =>
      simp only [hchain] at hfurther ⊢
      obtain ⟨chainText, hchainText, hentries⟩ := bind_eq_ok.mp hfurther
      exact bind_eq_ok.mpr ⟨chainText, hread path (by simp [paths, hchain]) chainText hchainText, hentries⟩

theorem load_eq_ok (h : s.load t = .ok m) : ∃ text blocks further, t.readText s.certificate = .ok text ∧
    Pem.Comprises text blocks ∧ m.certificate = (splitLeaf text blocks).1 ∧
    m.chain = ((splitLeaf text blocks).2.filter isCertificate).map Pem.encode ++ further ∧
    match s.chain with
    | none => further = []
    | some path => ∃ chainText ps, t.readText path = .ok chainText ∧ Pem.Comprises chainText ps ∧
        further = chainEntries chainText ps := by
  rw [load_eq] at h
  obtain ⟨text, htext, h⟩ := bind_eq_ok.mp h
  obtain ⟨blocks, hblocks, h⟩ := bind_eq_ok.mp h
  obtain ⟨key, -, h⟩ := bind_eq_ok.mp h
  obtain ⟨further, hfurther, h⟩ := bind_eq_ok.mp h
  obtain rfl := Except.ok.inj h
  refine ⟨text, blocks, further, readText_eq_ok.mp htext, Pem.blocks_eq_ok.mp (mapError_eq_ok.mp hblocks), rfl, rfl, ?_⟩
  unfold furtherEntries at hfurther
  cases hchain : s.chain with
  | none =>
    rw [hchain] at hfurther
    exact (Except.ok.inj hfurther).symm
  | some path =>
    rw [hchain] at hfurther
    obtain ⟨chainText, hread, hfurther⟩ := bind_eq_ok.mp hfurther
    obtain ⟨ps, hps, hfurther⟩ := bind_eq_ok.mp hfurther
    exact ⟨chainText, ps, readText_eq_ok.mp hread, Pem.blocks_eq_ok.mp (mapError_eq_ok.mp hps),
      (Except.ok.inj hfurther).symm⟩

/-- The leaf is the first certificate if it is a certificate at all. -/
theorem splitLeaf_of_ofPem {text : String} {blocks : List Pem} {der : Bytes} (hblocks : Pem.Comprises text blocks)
    (h : Certificate.ofPem (splitLeaf text blocks).1 = .ok der) : ∃ leaf,
      blocks.filter isCertificate = leaf :: (splitLeaf text blocks).2.filter isCertificate ∧
        (splitLeaf text blocks).1 = leaf.encode ∧ der = leaf.contents := by
  unfold splitLeaf at h ⊢
  cases hfind : blocks.findIdx? isCertificate with
  | some i =>
    obtain ⟨hi, htag, hbefore⟩ := List.findIdx?_eq_some_iff_getElem.mp hfind
    simp only [hfind, Option.getD_some, List.getElem?_eq_getElem hi] at h ⊢
    refine ⟨blocks[i], ?_, rfl, (Certificate.ofPem_encode_eq_ok (hblocks.legible _ (List.getElem_mem hi)) h).2⟩
    have hnone : (blocks.take i).filter isCertificate = [] := by
      rw [List.filter_eq_nil_iff]
      intro p hp
      obtain ⟨j, hj, rfl⟩ := List.mem_take_iff_getElem.mp hp
      exact hbefore j (by omega)
    have hsplit : blocks = blocks.take i ++ blocks[i] :: blocks.drop (i + 1) := by simp
    rw [List.eraseIdx_eq_take_drop_succ, List.filter_append, hnone, List.nil_append]
    conv_lhs => rw [hsplit, List.filter_append, hnone, List.nil_append, List.filter_cons_of_pos htag]
  | none =>
    -- without a certificate the first block stands for it, or the whole text, and neither is accepted
    exfalso
    simp only [hfind, Option.getD_none] at h
    cases blocks with
    | nil =>
      obtain ⟨p, hp, -⟩ := Certificate.ofPem_eq_ok.mp h
      have hwhole : Pem.parse text = .ok p := hp
      rw [Pem.parse_of_comprises_nil hblocks] at hwhole
      cases hwhole
    | cons first rest =>
      obtain ⟨htag, -⟩ := Certificate.ofPem_encode_eq_ok (hblocks.legible first List.mem_cons_self) h
      have := List.findIdx?_eq_none_iff.mp hfind first List.mem_cons_self
      simp [htag] at this

/-- The entries from the chain file are its blocks if they are certificates at all. -/
theorem chainEntries_of_ofPem {text : String} {ps : List Pem} {ders : List Bytes} (hps : Pem.Comprises text ps)
    (h : List.Forall₂ (fun text der => Certificate.ofPem text = .ok der) (chainEntries text ps) ders) :
    chainEntries text ps = ps.map Pem.encode ∧ (Text.isBlankText text = false → ps ≠ []) := by
  unfold chainEntries at h ⊢
  by_cases hno : ps = [] ∧ ¬ Text.isBlankText text = true
  · rw [if_pos hno] at h
    obtain ⟨hnil, -⟩ := hno
    obtain _ | ⟨hfirst, -⟩ := h
    obtain ⟨p, hp, -⟩ := Certificate.ofPem_eq_ok.mp hfirst
    rw [Pem.parse_of_comprises_nil (hnil ▸ hps)] at hp
    cases hp
  · rw [if_neg hno]
    exact ⟨rfl, fun hblank hnil => hno ⟨hnil, by simp [hblank]⟩⟩

/-- Material that makes a bundle is taken over from the files block by block. -/
theorem exists_takenFrom {b : Bundle} (hload : s.load t = .ok m) (hb : m.toBundle password = .ok b) :
    ∃ blocks leaf issuers further, s.TakenFrom t m blocks leaf issuers further ∧
      (∀ p ∈ further, isCertificate p = true) ∧ b.certificate = leaf.contents ∧
      b.chain = (issuers ++ further).map (·.contents) := by
  obtain ⟨text, blocks, entries, hread, hblocks, hcertificate, hchain, hentries⟩ := load_eq_ok hload
  obtain ⟨-, hleaf, hders, -⟩ := Bundle.toBundle_eq_ok hb
  rw [PemMaterial.decodeChain, PemMaterial.decodeChainFrom_eq_ok] at hders
  rw [hcertificate] at hleaf
  obtain ⟨leaf, hfilter, hencode, hcontents⟩ := splitLeaf_of_ofPem hblocks hleaf
  obtain ⟨further, hfurther, rfl⟩ : ∃ further, s.FurtherBlocks t further ∧ entries = further.map Pem.encode := by
    unfold FurtherBlocks
    split at hentries
    · exact ⟨[], rfl, hentries⟩
    · obtain ⟨chainText, ps, hread, hps, rfl⟩ := hentries
      rw [hchain] at hders
      obtain ⟨hsame, hblank⟩ := chainEntries_of_ofPem hps (List.forall₂_drop_append _ _ _ hders.flip).flip
      exact ⟨ps, ⟨chainText, hread, hps, hblank⟩, hsame⟩
  rw [← List.map_append] at hchain
  have htaken : s.TakenFrom t m blocks leaf _ further :=
    ⟨⟨text, hread, hblocks⟩, hfilter, hfurther, hcertificate.trans hencode, hchain⟩
  rw [hchain] at hders
  obtain ⟨htags, hall⟩ := contents_of_decodeChain htaken.legible_chain hders
  exact ⟨blocks, leaf, _, further, htaken, fun p hp => htags p (List.mem_append_right _ hp), hcontents, hall⟩

/-- From the files to the bundle that is encoded nothing is dropped, moved or altered: the leaf is the first certificate
block of the certificate file, its issuers are the others in the order of the file, and after them comes every block of
the chain file. Each of these blocks is read again as it was, but for the blanks around its headers. -/
theorem package_of_load {seeds : Keystore.Seeds} {data : Bytes} (hload : s.load t = .ok m)
    (hpackage : m.package seeds password = .ok data) :
    ∃ blocks leaf issuers further b, s.TakenFrom t m blocks leaf issuers further ∧
      (∀ p ∈ further, isCertificate p = true) ∧ m.toBundle password = .ok b ∧ b.encode seeds password = .ok data ∧
      b.certificate = leaf.contents ∧ b.chain = (issuers ++ further).map (·.contents) ∧
      ∀ p ∈ blocks ++ further, Pem.parse p.encode = .ok { p with headers := p.headers.map Text.trim } := by
  obtain ⟨b, hb, hencode⟩ := bind_eq_ok.mp hpackage
  obtain ⟨blocks, leaf, issuers, further, htaken, htags, hleaf, hchain⟩ := exists_takenFrom hload hb
  exact ⟨blocks, leaf, issuers, further, b, htaken, htags, hb, hencode, hleaf, hchain,
    fun p hp => Pem.parse_encode_of_legible (htaken.legible p hp)⟩

/-! ## Sample files -/

def sampleBlock (serial : Nat) : Pem := ⟨"CERTIFICATE", [], Bundle.sampleCertificate serial⟩

def sampleKeyBlock : Pem := ⟨"RSA PRIVATE KEY", [], Bundle.sampleKey.encode?.getD []⟩

theorem plain_sampleBlock (serial : Nat) : (sampleBlock serial).Plain :=
  ⟨rfl, show "CERTIFICATE" ≠ "" by decide, show '-' ∉ "CERTIFICATE".toList by decide,
    ascii_of_all (show ("CERTIFICATE".toList.all fun c => c.toNat < 128) = true by decide)⟩

theorem plain_sampleKeyBlock : sampleKeyBlock.Plain := ⟨rfl, by decide, by decide, ascii_of_all (by decide)⟩

/-- A file in the root that holds text in ASCII. -/
theorem readText_ascii {path : String} {cs : List Char} {mode : Nat} (h : FileTree.SingleName path)
    (hw : t.working = []) (hn : t.node? [path] = some (.file (Bytes.ofString (String.ofList cs)) mode))
    (hcs : ∀ c ∈ cs, c.toNat < 128) : t.readText path = .ok (String.ofList cs) :=
  h.readText hw hn (Utf8.decode?_ofString (by rwa [String.toList_ofList]))

/-- The certificate and its key in one file, an issuer in another. -/
def sampleFiles : FileTree :=
  ⟨[(["a"], .file (Bytes.ofString (String.ofList (Pem.written [sampleBlock 1, sampleKeyBlock]))) 0),
    (["b"], .file (Bytes.ofString (String.ofList (Pem.written [sampleBlock 2]))) 0)], []⟩

theorem singleName_sample : FileTree.SingleName "a" ∧ FileTree.SingleName "b" := by decide

/-- The same files in the root of any tree make the same material. -/
theorem load_of_sampleFiles {t : FileTree} (hw : t.working = []) (ha : t.node? ["a"] = sampleFiles.node? ["a"])
    (hb : t.node? ["b"] = sampleFiles.node? ["b"]) :
    load { certificate := "a", chain := some "b" } t = .ok Bundle.sample := by
  have hfirst : ∀ p ∈ [sampleBlock 1, sampleKeyBlock], p.Plain := by simp [plain_sampleBlock, plain_sampleKeyBlock]
  have hsecond : ∀ p ∈ [sampleBlock 2], p.Plain := by simp [plain_sampleBlock]
  have hread := readText_ascii singleName_sample.1 hw ha (Pem.ascii_written hfirst)
  have hreadChain := readText_ascii singleName_sample.2 hw hb (Pem.ascii_written hsecond)
  rw [load_eq]
  exact bind_eq_ok.mpr ⟨_, readText_eq_ok.mpr hread, bind_eq_ok.mpr ⟨_, mapError_eq_ok.mpr (Pem.blocks_written hfirst),
    bind_eq_ok.mpr ⟨_, rfl, bind_eq_ok.mpr ⟨_, bind_eq_ok.mpr ⟨_, readText_eq_ok.mpr hreadChain, bind_eq_ok.mpr
      ⟨_, mapError_eq_ok.mpr (Pem.blocks_written hsecond), rfl⟩⟩, rfl⟩⟩⟩⟩

theorem package_of_load_sample : ∃ data blocks leaf issuers further, ∃ b : Bundle,
    Bundle.sample.package Bundle.sampleSeeds "password" = .ok data ∧
      TakenFrom { certificate := "a", chain := some "b" } sampleFiles Bundle.sample blocks leaf issuers further ∧
      b.encode Bundle.sampleSeeds "password" = .ok data ∧ b.chain = (issuers ++ further).map (·.contents) := by
  obtain ⟨data, hdata⟩ := Bundle.exists_package_sample
  obtain ⟨blocks, leaf, issuers, further, b, htaken, -, -, hencode, -, hchain, -⟩ :=
    package_of_load (load_of_sampleFiles rfl rfl rfl) hdata
  exact ⟨data, blocks, leaf, issuers, further, b, hdata, htaken, hencode, hchain⟩

end PemSource
end CertRotation
