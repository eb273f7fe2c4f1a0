import CertRotation.Proofs.Bundle.Sources

/-!
# Files that are cut off

A file of certificate blocks that ends within a block is refused, unless it ends within the BEGIN marker of a block that
is not the first. Such a file cannot be told from one that ends before the marker, and the bundle made from it holds the
certificates of the whole blocks only.
-/
namespace CertRotation.PemSource

/-- The text ends within a block: it holds the whole blocks `ps` and the first `n` characters of `p`, of which at least
the last dash is missing. -/
structure CutOff (text : String) (ps : List Pem) (p : Pem) (n : Nat) : Prop where
  text_eq : text = String.ofList (Pem.written ps ++ p.encode.toList.take n)
  certificates : ∀ q ∈ p :: ps, q.Legible ∧ isCertificate q = true
  begun : 1 ≤ n
  unfinished : n + 2 < p.encode.toList.length

section
variable {s : PemSource} {t : FileTree} {m : PemMaterial} {text path password : String} {ps : List Pem} {p : Pem} {n : Nat}

theorem isCertificate_reread (h : ∀ q ∈ ps, isCertificate q = true) : ∀ q ∈ Pem.reread ps, isCertificate q = true := by
  intro q hq
  obtain ⟨p, hp, rfl⟩ := List.mem_map.mp hq
  exact h p hp

theorem CutOff.isBlankText (h : CutOff text ps p n) : Text.isBlankText text = false := by
  have hdash : '-' ∈ Pem.written ps ++ p.encode.toList.take n := by
    obtain ⟨front, hfront⟩ := Pem.exists_encode_eq p
    obtain ⟨k, rfl⟩ := Nat.exists_eq_add_of_le' h.begun
    rw [hfront, show Pem.beginMarker = '-' :: Pem.beginMarker.tail from rfl]
    simp
  rw [Text.isBlankText, h.text_eq, String.toList_ofList, List.all_eq_false]
  exact ⟨'-', hdash, by decide⟩

/-- What is read of a text that is cut off are the whole blocks, and the cut is within the marker. -/
theorem CutOff.of_comprises {blocks : List Pem} (h : CutOff text ps p n) (hblocks : Pem.Comprises text blocks) :
    n < Pem.beginMarker.length ∧ blocks = Pem.reread ps := by
  have hread := Pem.blocks_eq_ok.mpr hblocks
  rw [h.text_eq] at hread
  exact Pem.blocks_cut_eq_ok (fun q hq => (h.certificates q (List.mem_cons_of_mem _ hq)).1)
    (h.certificates p List.mem_cons_self).1 h.unfinished hread

/-- A certificate file that is cut off behind a marker is refused by name. -/
theorem CutOff.load_eq_error (h : CutOff text ps p n) (hread : t.readText s.certificate = .ok text)
    (hn : Pem.beginMarker.length ≤ n) : ∃ markers > ps.length,
      s.load t = .error (.bundle (.certificate (.file s.certificate (.truncated markers ps.length)))) := by
  obtain ⟨markers, hmarkers, hblocks⟩ := Pem.blocks_cut_of_le
    (fun q hq => (h.certificates q (List.mem_cons_of_mem _ hq)).1) (h.certificates p List.mem_cons_self).1 h.unfinished hn
  refine ⟨markers, hmarkers, ?_⟩
  rw [← h.text_eq] at hblocks
  simp only [load_eq, readText_eq_ok.mpr hread, bind, Except.bind, hblocks, Except.mapError]

/-- Material from a file that is cut off makes a bundle only if the cut is within the marker of a later block. The bundle
then holds the certificates of the whole blocks. -/
theorem package_of_cutOff {seeds : Keystore.Seeds} {data : Bytes} (h : CutOff text ps p n) (hload : s.load t = .ok m)
    (hpackage : m.package seeds password = .ok data) :
    ∃ blocks leaf issuers further b, s.TakenFrom t m blocks leaf issuers further ∧ m.toBundle password = .ok b ∧
      b.encode seeds password = .ok data ∧ b.certificate :: b.chain = (leaf :: issuers ++ further).map (·.contents) ∧
      (t.readText s.certificate = .ok text → n < Pem.beginMarker.length ∧ ps ≠ [] ∧ leaf :: issuers = Pem.reread ps) ∧
      ∀ path, s.chain = some path → t.readText path = .ok text →
        n < Pem.beginMarker.length ∧ ps ≠ [] ∧ further = Pem.reread ps := by
  obtain ⟨b, hb, hencode⟩ := bind_eq_ok.mp hpackage
  obtain ⟨blocks, leaf, issuers, further, htaken, -, hleaf, hchain⟩ := exists_takenFrom hload hb
  refine ⟨blocks, leaf, issuers, further, b, htaken, hb, hencode, by rw [hleaf, hchain]; rfl, ?_, ?_⟩
  · intro hread
    obtain ⟨text', hread', hblocks⟩ := htaken.file
    obtain rfl := Except.ok.inj (hread.symm.trans hread')
    obtain ⟨hn, rfl⟩ := h.of_comprises hblocks
    have hall : (Pem.reread ps).filter isCertificate = Pem.reread ps :=
      List.filter_eq_self.mpr (isCertificate_reread fun q hq => (h.certificates q (List.mem_cons_of_mem _ hq)).2)
    have hsame : leaf :: issuers = Pem.reread ps := htaken.certificates.symm.trans hall
    refine ⟨hn, ?_, hsame⟩
    rintro rfl
    cases hsame
  · intro path hpath hread
    have hfurther := htaken.furtherFile
    rw [FurtherBlocks, hpath] at hfurther
    obtain ⟨text', hread', hblocks, hne⟩ := hfurther
    obtain rfl := Except.ok.inj (hread.symm.trans hread')
    obtain ⟨hn, rfl⟩ := h.of_comprises hblocks
    refine ⟨hn, ?_, rfl⟩
    rintro rfl
    exact hne h.isBlankText rfl

end

/-! ## A cut that goes unnoticed -/

/-- A certificate file of two blocks that ends within the marker of the second, and the key. -/
def cutFiles : FileTree :=
  ⟨[(["a"], .file (Bytes.ofString (String.ofList (Pem.written [sampleBlock 1] ++ (sampleBlock 2).encode.toList.take 10))) 0),
    (["b"], .file (Bytes.ofString (String.ofList (Pem.written [sampleKeyBlock]))) 0)], []⟩

theorem cutOff_sample : CutOff (String.ofList (Pem.written [sampleBlock 1] ++ (sampleBlock 2).encode.toList.take 10))
    [sampleBlock 1] (sampleBlock 2) 10 where
  text_eq := rfl
  certificates := by
    intro q hq
    simp only [List.mem_cons, List.not_mem_nil, or_false] at hq
    rcases hq with rfl | rfl <;> exact ⟨(plain_sampleBlock _).legible, by decide⟩
  begun := by decide
  unfinished := by
    obtain ⟨front, hfront⟩ := Pem.exists_encode_eq (sampleBlock 2)
    have hmarker : Pem.beginMarker.length = 11 := by decide
    simp only [hfront, List.length_append, hmarker, List.length_cons, List.length_nil]
    omega

/-- What is left of the material, without its chain. -/
def cutMaterial : PemMaterial := { Bundle.sample with chain := [] }

theorem readText_cutFiles : cutFiles.readText "a" =
    .ok (String.ofList (Pem.written [sampleBlock 1] ++ (sampleBlock 2).encode.toList.take 10)) := by
  have hwhole : ∀ p ∈ [sampleBlock 1], p.Plain := by simp [plain_sampleBlock]
  refine readText_ascii singleName_sample.1 rfl rfl fun c hc => ?_
  rcases List.mem_append.mp hc with hc | hc
  · exact Pem.ascii_written hwhole c hc
  · exact (plain_sampleBlock 2).ascii_encode c (List.mem_of_mem_take hc)

theorem load_cutFiles : load { certificate := "a", privateKey := some "b" } cutFiles = .ok cutMaterial := by
  have hcertificates : ∀ p ∈ [sampleBlock 1], p.Plain := by simp [plain_sampleBlock]
  have hkey : ∀ p ∈ [sampleKeyBlock], p.Plain := by simp [plain_sampleKeyBlock]
  have hblocks : Pem.blocks (String.ofList (Pem.written [sampleBlock 1] ++ (sampleBlock 2).encode.toList.take 10)) =
      .ok [sampleBlock 1] := by
    rw [Pem.blocks_cut_of_lt (fun p hp => (hcertificates p hp).legible) (plain_sampleBlock 2).legible
      cutOff_sample.unfinished (by decide), Pem.blocks_written hcertificates]
  have hreadKey := readText_ascii (t := cutFiles) singleName_sample.2 rfl rfl (Pem.ascii_written hkey)
  have hkeyText : String.ofList (Pem.written [sampleKeyBlock]) = Bundle.sample.privateKey := by
    rw [Pem.written, List.flatMap_singleton, String.ofList_toList]
    rfl
  rw [hkeyText] at hreadKey
  rw [load_eq]
  exact bind_eq_ok.mpr ⟨_, readText_eq_ok.mpr readText_cutFiles, bind_eq_ok.mpr ⟨_, mapError_eq_ok.mpr hblocks,
    bind_eq_ok.mpr ⟨_, readText_eq_ok.mpr hreadKey, rfl⟩⟩⟩

theorem toBundle_cutMaterial :
    cutMaterial.toBundle "password" = .ok ⟨Bundle.sampleBundle.privateKey, Bundle.sampleCertificate 1, []⟩ := by
  have hc : Text.isBlankText cutMaterial.certificate = false :=
    Pem.isBlankText_encode "CERTIFICATE" (Bundle.sampleCertificate 1)
  have hk : Text.isBlankText cutMaterial.privateKey = false :=
    Pem.isBlankText_encode "RSA PRIVATE KEY" (Bundle.sampleKey.encode?.getD [])
  exact Bundle.toBundle_of_sound (by decide) hc hk Bundle.ofPem_samplePem.1 rfl Bundle.parseKey_sample
    Bundle.sampleCertificate_sound.2.2.1

theorem exists_package_cutMaterial : ∃ data, cutMaterial.package Bundle.sampleSeeds "password" = .ok data := by
  have hstored : [Bundle.sampleCertificate 1].mapM (fun der => Keystore.StoredCertificate.ofDer? der {}) =
      some [⟨Bundle.sampleCertificate 1, "", "", {}⟩] := mapM_eq_some.mpr (.cons Bundle.ofDer?_leaf .nil)
  obtain ⟨-, -, -, hleaf, -, hkey⟩ := Bundle.sampleCertificate_sound
  obtain ⟨data, hdata⟩ := Bundle.exists_encode_small
    (b := ⟨Bundle.sampleBundle.privateKey, Bundle.sampleCertificate 1, []⟩) hstored (by decide)
    (Bundle.room_one hleaf (by decide)) hkey
  exact ⟨data, bind_eq_ok.mpr ⟨_, toBundle_cutMaterial, hdata⟩⟩

theorem package_of_cutOff_sample : ∃ data, ∃ leaf : Pem, ∃ issuers further, ∃ b : Bundle,
    cutMaterial.package Bundle.sampleSeeds "password" = .ok data ∧ b.encode Bundle.sampleSeeds "password" = .ok data ∧
      b.certificate :: b.chain = (leaf :: issuers ++ further).map (·.contents) ∧
        leaf :: issuers = Pem.reread [sampleBlock 1] := by
  obtain ⟨data, hdata⟩ := exists_package_cutMaterial
  obtain ⟨_, leaf, issuers, further, b, -, -, hencode, hall, hcut, -⟩ :=
    package_of_cutOff cutOff_sample load_cutFiles hdata
  exact ⟨data, leaf, issuers, further, b, hdata, hencode, hall, (hcut readText_cutFiles).2.2⟩

/-- The file holds the beginning of a second certificate, but the bundle made from it holds the first alone. -/
theorem cut_unnoticed : ∃ data b, load { certificate := "a", privateKey := some "b" } cutFiles = .ok cutMaterial ∧
    cutMaterial.package Bundle.sampleSeeds "password" = .ok data ∧ cutMaterial.toBundle "password" = .ok b ∧
      (b.certificate :: b.chain).length < [sampleBlock 1, sampleBlock 2].length := by
  obtain ⟨data, hdata⟩ := exists_package_cutMaterial
  exact ⟨data, _, load_cutFiles, hdata, toBundle_cutMaterial, by decide⟩

end CertRotation.PemSource
