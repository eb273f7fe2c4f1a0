import CertRotation.Proofs.Bundle.Stages
import CertRotation.Proofs.Pem.MarkedEntries

/-!
# The number in an error about the chain

The entries of a chain are the further certificates of the certificate file and, behind them, what stands from each marker
to the next in the chain file. Packaging names the first entry that holds no certificate. Loading counts the blocks that it
has read, but a malformed block makes it forget them, so that it names the first damaged entry only if this is the first of
the chain file or if nothing behind it looks like a block.
-/
namespace CertRotation

/-! ## Numbering -/

namespace PemSource

def isCertificateEntry (entry : List Char) : Bool := (Pem.parse (String.ofList entry)).toOption.any isCertificate

/-- The certificates behind the first one, as they stand in the text. -/
def furtherCertificates (text : String) : List (List Char) := ((Pem.entries text.toList).filter isCertificateEntry).tail

/-- The entries of a chain file. Text without a marker is an entry if it is not blank. -/
def chainTexts (text : String) : List (List Char) :=
  if Pem.entries text.toList = [] ∧ ¬ Text.isBlankText text then [text.toList] else Pem.entries text.toList

/-- The entry is a certificate block that holds one certificate and nothing else. -/
def HoldsCertificate (entry : List Char) : Prop := ∃ der c, Certificate.Certifies (String.ofList entry) der c

/-- The entries of the chain from the certificate file, which can be loaded, and those from the chain file. -/
structure Numbered (s : PemSource) (t : FileTree) (front back : List (List Char)) : Prop where
  file : ∃ text ps, t.readText s.certificate = .ok text ∧ Pem.Comprises text ps ∧ front = furtherCertificates text
  chainFile : s.chain = none ∧ back = [] ∨
    ∃ path text, s.chain = some path ∧ t.readText path = .ok text ∧ back = chainTexts text

section
variable {text : String} {ps : List Pem}

theorem filter_eraseP (ps : List Pem) :
    (ps.eraseP isCertificate).filter isCertificate = (ps.filter isCertificate).tail := by
  induction ps with
  | nil => rfl
  | cons p ps ih =>
    by_cases hp : isCertificate p = true
    · rw [List.eraseP_cons_of_pos hp, List.filter_cons_of_pos hp, List.tail_cons]
    · rw [List.eraseP_cons_of_neg hp, List.filter_cons_of_neg hp, List.filter_cons_of_neg hp, ih]

/-- The issuers are the certificates but for the first. -/
theorem filter_splitLeaf (text : String) (ps : List Pem) :
    (splitLeaf text ps).2.filter isCertificate = (ps.filter isCertificate).tail := by
  rw [← filter_eraseP, List.eraseP_eq_eraseIdx]
  unfold splitLeaf
  cases hfind : ps.findIdx? isCertificate with
  | some i =>
    obtain ⟨hi, -⟩ := List.findIdx?_eq_some_iff_getElem.mp hfind
    simp [hi]
  | none =>
    -- without a certificate the first block is taken, and it is none
    have hnone : ∀ p ∈ ps, isCertificate p = false := List.findIdx?_eq_none_iff.mp hfind
    cases ps with
    | nil => rfl
    | cons p ps =>
      have hp : ¬ isCertificate p = true := by simp [hnone p List.mem_cons_self]
      exact (List.filter_cons_of_neg hp).symm

theorem isCertificateEntry_of_parse {entry : List Char} {p : Pem} (h : Pem.parse (String.ofList entry) = .ok p) :
    isCertificateEntry entry = isCertificate p := by
  rw [isCertificateEntry, h]
  rfl

/-- The entries from the certificate file stand for the issuers. -/
theorem forall₂_furtherCertificates (h : Pem.Comprises text ps) :
    List.Forall₂ (fun entry p => Pem.parse (String.ofList entry) = .ok p) (furtherCertificates text)
      ((splitLeaf text ps).2.filter isCertificate) := by
  have hfilter := List.rel_filter (p := fun e => isCertificateEntry e) (q := fun p => isCertificate p)
    (fun _ _ hp => by simp [isCertificateEntry_of_parse hp]) (Pem.entries_of_comprises h)
  rw [filter_splitLeaf, furtherCertificates, ← List.drop_one, ← List.drop_one]
  exact List.forall₂_drop 1 hfilter

theorem chainTexts_of_blocks_error {e : Pem.BlocksError} (h : Pem.blocks text = .error e) :
    chainTexts text = Pem.entries text.toList := by
  refine if_neg fun hnone => ?_
  have hcount : Pem.countOccurrences Pem.beginMarker text.toList = 0 := by rw [← Pem.length_entries, hnone.1]; rfl
  have hregions : Pem.regions text.toList = [] := by
    have hle := Pem.length_regions_add_le text.toList
    exact List.length_eq_zero_iff.mp (by omega)
  have hcomprises : Pem.Comprises text [] := ⟨⟨[], Pem.divided_iff.mpr hregions.symm, .nil⟩, hcount⟩
  rw [Pem.blocks_eq_ok.mpr hcomprises] at h
  cases h

/-! ## Loading -/

variable {s : PemSource} {t : FileTree} {m : PemMaterial} {password : String} {i : ℕ} {x : Certificate.Error}

theorem readText_ne_bundle {path : String} {e : Bundle.Error} : readText t path ≠ .error (.bundle e) := by
  intro h
  obtain ⟨f, -, hf⟩ := mapError_eq_error.mp h
  cases hf

theorem keyText_ne_bundle {others : List Pem} {e : Bundle.Error} : s.keyText t others ≠ .error (.bundle e) := by
  unfold keyText
  cases s.privateKey with
  | some path => exact readText_ne_bundle
  | none =>
    intro h
    cases h

theorem furtherEntries_chainEntry {count : ℕ} (h : s.furtherEntries t count = .error (.bundle (.chainEntry i x))) :
    ∃ path text e, s.chain = some path ∧ t.readText path = .ok text ∧ Pem.blocks text = .error e ∧
      i = count + e.complete := by
  unfold furtherEntries at h
  cases hchain : s.chain with
  | none =>
    rw [hchain] at h
    cases h
  | some path =>
    rw [hchain] at h
    obtain ⟨text, hread, hrest⟩ := (bind_eq_error.mp h).resolve_left readText_ne_bundle
    have hfails := (bind_eq_error.mp hrest).resolve_right (by rintro ⟨bs, -, hbs⟩; cases hbs)
    obtain ⟨e, herror, he⟩ := mapError_eq_error.mp hfails
    obtain ⟨hi, -⟩ : i = count + e.complete ∧ x = .file path e := by simpa using he
    exact ⟨path, text, e, rfl, readText_eq_ok.mp hread, herror, hi⟩

/-- The load fails over a chain entry only if the chain file cannot be read block by block. -/
theorem load_chainEntry (h : s.load t = .error (.bundle (.chainEntry i x))) : ∃ front chainText e,
    s.Numbered t front (chainTexts chainText) ∧ (∀ entry ∈ front, Pem.Whole entry) ∧
      Pem.blocks chainText = .error e ∧ i = front.length + e.complete := by
  rw [load_eq] at h
  obtain ⟨text, htext, h⟩ := (bind_eq_error.mp h).resolve_left readText_ne_bundle
  obtain hblocks | ⟨ps, hps, h⟩ := bind_eq_error.mp h
  · obtain ⟨e, -, he⟩ := mapError_eq_error.mp hblocks
    cases he
  obtain ⟨key, -, h⟩ := (bind_eq_error.mp h).resolve_left keyText_ne_bundle
  have hfurther := (bind_eq_error.mp h).resolve_right (by rintro ⟨entries, -, hentries⟩; cases hentries)
  obtain ⟨path, chainText, e, hchain, hread, herror, rfl⟩ := furtherEntries_chainEntry hfurther
  have hcomprises := Pem.blocks_eq_ok.mp (mapError_eq_ok.mp hps)
  have hfront := forall₂_furtherCertificates hcomprises
  refine ⟨furtherCertificates text, chainText, e, ?_, ?_, herror, by rw [List.length_map, hfront.length_eq]⟩
  · exact ⟨⟨text, ps, readText_eq_ok.mp htext, hcomprises, rfl⟩, .inr ⟨path, chainText, hchain, hread, rfl⟩⟩
  · intro entry hentry
    obtain ⟨p, -, hp⟩ := exists_of_mem_right hfront.flip hentry
    exact ⟨p, hp⟩

/-- How the number that a failed load reports lies to the entries. -/
structure LoadNumber (front : List (List Char)) (text : String) (i : ℕ) : Prop where
  /-- A malformed block makes the load forget the blocks before it. -/
  malformed : (∃ r ∈ Pem.regions text.toList, Pem.Malformed r) → i = front.length
  counted : (∀ r ∈ Pem.regions text.toList, ¬ Pem.Malformed r) → i = front.length + (Pem.regions text.toList).length
  first : Pem.Apart text.toList → ∃ j, Pem.FirstWithout Pem.Whole (front ++ chainTexts text) j ∧
    (i = j ↔ Pem.regions ((front ++ chainTexts text).drop j).flatten = [] ∨
      j = front.length ∧ ∃ r ∈ Pem.regions text.toList, Pem.Malformed r)

theorem loadNumber_of_blocks {front : List (List Char)} {e : Pem.BlocksError} (hfront : ∀ entry ∈ front, Pem.Whole entry)
    (h : Pem.blocks text = .error e) : LoadNumber front text (front.length + e.complete) where
  malformed hr := by rw [(Pem.complete_of_blocks h).1 hr, Nat.add_zero]
  counted hnone := by rw [(Pem.complete_of_blocks h).2 hnone]
  first hapart := by
    obtain ⟨k, ⟨before, y, after, hentries, hbefore, hy, rfl⟩, hiff⟩ := Pem.complete_eq_iff hapart h
    rw [chainTexts_of_blocks_error h]
    refine ⟨front.length + before.length, ⟨front ++ before, y, after, ?_, ?_, hy, List.length_append.symm⟩, ?_⟩
    · rw [hentries, List.append_assoc]
    · exact List.forall_mem_append.mpr ⟨hfront, hbefore⟩
    · rw [List.drop_append, List.drop_of_length_le (Nat.le_add_right _ _), List.nil_append, Nat.add_sub_cancel_left,
        Nat.add_right_inj, hiff, Nat.add_eq_left]

/-! ## Packaging -/

theorem certifies_iff {p : Pem} (hp : Pem.parse text = .ok p) :
    (∃ der c, Certificate.Certifies text der c) ↔
      p.tag = Certificate.pemTag ∧ ∃ c, Certificate.read? p.contents = some (c, []) := by
  constructor
  · rintro ⟨der, c, q, hq, htag, rfl, hread⟩
    obtain rfl := Except.ok.inj (hp.symm.trans hq)
    exact ⟨htag, c, hread⟩
  · rintro ⟨htag, c, hread⟩
    exact ⟨p.contents, c, p, hp, htag, rfl, hread⟩

/-- A block holds a certificate when it is written anew exactly if it did so before. -/
theorem holds_encode_iff {entry : List Char} {p : Pem} (hp : Pem.parse (String.ofList entry) = .ok p) :
    HoldsCertificate entry ↔ ∃ der c, Certificate.Certifies p.encode der c := by
  rw [HoldsCertificate, certifies_iff hp, certifies_iff (Pem.parse_encode_of_legible (Pem.legible_of_parse hp))]

theorem forall₂_holds {entries : List (List Char)}
    (h : List.Forall₂ (fun entry p => Pem.parse (String.ofList entry) = .ok p) entries ps) :
    List.Forall₂ (fun entry text => HoldsCertificate entry ↔ ∃ der c, Certificate.Certifies text der c) entries
      (ps.map Pem.encode) :=
  List.forall₂_map_right_iff.mpr (h.imp fun _ _ hp => holds_encode_iff hp)

theorem forall₂_chainTexts (h : Pem.Comprises text ps) :
    List.Forall₂ (fun entry text => HoldsCertificate entry ↔ ∃ der c, Certificate.Certifies text der c) (chainTexts text)
      (chainEntries text ps) := by
  have hentries := Pem.entries_of_comprises h
  have hnone : Pem.entries text.toList = [] ↔ ps = [] := by
    rw [← List.length_eq_zero_iff, hentries.length_eq, List.length_eq_zero_iff]
  unfold chainTexts chainEntries
  by_cases hwhole : ps = [] ∧ ¬ Text.isBlankText text
  · rw [if_pos hwhole, if_pos ⟨hnone.mpr hwhole.1, hwhole.2⟩]
    exact .cons (by rw [HoldsCertificate, String.ofList_toList]) .nil
  · rw [if_neg hwhole, if_neg fun h => hwhole ⟨hnone.mp h.1, h.2⟩]
    exact forall₂_holds hentries

/-- What is packaged stands for the entries one by one. -/
theorem chain_of_load (h : s.load t = .ok m) : ∃ front back, s.Numbered t front back ∧
    List.Forall₂ (fun entry text => HoldsCertificate entry ↔ ∃ der c, Certificate.Certifies text der c) (front ++ back)
      m.chain := by
  obtain ⟨text, ps, further, hread, hps, -, hchain, hfurther⟩ := load_eq_ok h
  have hfile : ∃ text' ps', t.readText s.certificate = .ok text' ∧ Pem.Comprises text' ps' ∧
      furtherCertificates text = furtherCertificates text' := ⟨text, ps, hread, hps, rfl⟩
  have hfront := forall₂_holds (forall₂_furtherCertificates hps)
  rw [hchain]
  split at hfurther
  · next hnone =>
    subst hfurther
    exact ⟨furtherCertificates text, [], ⟨hfile, .inl ⟨hnone, rfl⟩⟩, List.rel_append hfront .nil⟩
  · next path hpath =>
    obtain ⟨chainText, bs, hchainText, hbs, rfl⟩ := hfurther
    exact ⟨furtherCertificates text, chainTexts chainText, ⟨hfile, .inr ⟨path, chainText, hpath, hchainText, rfl⟩⟩,
      List.rel_append hfront (forall₂_chainTexts hbs)⟩

theorem package_chainEntry {seeds : Keystore.Seeds} (h : m.package seeds password = .error (.chainEntry i x)) :
    ∃ before text after, m.chain = before ++ text :: after ∧
      (∀ t ∈ before, ∃ der c, Certificate.Certifies t der c) ∧ Certificate.Rejects text x ∧ i = before.length := by
  obtain ⟨-, stage, -, -, -, hfault⟩ := (PemMaterial.refuses_package seeds m password _).mp h
  cases stage with
  | chain =>
    obtain ⟨before, text, after, y, hchain, hbefore, hrejects, he⟩ := hfault
    obtain ⟨rfl, rfl⟩ : i = before.length ∧ x = y := by simpa using he
    exact ⟨before, text, after, hchain, hbefore, hrejects, rfl⟩
  | password | certificateText | keyText => cases hfault.2
  | leaf =>
    obtain ⟨y, -, he⟩ := hfault
    cases he
  | key =>
    obtain ⟨y, -, he⟩ := hfault
    cases y <;> cases he
  | pair =>
    obtain ⟨_, _, _, -, -, -, he⟩ := hfault
    cases he
  | codec =>
    obtain ⟨_, _, _, _, _, -, -, -, -, he⟩ := hfault
    cases he

/-- A number in an error about the chain. -/
theorem chainEntry_number (s : PemSource) (t : FileTree) (seeds : Keystore.Seeds) (password : String) (i : ℕ)
    (x : Certificate.Error) :
    (s.load t = .error (.bundle (.chainEntry i x)) → ∃ front text, s.Numbered t front (chainTexts text) ∧
      LoadNumber front text i) ∧
    ∀ m, s.load t = .ok m → m.package seeds password = .error (.chainEntry i x) →
      ∃ front back, s.Numbered t front back ∧ Pem.FirstWithout HoldsCertificate (front ++ back) i := by
  constructor
  · intro h
    obtain ⟨front, text, e, hnumbered, hfront, herror, rfl⟩ := load_chainEntry h
    exact ⟨front, text, hnumbered, loadNumber_of_blocks hfront herror⟩
  · intro m hload hpackage
    obtain ⟨front, back, hnumbered, hchain⟩ := chain_of_load hload
    obtain ⟨before, text, after, hm, hbefore, hrejects, rfl⟩ := package_chainEntry hpackage
    rw [hm] at hchain
    refine ⟨front, back, hnumbered, Pem.firstWithout_of_forall₂ hchain hbefore ?_⟩
    rintro ⟨der, c, hcertifies⟩
    have hok := Certificate.ofPem_iff_certifies.mpr ⟨c, hcertifies⟩
    rw [Certificate.ofPem_iff_rejects.mpr hrejects] at hok
    cases hok

end

/-! ## Sample files -/

def wholeEntry : List Char := "-----BEGIN CERTIFICATE-----\nAAAA\n-----END CERTIFICATE-----\n".toList

def openEntry : List Char := "-----BEGIN CERTIFICATE-----\nAAAA\n".toList

def malformedEntry : List Char := "-----BEGIN CERTIFICATE-----\n!!!!\n-----END CERTIFICATE-----\n".toList

/-- A certificate and its key in one file, and a chain file. -/
def chainFiles (cs : List Char) : FileTree :=
  ⟨[(["a"], .file (Bytes.ofString (String.ofList (Pem.written [sampleBlock 1, sampleKeyBlock]))) 0),
    (["b"], .file (Bytes.ofString (String.ofList cs)) 0)], []⟩

def regionWith (data : List Char) : Pem.Region := ⟨"CERTIFICATE".toList, [], data, "CERTIFICATE".toList⟩

theorem regions_samples : Pem.regions (wholeEntry ++ openEntry) = [regionWith "AAAA\n".toList] ∧
    Pem.regions (wholeEntry ++ malformedEntry) = [regionWith "AAAA\n".toList, regionWith "!!!!\n".toList] := by
  have hwhole : ∀ rest, Pem.region? (wholeEntry ++ '-' :: rest) = some (regionWith "AAAA\n".toList, '-' :: rest) :=
    fun rest => rfl
  have hopen : Pem.region? openEntry = none := rfl
  have hmalformed : Pem.region? malformedEntry = some (regionWith "!!!!\n".toList, []) := rfl
  constructor
  · exact (Pem.regions_of_region? (hwhole _)).trans (congrArg _ (Pem.regions_eq_nil (Pem.region?_eq_none_iff.mp hopen)))
  · exact (Pem.regions_of_region? (hwhole _)).trans
      (congrArg _ ((Pem.regions_of_region? hmalformed).trans (congrArg _ Pem.regions_nil)))

/-- What the symbols in the samples stand for. -/
theorem decode_samples :
    Base64.decode (Bytes.ofString (String.ofList ("AAAA\n".toList.filter fun c => !Text.isBlank c))) = .ok [0, 0, 0] ∧
    Base64.decode (Bytes.ofString (String.ofList ("!!!!\n".toList.filter fun c => !Text.isBlank c))) =
      .error (.symbol 33 0) := by
  have hsymbols : "AAAA\n".toList.filter (fun c => !Text.isBlank c) = "AAAA".toList ∧
      "!!!!\n".toList.filter (fun c => !Text.isBlank c) = "!!!!".toList := by decide
  have hascii : ∀ c ∈ "AAAA".toList ++ "!!!!".toList, c.toNat < 128 := ascii_of_all (by decide)
  obtain ⟨hzeros, hmarks⟩ := List.forall_mem_append.mp hascii
  rw [hsymbols.1, hsymbols.2, Bytes.ofString_ofList hzeros, Bytes.ofString_ofList hmarks]
  exact ⟨rfl, rfl⟩

theorem reads_sample : Pem.Reads (regionWith "AAAA\n".toList) ⟨"CERTIFICATE", [], [0, 0, 0]⟩ where
  tag_ne := by decide
  tag := rfl
  endTag := rfl
  headers := rfl
  colons := by simp
  contents := decode_samples.1

theorem malformed_sample : Pem.Malformed (regionWith "!!!!\n".toList) := by
  intro p hp
  have hcontents := decode_samples.2.symm.trans hp.contents
  cases hcontents

theorem entries_samples : Pem.entries (wholeEntry ++ openEntry) = [wholeEntry, openEntry] ∧
    Pem.entries (wholeEntry ++ malformedEntry) = [wholeEntry, malformedEntry] := by decide

/-- A chain file that is cut off within its second block. -/
theorem blocks_cut_sample : Pem.blocks (String.ofList (wholeEntry ++ openEntry)) = .error (.truncated 2 1) := by
  have hmany : Pem.parseMany (String.ofList (wholeEntry ++ openEntry)) = .ok [⟨"CERTIFICATE", [], [0, 0, 0]⟩] := by
    rw [Pem.parseMany_eq_ok, String.toList_ofList, regions_samples.1]
    exact .cons reads_sample .nil
  have hmarkers : Pem.countOccurrences Pem.beginMarker (wholeEntry ++ openEntry) = 2 := by
    rw [← Pem.length_entries, entries_samples.1]
    rfl
  simp only [Pem.blocks, hmany, String.toList_ofList, hmarkers]
  rfl

/-- A chain file whose second block is malformed. -/
theorem blocks_malformed_sample : ∃ e, Pem.blocks (String.ofList (wholeEntry ++ malformedEntry)) = .error e ∧
    e.complete = 0 := by
  have hregions : ∃ r ∈ Pem.regions (String.ofList (wholeEntry ++ malformedEntry)).toList, Pem.Malformed r := by
    rw [String.toList_ofList, regions_samples.2]
    exact ⟨_, by simp, malformed_sample⟩
  cases hblocks : Pem.blocks (String.ofList (wholeEntry ++ malformedEntry)) with
  | error e => exact ⟨e, rfl, (Pem.complete_of_blocks hblocks).1 hregions⟩
  | ok ps =>
    obtain ⟨⟨rs, hdivided, hreads⟩, -⟩ := Pem.blocks_eq_ok.mp hblocks
    obtain ⟨r, hr, hmalformed⟩ := hregions
    obtain ⟨p, -, hp⟩ := exists_of_mem_right hreads.flip (Pem.divided_iff.mp hdivided ▸ hr)
    exact absurd hp (hmalformed p)

def chainSource : PemSource := { certificate := "a", chain := some "b" }

section
variable {cs : List Char} (hascii : ∀ c ∈ cs, c.toNat < 128)
include hascii

theorem readText_chainFiles : (chainFiles cs).readText "a" =
      .ok (String.ofList (Pem.written [sampleBlock 1, sampleKeyBlock])) ∧
    (chainFiles cs).readText "b" = .ok (String.ofList cs) := by
  have hplain : ∀ p ∈ [sampleBlock 1, sampleKeyBlock], p.Plain := by simp [plain_sampleBlock, plain_sampleKeyBlock]
  exact ⟨readText_ascii singleName_sample.1 rfl rfl (Pem.ascii_written hplain),
    readText_ascii singleName_sample.2 rfl rfl hascii⟩

theorem load_chainFiles_error {e : Pem.BlocksError} (h : Pem.blocks (String.ofList cs) = .error e) :
    chainSource.load (chainFiles cs) = .error (.bundle (.chainEntry e.complete (.file "b" e))) := by
  have hplain : ∀ p ∈ [sampleBlock 1, sampleKeyBlock], p.Plain := by simp [plain_sampleBlock, plain_sampleKeyBlock]
  obtain ⟨hread, hreadChain⟩ := readText_chainFiles hascii
  have hfails : chainSource.furtherEntries (chainFiles cs) 0 =
      .error (.bundle (.chainEntry (0 + e.complete) (.file "b" e))) :=
    bind_eq_error.mpr (.inr ⟨_, readText_eq_ok.mpr hreadChain,
      bind_eq_error.mpr (.inl (mapError_eq_error.mpr ⟨e, h, rfl⟩))⟩)
  rw [Nat.zero_add] at hfails
  rw [load_eq]
  exact bind_eq_error.mpr (.inr ⟨_, readText_eq_ok.mpr hread, bind_eq_error.mpr (.inr ⟨_,
    mapError_eq_ok.mpr (Pem.blocks_written hplain), bind_eq_error.mpr (.inr ⟨_, rfl, bind_eq_error.mpr (.inl hfails)⟩)⟩)⟩)

theorem load_chainFiles_ok {ps : List Pem} (h : Pem.blocks (String.ofList cs) = .ok ps) :
    chainSource.load (chainFiles cs) = .ok { Bundle.sample with chain := chainEntries (String.ofList cs) ps } := by
  have hplain : ∀ p ∈ [sampleBlock 1, sampleKeyBlock], p.Plain := by simp [plain_sampleBlock, plain_sampleKeyBlock]
  obtain ⟨hread, hreadChain⟩ := readText_chainFiles hascii
  rw [load_eq]
  exact bind_eq_ok.mpr ⟨_, readText_eq_ok.mpr hread, bind_eq_ok.mpr ⟨_, mapError_eq_ok.mpr (Pem.blocks_written hplain),
    bind_eq_ok.mpr ⟨_, rfl, bind_eq_ok.mpr ⟨_, bind_eq_ok.mpr ⟨_, readText_eq_ok.mpr hreadChain,
      bind_eq_ok.mpr ⟨_, mapError_eq_ok.mpr h, rfl⟩⟩, rfl⟩⟩⟩⟩

end

/-- A chain file without a marker. -/
theorem comprises_bare : Pem.Comprises (String.ofList ['x']) [] := by
  have hcount : Pem.countOccurrences Pem.beginMarker ['x'] = 0 := Pem.countOccurrences_eq_zero (by decide)
  have hle := Pem.length_regions_add_le ['x']
  have hregions : Pem.regions ['x'] = [] := List.length_eq_zero_iff.mp (by omega)
  rw [← String.toList_ofList (l := ['x'])] at hcount hregions
  exact ⟨⟨[], Pem.divided_iff.mpr hregions.symm, .nil⟩, hcount⟩

theorem package_bare : PemMaterial.package Bundle.sampleSeeds { Bundle.sample with chain := [String.ofList ['x']] }
    "password" = .error (.chainEntry 0 (.pem .framing)) := by
  have hrejects : Certificate.Rejects (String.ofList ['x']) (.pem .framing) :=
    .pem (Pem.parse_of_comprises_nil comprises_bare)
  have hc : Text.isBlankText Bundle.sample.certificate = false :=
    Pem.isBlankText_encode "CERTIFICATE" (Bundle.sampleCertificate 1)
  have hk : Text.isBlankText Bundle.sample.privateKey = false :=
    Pem.isBlankText_encode "RSA PRIVATE KEY" (Bundle.sampleKey.encode?.getD [])
  have hleaf : ∀ y, ¬ Certificate.Rejects Bundle.sample.certificate y := by
    intro y hy
    have herror := Certificate.ofPem_iff_rejects.mpr hy
    rw [show Bundle.sample.certificate = Bundle.samplePem 1 from rfl, Bundle.ofPem_samplePem.1] at herror
    cases herror
  rw [PemMaterial.refuses_package]
  refine ⟨[.password, .certificateText, .keyText, .leaf], .chain, _, rfl, ?_,
    [], String.ofList ['x'], [], .pem .framing, rfl, List.forall_mem_nil _, hrejects, rfl⟩
  simp [PemMaterial.Fault, hc, hk, hleaf]

/-- The second entry of a chain file is cut off, or the only one is no block at all. -/
theorem chainEntry_number_samples :
    (∃ x front text, chainSource.load (chainFiles (wholeEntry ++ openEntry)) = .error (.bundle (.chainEntry 1 x)) ∧
      chainSource.Numbered (chainFiles (wholeEntry ++ openEntry)) front (chainTexts text) ∧ LoadNumber front text 1) ∧
    ∃ m x front back, chainSource.load (chainFiles ['x']) = .ok m ∧
      m.package Bundle.sampleSeeds "password" = .error (.chainEntry 0 x) ∧
      chainSource.Numbered (chainFiles ['x']) front back ∧ Pem.FirstWithout HoldsCertificate (front ++ back) 0 := by
  constructor
  · have hascii : ∀ c ∈ wholeEntry ++ openEntry, c.toNat < 128 := ascii_of_all (by decide)
    have hload := load_chainFiles_error hascii blocks_cut_sample
    obtain ⟨front, text, hnumbered, hnumber⟩ := (chainEntry_number _ _ Bundle.sampleSeeds "password" _ _).1 hload
    exact ⟨_, front, text, hload, hnumbered, hnumber⟩
  · have hascii : ∀ c ∈ ['x'], c.toNat < 128 := ascii_of_all (by decide)
    have hload := load_chainFiles_ok hascii (Pem.blocks_eq_ok.mpr comprises_bare)
    obtain ⟨front, back, hnumbered, hfirst⟩ := (chainEntry_number _ _ _ _ _ _).2 _ hload package_bare
    exact ⟨_, _, front, back, hload, package_bare, hnumbered, hfirst⟩

theorem first_malformed_sample : Pem.FirstWithout Pem.Whole [wholeEntry, malformedEntry] 1 := by
  refine ⟨[wholeEntry], malformedEntry, [], rfl, List.forall_mem_singleton.mpr ?_, ?_, rfl⟩
  · exact ⟨_, Pem.parse_eq_ok_iff.mpr ⟨regionWith "AAAA\n".toList, [], rfl, reads_sample⟩⟩
  · rintro ⟨p, hp⟩
    obtain ⟨r, rest, hregion, hreads⟩ := Pem.parse_eq_ok_iff.mp hp
    have hmalformed : Pem.region? malformedEntry = some (regionWith "!!!!\n".toList, []) := rfl
    obtain ⟨rfl, -⟩ := Prod.mk.inj (Option.some.inj (hmalformed.symm.trans hregion))
    exact malformed_sample p hreads

/-- The second entry of a chain file is malformed, but the error names the first. -/
theorem malformed_entry_misnumbered : ∃ x, ∃ front back : List (List Char),
    chainSource.load (chainFiles (wholeEntry ++ malformedEntry)) = .error (.bundle (.chainEntry 0 x)) ∧
      chainSource.Numbered (chainFiles (wholeEntry ++ malformedEntry)) front back ∧
      Pem.FirstWithout Pem.Whole (front ++ back) 1 ∧ ¬ Pem.FirstWithout Pem.Whole (front ++ back) 0 := by
  have hascii : ∀ c ∈ wholeEntry ++ malformedEntry, c.toNat < 128 := ascii_of_all (by decide)
  obtain ⟨e, hblocks, hcomplete⟩ := blocks_malformed_sample
  obtain ⟨hread, hreadChain⟩ := readText_chainFiles hascii
  have hplain : ∀ p ∈ [sampleBlock 1, sampleKeyBlock], p.Plain := by simp [plain_sampleBlock, plain_sampleKeyBlock]
  have hcomprises := Pem.blocks_eq_ok.mp (Pem.blocks_written hplain)
  have hload := load_chainFiles_error hascii hblocks
  have hfront : furtherCertificates (String.ofList (Pem.written [sampleBlock 1, sampleKeyBlock])) = [] := by
    have hlength := (forall₂_furtherCertificates hcomprises).length_eq
    rw [filter_splitLeaf] at hlength
    exact List.length_eq_zero_iff.mp hlength
  have hback : chainTexts (String.ofList (wholeEntry ++ malformedEntry)) = [wholeEntry, malformedEntry] := by
    rw [chainTexts_of_blocks_error hblocks, String.toList_ofList, entries_samples.2]
  rw [hcomplete] at hload
  refine ⟨_, [], [wholeEntry, malformedEntry], hload, ⟨⟨_, _, hread, hcomprises, hfront.symm⟩,
    .inr ⟨"b", _, rfl, hreadChain, hback.symm⟩⟩, first_malformed_sample, fun hzero => ?_⟩
  exact absurd (first_malformed_sample.unique hzero) Nat.one_ne_zero

end PemSource
end CertRotation
