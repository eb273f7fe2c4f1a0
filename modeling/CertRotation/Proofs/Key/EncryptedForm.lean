import CertRotation.Proofs.Encryption.SchemeForm
import CertRotation.Proofs.Key.PlainForm
import CertRotation.Proofs.Keystore.Capacity

/-!
# Encrypted private keys and what becomes of them

An encrypted key is a container around plain PKCS#8. Whether it is a container does not hang on the password. What a password
makes of it is judged like a plain key, but octets that do not parse may come from a wrong password, so that they count as not
decrypted. For all other texts the password does not matter.
-/
namespace CertRotation

/-- How an error about a plain key is told of a decrypted one. -/
def Bundle.Error.garbled : Bundle.Error → Bundle.Error
  | .keyParse e => .keyDecrypt (.malformed e)
  | e => e

namespace PrivateKey
open Der

section
variable {b text plain : Bytes} {scheme : Pbes2.Scheme} {secret : String} {password : Option String}

/-! ## The container -/

/-- The octets are an encrypted key: the identifier of a scheme and the encrypted text. -/
def IsContainer (b : Bytes) (scheme : Pbes2.Scheme) (text : Bytes) : Prop :=
  ∃ a : Algorithm, b = Write.sequence [a.encode, Write.octetString text] ∧ a.Sound ∧ Pbes2.IsScheme a scheme ∧
    Fits [a.encode, Write.octetString text].flatten

theorem whole?_encryptedFields {c : Bytes} (hc : Fits c) : encryptedFields.whole? c = some (scheme, text) ↔
    ∃ a : Algorithm, c = [a.encode, Write.octetString text].flatten ∧ a.Sound ∧ Pbes2.IsScheme a scheme := by
  rw [whole?_eq_some, encryptedFields, exact_algorithm.run_bind]
  constructor
  · rintro ⟨a, _, _, rfl, ⟨rfl, ha, -⟩, h⟩
    rw [(exact_ofOption _).run_bind] at h
    obtain ⟨s, _, _, rfl, ⟨rfl, hs⟩, h⟩ := h
    rw [exact_octetString.run_bind] at h
    obtain ⟨t, _, _, rfl, ⟨rfl, -⟩, h⟩ := h
    obtain ⟨heq, rfl⟩ := Prod.mk.inj (Option.some.inj h)
    obtain ⟨rfl, rfl⟩ := Prod.mk.inj heq
    exact ⟨a, rfl, ha, (Pbes2.scheme?_eq_some_iff ha).mp hs⟩
  · rintro ⟨a, rfl, ha, hscheme⟩
    have hidentifier : Fits a.encode := hc.item (by simp)
    have htext : Fits (Write.octetString text) := hc.item (by simp)
    refine ⟨a, _, [Write.octetString text].flatten, List.flatten_cons, ⟨rfl, ha, hidentifier.contents⟩, ?_⟩
    rw [(exact_ofOption _).run_bind]
    refine ⟨scheme, [], [Write.octetString text].flatten, rfl, ⟨rfl, (Pbes2.scheme?_eq_some_iff ha).mpr hscheme⟩, ?_⟩
    rw [exact_octetString.run_bind]
    exact ⟨text, Write.octetString text, [], by simp, ⟨rfl, htext.contents⟩, rfl⟩

theorem container?_eq_some_iff : container? b = some (scheme, text) ↔ IsContainer b scheme text := by
  unfold container? Der.sequence
  rw [(exact_nested (by decide) fun _ _ => Iff.rfl).whole]
  constructor
  · rintro ⟨c, rfl, hfits, hfields⟩
    obtain ⟨a, rfl, ha, hscheme⟩ := (whole?_encryptedFields hfits).mp hfields
    exact ⟨a, rfl, ha, hscheme, hfits⟩
  · rintro ⟨a, rfl, ha, hscheme, hfits⟩
    exact ⟨_, rfl, hfits, (whole?_encryptedFields hfits).mpr ⟨a, rfl, ha, hscheme⟩⟩

/-! ## The password -/

/-- What a password makes of the encrypted text. A wrong one mostly fails, but may leave any octets. -/
def unlock (scheme : Pbes2.Scheme) (text : Bytes) (secret : String) : Except DecryptError Bytes := do
  let plain ← (scheme.decrypt (Bytes.ofString secret) text).mapError .scheme
  if isSequence plain then pure plain else throw .noElement

theorem decrypt_without_password (h : password.getD "" = "") (b : Bytes) :
    decrypt b password = .error (.decrypt .noPassword) := by
  have hnone : password.filter (· ≠ "") = none := by
    cases password with
    | none => rfl
    | some secret =>
      obtain rfl : secret = "" := h
      rfl
  rw [decrypt, hnone]

theorem filter_password (h : secret ≠ "") : (some secret).filter (· ≠ "") = some secret := by simp [h]

theorem decrypt_of_container (h : IsContainer b scheme text) (hp : secret ≠ "") :
    decrypt b (some secret) = (unlock scheme text secret).mapError .decrypt := by
  rw [decrypt, filter_password hp, container?_eq_some_iff.mpr h, unlock]
  dsimp only
  cases scheme.decrypt (Bytes.ofString secret) text with
  | error e => rfl
  | ok plain =>
    show (if isSequence plain then .ok plain else .error (.decrypt .noElement)) =
      Except.mapError Error.decrypt (if isSequence plain then .ok plain else .error .noElement)
    rw [apply_ite (Except.mapError Error.decrypt)]
    rfl

theorem decrypt_of_no_container (h : ∀ scheme text, ¬ IsContainer b scheme text) (hp : secret ≠ "") :
    decrypt b (some secret) = .error (.parse .container) := by
  have hnone : container? b = none := Option.eq_none_iff_forall_not_mem.mpr fun c hc =>
    h c.1 c.2 (container?_eq_some_iff.mp hc)
  rw [decrypt, filter_password hp, hnone]

end

/-! ## The verdict -/

/-- The key of a text, or what is told about it. -/
def report (text : String) (password : Option String) : Except Bundle.Error PrivateKey :=
  (parse text password).mapError Bundle.Error.ofKey

theorem ofKey_ofDecrypted (e : Error) : Bundle.Error.ofKey e.ofDecrypted = (Bundle.Error.ofKey e).garbled := by
  cases e <;> rfl

theorem mapError_ofDecrypted (r : Except Error PrivateKey) :
    (r.mapError Error.ofDecrypted).mapError Bundle.Error.ofKey = (r.mapError Bundle.Error.ofKey).mapError .garbled := by
  cases r with
  | ok k => rfl
  | error e => exact congrArg Except.error (ofKey_ofDecrypted e)

/-- Octets that come out of an encrypted key are never said not to parse. -/
theorem garbled_ne_keyParse (e : Bundle.Error) (x : ParseError) : e.garbled ≠ .keyParse x := by
  intro h
  cases e <;> cases h

section
variable {text : String} {b c plain : Bytes} {scheme : Pbes2.Scheme} {secret : String} {password : Option String}

theorem report_plain (h : Holds text "PRIVATE KEY" b) (password : Option String) :
    report text password = (ofPkcs8 b).mapError Bundle.Error.ofKey := by
  rw [report, parse_of_holds h]
  rfl

theorem report_encrypted (h : Holds text "ENCRYPTED PRIVATE KEY" b) (password : Option String) :
    report text password =
      ((decrypt b password).bind fun plain => (ofPkcs8 plain).mapError Error.ofDecrypted).mapError Bundle.Error.ofKey := by
  rw [report, parse_of_holds h]
  rfl

theorem report_without_password (h : Holds text "ENCRYPTED PRIVATE KEY" b) (hp : password.getD "" = "") :
    report text password = .error (.keyDecrypt .noPassword) := by
  rw [report_encrypted h, decrypt_without_password hp]
  rfl

theorem report_no_container (h : Holds text "ENCRYPTED PRIVATE KEY" b) (hp : secret ≠ "")
    (hb : ∀ scheme c, ¬ IsContainer b scheme c) : report text (some secret) = .error (.keyParse .container) := by
  rw [report_encrypted h, decrypt_of_no_container hb hp]
  rfl

theorem report_locked {e : DecryptError} (h : Holds text "ENCRYPTED PRIVATE KEY" b) (hp : secret ≠ "")
    (hb : IsContainer b scheme c) (he : unlock scheme c secret = .error e) :
    report text (some secret) = .error (.keyDecrypt e) := by
  rw [report_encrypted h, decrypt_of_container hb hp, he]
  rfl

theorem report_unlocked (h : Holds text "ENCRYPTED PRIVATE KEY" b) (hp : secret ≠ "") (hb : IsContainer b scheme c)
    (hplain : unlock scheme c secret = .ok plain) :
    report text (some secret) = ((ofPkcs8 plain).mapError Bundle.Error.ofKey).mapError .garbled := by
  rw [report_encrypted h, decrypt_of_container hb hp, hplain, ← mapError_ofDecrypted]
  rfl

theorem report_ne_keyParse (h : Holds text "ENCRYPTED PRIVATE KEY" b) (hp : secret ≠ "") (hb : IsContainer b scheme c)
    (x : ParseError) : report text (some secret) ≠ .error (.keyParse x) := by
  cases hplain : unlock scheme c secret with
  | error e =>
    rw [report_locked h hp hb hplain]
    exact fun heq => by cases heq
  | ok plain =>
    rw [report_unlocked h hp hb hplain]
    intro heq
    obtain ⟨e, -, he⟩ := mapError_eq_error.mp heq
    exact garbled_ne_keyParse e x he.symm

/-- Only what an encrypted key becomes hangs on the password. -/
theorem parse_congr_password (h : ∀ b, ¬ Holds text "ENCRYPTED PRIVATE KEY" b) (password password' : Option String) :
    parse text password = parse text password' := by
  unfold parse
  cases hp : Pem.parse text with
  | error e => rfl
  | ok p =>
    show ofBlock p password = ofBlock p password'
    unfold ofBlock
    cases hlegacy : isLegacyEncrypted p with
    | true => rfl
    | false =>
      have htag : p.tag ≠ "ENCRYPTED PRIVATE KEY" := fun heq => h p.contents ⟨p, hp, hlegacy, heq, rfl⟩
      simp only [if_neg htag]

end

/-- Without a password nothing is said of an encrypted key but that it cannot be decrypted. Under a password it is said not to
parse exactly if it is no container; what comes out of a container is judged as if it stood in a plain block, but octets
that do not parse count as not decrypted. No other text hangs on the password. -/
theorem encrypted_key_verdict (text : String) (password : Option String) :
    (∀ b, Holds text "ENCRYPTED PRIVATE KEY" b →
      (password.getD "" = "" → report text password = .error (.keyDecrypt .noPassword)) ∧
      ∀ secret, password = some secret → secret ≠ "" →
        ((∃ e, report text password = .error (.keyParse e)) ↔ ∀ scheme c, ¬ IsContainer b scheme c) ∧
        ∀ scheme c, IsContainer b scheme c →
          (∀ e, unlock scheme c secret = .error e → report text password = .error (.keyDecrypt e)) ∧
          ∀ plain, unlock scheme c secret = .ok plain → ∀ text' password', Holds text' "PRIVATE KEY" plain →
            report text password = (report text' password').mapError .garbled) ∧
      ((∀ b, ¬ Holds text "ENCRYPTED PRIVATE KEY" b) → ∀ password', parse text password = parse text password') := by
  refine ⟨fun b h => ⟨report_without_password h, ?_⟩, fun h => parse_congr_password h password⟩
  rintro secret rfl hp
  refine ⟨⟨?_, fun hb => ⟨_, report_no_container h hp hb⟩⟩, fun scheme c hb => ⟨fun e => report_locked h hp hb, ?_⟩⟩
  · rintro ⟨e, he⟩ scheme c hb
    exact report_ne_keyParse h hp hb e he
  · intro plain hplain text' password' h'
    rw [report_unlocked h hp hb hplain, report_plain h']

/-! ## Containers as they are written -/

/-- A container with this text, under the identifier that a seed writes. -/
def container (s : Pbes2.Seed) (text : Bytes) : Bytes := Write.sequence [s.algorithm, Write.octetString text]

theorem isContainer_container {s : Pbes2.Seed} {text : Bytes} (h : Fits (container s text)) :
    IsContainer (container s text) s.scheme text := by
  have hidentifier : Fits s.algorithm := h.sequence (by simp)
  have hfields : Fits s.schemeFields := Pbes2.Seed.fits_schemeFields hidentifier
  have hsound : Algorithm.Sound ⟨Pbes2.schemeOid, some ⟨0x30, s.schemeFields⟩⟩ := by
    refine ⟨Pbes2.isStrict_schemeOid, fun e he => ?_⟩
    obtain rfl := Option.some.inj he
    exact ⟨show isTag 0x30 = true by decide, hfields⟩
  have hencode : s.algorithm = Algorithm.encode ⟨Pbes2.schemeOid, some ⟨0x30, s.schemeFields⟩⟩ := s.algorithm_eq
  rw [container, hencode] at h ⊢
  exact ⟨_, rfl, hsound, (Pbes2.scheme?_eq_some_iff hsound).mp (Pbes2.scheme?_of_seed hfields), h.contents⟩

theorem isSequence_sequence {items : List Bytes} (h : Fits items.flatten) : isSequence (Write.sequence items) = true := by
  rw [isSequence, Write.sequence, (reads_contentsOf (by decide) h).whole]
  rfl

/-- The password that a text was encrypted with unlocks it. -/
theorem unlock_encrypt {plain : Bytes} (s : Pbes2.Seed) (secret : String) (h : isSequence plain = true) :
    unlock s.scheme (s.encrypt (Bytes.ofString secret) plain) secret = .ok plain := by
  rw [unlock, s.decrypt_encrypt]
  show (if isSequence plain then pure plain else throw .noElement : Except DecryptError Bytes) = _
  rw [if_pos h]
  rfl

/-- No password unlocks a text that is no whole number of blocks. -/
theorem unlock_of_length (s : Pbes2.Seed) (secret : String) {text : Bytes} (h : text.length % 16 ≠ 0) :
    unlock s.scheme text secret = .error (.scheme .decryption) := by
  have hkey : (Pbes2.Derivation.pbkdf2 s.salt Pbes2.rounds none .sha256).key (Bytes.ofString secret) 32 =
      .ok (HashName.sha256.pbkdf2 (Bytes.ofString secret) s.salt Pbes2.rounds 32) := rfl
  have hcbc : ∀ key, Cbc.decrypt (Aes.cipher key) s.vector text = none := fun key => if_neg h
  simp only [unlock, Pbes2.Seed.scheme, Pbes2.Scheme.decrypt, hkey, bind, Except.bind, hcbc, Except.mapError]

theorem fits_container {s : Pbes2.Seed} {text : Bytes} (hs : s.salt.length < 0x1000000) (h : text.length < 0x1000000) :
    Fits (container s text) := by
  have hlength := Pbes2.Seed.length_identified_le hs (show text.length < 0x2000000 by omega)
  unfold Fits maxLength container
  omega

/-- The text of a key that is encrypted under "pw". -/
def lockedText (plain : Bytes) : String :=
  (⟨"ENCRYPTED PRIVATE KEY", [], container ⟨[], []⟩ (Pbes2.Seed.encrypt ⟨[], []⟩ (Bytes.ofString "pw") plain)⟩ : Pem).encode

/-- The text of a container without a whole block in it. -/
def truncatedText : String := (⟨"ENCRYPTED PRIVATE KEY", [], container ⟨[], []⟩ [0]⟩ : Pem).encode

theorem encrypted_key_verdict_samples :
    (∃ b, report (lockedText b) (some "pw") = .ok ⟨.rsa, b, smallRsaKey.publicKey⟩) ∧
      report (lockedText [0x30, 0x00]) (some "pw") = .error (.keyDecrypt (.malformed .pkcs8)) ∧
      report truncatedText (some "pw") = .error (.keyDecrypt (.scheme .decryption)) ∧
      report truncatedText none = .error (.keyDecrypt .noPassword) ∧
      (∃ e, report (⟨"ENCRYPTED PRIVATE KEY", [], [0]⟩ : Pem).encode (some "pw") = .error (.keyParse e)) ∧
      parse (⟨"PRIVATE KEY", [], [0]⟩ : Pem).encode (some "pw") = parse (⟨"PRIVATE KEY", [], [0]⟩ : Pem).encode none := by
  have hholds : ∀ b, Holds (⟨"ENCRYPTED PRIVATE KEY", [], b⟩ : Pem).encode "ENCRYPTED PRIVATE KEY" b :=
    holds_encode (by decide) (by decide)
  have hplain : ∀ b, Holds (⟨"PRIVATE KEY", [], b⟩ : Pem).encode "PRIVATE KEY" b := holds_encode (by decide) (by decide)
  have hsealed : ∀ plain, plain.length < 1000 → isSequence plain = true →
      report (lockedText plain) (some "pw") = ((ofPkcs8 plain).mapError Bundle.Error.ofKey).mapError .garbled := by
    intro plain hlength hsequence
    have hfits : Fits (container ⟨[], []⟩ (Pbes2.Seed.encrypt ⟨[], []⟩ (Bytes.ofString "pw") plain)) :=
      fits_container (by decide) (by rw [Pbes2.Seed.length_encrypt]; omega)
    have hverdict := ((encrypted_key_verdict (lockedText plain) (some "pw")).1 _ (hholds _)).2 "pw" rfl (by decide)
    rw [(hverdict.2 _ _ (isContainer_container hfits)).2 plain (unlock_encrypt _ "pw" hsequence) _ none (hplain plain),
      report_plain (hplain plain)]
  let inner := smallRsaKey.encode?.getD []
  have hinner : smallRsaKey.encode? = some inner := by decide
  have hfits : Fits (wrap RsaKey.algorithm inner) := by cbv
  have hinfo : IsPlain (wrap RsaKey.algorithm inner) ⟨KeyType.rsa.identifier, inner⟩ :=
    info?_eq_some_iff.mp (info?_wrap reads_rsaAlgorithm hfits)
  have hhalf : KeyType.rsa.publicHalf? inner = some smallRsaKey.publicKey :=
    congrArg (Option.map RsaKey.publicKey) (parse?_of_encode (by decide) hinner (by cbv))
  have hzero : ∀ scheme c, ¬ IsContainer [0] scheme c := fun scheme c hc => by
    cases container?_eq_some_iff.mpr hc
  have hlocked : IsContainer (container ⟨[], []⟩ [0]) (Pbes2.Seed.scheme ⟨[], []⟩) [0] :=
    isContainer_container (fits_container (by decide) (by decide))
  refine ⟨⟨wrap RsaKey.algorithm inner, ?_⟩, ?_, ?_, ?_, ?_, ?_⟩
  · rw [hsealed (wrap RsaKey.algorithm inner) (by cbv) (isSequence_sequence hfits.contents), ofPkcs8_of_usable hinfo rfl hhalf]
    rfl
  · rw [hsealed _ (by decide) (by decide)]
    rfl
  · exact ((((encrypted_key_verdict _ (some "pw")).1 _ (hholds _)).2 "pw" rfl (by decide)).2 _ _ hlocked).1 _
      (unlock_of_length _ "pw" (by decide))
  · exact ((encrypted_key_verdict _ none).1 _ (hholds _)).1 rfl
  · exact (((encrypted_key_verdict _ (some "pw")).1 _ (hholds [0])).2 "pw" rfl (by decide)).1.mpr hzero
  · refine (encrypted_key_verdict _ (some "pw")).2 (fun b hb => ?_) none
    obtain ⟨p, hp, -, htag, -⟩ := hb
    obtain ⟨p', hp', -, htag', -⟩ := hplain [0]
    cases hp.symm.trans hp'
    exact absurd (htag.symm.trans htag') (by decide)

end PrivateKey
end CertRotation
