import CertRotation.Proofs.Bundle.Sources
import CertRotation.Proofs.Certificate.Names

/-!
# Packaging stage by stage

Packaging goes through eight stages and gives up at the first that finds a fault. What a fault of a stage is does not
hang on the order of the stages; that of several faults the first decides is proved for the composition of computations
that fail stage by stage.
-/
namespace CertRotation

/-! ## First faults -/

section
variable {Stage ε α β : Type}

/-- `e` is the fault of the first of the stages that has one. -/
def FirstFault (F : Stage → ε → Prop) (stages : List Stage) (e : ε) : Prop :=
  ∃ before s after, stages = before ++ s :: after ∧ (∀ s' ∈ before, ∀ e', ¬ F s' e') ∧ F s e

/-- The computation fails exactly with the first fault of these stages. -/
def Refuses (F : Stage → ε → Prop) (stages : List Stage) (x : Except ε α) : Prop :=
  ∀ e, x = .error e ↔ FirstFault F stages e

variable {F : Stage → ε → Prop} {s : Stage} {stages rest : List Stage} {e : ε}

theorem firstFault_nil : ¬ FirstFault F [] e := by
  rintro ⟨before, s, after, heq, -⟩
  cases before <;> cases heq

theorem firstFault_cons :
    FirstFault F (s :: stages) e ↔ F s e ∨ (∀ e', ¬ F s e') ∧ FirstFault F stages e := by
  constructor
  · rintro ⟨before, s', after, heq, hbefore, hs⟩
    cases before with
    | nil =>
      obtain ⟨rfl, rfl⟩ := List.cons.inj heq
      exact .inl hs
    | cons b before =>
      obtain ⟨rfl, rfl⟩ := List.cons.inj heq
      obtain ⟨hb, hbefore⟩ := List.forall_mem_cons.mp hbefore
      exact .inr ⟨hb, before, s', after, rfl, hbefore, hs⟩
  · intro h
    cases h with
    | inl hs => exact ⟨[], s, stages, rfl, List.forall_mem_nil _, hs⟩
    | inr h =>
      obtain ⟨hnone, before, s', after, rfl, hbefore, hs⟩ := h
      exact ⟨s :: before, s', after, rfl, List.forall_mem_cons.mpr ⟨hnone, hbefore⟩, hs⟩

theorem firstFault_append : FirstFault F (stages ++ rest) e ↔
    FirstFault F stages e ∨ (∀ s ∈ stages, ∀ e', ¬ F s e') ∧ FirstFault F rest e := by
  induction stages with
  | nil => simp [firstFault_nil]
  | cons s stages ih => rw [List.cons_append, firstFault_cons, firstFault_cons, ih, List.forall_mem_cons]; tauto

/-- If there is a fault at all, there is a first. -/
theorem exists_firstFault (hs : s ∈ stages) (h : F s e) : ∃ e', FirstFault F stages e' := by
  induction stages with
  | nil => cases hs
  | cons s' stages ih =>
    by_cases hfirst : ∃ e', F s' e'
    · obtain ⟨e', he'⟩ := hfirst
      exact ⟨e', firstFault_cons.mpr (.inl he')⟩
    · have hnone : ∀ e', ¬ F s' e' := fun e' he' => hfirst ⟨e', he'⟩
      cases hs with
      | head => exact absurd h (hnone e)
      | tail _ hs =>
        obtain ⟨e', he'⟩ := ih hs
        exact ⟨e', firstFault_cons.mpr (.inr ⟨hnone, he'⟩)⟩

theorem Refuses.not_fault {x : Except ε α} {a : α} (h : Refuses F stages x) (hx : x = .ok a) :
    ∀ s ∈ stages, ∀ e, ¬ F s e := by
  intro s hs e he
  obtain ⟨e', he'⟩ := exists_firstFault hs he
  rw [(h e').mpr he'] at hx
  cases hx

theorem refuses_pure (a : α) : Refuses F [] (pure a : Except ε α) :=
  fun _ => ⟨nofun, fun h => absurd h firstFault_nil⟩

theorem refuses_single {x : Except ε α} (h : ∀ e, F s e ↔ x = .error e) : Refuses F [s] x := by
  intro e
  rw [firstFault_cons, h e]
  exact ⟨.inl, fun h => h.resolve_right fun hrest => firstFault_nil hrest.2⟩

/-- What follows is only asked if all stages before have passed. -/
theorem Refuses.bind {x : Except ε α} {f : α → Except ε β} (h : Refuses F stages x)
    (hf : ∀ a, x = .ok a → Refuses F rest (f a)) : Refuses F (stages ++ rest) (x >>= f) := by
  intro e
  rw [firstFault_append, ← h e]
  cases hx : x with
  | error e' =>
    have hfault : ¬ ∀ s ∈ stages, ∀ e, ¬ F s e := by
      obtain ⟨before, s, after, rfl, -, hs⟩ := (h e').mp hx
      exact fun hnone => hnone s (by simp) e' hs
    rw [or_iff_left fun hrest => hfault hrest.1, bind_eq_error]
    exact or_iff_left nofun
  | ok a =>
    rw [or_iff_right nofun, and_iff_right (h.not_fault hx)]
    exact hf a hx e

theorem refuses_guard {p : Prop} [Decidable p] {e₀ : ε} {f : Unit → Except ε α} (hs : ∀ e, F s e ↔ p ∧ e = e₀)
    (hf : ¬ p → Refuses F rest (f ())) : Refuses F (s :: rest) (if p then throw e₀ >>= f else f ()) := by
  intro e
  rw [firstFault_cons, hs e]
  by_cases hp : p
  · have hfault : ¬ ∀ e', ¬ F s e' := fun hnone => hnone e₀ ((hs e₀).mpr ⟨hp, rfl⟩)
    rw [if_pos hp, or_iff_left fun hrest => hfault hrest.1, and_iff_right hp]
    exact ⟨fun h => (Except.error.inj h).symm, fun h => h ▸ rfl⟩
  · have hnone : ∀ e', ¬ F s e' := fun e' he' => hp ((hs e').mp he').1
    rw [if_neg hp, or_iff_right fun h => hp h.1, and_iff_right hnone]
    exact hf hp e

end

/-! ## Texts that hold a certificate -/

namespace Certificate

/-- The first block of `text` is a certificate block, and what it holds is exactly the certificate `c`. -/
def Certifies (text : String) (der : Bytes) (c : Certificate) : Prop :=
  ∃ p, Pem.parse text = .ok p ∧ p.tag = pemTag ∧ p.contents = der ∧ read? der = some (c, [])

/-- Why a text does not hold a certificate. -/
inductive Rejects (text : String) : Error → Prop
  | pem {e : Pem.Error} (h : Pem.parse text = .error e) : Rejects text (.pem e)
  | blockType {p : Pem} (h : Pem.parse text = .ok p) (htag : p.tag ≠ pemTag) : Rejects text (.blockType p.tag)
  | malformed {p : Pem} (h : Pem.parse text = .ok p) (htag : p.tag = pemTag) (hread : read? p.contents = none) :
      Rejects text (.certificate .malformed)
  | trailing {p : Pem} {c : Certificate} {rest : Bytes} (h : Pem.parse text = .ok p) (htag : p.tag = pemTag)
      (hread : read? p.contents = some (c, rest)) (hrest : rest ≠ []) :
      Rejects text (.certificate (.trailing rest.length))

theorem ofPem_iff_certifies {text : String} {der : Bytes} : ofPem text = .ok der ↔ ∃ c, Certifies text der c := by
  rw [ofPem_eq_ok]
  constructor
  · rintro ⟨p, hp, htag, hparse, rfl⟩
    cases hc : parse p.contents with
    | error e =>
      rw [hc] at hparse
      cases hparse
    | ok c => exact ⟨c, p, hp, by simpa [PemSource.isCertificate] using htag, rfl, parse_eq_ok.mp hc⟩
  · rintro ⟨c, p, hp, htag, rfl, hread⟩
    have hparse : (parse p.contents).isOk = true := by
      rw [parse_eq_ok.mpr hread]
      rfl
    exact ⟨p, hp, by simpa [PemSource.isCertificate] using htag, hparse, rfl⟩

theorem ofPem_iff_rejects {text : String} {e : Error} : ofPem text = .error e ↔ Rejects text e := by
  unfold ofPem
  constructor
  · intro h
    cases bind_eq_error.mp h with
    | inl hpem =>
      obtain ⟨x, hp, rfl⟩ := mapError_eq_error.mp hpem
      exact .pem hp
    | inr hrest =>
      obtain ⟨p, hp, hrest⟩ := hrest
      have hp := mapError_eq_ok.mp hp
      cases guard_eq_error.mp hrest with
      | inl htag =>
        obtain ⟨htag, rfl⟩ := htag
        exact .blockType hp htag
      | inr hrest =>
        obtain ⟨htag, hrest⟩ := hrest
        have hfails := (bind_eq_error.mp hrest).resolve_right (by rintro ⟨c, -, hc⟩; cases hc)
        obtain ⟨x, hparse, rfl⟩ := mapError_eq_error.mp hfails
        cases parse_eq_error.mp hparse with
        | inl hnone =>
          obtain ⟨hread, rfl⟩ := hnone
          exact .malformed hp (not_not.mp htag) hread
        | inr hmore =>
          obtain ⟨c, more, hread, hmore, rfl⟩ := hmore
          exact .trailing hp (not_not.mp htag) hread hmore
  · intro h
    cases h with
    | pem hp => exact bind_eq_error.mpr (.inl (mapError_eq_error.mpr ⟨_, hp, rfl⟩))
    | blockType hp htag =>
      exact bind_eq_error.mpr (.inr ⟨_, mapError_eq_ok.mpr hp, guard_eq_error.mpr (.inl ⟨htag, rfl⟩)⟩)
    | malformed hp htag hread =>
      have hparse := parse_eq_error.mpr (.inl ⟨hread, rfl⟩)
      exact bind_eq_error.mpr (.inr ⟨_, mapError_eq_ok.mpr hp, guard_eq_error.mpr (.inr ⟨not_not.mpr htag,
        bind_eq_error.mpr (.inl (mapError_eq_error.mpr ⟨_, hparse, rfl⟩))⟩)⟩)
    | trailing hp htag hread hrest =>
      have hparse := parse_eq_error.mpr (.inr ⟨_, _, hread, hrest, rfl⟩)
      exact bind_eq_error.mpr (.inr ⟨_, mapError_eq_ok.mpr hp, guard_eq_error.mpr (.inr ⟨not_not.mpr htag,
        bind_eq_error.mpr (.inl (mapError_eq_error.mpr ⟨_, hparse, rfl⟩))⟩)⟩)

end Certificate

namespace PemMaterial
open CertRotation.Bundle

/-- A chain fails at its first text that holds no certificate, with the place and the fault of that text. -/
theorem decodeChainFrom_eq_error {index : Nat} {chain : List String} {e : Error} :
    decodeChainFrom index chain = .error e ↔ ∃ before text after x, chain = before ++ text :: after ∧
      (∀ t ∈ before, ∃ der c, Certificate.Certifies t der c) ∧ Certificate.Rejects text x ∧
      e = .chainEntry (index + before.length) x := by
  induction chain generalizing index with
  | nil =>
    constructor
    · intro h
      cases h
    · rintro ⟨before, text, after, x, heq, -⟩
      cases before <;> cases heq
  | cons text chain ih =>
    rw [decodeChainFrom, bind_eq_error]
    constructor
    · intro h
      cases h with
      | inl hfirst =>
        obtain ⟨x, hx, rfl⟩ := mapError_eq_error.mp hfirst
        exact ⟨[], text, chain, x, rfl, List.forall_mem_nil _, Certificate.ofPem_iff_rejects.mp hx, rfl⟩
      | inr hrest =>
        obtain ⟨der, hder, hrest⟩ := hrest
        have hfails := (bind_eq_error.mp hrest).resolve_right (by rintro ⟨ders, -, hders⟩; cases hders)
        obtain ⟨before, text', after, x, rfl, hbefore, hx, rfl⟩ := ih.mp hfails
        refine ⟨text :: before, text', after, x, rfl, List.forall_mem_cons.mpr ⟨⟨der, ?_⟩, hbefore⟩, hx, ?_⟩
        · exact Certificate.ofPem_iff_certifies.mp (mapError_eq_ok.mp hder)
        · rw [List.length_cons, Nat.add_right_comm, Nat.add_assoc]
    · rintro ⟨before, text', after, x, heq, hbefore, hx, rfl⟩
      cases before with
      | nil =>
        obtain ⟨rfl, rfl⟩ := List.cons.inj heq
        exact .inl (mapError_eq_error.mpr ⟨x, Certificate.ofPem_iff_rejects.mpr hx, rfl⟩)
      | cons t before =>
        obtain ⟨rfl, rfl⟩ := List.cons.inj heq
        obtain ⟨⟨der, hder⟩, hbefore⟩ := List.forall_mem_cons.mp hbefore
        refine .inr ⟨der, mapError_eq_ok.mpr (Certificate.ofPem_iff_certifies.mpr hder), bind_eq_error.mpr (.inl ?_)⟩
        refine ih.mpr ⟨before, text', after, x, rfl, hbefore, hx, ?_⟩
        rw [List.length_cons, Nat.add_right_comm, Nat.add_assoc]

/-! ## The stages of packaging -/

/-- What packaging looks at, one after the other. -/
inductive Stage where
  | password
  | certificateText
  | keyText
  | leaf
  | chain
  | key
  | pair
  | codec
  deriving DecidableEq, Repr

def stages : List Stage := [.password, .certificateText, .keyText, .leaf, .chain, .key, .pair, .codec]

/-- The password with which the key is opened. -/
def keySecret (m : PemMaterial) (password : String) : String := m.keyPassword.getD password

/-- What is wrong with the material for a single stage, whatever other stages find. -/
def Fault (seeds : Keystore.Seeds) (m : PemMaterial) (password : String) : Stage → Error → Prop
  | .password, e => password = "" ∧ e = .missingPassword
  | .certificateText, e => Text.isBlankText m.certificate = true ∧ e = .missingMaterial .certificate
  | .keyText, e => Text.isBlankText m.privateKey = true ∧ e = .missingMaterial .privateKey
  | .leaf, e => ∃ x, Certificate.Rejects m.certificate x ∧ e = .certificate x
  | .chain, e => ∃ before text after x, m.chain = before ++ text :: after ∧
    (∀ t ∈ before, ∃ der c, Certificate.Certifies t der c) ∧ Certificate.Rejects text x ∧
    e = .chainEntry before.length x
  | .key, e => ∃ x, PrivateKey.parse m.privateKey (some (m.keySecret password)) = .error x ∧ e = .ofKey x
  | .pair, e => ∃ der c key, Certificate.Certifies m.certificate der c ∧
    PrivateKey.parse m.privateKey (some (m.keySecret password)) = .ok key ∧ c.publicKey ≠ key.publicKey ∧
    e = .keyMismatch
  | .codec, e => ∃ leaf c ders key x, Certificate.Certifies m.certificate leaf c ∧
    List.Forall₂ (fun text der => ∃ c, Certificate.Certifies text der c) m.chain ders ∧
    PrivateKey.parse m.privateKey (some (m.keySecret password)) = .ok key ∧
    Bundle.encode seeds ⟨key.encoded, leaf, ders⟩ password = .error (.encode x) ∧ e = .encode x

section
variable {seeds : Keystore.Seeds} {m : PemMaterial} {password : String} {leaf : Bytes} {chain : List Bytes}
variable {key : PrivateKey} {e : Error}

theorem fault_leaf : m.Fault seeds password .leaf e ↔
    (Certificate.ofPem m.certificate).mapError .certificate = .error e := by
  simp only [Fault, mapError_eq_error, Certificate.ofPem_iff_rejects]

theorem fault_chain : m.Fault seeds password .chain e ↔ decodeChain m.chain = .error e := by
  simp only [Fault, decodeChain, decodeChainFrom_eq_error, Nat.zero_add]

theorem fault_key : m.Fault seeds password .key e ↔ m.parseKey password = .error e := by
  simp only [Fault, parseKey, mapError_eq_error, keySecret]

theorem keysMatch_of_certifies {c : Certificate} (h : Certificate.Certifies m.certificate leaf c) (k : PrivateKey) :
    keysMatch leaf k = .ok (k.matchesPublicKey c.publicKey) := by
  obtain ⟨p, -, -, -, hread⟩ := h
  rw [keysMatch, Certificate.parse_eq_ok.mpr hread]
  rfl

/-- Certificate and key are compared once both have been read. -/
theorem fault_pair {c : Certificate} (hleaf : Certificate.Certifies m.certificate leaf c)
    (hkey : m.parseKey password = .ok key) :
    m.Fault seeds password .pair e ↔ ¬ key.matchesPublicKey c.publicKey = true ∧ e = .keyMismatch := by
  have hparse := mapError_eq_ok.mp hkey
  rw [PrivateKey.matchesPublicKey, decide_eq_true_eq, eq_comm]
  constructor
  · rintro ⟨der, c', key', hleaf', hkey', hne, rfl⟩
    obtain ⟨p, hp, -, rfl, hread⟩ := hleaf
    obtain ⟨p', hp', -, rfl, hread'⟩ := hleaf'
    obtain rfl := Except.ok.inj (hp.symm.trans hp')
    obtain ⟨rfl, -⟩ := Prod.mk.inj (Option.some.inj (hread.symm.trans hread'))
    obtain rfl := Except.ok.inj (hparse.symm.trans hkey')
    exact ⟨hne, rfl⟩
  · rintro ⟨hne, rfl⟩
    exact ⟨leaf, c, key, hleaf, hparse, hne, rfl⟩

theorem refuses_toBundle (seeds : Keystore.Seeds) (m : PemMaterial) (password : String) :
    Refuses (m.Fault seeds password) [.password, .certificateText, .keyText, .leaf, .chain, .key, .pair]
      (m.toBundle password) := by
  unfold toBundle
  refine refuses_guard (fun _ => Iff.rfl) fun _ => refuses_guard (fun _ => Iff.rfl) fun _ =>
    refuses_guard (fun _ => Iff.rfl) fun _ => ?_
  refine Refuses.bind (refuses_single fun _ => fault_leaf) fun leaf hleaf => ?_
  refine Refuses.bind (refuses_single fun _ => fault_chain) fun ders hders => ?_
  refine Refuses.bind (refuses_single fun _ => fault_key) fun key hkey => ?_
  obtain ⟨c, hc⟩ := Certificate.ofPem_iff_certifies.mp (mapError_eq_ok.mp hleaf)
  rw [keysMatch_of_certifies hc]
  refine Refuses.bind (refuses_pure (key.matchesPublicKey c.publicKey)) fun fits hfits => ?_
  obtain rfl := Except.ok.inj hfits
  exact refuses_guard (fun _ => fault_pair hc hkey) fun _ => refuses_pure _

/-- A bundle is encoded under its password, unless the codec refuses it. -/
theorem encode_eq_error {b : Bundle} (hp : password ≠ "") (h : b.encode seeds password = .error e) :
    ∃ x, e = .encode x := by
  unfold encode at h
  obtain ⟨-, h⟩ := (guard_eq_error.mp h).resolve_left fun hempty => hp hempty.1
  cases bind_eq_error.mp h with
  | inl hstored =>
    obtain ⟨der, -, hder⟩ := exists_of_mapM_eq_error hstored
    unfold stored at hder
    split at hder
    · cases hder
    · exact ⟨_, (Except.error.inj hder).symm⟩
  | inr hrest =>
    obtain ⟨certificates, -, hwrite⟩ := hrest
    split at hwrite
    · cases hwrite
    · exact ⟨_, (Except.error.inj hwrite).symm⟩

/-- The codec is asked for the bundle that the other stages have made. -/
theorem fault_codec {b : Bundle} (hp : password ≠ "") (hb : m.toBundle password = .ok b) :
    m.Fault seeds password .codec e ↔ b.encode seeds password = .error e := by
  obtain ⟨key, hleaf, hchain, hkey, hprivate, -⟩ := toBundle_eq_ok hb
  have hparse := mapError_eq_ok.mp hkey
  constructor
  · rintro ⟨leaf, c, ders, key', x, hleaf', hders, hkey', hencode, rfl⟩
    obtain rfl := Except.ok.inj (hleaf.symm.trans (Certificate.ofPem_iff_certifies.mpr ⟨c, hleaf'⟩))
    obtain rfl := Except.ok.inj (hparse.symm.trans hkey')
    have hchain' : decodeChain m.chain = .ok ders :=
      decodeChainFrom_eq_ok.mpr (hders.imp fun _ _ h => Certificate.ofPem_iff_certifies.mpr h)
    obtain rfl := Except.ok.inj (hchain.symm.trans hchain')
    rw [← hencode, ← hprivate]
  · intro hencode
    obtain ⟨x, rfl⟩ := encode_eq_error hp hencode
    obtain ⟨c, hc⟩ := Certificate.ofPem_iff_certifies.mp hleaf
    refine ⟨b.certificate, c, b.chain, key, x, hc, ?_, hparse, hprivate ▸ hencode, rfl⟩
    exact (decodeChainFrom_eq_ok.mp hchain).imp fun _ _ h => Certificate.ofPem_iff_certifies.mp h

/-- Packaging fails exactly with the first fault. -/
theorem refuses_package (seeds : Keystore.Seeds) (m : PemMaterial) (password : String) :
    Refuses (m.Fault seeds password) stages (m.package seeds password) := by
  refine (refuses_toBundle seeds m password).bind fun b hb => refuses_single fun e => fault_codec ?_ hb
  intro hp
  exact (refuses_toBundle seeds m password).not_fault hb .password List.mem_cons_self _ ⟨hp, rfl⟩

theorem mem_stages (s : Stage) : s ∈ stages := by
  cases s <;> decide

/-- Packaging either succeeds, and then no stage finds a fault, or it fails with the fault of the first stage that finds
one. What is written are the leaf and all certificates of the chain in their order, and the public key of the key that
is written is the one in the leaf. -/
theorem package_by_stages (seeds : Keystore.Seeds) (m : PemMaterial) (password : String) :
    (∀ e, m.package seeds password = .error e ↔ FirstFault (m.Fault seeds password) stages e) ∧
    ((∃ data, m.package seeds password = .ok data) ↔ ∀ s e, ¬ m.Fault seeds password s e) ∧
    ∀ data, m.package seeds password = .ok data → ∃ leaf c ders key k stored,
      Certificate.Certifies m.certificate leaf c ∧
      List.Forall₂ (fun text der => ∃ c, Certificate.Certifies text der c) m.chain ders ∧
      PrivateKey.parse m.privateKey (some (m.keySecret password)) = .ok key ∧
      Keystore.write seeds password label key.encoded (sha256.digest leaf) stored = some data ∧
      stored.map (·.der) = leaf :: ders ∧
      PrivateKey.ofPkcs8 key.encoded = .ok k ∧ k.publicKey = c.publicKey := by
  have hrefuses := refuses_package seeds m password
  refine ⟨hrefuses, ?_, fun data hdata => ?_⟩
  · constructor
    · rintro ⟨data, hdata⟩ s
      exact hrefuses.not_fault hdata s (mem_stages s)
    · intro hnone
      cases hpackage : m.package seeds password with
      | ok data => exact ⟨data, rfl⟩
      | error e =>
        obtain ⟨before, s, after, -, -, hs⟩ := (hrefuses e).mp hpackage
        exact absurd hs (hnone s e)
  · obtain ⟨b, hb, hencode⟩ := bind_eq_ok.mp hdata
    obtain ⟨key, hleaf, hchain, hkey, hprivate, hbelongs⟩ := toBundle_eq_ok hb
    obtain ⟨first, rest, hstored, hwrite⟩ := encode_eq_ok hencode
    obtain ⟨c, hc⟩ := Certificate.ofPem_iff_certifies.mp hleaf
    have hparse := mapError_eq_ok.mp hkey
    rw [hprivate] at hwrite
    have hpublic : key.publicKey = c.publicKey := by
      obtain ⟨p, -, -, -, hread⟩ := hc
      simpa [belongsTo, Certificate.parse_eq_ok.mpr hread, PrivateKey.matchesPublicKey] using hbelongs
    refine ⟨b.certificate, c, b.chain, key, key, first :: rest, hc, ?_, hparse, hwrite, ?_,
      PrivateKey.ofPkcs8_encoded hparse, hpublic⟩
    · exact (decodeChainFrom_eq_ok.mp hchain).imp fun _ _ h => Certificate.ofPem_iff_certifies.mp h
    · have hders : List.Forall₂ (· = ·) (b.certificate :: b.chain) ((first :: rest).map (·.der)) :=
        List.forall₂_map_right_iff.mpr (hstored.imp fun _ _ h => (Keystore.ofDer?_der h).1.symm)
      exact (List.forall₂_eq_eq_eq ▸ hders).symm

end
end PemMaterial
end CertRotation
