import CertRotation.Proofs.Bundle.RoundTrip
import CertRotation.Proofs.Pem.RoundTrip

/-!
# Bundles of any entries

Entries make a bundle if there is a key and a certificate among them. Its certificates are those of all entries, each
once, and its leaf is the first that belongs to the first key, wherever in the entries it stands.
-/
namespace CertRotation.Bundle

/-! ## The first certificate for a key -/

/-- A key is inspected as if it stood in a PEM block of its own. -/
theorem inspectKey?_eq (key : Bytes) :
    inspectKey? key = (PrivateKey.parse (⟨"PRIVATE KEY", [], key⟩ : Pem).encode none).toOption := by
  have hblock : Pem.parse (⟨"PRIVATE KEY", [], key⟩ : Pem).encode = .ok ⟨"PRIVATE KEY", [], key⟩ :=
    Pem.parse_encode (by decide) (by decide) key
  rw [inspectKey?, PrivateKey.parse, hblock]
  rfl

/-- The first certificate that carries the public half of the key, or the first of all if there is none or if the key
cannot be inspected. -/
def leafOf? (key : Bytes) (certificates : List Bytes) : Option Bytes :=
  match (PrivateKey.parse (⟨"PRIVATE KEY", [], key⟩ : Pem).encode none).toOption with
  | some k => (certificates.find? (belongsTo k)).or certificates.head?
  | none => certificates.head?

theorem head?_eraseDups (l : List Bytes) : l.eraseDups.head? = l.head? := by
  cases l with
  | nil => rfl
  | cons b l => rw [List.eraseDups_cons, List.head?_cons, List.head?_cons]

theorem find?_eraseDups (p : Bytes → Bool) (l : List Bytes) : l.eraseDups.find? p = l.find? p := by
  match l with
  | [] => rfl
  | b :: l =>
    have ih := find?_eraseDups p (l.filter fun c => !c == b)
    rw [List.eraseDups_cons]
    by_cases hb : p b = true
    · rw [List.find?_cons_of_pos hb, List.find?_cons_of_pos hb]
    · -- what equals `b` is not looked for either
      have hsame : (fun c => decide ((!c == b) = true ∧ p c = true)) = p := by
        funext c
        by_cases hc : c = b
        · simp [hc, hb]
        · simp [hc]
      rw [List.find?_cons_of_neg hb, List.find?_cons_of_neg hb, ih, List.find?_filter, hsame]
termination_by l.length
decreasing_by
  have := List.length_filter_le (fun c => !c == b) l
  simp only [List.length_cons]
  omega

/-- Repetitions make no difference to the leaf. -/
theorem leafOf?_eraseDups (key : Bytes) (l : List Bytes) : leafOf? key l.eraseDups = leafOf? key l := by
  unfold leafOf?
  split
  · rw [find?_eraseDups, head?_eraseDups]
  · exact head?_eraseDups l

theorem getElem?_findIdx?_getD (p : Bytes → Bool) (l : List Bytes) :
    l[(l.findIdx? p).getD 0]? = (l.find? p).or l.head? := by
  cases hindex : l.findIdx? p with
  | none =>
    have hnone : l.find? p = none := by simpa using List.findIdx?_eq_none_iff.mp hindex
    rw [hnone, Option.none_or, Option.getD_none, List.head?_eq_getElem?]
  | some n =>
    obtain ⟨hn, hp, hbefore⟩ := List.findIdx?_eq_some_iff_getElem.mp hindex
    have hfind : l.find? p = some l[n] := by
      rw [List.find?_eq_some_iff_getElem]
      exact ⟨hp, n, hn, rfl, fun j hj => by simpa using hbefore j hj⟩
    rw [hfind, Option.some_or, Option.getD_some, List.getElem?_eq_getElem hn]

theorem getElem?_leafIndex (key : Bytes) (l : List Bytes) : l[leafIndex key l]? = leafOf? key l := by
  unfold leafIndex leafOf?
  rw [inspectKey?_eq]
  cases (PrivateKey.parse (⟨"PRIVATE KEY", [], key⟩ : Pem).encode none).toOption with
  | none => exact List.head?_eq_getElem?.symm
  | some k => exact getElem?_findIdx?_getD (belongsTo k) l

theorem leafOf?_eq_none {key : Bytes} {l : List Bytes} : leafOf? key l = none ↔ l = [] := by
  unfold leafOf?
  split
  · rw [Option.or_eq_none_iff, List.head?_eq_none_iff]
    exact ⟨And.right, fun h => ⟨by rw [h]; rfl, h⟩⟩
  · exact List.head?_eq_none_iff

/-- The leaf and the others in their order are all certificates, each once. -/
theorem perm_leaf_orderChain {leaf : Bytes} {l : List Bytes} {n : Nat} (h : l[n]? = some leaf) :
    (leaf :: orderChain leaf (l.eraseIdx n)).Perm l := by
  obtain ⟨hn, rfl⟩ := List.getElem?_eq_some_iff.mp h
  exact ((perm_orderChain _ _).cons _).trans (List.getElem_cons_eraseIdx_perm hn)

/-! ## Entries -/

theorem keyOf?_eq_none {entries : List Keystore.Entry} :
    keyOf? entries = none ↔ ∀ key own, .keyChain key own ∉ entries := by
  induction entries with
  | nil => simp [keyOf?]
  | cons e entries ih =>
    cases e with
    | keyChain key own => exact ⟨fun h => by simp [keyOf?] at h, fun h => absurd List.mem_cons_self (h key own)⟩
    | certificate der => simp [keyOf?, ih]

theorem keyOf?_eq_some {entries : List Keystore.Entry} {key : Bytes} :
    keyOf? entries = some key ↔ ∃ before own after, entries = before ++ .keyChain key own :: after ∧
      ∀ e ∈ before, ∃ der, e = .certificate der := by
  induction entries with
  | nil => simp [keyOf?]
  | cons e entries ih =>
    cases e with
    | keyChain key' own =>
      constructor
      · intro h
        obtain rfl := Option.some.inj h
        exact ⟨[], own, entries, rfl, by simp⟩
      · rintro ⟨before, own', after, heq, hbefore⟩
        cases before with
        | nil =>
          obtain ⟨rfl, -⟩ := Keystore.Entry.keyChain.inj (List.cons.inj heq).1
          rfl
        | cons e before =>
          obtain ⟨der, rfl⟩ := hbefore e List.mem_cons_self
          simp at heq
    | certificate der =>
      rw [keyOf?, ih]
      constructor
      · rintro ⟨before, own, after, rfl, hbefore⟩
        exact ⟨.certificate der :: before, own, after, rfl, by simpa using hbefore⟩
      · rintro ⟨before, own, after, heq, hbefore⟩
        cases before with
        | nil => simp at heq
        | cons e before =>
          exact ⟨before, own, after, (List.cons.inj heq).2, fun e he => hbefore e (List.mem_cons_of_mem _ he)⟩

theorem mem_certificatesOf {entries : List Keystore.Entry} {c : Bytes} :
    c ∈ certificatesOf entries ↔ (∃ key own, .keyChain key own ∈ entries ∧ c ∈ own) ∨ .certificate c ∈ entries := by
  rw [certificatesOf, List.mem_flatMap]
  constructor
  · rintro ⟨e, he, hc⟩
    cases e with
    | keyChain key own => exact .inl ⟨key, own, he, hc⟩
    | certificate der => exact .inr (List.mem_singleton.mp hc ▸ he)
  · rintro (⟨key, own, he, hc⟩ | he)
    · exact ⟨_, he, hc⟩
    · exact ⟨_, he, List.mem_singleton_self c⟩

theorem decode_of_read {data : Bytes} {password : String} {named : Keystore.Entries}
    (h : Keystore.read data password = .ok named) :
    decode data password = (ofEntries (named.map (·.2))).mapError fun e => .decode (.entries e) := by
  rw [decode, h]

/-- Entries without a key make no bundle, and neither do entries without a certificate. All others do: the key is that
of the first entry with one, the certificates are those of all entries, each once, and the leaf is the first of them
that belongs to the key. What is read from a keystore file is the bundle of its entries. -/
theorem ofEntries_complete (entries : List Keystore.Entry) :
    ((∀ key own, .keyChain key own ∉ entries) ∧ ofEntries entries = .error .noPrivateKey ∨
      (∃ key own, .keyChain key own ∈ entries) ∧ (∀ key own, .keyChain key own ∈ entries → own = []) ∧
        (∀ der, .certificate der ∉ entries) ∧ ofEntries entries = .error .noCertificate ∨
      ∃ before key own after leaf chain, entries = before ++ .keyChain key own :: after ∧
        (∀ e ∈ before, ∃ der, e = .certificate der) ∧ ofEntries entries = .ok ⟨key, leaf, chain⟩ ∧
        leafOf? key (certificatesOf entries) = some leaf ∧ (leaf :: chain).Nodup ∧
        (∀ c, c ∈ leaf :: chain ↔
          (∃ key own, .keyChain key own ∈ entries ∧ c ∈ own) ∨ .certificate c ∈ entries) ∧
        leafIndex key (certificatesOf entries).eraseDups < (certificatesOf entries).eraseDups.length) ∧
    ∀ data password named, Keystore.read data password = .ok named → named.map (·.2) = entries →
      decode data password = (ofEntries entries).mapError fun e => .decode (.entries e) := by
  refine ⟨?_, fun data password named hread hentries => hentries ▸ decode_of_read hread⟩
  cases hkey : keyOf? entries with
  | none => exact .inl ⟨keyOf?_eq_none.mp hkey, by rw [ofEntries, hkey]⟩
  | some key =>
    obtain ⟨before, own, after, hentries, hbefore⟩ := keyOf?_eq_some.mp hkey
    have hleaf := getElem?_leafIndex key (certificatesOf entries).eraseDups
    rw [leafOf?_eraseDups] at hleaf
    cases hfirst : leafOf? key (certificatesOf entries) with
    | none =>
      have hempty : ∀ c, c ∉ certificatesOf entries := by simp [leafOf?_eq_none.mp hfirst]
      simp only [mem_certificatesOf, not_or, not_exists, not_and] at hempty
      refine .inr (.inl ⟨⟨key, own, by simp [hentries]⟩, fun key own he => ?_, fun c => (hempty c).2, ?_⟩)
      · exact List.eq_nil_iff_forall_not_mem.mpr fun c => (hempty c).1 key own he
      · simp only [ofEntries, hkey, hleaf, hfirst]
    | some leaf =>
      rw [hfirst] at hleaf
      have hperm := perm_leaf_orderChain hleaf
      refine .inr (.inr ⟨before, key, own, after, leaf, _, hentries, hbefore, by simp only [ofEntries, hkey, hleaf],
        hfirst, hperm.nodup_iff.mpr (nodup_eraseDups _), fun c => ?_, (List.getElem?_eq_some_iff.mp hleaf).1⟩)
      rw [hperm.mem_iff, List.mem_eraseDups, mem_certificatesOf]

end CertRotation.Bundle
