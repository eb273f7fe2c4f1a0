import Mathlib.Data.List.Chain
import Mathlib.Data.List.Induction
import Mathlib.Data.List.Nodup
import CertRotation.Proofs.Bundle.RoundTrip
import CertRotation.Proofs.Certificate.Names

/-!
# The way to the issuers

A keystore follows the issuers of a leaf by the texts of their names, and where the way leads back to itself it goes round
until as many certificates are taken as there are. What is left, once repetitions are gone, is linked: each certificate is
issued by the next, and no two have the same subject. Linked certificates are found as they stand.
-/
namespace CertRotation.Bundle

/-! ## Walks -/

section
variable {α : Type} {R : α → α → Prop}

/-- A walk whose every step is determined by where it stands visits all it ever visits before it comes to anything again. -/
theorem exists_prefix_of_walk (hR : ∀ a b c, R a b → R a c → b = c) {l : List α} (h : l.IsChain R) :
    ∃ p, p <+: l ∧ p.Nodup ∧ ∀ x ∈ l, x ∈ p := by
  induction l using List.reverseRecOn with
  | nil => exact ⟨[], List.prefix_rfl, List.nodup_nil, by simp⟩
  | append_singleton l x ih =>
    obtain ⟨p, ⟨q, rfl⟩, hnodup, hmem⟩ := ih h.left_of_append
    by_cases hx : x ∈ p
    · refine ⟨p, ⟨q ++ [x], (List.append_assoc _ _ _).symm⟩, hnodup, fun y hy => ?_⟩
      rcases List.mem_append.mp hy with hy | hy
      · exact hmem y hy
      · rwa [List.mem_singleton.mp hy]
    · cases q with
      | nil =>
        refine ⟨p ++ [x], ⟨[], by simp⟩, ?_, fun y hy => ?_⟩
        · exact List.nodup_append.mpr ⟨hnodup, List.nodup_singleton x, fun y hy z hz => by
            rw [List.mem_singleton.mp hz]
            exact fun heq => hx (heq ▸ hy)⟩
        · simpa using hy
      | cons z q =>
        -- where the walk stands last, it has stood before, and went from there to where it goes now
        obtain ⟨y, hy⟩ := List.getLast?_isSome.mpr (show p ++ z :: q ≠ [] by simp) |> Option.isSome_iff_exists.mp
        have hyx : R y x := (List.isChain_append.mp h).2.2 y hy x rfl
        obtain ⟨before, after, rfl⟩ := List.append_of_mem (hmem y (List.mem_of_getLast? hy))
        have hstep := h.left_of_append
        rw [List.append_assoc] at hstep
        have hnext := (List.isChain_cons.mp hstep.right_of_append).1
        cases after with
        | nil =>
          rw [hR y x z hyx (hnext z rfl)] at hx
          exact absurd (hmem z (by simp)) hx
        | cons w after =>
          rw [hR y x w hyx (hnext w rfl)] at hx
          simp at hx

theorem eraseDups_of_nodup {l : List Bytes} (h : l.Nodup) : l.eraseDups = l := by
  induction l with
  | nil => rfl
  | cons b l ih =>
    obtain ⟨hb, hl⟩ := List.nodup_cons.mp h
    have hfilter : l.filter (fun c => !c == b) = l := by
      rw [List.filter_eq_self]
      intro c hc
      have hne : c ≠ b := fun heq => hb (heq ▸ hc)
      simpa using hne
    rw [List.eraseDups_cons, hfilter, ih hl]

/-- Of a list whose beginning holds all its members, each once, repetitions leave just that. -/
theorem eraseDups_of_prefix {l p : List Bytes} (hp : p <+: l) (hn : p.Nodup) (hl : ∀ x ∈ l, x ∈ p) :
    l.eraseDups = p := by
  obtain ⟨q, rfl⟩ := hp
  have hq : q.removeAll p = [] := by
    rw [List.removeAll, List.filter_eq_nil_iff]
    exact fun x hx => by simpa using hl x (List.mem_append_right p hx)
  rw [List.eraseDups_append, hq, List.eraseDups_nil, List.append_nil]
  exact eraseDups_of_nodup hn

end

/-! ## Linked certificates -/

def issuerText? (der : Bytes) : Option String := (Certificate.read? der).map fun c => c.1.issuer.text

def subjectText? (der : Bytes) : Option String := (Certificate.read? der).map fun c => c.1.subject.text

/-- Each certificate is issued by the next one, and no two have the same subject. -/
structure Linked (leaf : Bytes) (chain : List Bytes) : Prop where
  issued : (leaf :: chain).IsChain fun c d => issuerText? c = subjectText? d
  distinct : ((leaf :: chain).map subjectText?).Nodup

theorem subjectText?_of_subjectName? {c d name : Bytes} (hc : issuerName? c = some name) (hd : subjectName? d = some name) :
    issuerText? c = subjectText? d := by
  obtain ⟨x, hx, rfl⟩ := Option.map_eq_some_iff.mp hc
  obtain ⟨y, hy, hraw⟩ := Option.map_eq_some_iff.mp hd
  obtain ⟨⟨_, _, hissuer⟩, -⟩ := Certificate.names_of_read? hx
  obtain ⟨-, _, _, hsubject⟩ := Certificate.names_of_read? hy
  rw [issuerText?, subjectText?, hx, hy, Option.map_some, Option.map_some]
  exact congrArg some (Certificate.text_eq_of_raw_eq hissuer hsubject hraw.symm)

theorem Linked.tail {leaf b : Bytes} {l : List Bytes} (h : Linked leaf (b :: l)) : Linked b l :=
  ⟨h.issued.tail, (List.nodup_cons.mp h.distinct).2⟩

theorem takeIssuer?_eq_some {current next : Bytes} {rest others : List Bytes}
    (h : takeIssuer? current rest = some (next, others)) :
    next ∈ rest ∧ others = rest.erase next ∧ issuerText? current = subjectText? next := by
  unfold takeIssuer? at h
  split at h
  · cases h
  · next name hname =>
    split at h
    · cases h
    · next found hfound =>
      obtain ⟨rfl, rfl⟩ := Prod.mk.inj (Option.some.inj h)
      have hsubject := List.find?_some hfound
      simp only [Bool.and_eq_true, decide_eq_true_eq] at hsubject
      exact ⟨List.mem_of_find?_eq_some hfound, rfl, subjectText?_of_subjectName? hname hsubject.1⟩

/-- Linked certificates stand in the order of their issuers, also by the encodings of their names. -/
theorem orderChain_of_linked {leaf : Bytes} {chain : List Bytes} (h : Linked leaf chain) :
    orderChain leaf chain = chain := by
  fun_induction orderChain leaf chain with
  | case1 leaf chain htake => rfl
  | case2 leaf chain next others htake ih =>
    obtain ⟨hmem, rfl, htext⟩ := takeIssuer?_eq_some htake
    obtain ⟨b, l, rfl⟩ := List.exists_cons_of_ne_nil (List.ne_nil_of_mem hmem)
    -- no other certificate of the chain has the subject of the first
    have hsame : subjectText? next = subjectText? b := htext.symm.trans ((List.isChain_cons.mp h.issued).1 b rfl)
    obtain rfl : next = b := List.inj_on_of_nodup_map (List.nodup_cons.mp h.distinct).2 hmem List.mem_cons_self hsame
    rw [List.erase_cons_head] at ih ⊢
    rw [ih h.tail]

/-! ## The certificates that are kept -/

section
open Keystore (StoredCertificate issuers)
variable {candidates : List StoredCertificate} {leafSubject : String} {fuel : Nat}

/-- `d` is the certificate that is taken for the issuer of `c`. -/
def Issues (candidates : List StoredCertificate) (c d : StoredCertificate) : Prop :=
  candidates.find? (fun d => d.subject = c.issuer) = some d

theorem issues_unique (c d e : StoredCertificate) (hd : Issues candidates c d) (he : Issues candidates c e) : d = e :=
  Option.some.inj (hd.symm.trans he)

theorem issues_of_mem_issuers (leaf : StoredCertificate) :
    (leaf :: issuers candidates leafSubject fuel leaf.issuer).IsChain (Issues candidates) := by
  induction fuel generalizing leaf with
  | zero => exact List.isChain_singleton leaf
  | succ fuel ih =>
    rw [issuers]
    split
    · exact List.isChain_singleton leaf
    · next d hd =>
      split
      · exact List.isChain_singleton leaf
      · split
        · exact List.isChain_pair.mpr hd
        · exact List.isChain_cons.mpr ⟨fun e he => Option.some.inj he ▸ hd, ih d⟩

/-- What is kept has another subject than the leaf and is the first candidate with its own. -/
theorem subject_of_mem_issuers {issuer : String} {c : StoredCertificate}
    (h : c ∈ issuers candidates leafSubject fuel issuer) :
    c.subject ≠ leafSubject ∧ candidates.find? (fun d => d.subject = c.subject) = some c := by
  induction fuel generalizing issuer with
  | zero => simp [issuers] at h
  | succ fuel ih =>
    rw [issuers] at h
    split at h
    · simp at h
    · next d hd =>
      have hsubject : d.subject = issuer := by simpa using List.find?_some hd
      split at h
      · simp at h
      · next hne =>
        have hself : d.subject ≠ leafSubject ∧ candidates.find? (fun e => e.subject = d.subject) = some d :=
          ⟨hne, hsubject ▸ hd⟩
        split at h
        · rwa [List.mem_singleton.mp h]
        · rcases List.mem_cons.mp h with rfl | h
          · exact hself
          · exact ih h

/-- The certificate is known by the texts of its own names. -/
def Named (c : StoredCertificate) : Prop := subjectText? c.der = some c.subject ∧ issuerText? c.der = some c.issuer

theorem named_of_ofDer? {der : Bytes} {attributes : Keystore.Attributes} {c : StoredCertificate}
    (h : StoredCertificate.ofDer? der attributes = some c) : Named c := by
  obtain ⟨x, hx, rfl⟩ := Option.map_eq_some_iff.mp h
  exact ⟨by rw [subjectText?, hx]; rfl, by rw [issuerText?, hx]; rfl⟩

/-- Whether certificates are linked shows in the texts that a keystore keeps with them. -/
theorem linked_iff {leaf : StoredCertificate} {l : List StoredCertificate} (h : ∀ c ∈ leaf :: l, Named c) :
    Linked leaf.der (l.map (·.der)) ↔
      (leaf :: l).IsChain (fun c d => c.issuer = d.subject) ∧ ((leaf :: l).map (·.subject)).Nodup := by
  have hder : leaf.der :: l.map (·.der) = (leaf :: l).map StoredCertificate.der := rfl
  have hissued : (leaf.der :: l.map (·.der)).IsChain (fun c d => issuerText? c = subjectText? d) ↔
      (leaf :: l).IsChain fun c d => c.issuer = d.subject := by
    rw [hder, List.isChain_map]
    refine List.IsChain.iff_of_mem_imp fun c d hc hd => ?_
    rw [(h c hc).2, (h d hd).1, Option.some_inj]
  have hdistinct : (leaf.der :: l.map (·.der)).map subjectText? = ((leaf :: l).map (·.subject)).map some := by
    rw [hder, List.map_map, List.map_map]
    exact List.map_congr_left fun c hc => (h c hc).1
  constructor
  · exact fun hl => ⟨hissued.mp hl.issued, List.Nodup.of_map some (hdistinct ▸ hl.distinct)⟩
  · exact fun hl => ⟨hissued.mpr hl.1, hdistinct ▸ hl.2.map (Option.some_injective _)⟩

theorem Linked.nodup {leaf : Bytes} {chain : List Bytes} (h : Linked leaf chain) : (leaf :: chain).Nodup :=
  List.Nodup.of_map _ h.distinct

/-- The leaf itself is not among the issuers that a keystore finds. -/
theorem filter_issuers {leaf : StoredCertificate} (h : ∀ c ∈ leaf :: candidates, Named c) :
    ((issuers candidates leaf.subject fuel leaf.issuer).map (·.der)).filter (fun b => !b == leaf.der) =
      (issuers candidates leaf.subject fuel leaf.issuer).map (·.der) := by
  rw [List.filter_eq_self]
  intro b hb
  obtain ⟨c, hc, rfl⟩ := List.mem_map.mp hb
  obtain ⟨hsubject, hfirst⟩ := subject_of_mem_issuers hc
  have hnamed := h c (List.mem_cons_of_mem _ (List.mem_of_find?_eq_some hfirst))
  have hne : c.der ≠ leaf.der := fun heq =>
    hsubject (Option.some.inj (hnamed.1.symm.trans (heq ▸ (h leaf List.mem_cons_self).1)))
  simpa using hne

/-- The issuers that a keystore finds, each once, are linked with the leaf. -/
theorem linked_issuers {leaf : StoredCertificate} (h : ∀ c ∈ leaf :: candidates, Named c) :
    Linked leaf.der (((issuers candidates leaf.subject fuel leaf.issuer).map (·.der)).filter
      fun b => !b == leaf.der).eraseDups := by
  rw [filter_issuers h]
  have hwalk : (leaf :: issuers candidates leaf.subject fuel leaf.issuer).IsChain (Issues candidates) :=
    issues_of_mem_issuers leaf
  have hsubject : ∀ c ∈ issuers candidates leaf.subject fuel leaf.issuer,
      c.subject ≠ leaf.subject ∧ candidates.find? (fun d => d.subject = c.subject) = some c := fun _ =>
    subject_of_mem_issuers
  generalize issuers candidates leaf.subject fuel leaf.issuer = path at hwalk hsubject
  have hnamed : ∀ c ∈ path, Named c := fun c hc =>
    h c (List.mem_cons_of_mem _ (List.mem_of_find?_eq_some (hsubject c hc).2))
  obtain ⟨p, hkept, hnodup, hmem⟩ := exists_prefix_of_walk issues_unique hwalk.tail
  have hp : ∀ c ∈ leaf :: p, Named c := fun c hc => (List.mem_cons.mp hc).elim
    (fun hleaf => hleaf ▸ h leaf List.mem_cons_self) fun hc => hnamed c (hkept.subset hc)
  have hfront : (leaf :: p).IsChain (Issues candidates) :=
    List.IsChain.prefix hwalk (List.cons_prefix_cons.mpr ⟨rfl, hkept⟩)
  have hissued : (leaf :: p).IsChain fun c d => c.issuer = d.subject := hfront.imp fun c d hissues => by
    simpa [eq_comm] using List.find?_some hissues
  have hdistinct : ((leaf :: p).map (·.subject)).Nodup := by
    rw [List.map_cons, List.nodup_cons]
    constructor
    · intro hleaf
      obtain ⟨c, hc, heq⟩ := List.mem_map.mp hleaf
      exact (hsubject c (hkept.subset hc)).1 heq
    · -- of every subject the first candidate is kept
      refine List.Nodup.map_on (fun c hc d hd heq => Option.some.inj ?_) hnodup
      rw [← (hsubject c (hkept.subset hc)).2, ← (hsubject d (hkept.subset hd)).2, heq]
  have hlinked := (linked_iff hp).mpr ⟨hissued, hdistinct⟩
  have hsame : (path.map (·.der)).eraseDups = p.map (·.der) := by
    refine eraseDups_of_prefix (hkept.map _) (List.nodup_cons.mp hlinked.nodup).2 fun b hb => ?_
    obtain ⟨c, hc, rfl⟩ := List.mem_map.mp hb
    exact List.mem_map_of_mem (hmem c hc)
  rwa [hsame]

theorem linked_chainFrom {certificates : List StoredCertificate} {leaf : StoredCertificate} {rest : List Bytes}
    (h : ∀ c ∈ leaf :: certificates, Named c)
    (hrest : leaf.der :: rest = (Keystore.chainFrom certificates leaf).map (·.der)) :
    Linked leaf.der (rest.filter fun b => !b == leaf.der).eraseDups := by
  obtain ⟨-, rfl⟩ := List.cons.inj hrest
  refine linked_issuers fun c hc => h c ?_
  exact List.mem_cons.mpr ((List.mem_cons.mp hc).imp_right fun hmem => (List.mem_filter.mp hmem).1)

/-- Linked certificates are found one after the other. -/
theorem prefix_issuers {l : List StoredCertificate} (hmem : ∀ c ∈ l, c ∈ candidates)
    (hcandidates : (candidates.map (·.subject)).Nodup) (hsubject : ∀ c ∈ l, c.subject ≠ leafSubject)
    (hdistinct : (l.map (·.subject)).Nodup) (hfuel : l.length ≤ fuel) {leaf : StoredCertificate}
    (hchain : (leaf :: l).IsChain fun c d => c.issuer = d.subject) :
    l <+: issuers candidates leafSubject fuel leaf.issuer := by
  induction l generalizing leaf fuel with
  | nil => exact List.nil_prefix
  | cons c l ih =>
    obtain ⟨fuel, rfl⟩ : ∃ n, fuel = n + 1 := ⟨fuel - 1, by rw [List.length_cons] at hfuel; omega⟩
    obtain ⟨hhead, htail⟩ := List.isChain_cons.mp hchain
    have hissuer : leaf.issuer = c.subject := hhead c rfl
    have hc := hmem c List.mem_cons_self
    have hfind : candidates.find? (fun d => d.subject = leaf.issuer) = some c := by
      obtain ⟨d, hd⟩ := Option.isSome_iff_exists.mp (List.find?_isSome (p := fun d => decide (d.subject = leaf.issuer))
        |>.mpr ⟨c, hc, by simp [hissuer]⟩)
      have hsubject : d.subject = leaf.issuer := by simpa using List.find?_some hd
      rw [hd, List.inj_on_of_nodup_map hcandidates (List.mem_of_find?_eq_some hd) hc (hsubject.trans hissuer)]
    rw [issuers, hfind]
    dsimp only
    rw [if_neg (hsubject c List.mem_cons_self)]
    obtain ⟨hnot, hrest⟩ := List.nodup_cons.mp hdistinct
    have hnext : l <+: issuers candidates leafSubject fuel c.issuer :=
      ih (fun d hd => hmem d (List.mem_cons_of_mem _ hd)) (fun d hd => hsubject d (List.mem_cons_of_mem _ hd)) hrest
        (by rw [List.length_cons] at hfuel; omega) htail
    split
    · -- a certificate that issued itself has no other issuer
      next hself =>
      cases l with
      | nil => exact List.prefix_rfl
      | cons d l =>
        have hd : c.issuer = d.subject := (List.isChain_cons.mp htail).1 d rfl
        exact absurd (List.mem_map.mpr ⟨d, List.mem_cons_self, hd.symm.trans hself⟩) hnot
    · exact List.cons_prefix_cons.mpr ⟨rfl, hnext⟩

end

/-! ## Encoding what was decoded -/

/-- The certificates beside the leaf that are decoded from an encoded bundle. -/
def keptChain (leaf : Bytes) (chain : List Bytes) : List Bytes :=
  ((issuerPath leaf chain).filter fun der => !der == leaf).eraseDups

section
variable {leaf : Bytes} {chain : List Bytes} {c : Keystore.StoredCertificate} {rest : List Keystore.StoredCertificate}

theorem map_der_of_stored {l : List Bytes} {stored : List Keystore.StoredCertificate}
    (h : List.Forall₂ (fun der c => Keystore.StoredCertificate.ofDer? der {} = some c) l stored) :
    l = stored.map (·.der) ∧ ∀ d ∈ stored, Named d := by
  induction h with
  | nil => exact ⟨rfl, by simp⟩
  | cons hc _ ih =>
    refine ⟨by rw [List.map_cons, (Keystore.ofDer?_der hc).1, ← ih.1], fun d hd => ?_⟩
    rcases List.mem_cons.mp hd with rfl | hd
    · exact named_of_ofDer? hc
    · exact ih.2 d hd

theorem issuerPath_of_stored (h : List.Forall₂ (fun der c => Keystore.StoredCertificate.ofDer? der {} = some c)
    (leaf :: chain) (c :: rest)) :
    issuerPath leaf chain = (Keystore.issuers (c :: rest) c.subject (rest.length + 1) c.issuer).map (·.der) := by
  rw [issuerPath, mapM_eq_some.mpr h]

theorem keptChain_of_stored (h : List.Forall₂ (fun der c => Keystore.StoredCertificate.ofDer? der {} = some c)
    (leaf :: chain) (c :: rest)) : keptChain leaf chain =
      ((Keystore.issuers (c :: rest) c.subject (rest.length + 1) c.issuer).map (·.der)).eraseDups ∧
    Linked leaf (keptChain leaf chain) := by
  obtain ⟨hder, hnamed⟩ := map_der_of_stored h
  obtain ⟨rfl, -⟩ := List.cons.inj hder
  have hall : ∀ d ∈ c :: c :: rest, Named d := fun d hd =>
    (List.mem_cons.mp hd).elim (fun hc => hc ▸ hnamed c List.mem_cons_self) (hnamed d)
  rw [keptChain, issuerPath_of_stored h]
  exact ⟨by rw [filter_issuers hall], linked_issuers hall⟩

/-- A chain that is linked with the leaf is kept as it is. -/
theorem keptChain_of_linked (h : List.Forall₂ (fun der c => Keystore.StoredCertificate.ofDer? der {} = some c)
    (leaf :: chain) (c :: rest)) (hl : Linked leaf chain) : keptChain leaf chain = chain := by
  obtain ⟨hder, hnamed⟩ := map_der_of_stored h
  obtain ⟨rfl, rfl⟩ := List.cons.inj hder
  obtain ⟨hissued, hdistinct⟩ := (linked_iff hnamed).mp hl
  obtain ⟨hsubject, hrest⟩ := List.nodup_cons.mp hdistinct
  have hother : ∀ d ∈ rest, d.subject ≠ c.subject := fun d hd heq =>
    hsubject (List.mem_map.mpr ⟨d, hd, heq⟩)
  have hkept : rest <+: Keystore.issuers (c :: rest) c.subject (rest.length + 1) c.issuer :=
    prefix_issuers (fun d hd => List.mem_cons_of_mem c hd) hdistinct hother hrest (Nat.le_succ _) hissued
  rw [(keptChain_of_stored h).1]
  refine eraseDups_of_prefix (hkept.map _) (List.nodup_cons.mp hl.nodup).2 fun b hb => ?_
  obtain ⟨d, hd, rfl⟩ := List.mem_map.mp hb
  obtain ⟨hne, hfirst⟩ := subject_of_mem_issuers hd
  rcases List.mem_cons.mp (List.mem_of_find?_eq_some hfirst) with rfl | hmem
  · exact absurd rfl hne
  · exact List.mem_map_of_mem hmem

/-- What was encoded is decoded with its leaf and with the certificates that are linked with it. -/
theorem decode_encode_linked {seeds : Keystore.Seeds} {b : Bundle} {password : String} {data : Bytes}
    (h : b.encode seeds password = .ok data)
    (hk : ∀ k, inspectKey? b.privateKey = some k → belongsTo k b.certificate = true) :
    decode data password = .ok ⟨b.privateKey, b.certificate, keptChain b.certificate b.chain⟩ ∧
      Linked b.certificate (keptChain b.certificate b.chain) ∧
      (keptChain b.certificate b.chain = b.chain ↔ Linked b.certificate b.chain) := by
  obtain ⟨leaf, rest, hstored, -⟩ := encode_eq_ok h
  have hlinked := (keptChain_of_stored hstored).2
  refine ⟨?_, hlinked, fun heq => heq ▸ hlinked, keptChain_of_linked hstored⟩
  rw [decode_encode h hk, ← keptChain, orderChain_of_linked hlinked]

end

end CertRotation.Bundle
