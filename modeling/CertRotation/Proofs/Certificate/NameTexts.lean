import CertRotation.Asn1.Write
import CertRotation.Bundle.Basic
import CertRotation.Proofs.Asn1.OidText
import CertRotation.Proofs.Certificate.PartTexts
import CertRotation.Proofs.Certificate.Validity
import CertRotation.Proofs.Text.PlainText
import Mathlib.Data.List.Nodup

/-!
# Names by their text

Nothing is escaped in the text of a name, and it shows neither the string types nor the lengths of the encoding, so that names
may look alike. Still the text determines the parts of a name whose values are well-formed text that contains no separator,
as long as every attribute type has values of one string type only, and such a name determines its encoding in DER.
-/
namespace CertRotation.Certificate
open Asn1

/-! ## Keys -/

/-- A character that neither separates attributes nor ends a key. -/
def IsKeyChar (c : Char) : Prop := c ≠ ',' ∧ c ≠ '+' ∧ c ≠ '='

def keys : List (Oid × String) := shortKeys ++ longKeys

set_option maxRecDepth 4000 in
theorem keys_distinct : (keys.map (·.2)).Nodup := by decide

set_option maxRecDepth 4000 in
theorem keys_plain : ∀ e ∈ keys, e.2.toList.all fun c => c ≠ ',' && c ≠ '+' && c ≠ '=' && c ≠ '(' := by decide

theorem attributeKey_cases (o : Oid) : (o, attributeKey o) ∈ keys ∨ attributeKey o = "OID(" ++ o.text ++ ")" := by
  have hmem : ∀ {l : List (Oid × String)} {k : String}, l.lookup o = some k → (o, k) ∈ l := by
    intro l k h
    obtain ⟨before, after, rfl, -⟩ := List.lookup_eq_some_iff.mp h
    simp
  unfold attributeKey keys
  split
  · next k hk => exact .inl (List.mem_append_left _ (hmem hk))
  · cases hk : longKeys.lookup o with
    | none => exact .inr rfl
    | some k => exact .inl (List.mem_append_right _ (hmem hk))

theorem keys_chars {e : Oid × String} (h : e ∈ keys) {c : Char} (hc : c ∈ e.2.toList) : IsKeyChar c ∧ c ≠ '(' := by
  have hall := List.all_eq_true.mp (keys_plain e h) c hc
  simp only [ne_eq, decide_not, Bool.and_eq_true, Bool.not_eq_true', decide_eq_false_iff_not] at hall
  exact ⟨⟨hall.1.1.1, hall.1.1.2, hall.1.2⟩, hall.2⟩

theorem isKeyChar_of_mem {o : Oid} {c : Char} (h : c ∈ (attributeKey o).toList) : IsKeyChar c := by
  rcases attributeKey_cases o with hmem | hkey
  · exact (keys_chars hmem h).1
  · rw [hkey, String.toList_append, String.toList_append, List.mem_append, List.mem_append] at h
    have hnot : ∀ d, (d = ',' ∨ d = '+' ∨ d = '=') → d ∉ "OID(".toList ∧ d ∉ o.text.toList ∧ d ∉ ")".toList := by
      rintro d hd
      have htext : d ∉ o.text.toList := by
        intro hmem
        rcases hd with rfl | rfl | rfl <;> exact absurd (Oid.mem_text hmem) (by decide)
      rcases hd with rfl | rfl | rfl <;> exact ⟨by decide, htext, by decide⟩
    have hplain : ∀ d, (d = ',' ∨ d = '+' ∨ d = '=') → c ≠ d := by
      rintro d hd rfl
      obtain ⟨h1, h2, h3⟩ := hnot c hd
      rcases h with (h | h) | h
      · exact h1 h
      · exact h2 h
      · exact h3 h
    exact ⟨hplain _ (.inl rfl), hplain _ (.inr (.inl rfl)), hplain _ (.inr (.inr rfl))⟩

theorem mem_attributeKey_of_text {o : Oid} (h : attributeKey o = "OID(" ++ o.text ++ ")") :
    '(' ∈ (attributeKey o).toList := by
  rw [h, String.toList_append, String.toList_append]
  exact List.mem_append_left _ (List.mem_append_left _ (by decide))

/-- Types that are written with the same key are the same. -/
theorem attributeKey_injective {o o' : Oid} (ho : o.IsWritten) (ho' : o'.IsWritten)
    (h : attributeKey o = attributeKey o') : o = o' := by
  rcases attributeKey_cases o with hmem | hkey
  · rcases attributeKey_cases o' with hmem' | hkey'
    · have hsame := List.inj_on_of_nodup_map keys_distinct hmem hmem' h
      exact congrArg Prod.fst hsame
    · exact absurd rfl (keys_chars hmem (h ▸ mem_attributeKey_of_text hkey')).2
  · rcases attributeKey_cases o' with hmem' | hkey'
    · exact absurd rfl (keys_chars hmem' (h ▸ mem_attributeKey_of_text hkey)).2
    · rw [hkey, hkey', String.append_left_inj, String.append_right_inj] at h
      exact Oid.text_injective ho ho' h

/-! ## Attributes -/

theorem infix_of_infix_append {a b e : Char} {k v : List Char} (ha : a ≠ e) (hb : b ≠ e) (hk : a ∉ k ∨ b ∉ k)
    (h : [a, b] <:+: k ++ e :: v) : [a, b] <:+: v := by
  induction k with
  | nil =>
    rcases List.infix_cons_iff.mp h with hstart | hrest
    · exact absurd (List.cons_prefix_cons.mp hstart).1 ha
    · exact hrest
  | cons c k ih =>
    rcases List.infix_cons_iff.mp h with hstart | hrest
    · obtain ⟨rfl, hnext⟩ := List.cons_prefix_cons.mp hstart
      have hb' : b ∉ a :: k := hk.resolve_left fun hnot => hnot List.mem_cons_self
      cases k with
      | nil => exact absurd (List.cons_prefix_cons.mp hnext).1 hb
      | cons d k =>
        obtain ⟨rfl, -⟩ := List.cons_prefix_cons.mp hnext
        exact absurd (List.mem_cons_of_mem a List.mem_cons_self) hb'
    · exact ih (hk.imp List.not_mem_of_not_mem_cons List.not_mem_of_not_mem_cons) hrest

/-- A key ends at the first sign of equality. -/
theorem key_eq_of_append {e : Char} {k k' v v' : List Char} (hk : e ∉ k) (hk' : e ∉ k')
    (h : k ++ e :: v = k' ++ e :: v') : k = k' ∧ v = v' := by
  have hnil : ∀ {d z z' : List Char}, e ∉ d → e :: z = d ++ e :: z' → d = [] := by
    intro d z z' hd heq
    cases d with
    | nil => rfl
    | cons c d => exact absurd ((List.cons.inj heq).1 ▸ List.mem_cons_self) hd
  have hkeys : k = k' := by
    rcases List.append_eq_append_iff.mp h with ⟨d, rfl, hd⟩ | ⟨d, rfl, hd⟩
    · rw [hnil (fun hmem => hk' (List.mem_append_right _ hmem)) hd, List.append_nil]
    · rw [hnil (fun hmem => hk (List.mem_append_right _ hmem)) hd, List.append_nil]
  subst hkeys
  exact ⟨rfl, (List.cons.inj (List.append_cancel_left h)).2⟩

namespace Attribute

/-- An attribute with well-formed text in which no separator begins. -/
structure Legible (a : Attribute) : Prop where
  type : a.type.IsWritten
  value : ∃ text, a.valueText? = some text ∧ ¬ [',', ' '] <:+: text.toList ∧ ¬ [' ', '+'] <:+: text.toList
  pairs : a.form = wideForm → 2 ∣ a.value.length

/-- The encoding in DER. -/
def encode (a : Attribute) : Bytes :=
  Der.Write.sequence [Der.Write.oid a.type, Der.Write.tlv (UInt8.ofNat a.form) a.value]

section
variable {a a' : Attribute} {s : String}

theorem toList_of_text? (h : a.text? = some s) :
    ∃ v, a.valueText? = some v ∧ s.toList = (attributeKey a.type).toList ++ '=' :: v.toList := by
  obtain ⟨v, hv, rfl⟩ := Option.map_eq_some_iff.mp h
  refine ⟨v, hv, ?_⟩
  rw [String.toList_append, String.toList_append, List.append_assoc]
  rfl

theorem Legible.clear (h : a.Legible) (hs : a.text? = some s) : Clear s.toList ∧ s.toList ≠ [] := by
  obtain ⟨v, hv, hlist⟩ := toList_of_text? hs
  obtain ⟨text, htext, hcomma, hplus⟩ := h.value
  obtain rfl := Option.some.inj (hv.symm.trans htext)
  have hkey : ∀ c ∈ (attributeKey a.type).toList, IsKeyChar c := fun c hc => isKeyChar_of_mem hc
  rw [hlist]
  refine ⟨⟨fun hin => hcomma ?_, fun hin => hplus ?_, ?_⟩, by simp⟩
  · exact infix_of_infix_append (by decide) (by decide) (.inl fun hc => (hkey _ hc).1 rfl) hin
  · exact infix_of_infix_append (by decide) (by decide) (.inr fun hc => (hkey _ hc).2.1 rfl) hin
  · cases hchars : (attributeKey a.type).toList with
    | nil => simp
    | cons c k =>
      have hc := hkey c (hchars ▸ List.mem_cons_self)
      simpa using hc.2.1

/-- In one form a text has one value. -/
theorem value_eq (hform : a.form = a'.form) (hpairs : a.form = wideForm → 2 ∣ a.value.length)
    (hpairs' : a'.form = wideForm → 2 ∣ a'.value.length) (hs : a.valueText? = some s) (hs' : a'.valueText? = some s) :
    a.value = a'.value := by
  unfold valueText? at hs hs'
  rw [← hform] at hs' hpairs'
  split at hs
  · next htext =>
    rw [if_pos htext] at hs'
    exact Utf8.decode?_injective hs hs'
  · next htext =>
    rw [if_neg htext] at hs'
    split at hs
    · next hwide =>
      rw [if_pos hwide] at hs'
      exact Utf16.decodeUneven?_injective (hpairs hwide) (hpairs' hwide) hs hs'
    · next hwide =>
      rw [if_neg hwide] at hs'
      exact Bytes.upperHex_injective (Option.some.inj (hs.trans hs'.symm))

theorem Legible.eq_of_text? (h : a.Legible) (h' : a'.Legible) (hform : a.type = a'.type → a.form = a'.form)
    (hs : a.text? = some s) (hs' : a'.text? = some s) : a = a' := by
  obtain ⟨v, hv, hlist⟩ := toList_of_text? hs
  obtain ⟨v', hv', hlist'⟩ := toList_of_text? hs'
  have hkey : ∀ o, '=' ∉ (attributeKey o).toList := fun o hc => (isKeyChar_of_mem hc).2.2 rfl
  obtain ⟨hkeys, hvalues⟩ := key_eq_of_append (hkey _) (hkey _) (hlist.symm.trans hlist')
  have htype := attributeKey_injective h.type h'.type (String.toList_inj.mp hkeys)
  obtain rfl := String.toList_inj.mp hvalues
  have hvalue := value_eq (hform htype) h.pairs h'.pairs hv hv'
  cases a
  cases a'
  simp only [Attribute.mk.injEq]
  exact ⟨htype, hform htype, hvalue⟩

end
end Attribute

/-! ## Names -/

namespace Name

/-- All attributes have well-formed text in which no separator begins. -/
def Legible (n : Name) : Prop := ∀ part ∈ n.parts, ∀ a ∈ part, a.Legible

/-- Attributes of one type have values in one form. -/
def SameForms (n n' : Name) : Prop :=
  ∀ part ∈ n.parts, ∀ a ∈ part, ∀ part' ∈ n'.parts, ∀ a' ∈ part', a.type = a'.type → a.form = a'.form

/-- The texts of the attributes, part by part. -/
def HasTexts (parts : List (List Attribute)) (texts : List (List String)) : Prop :=
  List.Forall₂ (List.Forall₂ fun a s => a.text? = some s) parts texts

/-- The text of a part. -/
def partText? (attributes : List Attribute) : Option String := (attributes.mapM Attribute.text?).map " + ".intercalate

section
variable {n n' : Name} {parts parts' : List (List Attribute)} {texts : List (List String)} {t : String}

theorem text?_eq (n : Name) : n.text? = (n.parts.mapM partText?).map ", ".intercalate := by
  have hpart : partText? = fun attributes =>
      attributes.mapM Attribute.text? >>= fun texts => pure (" + ".intercalate texts) :=
    funext fun attributes => Option.map_eq_bind
  rw [hpart, Option.map_eq_bind]
  rfl

theorem exists_texts (h : n.text? = some t) :
    ∃ texts, HasTexts n.parts texts ∧ t = ", ".intercalate (texts.map " + ".intercalate) := by
  rw [text?_eq] at h
  obtain ⟨partTexts, hparts, rfl⟩ := Option.map_eq_some_iff.mp h
  have htexts : ∀ l : List (List Attribute), List.Forall₂ (fun attributes s => partText? attributes = some s) l partTexts →
      ∃ texts, HasTexts l texts ∧ partTexts = texts.map " + ".intercalate := by
    intro l hl
    clear h hparts
    induction hl with
    | nil => exact ⟨[], .nil, rfl⟩
    | cons hpart hrest ih =>
      obtain ⟨texts, htexts, rfl⟩ := ih
      obtain ⟨strings, hstrings, rfl⟩ := Option.map_eq_some_iff.mp hpart
      exact ⟨strings :: texts, .cons (mapM_eq_some.mp hstrings) htexts, rfl⟩
  exact (htexts _ (mapM_eq_some.mp hparts)).imp fun texts => And.imp id (congrArg _)

theorem toList_texts (texts : List (List String)) :
    (", ".intercalate (texts.map " + ".intercalate)).toList = partsText (texts.map (List.map String.toList)) := by
  rw [String.toList_intercalate, partsText, List.map_map, List.map_map]
  congr 1
  exact List.map_congr_left fun part _ => String.toList_intercalate

theorem exists_mapM {α β : Type} {f : α → Option β} {l : List α} (h : ∀ a ∈ l, ∃ b, f a = some b) :
    ∃ m, l.mapM f = some m := by
  induction l with
  | nil => exact ⟨[], rfl⟩
  | cons a l ih =>
    obtain ⟨hfirst, hrest⟩ := List.forall_mem_cons.mp h
    obtain ⟨b, hb⟩ := hfirst
    obtain ⟨m, hm⟩ := ih hrest
    exact ⟨b :: m, mapM_eq_some.mpr (.cons hb (mapM_eq_some.mp hm))⟩

theorem Legible.exists_text? (h : n.Legible) : ∃ t, n.text? = some t := by
  have hattribute : ∀ part ∈ n.parts, ∀ a ∈ part, ∃ s, a.text? = some s := by
    intro part hpart a ha
    obtain ⟨v, hv, -⟩ := (h part hpart a ha).value
    exact ⟨_, Option.map_eq_some_iff.mpr ⟨v, hv, rfl⟩⟩
  have hparts : ∀ part ∈ n.parts, ∃ s, partText? part = some s := by
    intro part hpart
    obtain ⟨strings, hstrings⟩ := exists_mapM (hattribute part hpart)
    exact ⟨_, Option.map_eq_some_iff.mpr ⟨strings, hstrings, rfl⟩⟩
  obtain ⟨partTexts, hpartTexts⟩ := exists_mapM hparts
  rw [text?_eq]
  exact ⟨_, Option.map_eq_some_iff.mpr ⟨partTexts, hpartTexts, rfl⟩⟩

theorem HasTexts.readable (h : HasTexts parts texts) (hparts : [] ∉ parts)
    (hlegible : ∀ part ∈ parts, ∀ a ∈ part, a.Legible) : Readable (texts.map (List.map String.toList)) := by
  refine ⟨fun hnil => ?_, fun part hpart s hs => ?_⟩
  · obtain ⟨strings, hstrings, hempty⟩ := List.mem_map.mp hnil
    obtain ⟨part, hpart, htexts⟩ := exists_of_mem_right h hstrings
    obtain rfl := List.map_eq_nil_iff.mp hempty
    cases htexts
    exact hparts hpart
  · obtain ⟨strings, hstrings, rfl⟩ := List.mem_map.mp hpart
    obtain ⟨string, hstring, rfl⟩ := List.mem_map.mp hs
    obtain ⟨attributes, hattributes, htexts⟩ := exists_of_mem_right h hstrings
    obtain ⟨a, ha, htext⟩ := exists_of_mem_right htexts hstring
    exact (hlegible attributes hattributes a ha).clear htext

/-- What is related to the same things, one by one, is the same. -/
theorem eq_of_forall₂ {α β : Type} {R : α → β → Prop} {l l' : List α} {m : List β} (h : List.Forall₂ R l m)
    (h' : List.Forall₂ R l' m) (hR : ∀ a ∈ l, ∀ a' ∈ l', ∀ b, R a b → R a' b → a = a') : l = l' := by
  induction h generalizing l' with
  | nil =>
    cases h'
    rfl
  | cons hfirst hrest ih =>
    cases h' with
    | cons hfirst' hrest' =>
      have hheads := hR _ List.mem_cons_self _ List.mem_cons_self _ hfirst hfirst'
      have htails := ih hrest' fun a ha a' ha' => hR a (List.mem_cons_of_mem _ ha) a' (List.mem_cons_of_mem _ ha')
      rw [hheads, htails]

/-- Legible names with one text have the same parts. -/
theorem parts_eq_of_text_eq (hn : [] ∉ n.parts) (hn' : [] ∉ n'.parts) (hl : n.Legible) (hl' : n'.Legible)
    (hforms : SameForms n n') (h : n.text = n'.text) : n.parts = n'.parts := by
  obtain ⟨t, ht⟩ := hl.exists_text?
  obtain ⟨t', ht'⟩ := hl'.exists_text?
  rw [text, text, ht, ht', Option.getD_some, Option.getD_some] at h
  obtain ⟨texts, htexts, rfl⟩ := exists_texts ht
  obtain ⟨texts', htexts', rfl⟩ := exists_texts ht'
  have hparts := congrArg String.toList h
  rw [toList_texts, toList_texts] at hparts
  have hchars := partsText_injective (htexts.readable hn hl) (htexts'.readable hn' hl') hparts
  have hinjective : Function.Injective (List.map String.toList) := List.map_injective_iff.mpr fun _ _ => String.toList_inj.mp
  obtain rfl := List.map_injective_iff.mpr hinjective hchars
  refine eq_of_forall₂ htexts htexts' fun part hpart part' hpart' strings hs hs' => ?_
  refine eq_of_forall₂ hs hs' fun a ha a' ha' s => ?_
  exact (hl part hpart a ha).eq_of_text? (hl' part' hpart' a' ha') (hforms part hpart a ha part' hpart' a' ha')

/-! ## Encodings -/

theorem yields_attributeSet : Yields attributeSet (· ≠ []) := by
  refine Yields.inside (fun b attributes rest h => ?_) 17
  obtain ⟨⟨read, unread⟩, -, h⟩ := Option.bind_eq_some_iff.mp h
  dsimp only at h
  split at h
  · cases h
  · next hne =>
    obtain ⟨rfl, -⟩ := Prod.mk.inj (Option.some.inj h)
    exact hne

/-- Every part of a name that was read has an attribute. -/
theorem yields_name : Yields name fun n => [] ∉ n.parts := by
  intro b n rest h hnil
  obtain ⟨_, _, _, _, _, -, -, -, hmany⟩ := raw_of_run_name h
  exact yields_attributeSet.many _ _ _ _ hmany _ hnil rfl

end

/-- The encoding of parts in DER. -/
def encode (parts : List (List Attribute)) : Bytes :=
  Der.Write.sequence (parts.map fun attributes => Der.Write.tlv 0x31 (attributes.map Attribute.encode).flatten)

/-- The name was read from the encoding of its parts in DER. -/
def InDer (n : Name) : Prop := n.raw = encode n.parts

end Name

open CertRotation.Bundle (issuerName? subjectName?)

theorem issuerName?_of_parse {der : Bytes} {c : Certificate} (h : parse der = .ok c) :
    issuerName? der = some c.issuer.raw := by
  rw [issuerName?, parse_eq_ok.mp h, Option.map_some]

theorem subjectName?_of_parse {der : Bytes} {c : Certificate} (h : parse der = .ok c) :
    subjectName? der = some c.subject.raw := by
  rw [subjectName?, parse_eq_ok.mp h, Option.map_some]

/-- What the flag looks at is the texts of the two names. -/
theorem exists_summary {der : Bytes} {c : Certificate} (h : parse der = .ok c) :
    ∃ s, summary der = .ok s ∧ (s.isSelfSigned = true ↔ c.issuer.text = c.subject.text) := by
  refine ⟨_, bind_eq_ok.mpr ⟨c, h, rfl⟩, ?_⟩
  rw [Summary.isSelfSigned, decide_eq_true_iff, eq_comm]

/-- The flag says whether the names have one text, as they do if they have one encoding. If the names are legible, and none of
their attribute types has values in two forms, it says whether they have the same parts, and in DER whether they have one
encoding, by which certificates are put in order. -/
theorem selfSigned_agrees (der : Bytes) (s : Summary) (h : summary der = .ok s) :
    ∃ c, parse der = .ok c ∧ issuerName? der = some c.issuer.raw ∧ subjectName? der = some c.subject.raw ∧
      (s.isSelfSigned = true ↔ c.issuer.text = c.subject.text) ∧
      (issuerName? der = subjectName? der → s.isSelfSigned = true) ∧
      (c.issuer.Legible → c.subject.Legible → c.issuer.SameForms c.subject →
        (s.isSelfSigned = true ↔ c.issuer.parts = c.subject.parts) ∧
        (c.issuer.InDer → c.subject.InDer → (s.isSelfSigned = true ↔ issuerName? der = subjectName? der))) := by
  obtain ⟨c, hc, -⟩ := bind_eq_ok.mp h
  obtain ⟨s', hs', hflag⟩ := exists_summary hc
  obtain rfl := Except.ok.inj (h.symm.trans hs')
  obtain ⟨⟨x, y, hissuer⟩, x', y', hsubject⟩ := names_of_read? (parse_eq_ok.mp hc)
  have hraw : issuerName? der = subjectName? der ↔ c.issuer.raw = c.subject.raw := by
    rw [issuerName?_of_parse hc, subjectName?_of_parse hc, Option.some_inj]
  have htext : c.issuer.raw = c.subject.raw → c.issuer.text = c.subject.text := text_eq_of_raw_eq hissuer hsubject
  refine ⟨c, hc, issuerName?_of_parse hc, subjectName?_of_parse hc, hflag, fun heq => hflag.mpr (htext (hraw.mp heq)),
    fun hl hl' hforms => ?_⟩
  have hparts : c.issuer.text = c.subject.text ↔ c.issuer.parts = c.subject.parts := by
    constructor
    · exact Name.parts_eq_of_text_eq (Name.yields_name _ _ _ hissuer) (Name.yields_name _ _ _ hsubject) hl hl' hforms
    · intro heq
      rw [Name.text, Name.text, Name.text?_eq, Name.text?_eq, heq]
  refine ⟨hflag.trans hparts, fun hd hd' => ?_⟩
  rw [hraw, hflag.trans hparts]
  constructor
  · intro heq
    rw [hd, hd', heq]
  · exact parts_eq_of_raw_eq hissuer hsubject

/-! ## Names that look alike -/

/-- A certificate with the encoded names of its issuer and its subject. -/
def certificateOf (issuer subject : Bytes) : Bytes :=
  let algorithm : Bytes := Der.Write.oid (.ofArcs [2, 5, 4, 3])
  Der.Write.sequence [
    Der.Write.sequence [Der.Write.natural 3, Der.Write.sequence [algorithm], issuer,
      Der.Write.sequence [Der.Write.tlv 0x17 (Bytes.ofString "250101000000Z"),
        Der.Write.tlv 0x17 (Bytes.ofString "260101000000Z")],
      subject, Der.Write.sequence [Der.Write.sequence [algorithm], Der.Write.bitString [0]]],
    Der.Write.sequence [algorithm], Der.Write.bitString [0]]

/-- A common name, in a form. -/
def commonName (form : Nat) (value : Bytes) : Attribute := ⟨.ofArcs [2, 5, 4, 3], form, value⟩

def organization (value : String) : Attribute := ⟨.ofArcs [2, 5, 4, 10], 12, Bytes.ofString value⟩

/-- Names that differ in the form of a value, in what a separator separates, in values that are no text, in an arc, in whether a
unit has one octet or two, and in how a length is written. -/
def lookalikes : List (Bytes × Bytes) := [
  (Name.encode [[commonName 12 (Bytes.ofString "x")]], Name.encode [[commonName 19 (Bytes.ofString "x")]]),
  (Name.encode [[commonName 12 (Bytes.ofString "x, O=y")]],
    Name.encode [[commonName 12 (Bytes.ofString "x")], [organization "y"]]),
  (Name.encode [[commonName 12 (Bytes.ofString "x + O=y")]],
    Name.encode [[commonName 12 (Bytes.ofString "x"), organization "y"]]),
  (Name.encode [[commonName 12 [0xff]]], Name.encode [[commonName 12 [0xfe]]]),
  (Name.encode [[⟨⟨[0x2a, 0x80, 0x01]⟩, 12, []⟩]], Name.encode [[⟨⟨[0x2a, 0x01]⟩, 12, []⟩]]),
  (Name.encode [[commonName 30 [0x41]]], Name.encode [[commonName 30 [0x00, 0x41]]]),
  (Name.encode [], [0x30, 0x81, 0x00])]

/-- A name with two parts. -/
def authority : List (List Attribute) := [[⟨.ofArcs [2, 5, 4, 6], 19, Bytes.ofString "NL"⟩], [organization "ca,inc."]]

/-- Whether a certificate is taken for self-signed though its names are different. -/
def misleads (der : Bytes) : Bool :=
  (parse der).toOption.any fun c => c.issuer.text = c.subject.text && c.issuer.raw ≠ c.subject.raw

theorem lookalikes_mislead : (lookalikes.all fun p => misleads (certificateOf p.1 p.2)) = true ∧
    (parse (certificateOf (Name.encode authority) (Name.encode authority))).toOption.map (fun c => (c.issuer, c.subject)) =
      some (⟨authority, Name.encode authority⟩, ⟨authority, Name.encode authority⟩) := by
  decide +kernel

theorem legible_ofString (first : UInt8) (arcs : List Nat) {form : Nat} {s : String} {cs : List Char}
    (hform : textForms.contains form = true) (hs : s.toList = cs) (h : ∀ c ∈ cs, c.toNat < 128)
    (hcomma : ¬ [',', ' '] <:+: cs) (hplus : ¬ [' ', '+'] <:+: cs) :
    Attribute.Legible ⟨Oid.written first arcs, form, Bytes.ofString s⟩ := by
  subst hs
  refine ⟨⟨first, arcs, rfl⟩, ⟨s, ?_, hcomma, hplus⟩, ?_⟩
  · rw [Attribute.valueText?, if_pos hform]
    exact Utf8.decode?_ofString h
  · rintro rfl
    exact absurd hform (by decide)

theorem legible_authority : Name.Legible ⟨authority, Name.encode authority⟩ := by
  have hcountry : Oid.ofArcs [2, 5, 4, 6] = Oid.written 85 [4, 6] := rfl
  have horganization : Oid.ofArcs [2, 5, 4, 10] = Oid.written 85 [4, 10] := rfl
  unfold Name.Legible authority organization
  rw [hcountry, horganization]
  intro part hpart a ha
  rcases List.mem_cons.mp hpart with rfl | hpart
  · obtain rfl := List.mem_singleton.mp ha
    have hchars : "NL".toList = ['N', 'L'] := by decide
    exact legible_ofString 85 [4, 6] (by decide) hchars (ascii_of_all (by decide)) (by decide) (by decide)
  · obtain rfl := List.mem_singleton.mp hpart
    obtain rfl := List.mem_singleton.mp ha
    have hchars : "ca,inc.".toList = ['c', 'a', ',', 'i', 'n', 'c', '.'] := by decide
    exact legible_ofString 85 [4, 10] (by decide) hchars (ascii_of_all (by decide)) (by decide) (by decide)

theorem sameForms_authority : Name.SameForms ⟨authority, Name.encode authority⟩ ⟨authority, Name.encode authority⟩ := by
  unfold Name.SameForms
  decide

theorem selfSigned_agrees_authority : ∃ s, summary (certificateOf (Name.encode authority) (Name.encode authority)) = .ok s ∧
    (s.isSelfSigned = true ↔ issuerName? (certificateOf (Name.encode authority) (Name.encode authority)) =
      subjectName? (certificateOf (Name.encode authority) (Name.encode authority))) ∧
    s.isSelfSigned = true := by
  obtain ⟨c, hparsed, hnames⟩ := Option.map_eq_some_iff.mp lookalikes_mislead.2
  obtain ⟨hissuer, hsubject⟩ := Prod.mk.inj hnames
  have hparse := toOption_eq_some.mp hparsed
  obtain ⟨s, hsummary, -⟩ := exists_summary hparse
  obtain ⟨c', hparse', hissuerName, hsubjectName, -, hraw, hlegible⟩ := selfSigned_agrees _ s hsummary
  obtain rfl := Except.ok.inj (hparse.symm.trans hparse')
  rw [hissuer, hsubject] at hlegible
  obtain ⟨-, hencoded⟩ := hlegible legible_authority legible_authority sameForms_authority
  refine ⟨s, hsummary, hencoded rfl rfl, hraw ?_⟩
  rw [hissuerName, hsubjectName, hissuer, hsubject]

/-- A certificate with these names is taken for self-signed, and it is put in order as one with two different names. -/
def Misleading (names : Bytes × Bytes) : Prop :=
  ∃ s, summary (certificateOf names.1 names.2) = .ok s ∧ s.isSelfSigned = true ∧
    issuerName? (certificateOf names.1 names.2) ≠ subjectName? (certificateOf names.1 names.2)

theorem misleading_of_misleads {names : Bytes × Bytes} (h : misleads (certificateOf names.1 names.2) = true) :
    Misleading names := by
  obtain ⟨c, hparsed, hc⟩ := (Option.any_eq_true _ _).mp h
  have hparse := toOption_eq_some.mp hparsed
  obtain ⟨s, hsummary, hflag⟩ := exists_summary hparse
  rw [Bool.and_eq_true, decide_eq_true_iff, decide_eq_true_iff] at hc
  refine ⟨s, hsummary, hflag.mpr hc.1, ?_⟩
  rw [issuerName?_of_parse hparse, subjectName?_of_parse hparse]
  exact fun heq => hc.2 (Option.some.inj heq)

/-- All these certificates are taken for self-signed. -/
theorem lookalikes_selfSigned : lookalikes.Forall Misleading :=
  List.forall_iff_forall_mem.mpr fun names hnames =>
    misleading_of_misleads (List.all_eq_true.mp lookalikes_mislead.1 names hnames)

end CertRotation.Certificate
