import Mathlib.Data.List.Find
import Mathlib.Data.List.Nodup
import CertRotation.Keystore.Attributes
import CertRotation.Proofs.Asn1.DerRoundTrip
import CertRotation.Proofs.Text.Utf16RoundTrip

/-!
# Attributes are read as they were written

Attributes are a set, so they come back in an order of their own. Their types differ, and then the order does not
matter to what they say.
-/
namespace CertRotation.Keystore.Attributes

/-- The attributes that are written, each with the one value that it has. -/
def written (name id : Option Bytes) (trusted : Bool) : List (Oid × Der.Element) :=
  (name.map fun b => (friendlyNameOid, ⟨0x1e, b⟩)).toList ++ (id.map fun b => (localKeyIdOid, ⟨0x04, b⟩)).toList ++
    if trusted then [(trustedUseOid, ⟨0x06, anyUseOid.contents⟩)] else []

def encodePair (p : Oid × Der.Element) : Bytes := encodeOne p.1 (Der.Write.tlv p.2.tag p.2.contents)

def attributeOf (p : Oid × Der.Element) : Attribute := ⟨p.1, [p.2]⟩

theorem isStrict_friendlyNameOid : friendlyNameOid.isStrict = true := by cbv
theorem isStrict_localKeyIdOid : localKeyIdOid.isStrict = true := by cbv
theorem isStrict_trustedUseOid : trustedUseOid.isStrict = true := by cbv
theorem friendlyNameOid_ne_localKeyIdOid : friendlyNameOid ≠ localKeyIdOid := by decide_cbv
theorem friendlyNameOid_ne_trustedUseOid : friendlyNameOid ≠ trustedUseOid := by decide
theorem localKeyIdOid_ne_trustedUseOid : localKeyIdOid ≠ trustedUseOid := by decide

theorem mem_written {name id : Option Bytes} {trusted : Bool} {p : Oid × Der.Element}
    (h : p ∈ written name id trusted) : p.1.isStrict = true ∧ Der.isTag p.2.tag = true := by
  simp only [written, List.mem_append, Option.mem_toList, Option.map_eq_some_iff] at h
  rcases h with (⟨b, -, rfl⟩ | ⟨b, -, rfl⟩) | h
  · exact ⟨isStrict_friendlyNameOid, show Der.isTag 0x1e = true by decide⟩
  · exact ⟨isStrict_localKeyIdOid, show Der.isTag 0x04 = true by decide⟩
  · cases trusted with
    | false => simp at h
    | true =>
      obtain rfl := List.mem_singleton.mp h
      exact ⟨isStrict_trustedUseOid, by decide⟩

theorem nodup_written (name id : Option Bytes) (trusted : Bool) :
    ((written name id trusted).map Prod.fst).Nodup := by
  cases name <;> cases id <;> cases trusted <;>
    simp [written, friendlyNameOid_ne_localKeyIdOid, friendlyNameOid_ne_trustedUseOid, localKeyIdOid_ne_trustedUseOid]

/-! ## One attribute -/

theorem reads_attribute {p : Oid × Der.Element} (ho : p.1.isStrict = true) (ht : Der.isTag p.2.tag = true)
    (h : Der.Fits (encodePair p)) : Der.Reads attributeReader (encodePair p) (attributeOf p) := by
  obtain ⟨o, t, c⟩ := p
  have hset : Der.Fits (Der.Write.set [Der.Write.tlv t c]) :=
    Der.Fits.sequence
      (show Der.Fits (Der.Write.sequence [Der.Write.oid o, Der.Write.set [Der.Write.tlv t c]]) from h) (by simp)
  have hc : Der.Fits [Der.Write.tlv t c].flatten := by
    simpa [Der.Write.sortItems] using hset.contents
  have hread := Der.reads_element (t := t) (c := c) ht (hc.item (List.mem_singleton_self _)).contents
  obtain ⟨values, hperm, hvalues⟩ := Der.reads_setOf (r := Der.element) [⟨t, c⟩] (by simp) hc
    (by
      intro x hx
      obtain rfl := List.mem_singleton.mp hx
      exact ⟨t, c, ht, rfl⟩)
    (.cons hread.whole .nil)
  obtain rfl := List.perm_singleton.mp hperm
  apply Der.reads_sequence h.contents
  apply Der.whole?_of_run
  have hlast := hvalues []
  rw [List.append_nil] at hlast
  simp only [List.flatten_cons, List.flatten_nil, List.append_nil, StateT.run_bind, Der.reads_oid ho _,
    Option.bind_eq_bind, Option.bind_some, hlast, StateT.run_pure]
  rfl

/-! ## What attributes say -/

theorem value?_of_perm {type : Oid} {l l' : List Attribute} (hp : l.Perm l') (hd : (l'.map Attribute.type).Nodup) :
    value? type l = value? type l' := by
  have hfind : l'.find? (fun a => a.type = type) = l.find? (fun a => a.type = type) := by
    refine List.find?_eq_find?_of_perm hp.symm ?_
    rintro a ⟨ha, hat⟩ b ⟨hb, hbt⟩
    simp only [decide_eq_true_eq] at hat hbt
    exact List.inj_on_of_nodup_map hd ha hb (hat.trans hbt.symm)
  rw [value?, value?, hfind]

theorem ofList_of_perm {l l' : List Attribute} (hp : l.Perm l') (hd : (l'.map Attribute.type).Nodup) :
    ofList l = ofList l' := by
  simp only [ofList, value?_of_perm hp hd]

/-- The written attributes say what they were written for. -/
theorem ofList_written {name : Option String} {units : Option Bytes} (id : Option Bytes) (trusted : Bool)
    (h : units.bind Utf16.decodeBasic? = name) :
    ofList ((written units id trusted).map attributeOf) = ⟨name, id, trusted⟩ := by
  cases units <;> cases id <;> cases trusted <;>
    simp [ofList, value?, written, attributeOf, friendlyNameOid_ne_localKeyIdOid, friendlyNameOid_ne_trustedUseOid,
      localKeyIdOid_ne_trustedUseOid, friendlyNameOid_ne_localKeyIdOid.symm, friendlyNameOid_ne_trustedUseOid.symm,
      localKeyIdOid_ne_trustedUseOid.symm, ← h]

theorem encode?_eq_some {a : Attributes} {b : Bytes} (h : a.encode? = some b) :
    ∃ units : Option Bytes, units.bind Utf16.decodeBasic? = a.friendlyName ∧
      (written units a.localKeyId a.trusted = [] ∧ b = [] ∨ written units a.localKeyId a.trusted ≠ [] ∧
        b = Der.Write.set ((written units a.localKeyId a.trusted).map encodePair)) := by
  obtain ⟨name, id, trusted⟩ := a
  cases name with
  | none =>
    refine ⟨none, rfl, ?_⟩
    cases id <;> cases trusted <;>
      simpa [encode?, written, encodePair, Der.Write.octetString, Der.Write.oid] using h.symm
  | some s =>
    cases hs : Utf16.encodeBasic? s with
    | none => simp [encode?, hs] at h
    | some u =>
      refine ⟨some u, Utf16.decodeBasic?_of_encode hs, ?_⟩
      cases id <;> cases trusted <;>
        simpa [encode?, written, encodePair, hs, Der.Write.octetString, Der.Write.oid] using h.symm

/-- Attributes come back from the set that they were written as; without any there is no set. -/
theorem reads_encode {a : Attributes} {b : Bytes} (h : a.encode? = some b) (hb : Der.Fits b) :
    b = [] ∧ a = {} ∨ (∃ c, b = 0x31 :: c) ∧ Der.Reads reader b a := by
  obtain ⟨units, hunits, ⟨hnone, rfl⟩ | ⟨-, rfl⟩⟩ := encode?_eq_some h
  · have hsay := ofList_written a.localKeyId a.trusted hunits
    rw [hnone] at hsay
    exact .inl ⟨rfl, hsay.symm⟩
  · right
    refine ⟨⟨_, rfl⟩, ?_⟩
    have hd := nodup_written units a.localKeyId a.trusted
    obtain ⟨l, hl⟩ : ∃ l, l = written units a.localKeyId a.trusted := ⟨_, rfl⟩
    rw [← hl] at hd hb ⊢
    have hitems : Der.Fits (l.map encodePair).flatten := by
      have := hb.contents
      rwa [Der.Fits, (Der.perm_sortItems _).flatten.length_eq] at this
    have hread : ∀ p ∈ l, Der.Reads attributeReader (encodePair p) (attributeOf p) := fun p hp =>
      have hw := mem_written (hl ▸ hp)
      reads_attribute hw.1 hw.2 (hitems.item (List.mem_map_of_mem hp))
    have hinj : (l.map encodePair).Nodup := by
      refine (List.Nodup.of_map Prod.fst hd).map_on fun p hp q hq hpq => ?_
      have hp' := (hread p hp).whole
      rw [hpq, (hread q hq).whole] at hp'
      exact List.inj_on_of_nodup_map hd hp hq (congrArg Attribute.type (Option.some.inj hp')).symm
    obtain ⟨values, hperm, hvalues⟩ := Der.reads_setOf (r := attributeReader) (l.map attributeOf) hinj hitems
      (by
        intro x hx
        obtain ⟨p, -, rfl⟩ := List.mem_map.mp hx
        exact ⟨0x30, _, by decide, rfl⟩)
      (by
        rw [List.forall₂_map_left_iff, List.forall₂_map_right_iff, List.forall₂_same]
        exact fun p hp => (hread p hp).whole)
    have hsay : ofList values = a := by
      rw [ofList_of_perm hperm (by simpa [attributeOf, Function.comp_def] using hd), hl, ofList_written _ _ hunits]
    rw [← hsay]
    exact hvalues.map ofList

end CertRotation.Keystore.Attributes
