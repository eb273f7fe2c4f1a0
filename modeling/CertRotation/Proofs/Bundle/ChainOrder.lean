import CertRotation.Proofs.Bundle.CanonicalForm

/-!
# The order of a chain

Ordering a chain walks along the issuers. From where it stands it goes to the first of the certificates left whose subject is
the issuer, and it ends where there is none: after at most as many steps as there are certificates, also where they have issued
each other. What the walk has passed by keeps its order, so that a second walk goes the same way and changes nothing.
-/
namespace CertRotation.Bundle

/-! ## Walking from issuer to issuer -/

/-- The subject of `next` is, octet for octet, the issuer that `current` names. Both can be read. -/
def Follows (current next : Bytes) : Prop := ∃ name, issuerName? current = some name ∧ subjectName? next = some name

/-- One step: the first certificate that follows is taken, and the others keep their order. -/
inductive Step (current : Bytes) : (left : List Bytes) → (next : Bytes) → (others : List Bytes) → Prop where
  | mk {before after : List Bytes} {next : Bytes} (follows : Follows current next)
      (passed : ∀ d ∈ before, ¬ Follows current d) : Step current (before ++ next :: after) next (before ++ after)

/-- Steps one after another until no certificate that is left follows. -/
inductive Walk : (current : Bytes) → (left path rest : List Bytes) → Prop where
  | stop {current : Bytes} {rest : List Bytes} (ended : ∀ d ∈ rest, ¬ Follows current d) : Walk current rest [] rest
  | step {current next : Bytes} {left others path rest : List Bytes} (first : Step current left next others)
      (onward : Walk next others path rest) : Walk current left (next :: path) rest

section
variable {leaf current next : Bytes} {left others path rest path' rest' : List Bytes}

/-! ## What a step does -/

theorem Step.follows (h : Step current left next others) : Follows current next := by
  cases h with
  | mk follows _ => exact follows

theorem Step.perm (h : Step current left next others) : (next :: others).Perm left := by
  cases h with
  | mk _ _ => exact List.perm_middle.symm

/-- What was taken does not come again. -/
theorem Step.nodup (h : Step current left next others) (hl : left.Nodup) : next ∉ others ∧ others.Nodup :=
  List.nodup_cons.mp (h.perm.nodup_iff.mpr hl)

theorem Step.others_eq (h : Step current left next others) (hl : left.Nodup) :
    others = left.filter fun d => d ≠ next := by
  obtain ⟨hnext, -⟩ := h.nodup hl
  cases h with
  | mk _ _ =>
    have hkept : ∀ d ∈ _, decide (d ≠ next) = true := fun d hd => decide_eq_true fun heq => hnext (heq ▸ hd)
    rw [← List.filter_eq_self.mpr hkept, List.filter_append, List.filter_append, List.filter_cons_of_neg (by simp)]

/-- The certificates in front of the one that is taken do not follow. -/
theorem Step.exists_passed (h : Step current left next others) :
    ∃ passed later, left = passed ++ next :: later ∧ ∀ d ∈ passed, ¬ Follows current d := by
  cases h with
  | mk _ passed => exact ⟨_, _, rfl, passed⟩

/-- A list has one first member that follows. -/
theorem first_unique {before after before' after' : List Bytes} {next' : Bytes}
    (h : before ++ next :: after = before' ++ next' :: after') (hnext : Follows current next)
    (hnext' : Follows current next') (hpassed : ∀ d ∈ before, ¬ Follows current d)
    (hpassed' : ∀ d ∈ before', ¬ Follows current d) : next = next' ∧ before ++ after = before' ++ after' := by
  induction before generalizing before' with
  | nil =>
    cases before' with
    | nil => exact List.cons.inj h
    | cons c before' =>
      obtain rfl := (List.cons.inj h).1
      exact absurd hnext (hpassed' next List.mem_cons_self)
  | cons c before ih =>
    cases before' with
    | nil =>
      obtain rfl := (List.cons.inj h).1
      exact absurd hnext' (hpassed c List.mem_cons_self)
    | cons c' before' =>
      obtain ⟨rfl, htail⟩ := List.cons.inj h
      obtain ⟨hsame, hothers⟩ := ih htail (fun d hd => hpassed d (List.mem_cons_of_mem _ hd))
        fun d hd => hpassed' d (List.mem_cons_of_mem _ hd)
      exact ⟨hsame, congrArg (c :: ·) hothers⟩

/-- There is one way to go on. -/
theorem Step.unique {next' : Bytes} {others' : List Bytes} (h : Step current left next others)
    (h' : Step current left next' others') : next = next' ∧ others = others' := by
  obtain @⟨before, after, _, hnext, hpassed⟩ := h
  generalize heq : before ++ next :: after = left at h'
  obtain @⟨before', after', _, hnext', hpassed'⟩ := h'
  exact first_unique heq hnext hnext' hpassed hpassed'

/-! ## What a walk does -/

theorem Walk.unique (h : Walk current left path rest) (h' : Walk current left path' rest') :
    path = path' ∧ rest = rest' := by
  induction h generalizing path' rest' with
  | stop hended =>
    cases h' with
    | stop _ => exact ⟨rfl, rfl⟩
    | step first _ => exact absurd first.follows (hended _ (first.perm.mem_iff.mp List.mem_cons_self))
  | step first _ ih =>
    cases h' with
    | stop hended => exact absurd first.follows (hended _ (first.perm.mem_iff.mp List.mem_cons_self))
    | step first' onward =>
      obtain ⟨rfl, rfl⟩ := first.unique first'
      obtain ⟨rfl, rfl⟩ := ih onward
      exact ⟨rfl, rfl⟩

/-- Nothing is lost, and nothing is added. -/
theorem Walk.perm (h : Walk current left path rest) : (path ++ rest).Perm left := by
  induction h with
  | stop _ => exact .refl _
  | step first _ ih => exact (ih.cons _).trans first.perm

theorem Walk.isChain (h : Walk current left path rest) : (current :: path).IsChain Follows := by
  induction h with
  | stop _ => exact List.isChain_singleton _
  | step first _ ih =>
    refine List.isChain_cons.mpr ⟨fun d hd => ?_, ih⟩
    obtain rfl := Option.some.inj hd
    exact first.follows

/-- A walk ends where none of the others follows. -/
theorem Walk.ended (h : Walk current left path rest) : ∀ d ∈ rest, ¬ Follows (path.getLastD current) d := by
  induction h with
  | stop hended => exact hended
  | step _ _ ih => rwa [List.getLastD_cons]

theorem filter_notMem_cons (next : Bytes) (path left : List Bytes) :
    left.filter (fun d => d ∉ next :: path) = (left.filter fun d => d ≠ next).filter fun d => d ∉ path := by
  rw [List.filter_filter]
  refine List.filter_congr fun d _ => ?_
  simp [Bool.and_comm]

/-- What is passed by keeps its order. -/
theorem Walk.rest_eq (h : Walk current left path rest) (hl : left.Nodup) : rest = left.filter fun d => d ∉ path := by
  induction h with
  | stop _ => simp
  | step first _ ih => rw [ih (first.nodup hl).2, filter_notMem_cons, ← first.others_eq hl]

/-- At every step the first of those that are left and follow is taken. -/
theorem Walk.first (h : Walk current left path rest) (hl : left.Nodup) {before after : List Bytes} {c : Bytes}
    (hpath : path = before ++ c :: after) : ∃ passed later, left.filter (fun d => d ∉ before) = passed ++ c :: later ∧
      ∀ d ∈ passed, ¬ Follows (before.getLastD current) d := by
  induction h generalizing before with
  | stop _ => simp at hpath
  | step first _ ih =>
    cases before with
    | nil =>
      obtain ⟨rfl, -⟩ := List.cons.inj hpath
      simpa using first.exists_passed
    | cons next before =>
      obtain ⟨rfl, htail⟩ := List.cons.inj hpath
      obtain ⟨passed, later, hleft, hpassed⟩ := ih (first.nodup hl).2 htail
      refine ⟨passed, later, ?_, by rwa [List.getLastD_cons]⟩
      rw [filter_notMem_cons, ← first.others_eq hl, hleft]

/-- A certificate that follows is found at once where it stands first. -/
theorem Step.head (h : Follows current next) : Step current (next :: left) next left :=
  @Step.mk current [] left next h (List.forall_mem_nil _)

/-- Who walks through the result goes the same way again. -/
theorem Walk.again (h : Walk current left path rest) : Walk current (path ++ rest) path rest := by
  induction h with
  | stop hended => exact .stop hended
  | step first _ ih => exact .step (.head first.follows) ih

/-- A way from issuer to issuer is walked as it stands. -/
theorem walk_of_isChain (h : (current :: left).IsChain Follows) : Walk current left left [] := by
  induction left generalizing current with
  | nil => exact .stop (by simp)
  | cons next left ih =>
    obtain ⟨hnext, honward⟩ := List.isChain_cons.mp h
    exact .step (.head (hnext next rfl)) (ih honward)

/-! ## Ordering is such a walk -/

theorem takeIssuer?_eq_none (hcurrent : current ∉ left) (h : takeIssuer? current left = none) :
    ∀ d ∈ left, ¬ Follows current d := by
  rintro d hd ⟨name, hissuer, hsubject⟩
  have hne : d ≠ current := fun heq => hcurrent (heq ▸ hd)
  simp only [takeIssuer?, hissuer] at h
  split at h
  · next hnone => exact absurd (List.find?_eq_none.mp hnone d hd) (by simp [hsubject, hne])
  · cases h

theorem step_of_takeIssuer? (hcurrent : current ∉ left) (h : takeIssuer? current left = some (next, others)) :
    Step current left next others := by
  unfold takeIssuer? at h
  split at h
  · cases h
  · next name hissuer =>
    split at h
    · cases h
    · next found hfound =>
      obtain ⟨rfl, rfl⟩ := Prod.mk.inj (Option.some.inj h)
      obtain ⟨htaken, before, after, rfl, hpassed⟩ := List.find?_eq_some_iff_append.mp hfound
      have hbefore : found ∉ before := fun hmem => by
        have hno := hpassed found hmem
        rw [htaken] at hno
        cases hno
      simp only [Bool.and_eq_true, decide_eq_true_eq] at htaken
      rw [List.erase_append_right _ hbefore, List.erase_cons_head]
      refine .mk ⟨name, hissuer, htaken.1⟩ ?_
      rintro d hd ⟨name', hissuer', hsubject⟩
      obtain rfl := Option.some.inj (hissuer.symm.trans hissuer')
      have hne : d ≠ current := fun heq => hcurrent (heq ▸ List.mem_append_left _ hd)
      simpa [hsubject, hne] using hpassed d hd

theorem walk_orderChain (hleaf : leaf ∉ left) (hl : left.Nodup) :
    ∃ path rest, Walk leaf left path rest ∧ orderChain leaf left = path ++ rest := by
  fun_induction orderChain leaf left with
  | case1 leaf left hnone => exact ⟨[], left, .stop (takeIssuer?_eq_none hleaf hnone), rfl⟩
  | case2 leaf left next others hsome ih =>
    have hstep := step_of_takeIssuer? hleaf hsome
    obtain ⟨path, rest, hwalk, horder⟩ := ih (hstep.nodup hl).1 (hstep.nodup hl).2
    exact ⟨next :: path, rest, .step hstep hwalk, congrArg (next :: ·) horder⟩

theorem orderChain_of_walk (hleaf : leaf ∉ left) (hl : left.Nodup) (h : Walk leaf left path rest) :
    orderChain leaf left = path ++ rest := by
  obtain ⟨path', rest', hwalk, horder⟩ := walk_orderChain hleaf hl
  obtain ⟨rfl, rfl⟩ := h.unique hwalk
  exact horder

/-- Ordering walks from the leaf as far as the issuers lead and puts the others behind, in the order in which they stood. A
chain that is a way from issuer to issuer stays as it is, and so does one that has been ordered. -/
theorem orderChain_path_rest (leaf : Bytes) (l : List Bytes) (hleaf : leaf ∉ l) (hl : l.Nodup) :
    (∃ path rest, Walk leaf l path rest ∧ orderChain leaf l = path ++ rest ∧ (path ++ rest).Perm l ∧
      (leaf :: path).IsChain Follows ∧
      (∀ before c after, path = before ++ c :: after → ∃ passed later,
        l.filter (fun d => d ∉ before) = passed ++ c :: later ∧ ∀ d ∈ passed, ¬ Follows (before.getLastD leaf) d) ∧
      (∀ d ∈ rest, ¬ Follows (path.getLastD leaf) d) ∧ rest = l.filter fun d => d ∉ path) ∧
    ((leaf :: l).IsChain Follows → orderChain leaf l = l) ∧
    orderChain leaf (orderChain leaf l) = orderChain leaf l := by
  obtain ⟨path, rest, hwalk, horder⟩ := walk_orderChain hleaf hl
  refine ⟨⟨path, rest, hwalk, horder, hwalk.perm, hwalk.isChain, fun before c after => hwalk.first hl, hwalk.ended,
    hwalk.rest_eq hl⟩, fun hchain => ?_, ?_⟩
  · rw [orderChain_of_walk hleaf hl (walk_of_isChain hchain), List.append_nil]
  · have hperm := hwalk.perm
    rw [horder, orderChain_of_walk (mt hperm.mem_iff.mp hleaf) (hperm.nodup_iff.mpr hl) hwalk.again]

end

/-- Octets that are no certificate, and two certificates that name themselves and each other as issuers. -/
def tangledChain : List Bytes := [[0], sampleCertificate 1, sampleCertificate 2]

/-- All three certificates have the nameless issuer, and two are nameless themselves. -/
theorem tangledChain_names : namedCertificate ∉ tangledChain ∧ tangledChain.Nodup ∧ subjectName? [0] = none ∧
    [namedCertificate, sampleCertificate 1, sampleCertificate 2].map issuerName? =
      List.replicate 3 (some (Der.Write.sequence [])) ∧
    [sampleCertificate 1, sampleCertificate 2].map subjectName? = List.replicate 2 (some (Der.Write.sequence [])) := by
  decide +kernel

theorem walk_tangledChain : Walk namedCertificate tangledChain [sampleCertificate 1, sampleCertificate 2] [[0]] := by
  obtain ⟨-, -, hnone, hissuers, hsubjects⟩ := tangledChain_names
  simp only [List.map_cons, List.map_nil, List.replicate_succ, List.replicate_zero, List.cons.injEq, and_true]
    at hissuers hsubjects
  have hpassed : ∀ current, ∀ d ∈ [[0]], ¬ Follows current d := by
    rintro current d hd ⟨name, -, hsubject⟩
    rw [List.mem_singleton.mp hd, hnone] at hsubject
    cases hsubject
  refine .step (@Step.mk _ [[0]] _ _ ⟨_, hissuers.1, hsubjects.1⟩ (hpassed _)) ?_
  exact .step (@Step.mk _ [[0]] _ _ ⟨_, hissuers.2.1, hsubjects.2⟩ (hpassed _)) (.stop (hpassed _))

theorem orderChain_tangledChain : namedCertificate ∉ tangledChain ∧ tangledChain.Nodup ∧
    orderChain namedCertificate tangledChain = [sampleCertificate 1, sampleCertificate 2, [0]] ∧
    orderChain namedCertificate [sampleCertificate 1, sampleCertificate 2, [0]] =
      [sampleCertificate 1, sampleCertificate 2, [0]] := by
  obtain ⟨hleaf, hnodup, -⟩ := tangledChain_names
  obtain ⟨⟨path, rest, hwalk, horder, -⟩, -, hagain⟩ := orderChain_path_rest namedCertificate tangledChain hleaf hnodup
  obtain ⟨rfl, rfl⟩ := walk_tangledChain.unique hwalk
  rw [horder] at hagain
  exact ⟨hleaf, hnodup, horder, hagain⟩

end CertRotation.Bundle
