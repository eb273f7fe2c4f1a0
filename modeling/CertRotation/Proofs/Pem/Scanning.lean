import Mathlib.Data.List.Induction
import CertRotation.Pem.Seek

/-!
# Scanning for a marker

Seeking is a scan whose state is the number of characters of the marker that have just been read. `scan` gives the state
after a text in which the marker is not met, so that a text can be scanned piece by piece. `seek` splits a text at the
marker exactly if the part before it leaves nothing of the marker behind.
-/
namespace CertRotation.Pem

/-- How much of the marker has just been read after a text, or `none` if the marker is met in it. -/
def scan (marker : List Char) (matched : Nat) : List Char → Option Nat
  | [] => some matched
  | c :: rest =>
    let matched' := if marker[matched]? = some c then matched + 1 else 0
    if matched' = marker.length then none else scan marker matched' rest

section
variable {marker front text before rest seen : List Char} {matched : Nat} {c : Char}

/-! ## Pieces of a text -/

theorem scan_append (marker : List Char) (matched : Nat) (front text : List Char) :
    scan marker matched (front ++ text) = (scan marker matched front).bind fun k => scan marker k text := by
  induction front generalizing matched with
  | nil => rfl
  | cons c front ih =>
    simp only [List.cons_append, scan]
    by_cases h : (if marker[matched]? = some c then matched + 1 else 0) = marker.length
    · rw [if_pos h, if_pos h, Option.bind_none]
    · rw [if_neg h, if_neg h, ih]

theorem isSome_scan_of_append (h : (scan marker matched (front ++ text)).isSome) :
    (scan marker matched front).isSome := by
  rw [scan_append] at h
  exact Option.isSome_of_isSome_bind h

/-- A character that is not the next of the marker starts the count again. -/
theorem scan_cons_of_ne (hm : marker ≠ []) (h : marker[matched]? ≠ some c) (text : List Char) :
    scan marker matched (c :: text) = scan marker 0 text := by
  have hlength : ¬ 0 = marker.length := fun hz => hm (List.length_eq_zero_iff.mp hz.symm)
  rw [scan, if_neg h]
  exact if_neg hlength

theorem scan_cons_of_eq (h : marker[matched]? = some c) (hlast : matched + 1 ≠ marker.length) (text : List Char) :
    scan marker matched (c :: text) = scan marker (matched + 1) text := by
  rw [scan, if_pos h]
  exact if_neg hlast

theorem scan_cons_of_not_mem (hm : marker ≠ []) (h : c ∉ marker) (matched : Nat) (text : List Char) :
    scan marker matched (c :: text) = scan marker 0 text :=
  scan_cons_of_ne hm (fun hc => h (List.mem_of_getElem? hc)) text

/-- Nothing of the marker is left behind a character that it lacks. -/
theorem scan_snoc_of_not_mem (hm : marker ≠ []) (hfront : (scan marker matched front).isSome) (h : c ∉ marker) :
    scan marker matched (front ++ [c]) = some 0 := by
  obtain ⟨k, hk⟩ := Option.isSome_iff_exists.mp hfront
  rw [scan_append, hk, Option.bind_some, scan_cons_of_not_mem hm h, scan]

/-- Without its last character the marker is not met. -/
theorem isSome_scan_of_getLast_not_mem (hm : marker.getLast? = some c) (h : c ∉ front) (hk : matched < marker.length) :
    (scan marker matched front).isSome := by
  have hne : marker ≠ [] := fun hnil => by simp [hnil] at hm
  induction front generalizing matched with
  | nil => rfl
  | cons d front ih =>
    rw [List.mem_cons, not_or] at h
    by_cases hd : marker[matched]? = some d
    · have hlast : matched + 1 ≠ marker.length := by
        intro hall
        rw [List.getLast?_eq_getElem?, ← hall, Nat.add_sub_cancel, hd] at hm
        exact h.1 (Option.some.inj hm).symm
      rw [scan_cons_of_eq hd hlast]
      exact ih h.2 (by omega)
    · rw [scan_cons_of_ne hne hd]
      exact ih h.2 (List.length_pos_iff.mpr hne)

/-- Without the first character of the marker nothing of it is read. -/
theorem scan_of_head_not_mem (hm : marker.head? = some c) (h : c ∉ front) : scan marker 0 front = some 0 := by
  have hne : marker ≠ [] := fun hnil => by simp [hnil] at hm
  induction front with
  | nil => rfl
  | cons d front ih =>
    rw [List.mem_cons, not_or] at h
    have hd : marker[0]? ≠ some d := by
      rw [← List.head?_eq_getElem?, hm]
      exact fun heq => h.1 (Option.some.inj heq)
    rw [scan_cons_of_ne hne hd, ih h.2]

/-- The state is the length of the part of the marker that the text ends in; before it nothing has been left. -/
theorem exists_of_scan (hm : marker ≠ []) {k : Nat} (h : scan marker 0 front = some k) :
    k < marker.length ∧ ∃ start, front = start ++ marker.take k ∧ scan marker 0 start = some 0 := by
  induction front using List.reverseRecOn generalizing k with
  | nil =>
    obtain rfl := Option.some.inj h
    exact ⟨List.length_pos_iff.mpr hm, [], rfl, rfl⟩
  | append_singleton front c ih =>
    have hwhole := h
    rw [scan_append] at hwhole
    obtain ⟨j, hj, hnext⟩ := Option.bind_eq_some_iff.mp hwhole
    obtain ⟨hlt, start, rfl, hstart⟩ := ih hj
    by_cases hc : marker[j]? = some c
    · by_cases hlast : j + 1 = marker.length
      · rw [scan, if_pos hc, if_pos hlast] at hnext
        cases hnext
      · rw [scan_cons_of_eq hc hlast] at hnext
        obtain rfl := Option.some.inj hnext
        refine ⟨by omega, start, ?_, hstart⟩
        rw [List.take_add_one, hc, List.append_assoc]
        rfl
    · rw [scan_cons_of_ne hm hc] at hnext
      obtain rfl := Option.some.inj hnext
      exact ⟨List.length_pos_iff.mpr hm, _, (List.append_nil _).symm, h⟩

/-! ## Seeking -/

theorem seekFrom_append {k : Nat} (h : scan marker matched front = some k) (seen text : List Char) :
    seekFrom marker matched seen (front ++ text) = seekFrom marker k (front.reverse ++ seen) text := by
  induction front generalizing matched seen with
  | nil =>
    obtain rfl := Option.some.inj h
    rfl
  | cons c front ih =>
    simp only [List.cons_append, scan, seekFrom] at h ⊢
    generalize (if marker[matched]? = some c then matched + 1 else 0) = next at h ⊢
    by_cases hall : next = marker.length
    · rw [if_pos hall] at h
      cases h
    · rw [if_neg hall] at h ⊢
      rw [ih h, List.reverse_cons, List.append_assoc, List.singleton_append]

theorem seekFrom_eq_none : seekFrom marker matched seen text = none ↔ (scan marker matched text).isSome := by
  induction text generalizing matched seen with
  | nil => exact ⟨fun _ => rfl, fun _ => rfl⟩
  | cons c text ih =>
    simp only [scan, seekFrom]
    generalize (if marker[matched]? = some c then matched + 1 else 0) = next
    by_cases hall : next = marker.length
    · simp [if_pos hall]
    · rw [if_neg hall, if_neg hall, ih]

/-- The marker is found where its last character stands. -/
theorem exists_of_seekFrom (hm : marker ≠ []) (h : seekFrom marker matched seen text = some (before, rest)) :
    ∃ front c k, text = front ++ c :: rest ∧ scan marker matched front = some k ∧ marker[k]? = some c ∧
      k + 1 = marker.length ∧ before = ((front.reverse ++ seen).drop k).reverse := by
  induction text generalizing matched seen with
  | nil => cases h
  | cons c text ih =>
    simp only [seekFrom] at h
    by_cases hall : (if marker[matched]? = some c then matched + 1 else 0) = marker.length
    · rw [if_pos hall] at h
      obtain ⟨rfl, rfl⟩ := Prod.mk.inj (Option.some.inj h)
      have hne : 0 ≠ marker.length := fun hz => hm (List.length_eq_zero_iff.mp hz.symm)
      by_cases hc : marker[matched]? = some c
      · rw [if_pos hc] at hall
        exact ⟨[], c, matched, rfl, rfl, hc, hall, rfl⟩
      · rw [if_neg hc] at hall
        exact absurd hall hne
    · rw [if_neg hall] at h
      obtain ⟨front, d, k, rfl, hscan, hd, hk, rfl⟩ := ih h
      refine ⟨c :: front, d, k, rfl, ?_, hd, hk, by simp⟩
      rw [scan, if_neg hall]
      exact hscan

theorem seekFrom_marker (matched : List Char) {left : List Char} (h : left ≠ []) (seen rest : List Char) :
    seekFrom (matched ++ left) matched.length (matched.reverse ++ seen) (left ++ rest) = some (seen.reverse, rest) := by
  induction left generalizing matched with
  | nil => exact absurd rfl h
  | cons c left ih =>
    have hc : (matched ++ c :: left)[matched.length]? = some c := by simp
    rw [List.cons_append, seekFrom]
    simp only [if_pos hc]
    cases left with
    | nil =>
      rw [if_pos (by simp), List.drop_left' (List.length_reverse)]
      rfl
    | cons d left =>
      have hih := ih (matched ++ [c]) (List.cons_ne_nil d left)
      rw [if_neg (by simp)]
      simpa using hih

/-- A text is split at the marker exactly if what stands before it leaves nothing of the marker behind. -/
theorem seek_eq_some_iff (hm : marker ≠ []) :
    seek marker text = some (before, rest) ↔ text = before ++ marker ++ rest ∧ scan marker 0 before = some 0 := by
  constructor
  · intro h
    obtain ⟨front, c, k, rfl, hscan, hc, hk, rfl⟩ := exists_of_seekFrom hm h
    obtain ⟨-, start, rfl, hstart⟩ := exists_of_scan hm hscan
    have hwhole : marker.take k ++ [c] = marker := by
      rw [← Option.toList_some, ← hc, ← List.take_add_one, hk, List.take_length]
    have hbefore : (((start ++ marker.take k).reverse ++ []).drop k).reverse = start := by
      rw [List.append_nil, List.reverse_append, List.drop_left' (by simp; omega), List.reverse_reverse]
    rw [hbefore]
    refine ⟨?_, hstart⟩
    rw [List.append_assoc, ← List.singleton_append, ← List.append_assoc (marker.take k), hwhole, List.append_assoc]
  · rintro ⟨rfl, hscan⟩
    have hmarker := seekFrom_marker [] hm (before.reverse ++ []) rest
    rw [seek, List.append_assoc, seekFrom_append hscan]
    simpa using hmarker

theorem seek_eq_none_iff : seek marker text = none ↔ (scan marker 0 text).isSome := seekFrom_eq_none

end
end CertRotation.Pem
