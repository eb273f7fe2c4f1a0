import Mathlib.Data.List.Perm.Subperm
import Mathlib.Data.List.Nodup
import CertRotation.Proofs.Files.Following

/-!
# Names of new files

A new file gets a name that is nowhere mentioned. No path that was there before can come across it.
-/
namespace CertRotation.Files

theorem toList_temporaryName (n : Nat) : (temporaryName n).toList = ['.', 't', 'm', 'p'] ++ Nat.toDigits 10 n := by
  simp [temporaryName, ToString.toString]

theorem temporaryName_injective {m n : Nat} (h : temporaryName m = temporaryName n) : m = n := by
  have hlist := congrArg String.toList h
  rw [toList_temporaryName, toList_temporaryName, List.append_cancel_left_eq] at hlist
  rw [← Nat.ofDigitChars_ten_toDigits (n := m), hlist, Nat.ofDigitChars_ten_toDigits]

theorem temporaryName_ne_append (n : Nat) (s : String) : temporaryName n ≠ s ++ ".bak" := by
  intro h
  have hlist := congrArg String.toList h
  rw [toList_temporaryName, String.toList_append] at hlist
  have hlast := congrArg List.getLast? hlist
  rw [List.getLast?_append, List.getLast?_append, show ".bak".toList.getLast? = some 'k' by decide] at hlast
  have hne : Nat.toDigits 10 n ≠ [] := Nat.toDigits_ne_nil
  rw [List.getLast?_eq_some_getLast hne] at hlast
  simp only [Option.some_or, Option.some.injEq] at hlast
  have hdigit := Nat.isDigit_of_mem_toDigits (b := 10) (n := n) (by decide) (by decide) (List.getLast_mem hne)
  rw [hlast] at hdigit
  exact absurd hdigit (by decide)

/-- Among one name more than are used, one is free. -/
theorem freshName_not_mem (used : List String) : freshName used ∉ used := by
  unfold freshName
  cases h : (List.range (used.length + 1)).find? fun n => ¬ temporaryName n ∈ used with
  | some n => simpa using List.find?_some h
  | none =>
    exfalso
    have hall : ∀ n ∈ List.range (used.length + 1), temporaryName n ∈ used := by
      intro n hn
      simpa using List.find?_eq_none.mp h n hn
    have hnodup : ((List.range (used.length + 1)).map temporaryName).Nodup :=
      List.nodup_range.map fun _ _ => temporaryName_injective
    have hsub : (List.range (used.length + 1)).map temporaryName ⊆ used := by
      intro s hs
      obtain ⟨n, hn, rfl⟩ := List.mem_map.mp hs
      exact hall n hn
    have hlen := (List.subperm_of_subset hnodup hsub).length_le
    simp only [List.length_map, List.length_range] at hlen
    omega

theorem exists_temporaryName (used : List String) : ∃ n, freshName used = temporaryName n := ⟨_, rfl⟩

end CertRotation.Files

namespace CertRotation.FileTree

/-! ## Names on a trail -/

theorem mem_nodes_of_node? {t : FileTree} {l : Location} {n : Node} (hl : l ≠ []) (h : t.node? l = some n) :
    (l, n) ∈ t.nodes := by
  rw [node?, if_neg hl] at h
  obtain ⟨before, others, hnodes, -⟩ := List.lookup_eq_some_iff.mp h
  simp [hnodes]

theorem mem_mentioned_of_node? {t : FileTree} {d : Location} {name : String} {n : Node}
    (h : t.node? (d ++ [name]) = some n) : name ∈ t.mentioned := by
  exact List.mem_flatMap.mpr ⟨_, mem_nodes_of_node? (by simp) h, by simp⟩

theorem mem_mentioned_of_link {t : FileTree} {l : Location} {target name : String} (hl : l ≠ [])
    (h : t.node? l = some (.link target)) (hn : name ∈ Path.names target) : name ∈ t.mentioned := by
  exact List.mem_flatMap.mpr ⟨_, mem_nodes_of_node? hl h, by simp [hn]⟩

/-- Only names of the path and of links are looked up. -/
theorem mem_trail {t : FileTree} {links : Nat} {place : Location} {names : List String} {q : Location × Bool}
    (h : q ∈ trail t links place names) : ∃ d name, q.1 = d ++ [name] ∧ (name ∈ names ∨ name ∈ t.mentioned) := by
  fun_induction descend t links place names with
  | case1 => simp [trail] at h
  | case2 links place names ih =>
    obtain ⟨d, name, hq, hname⟩ := ih (by simpa [trail] using h)
    exact ⟨d, name, hq, hname.imp_left (List.mem_cons_of_mem _)⟩
  | case3 links place names _ ih =>
    obtain ⟨d, name, hq, hname⟩ := ih (by simpa [trail] using h)
    exact ⟨d, name, hq, hname.imp_left (List.mem_cons_of_mem _)⟩
  | case4 links place name names h1 h2 h3 => simp [trail, h1, h2, h3] at h
  | case5 links place name names h1 h2 h3 hn =>
    have hq : q = (place ++ [name], names.isEmpty) := by simpa [trail, h1, h2, h3, hn] using h
    exact ⟨place, name, by rw [hq], .inl (by simp)⟩
  | case6 links place name names h1 h2 h3 hn ih =>
    simp only [trail, h1, h2, h3, hn, if_false, List.mem_cons] at h
    rcases h with rfl | h
    · exact ⟨place, name, rfl, .inl (by simp)⟩
    · obtain ⟨d, name', hq, hname⟩ := ih h
      exact ⟨d, name', hq, hname.imp_left (List.mem_cons_of_mem _)⟩
  | case7 links place name names h1 h2 h3 b m hn =>
    have hq : q = (place ++ [name], names.isEmpty) := by simpa [trail, h1, h2, h3, hn] using h
    exact ⟨place, name, by rw [hq], .inl (by simp)⟩
  | case8 place name names h1 h2 h3 target hn =>
    have hq : q = (place ++ [name], names.isEmpty) := by simpa [trail, h1, h2, h3, hn] using h
    exact ⟨place, name, by rw [hq], .inl (by simp)⟩
  | case9 place name names h1 h2 h3 target hn left ih =>
    simp only [dite_eq_ite] at ih
    simp only [trail, h1, h2, h3, hn, if_false, List.mem_cons] at h
    rcases h with rfl | h
    · exact ⟨place, name, rfl, .inl (by simp)⟩
    · obtain ⟨d, name', hq, hname⟩ := ih h
      refine ⟨d, name', hq, ?_⟩
      rcases hname with hname | hname
      · rcases List.mem_append.mp hname with htarget | hrest
        · exact .inr (mem_mentioned_of_link (by simp) hn htarget)
        · exact .inl (List.mem_cons_of_mem _ hrest)
      · exact .inr hname

end CertRotation.FileTree
