import CertRotation.Files.Path

/-!
# The names of a backup

A backup stands beside its file: only the last name of the path differs.
-/
namespace CertRotation.Path

theorem splitFrom_of_not_mem {s : List Char} (h : '/' ∉ s) (name : List Char) :
    splitFrom name s = [name.reverse ++ s] := by
  induction s generalizing name with
  | nil => simp [splitFrom]
  | cons c s ih =>
    have hc : c ≠ '/' := fun hc => h (by simp [hc])
    have hs : '/' ∉ s := fun hs => h (List.mem_cons_of_mem _ hs)
    rw [splitFrom, ih hs]
    · simp
    · simpa using hc

/-- What is written on to a path goes to its last piece, which is empty right after a slash. -/
theorem splitFrom_append {s : List Char} (h : '/' ∉ s) (name path : List Char) :
    ∃ init last, splitFrom name path = init ++ [last] ∧ splitFrom name (path ++ s) = init ++ [last ++ s] ∧
      (last = [] ↔ name = [] ∧ path = [] ∨ path.getLast? = some '/') := by
  induction path generalizing name with
  | nil => exact ⟨[], name.reverse, by simp [splitFrom], by simp [splitFrom_of_not_mem h], by simp⟩
  | cons c path ih =>
    have hgetLast : path ≠ [] → (c :: path).getLast? = path.getLast? := fun hne => by
      obtain ⟨d, path, rfl⟩ := List.exists_cons_of_ne_nil hne
      rfl
    by_cases hc : c = '/'
    · subst hc
      obtain ⟨init, last, hsplit, happend, hempty⟩ := ih []
      refine ⟨name.reverse :: init, last, by simp [splitFrom, hsplit], by simp [splitFrom, happend], ?_⟩
      rw [hempty]
      by_cases hne : path = []
      · simp [hne]
      · simp [hne, hgetLast hne]
    · obtain ⟨init, last, hsplit, happend, hempty⟩ := ih (c :: name)
      refine ⟨init, last, ?_, ?_, ?_⟩
      · rw [splitFrom, hsplit]
        simpa using hc
      · rw [List.cons_append, splitFrom, happend]
        simpa using hc
      · rw [hempty]
        by_cases hne : path = []
        · simp [hne, hc]
        · simp [hgetLast hne]

/-- The names of a file and of its backup are the same but for the last. A path that is empty or ends in a slash has
no last name to which the ending could be added. -/
theorem names_backup (file : String) :
    ∃ init last, names file = init ++ (if last = "" then [] else [last]) ∧
      names (backup file) = init ++ [last ++ ".bak"] ∧ (last = "" ↔ file = "" ∨ endsWithSlash file = true) := by
  obtain ⟨init, last, hsplit, happend, hempty⟩ :=
    splitFrom_append (s := ".bak".toList) (by decide) [] file.toList
  refine ⟨(init.filter (· ≠ [])).map String.ofList, String.ofList last, ?_, ?_, ?_⟩
  · rw [names, hsplit]
    by_cases hl : last = []
    · simp [hl]
    · simp [hl]
  · rw [names, backup, String.toList_append, happend]
    simp
  · have hfile : file.toList = [] ↔ file = "" := by simp
    rw [endsWithSlash, decide_eq_true_eq, ← hfile]
    simpa using hempty

theorem endsWithSlash_backup (file : String) : endsWithSlash (backup file) = false := by
  have hlast : (".bak".toList).getLast? = some 'k' := by decide
  simp only [endsWithSlash, backup, String.toList_append, List.getLast?_append, hlast]
  simp

/-- Apart from names with the ending, the backup brings in no names. -/
theorem mem_names_backup {file name : String} (h : name ∈ names (backup file)) :
    name ∈ names file ∨ ∃ s, name = s ++ ".bak" := by
  obtain ⟨init, last, hfile, hbackup, -⟩ := names_backup file
  rw [hbackup] at h
  rcases List.mem_append.mp h with h | h
  · exact .inl (by simp [hfile, h])
  · exact .inr ⟨last, by simpa using h⟩

end CertRotation.Path
