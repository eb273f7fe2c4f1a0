import CertRotation.Proofs.Files.Lookup

/-!
# What a path depends on

`trail` lists the locations that are looked up while a path is followed, each with the mark whether the path ended
there. Following depends on nothing else, so that a change elsewhere goes unnoticed, and a regular file that appears
on the trail ends it.
-/
namespace CertRotation.FileTree
open Files

/-- The locations that are looked up on the way, links followed; the mark tells that no name was left. -/
def trail (t : FileTree) (links : Nat) (place : Location) : List String → List (Location × Bool)
  | [] => []
  | name :: rest =>
    if name = "." then trail t links place rest
    else if name = ".." then trail t links place.dropLast rest
    else if maxName < name.utf8ByteSize then []
    else
      let here := place ++ [name]
      (here, rest.isEmpty) ::
        match t.node? here with
        | some .directory => trail t links here rest
        | some (.link target) =>
          match links with
          | 0 => []
          | left + 1 => trail t left (if Path.isAbsolute target then [] else place) (Path.names target ++ rest)
        | _ => []
termination_by names => (links, names.length)

/-- The directory that names lead to, and how many links may still be followed. -/
def descend (t : FileTree) (links : Nat) (place : Location) : List String → Except Fault (Location × Nat)
  | [] => .ok (place, links)
  | name :: rest =>
    if name = "." then descend t links place rest
    else if name = ".." then descend t links place.dropLast rest
    else if maxName < name.utf8ByteSize then .error .nameTooLong
    else
      match t.node? (place ++ [name]) with
      | none => .error .notFound
      | some .directory => descend t links (place ++ [name]) rest
      | some (.file ..) => .error .notADirectory
      | some (.link target) =>
        match links with
        | 0 => .error .tooManyLinks
        | left + 1 => descend t left (if Path.isAbsolute target then [] else place) (Path.names target ++ rest)
termination_by names => (links, names.length)

/-! ## A path in two parts -/

/-- The last names of a path are looked up in the directory that the others lead to. -/
theorem walk_append (t : FileTree) (follow mustBeDirectory : Bool) (links : Nat) (place : Location)
    (names : List String) {rest : List String} (hr : rest ≠ []) :
    walk t follow links mustBeDirectory place (names ++ rest) =
      match descend t links place names with
      | .error e => .error e
      | .ok (d, left) => walk t follow left mustBeDirectory d rest := by
  fun_induction descend t links place names with
  | case1 => rfl
  | case2 links place names ih => rw [List.cons_append, walk, if_pos rfl, ih]
  | case3 links place names _ ih => rw [List.cons_append, walk, if_neg (by decide), if_pos rfl, ih]
  | case4 links place name names h1 h2 h3 => rw [List.cons_append, walk, if_neg h1, if_neg h2, if_pos h3]
  | case5 links place name names h1 h2 h3 hn =>
    simp [walk, h1, h2, h3, hn, hr]
  | case6 links place name names h1 h2 h3 hn ih =>
    rw [List.cons_append, walk, if_neg h1, if_neg h2, if_neg h3]
    simp only [hn, ih]
  | case7 links place name names h1 h2 h3 b m hn =>
    simp [walk, h1, h2, h3, hn, hr]
  | case8 place name names h1 h2 h3 target hn =>
    rw [List.cons_append, walk, if_neg h1, if_neg h2, if_neg h3]
    simp [hn, hr]
  | case9 place name names h1 h2 h3 target hn left ih =>
    rw [List.cons_append, walk, if_neg h1, if_neg h2, if_neg h3]
    have hempty : (names ++ rest).isEmpty = false := by simp [hr]
    simp only [dite_eq_ite, List.append_assoc] at ih
    simp only [hn, hempty, Bool.false_and, Bool.or_false, ih]
    simp [hr]

/-- What is looked up for the first names is never the end of the path. -/
theorem trail_append (t : FileTree) (links : Nat) (place : Location) (names : List String) {rest : List String}
    (hr : rest ≠ []) :
    trail t links place (names ++ rest) =
      (trail t links place names).map (fun q => (q.1, false)) ++
        match descend t links place names with
        | .error _ => []
        | .ok (d, left) => trail t left d rest := by
  fun_induction descend t links place names with
  | case1 => simp [trail]
  | case2 links place names ih => simp [trail, ih]
  | case3 links place names _ ih => simp [trail, ih]
  | case4 links place name names h1 h2 h3 => simp [trail, h1, h2, h3]
  | case5 links place name names h1 h2 h3 hn => simp [trail, h1, h2, h3, hn, hr]
  | case6 links place name names h1 h2 h3 hn ih => simp [trail, h1, h2, h3, hn, hr, ih]
  | case7 links place name names h1 h2 h3 b m hn => simp [trail, h1, h2, h3, hn, hr]
  | case8 place name names h1 h2 h3 target hn => simp [trail, h1, h2, h3, hn, hr]
  | case9 place name names h1 h2 h3 target hn left ih =>
    simp only [dite_eq_ite, List.append_assoc] at ih
    simp [trail, h1, h2, h3, hn, hr, ih]

def arrive : Target → Except Fault Location
  | .present l _ => pure l
  | .absent .. => throw .notFound

theorem directoryAt_eq (t : FileTree) (place : Location) (names : List String) :
    t.directoryAt place names = (descend t maxLinks place names).map (·.1) := by
  have key : ∀ links place,
      (walk t true links true place names >>= arrive) = (descend t links place names).map (·.1) := by
    intro links place
    fun_induction descend t links place names with
    | case1 => simp [walk]; rfl
    | case2 links place names ih => rw [walk, if_pos rfl, ih]
    | case3 links place names _ ih => rw [walk, if_neg (by decide), if_pos rfl, ih]
    | case4 links place name names h1 h2 h3 => rw [walk, if_neg h1, if_neg h2, if_pos h3]; rfl
    | case5 links place name names h1 h2 h3 hn =>
      rw [walk, if_neg h1, if_neg h2, if_neg h3]
      simp only [hn]
      split <;> rfl
    | case6 links place name names h1 h2 h3 hn ih =>
      rw [walk, if_neg h1, if_neg h2, if_neg h3]
      simp only [hn, ih]
    | case7 links place name names h1 h2 h3 b m hn =>
      rw [walk, if_neg h1, if_neg h2, if_neg h3]
      simp only [hn]
      simp; rfl
    | case8 place name names h1 h2 h3 target hn =>
      rw [walk, if_neg h1, if_neg h2, if_neg h3]
      simp [hn]; rfl
    | case9 place name names h1 h2 h3 target hn left ih =>
      simp only [dite_eq_ite] at ih
      rw [walk, if_neg h1, if_neg h2, if_neg h3]
      simp [hn, ← ih]
  exact key maxLinks place

theorem directoryAt_eq_ok {t : FileTree} {place d : Location} {names : List String} :
    t.directoryAt place names = .ok d ↔ ∃ left, descend t maxLinks place names = .ok (d, left) := by
  rw [directoryAt_eq]
  cases descend t maxLinks place names with
  | error e => simp [Except.map]
  | ok r => simp [Except.map, Prod.ext_iff]

/-- A directory that is reached is reached through no regular file. -/
theorem not_file_of_mem_trail {t : FileTree} {links : Nat} {place : Location} {names : List String}
    {r : Location × Nat} (h : descend t links place names = .ok r) :
    ∀ q ∈ trail t links place names, ∀ b m, t.node? q.1 ≠ some (.file b m) := by
  fun_induction descend t links place names with
  | case1 => simp [trail]
  | case2 links place names ih =>
    simp only [trail, if_true]
    exact ih h
  | case3 links place names _ ih =>
    simp only [trail, if_true]
    simpa using ih h
  | case4 links place name names h1 h2 h3 => simp at h
  | case5 links place name names h1 h2 h3 hn => simp at h
  | case6 links place name names h1 h2 h3 hn ih =>
    intro q hq
    simp only [trail, h1, h2, h3, hn, if_false, List.mem_cons] at hq
    rcases hq with rfl | hq
    · simp [hn]
    · exact ih h q hq
  | case7 links place name names h1 h2 h3 b m hn => simp at h
  | case8 place name names h1 h2 h3 target hn => simp at h
  | case9 place name names h1 h2 h3 target hn left ih =>
    intro q hq
    simp only [dite_eq_ite] at ih
    simp only [trail, h1, h2, h3, hn, if_false, List.mem_cons] at hq
    rcases hq with rfl | hq
    · simp [hn]
    · exact ih h q hq

/-! ## Changes beside and on the trail -/

/-- A change off the trail goes unnoticed. -/
theorem following_congr {t t' : FileTree} {links : Nat} {place : Location} {names : List String}
    (h : ∀ q ∈ trail t links place names, t'.node? q.1 = t.node? q.1) :
    trail t' links place names = trail t links place names ∧
      descend t' links place names = descend t links place names ∧
      ∀ mustBeDirectory, walk t' true links mustBeDirectory place names =
        walk t true links mustBeDirectory place names := by
  fun_induction descend t links place names with
  | case1 => simp [trail, descend, walk]
  | case2 links place names ih =>
    have hi := ih (by simpa [trail] using h)
    simpa [trail, descend, walk] using hi
  | case3 links place names _ ih =>
    have hi := ih (by simpa [trail] using h)
    simpa [trail, descend, walk] using hi
  | case4 links place name names h1 h2 h3 => simp [trail, descend, walk, h1, h2, h3]
  | case5 links place name names h1 h2 h3 hn =>
    have hhere : t'.node? (place ++ [name]) = none := by
      rw [h (place ++ [name], names.isEmpty) (by simp [trail, h1, h2, h3]), hn]
    simp [trail, descend, walk, h1, h2, h3, hn, hhere]
  | case6 links place name names h1 h2 h3 hn ih =>
    simp only [trail, h1, h2, h3, hn, if_false, List.mem_cons, forall_eq_or_imp] at h
    have hi := ih h.2
    simpa [trail, descend, walk, h1, h2, h3, h.1, hn] using hi
  | case7 links place name names h1 h2 h3 b m hn =>
    have hhere : t'.node? (place ++ [name]) = some (.file b m) := by
      rw [h (place ++ [name], names.isEmpty) (by simp [trail, h1, h2, h3]), hn]
    simp [trail, descend, walk, h1, h2, h3, hn, hhere]
  | case8 place name names h1 h2 h3 target hn =>
    have hhere : t'.node? (place ++ [name]) = some (.link target) := by
      rw [h (place ++ [name], names.isEmpty) (by simp [trail, h1, h2, h3]), hn]
    simp [trail, descend, walk, h1, h2, h3, hn, hhere]
  | case9 place name names h1 h2 h3 target hn left ih =>
    simp only [dite_eq_ite] at ih
    simp only [trail, h1, h2, h3, hn, if_false, List.mem_cons, forall_eq_or_imp] at h
    obtain ⟨ht, hd, hw⟩ := ih h.2
    refine ⟨?_, ?_, fun mustBeDirectory => ?_⟩
    · simpa [trail, h1, h2, h3, h.1, hn] using ht
    · simpa [descend, h1, h2, h3, h.1, hn] using hd
    · simpa [walk, h1, h2, h3, h.1, hn] using hw _

/-- What has to be a directory is no regular file. -/
theorem walk_ne_file (t : FileTree) (follow : Bool) (links : Nat) (place : Location) (names : List String) :
    ∀ l b m, walk t follow links true place names ≠ .ok (.present l (.file b m)) := by
  fun_induction descend t links place names with
  | case1 => simp [walk]
  | case2 links place names ih => simpa [walk] using ih
  | case3 links place names _ ih => simpa [walk] using ih
  | case4 links place name names h1 h2 h3 => simp [walk, h1, h2, h3]
  | case5 links place name names h1 h2 h3 hn =>
    by_cases hr : names = [] <;> simp [walk, h1, h2, h3, hn, hr]
  | case6 links place name names h1 h2 h3 hn ih => simpa [walk, h1, h2, h3, hn] using ih
  | case7 links place name names h1 h2 h3 b m hn => simp [walk, h1, h2, h3, hn]
  | case8 place name names h1 h2 h3 target hn => simp [walk, h1, h2, h3, hn]
  | case9 place name names h1 h2 h3 target hn left ih =>
    simp only [dite_eq_ite] at ih
    simpa [walk, h1, h2, h3, hn] using ih

/-- A path that is followed to its end does not end at a link. -/
theorem walk_ne_link (t : FileTree) (links : Nat) (mustBeDirectory : Bool) (place : Location) (names : List String) :
    ∀ l target, walk t true links mustBeDirectory place names ≠ .ok (.present l (.link target)) := by
  fun_induction descend t links place names generalizing mustBeDirectory with
  | case1 => simp [walk]
  | case2 links place names ih => simpa [walk] using ih mustBeDirectory
  | case3 links place names _ ih => simpa [walk] using ih mustBeDirectory
  | case4 links place name names h1 h2 h3 => simp [walk, h1, h2, h3]
  | case5 links place name names h1 h2 h3 hn =>
    by_cases hr : names = [] <;> simp [walk, h1, h2, h3, hn, hr]
  | case6 links place name names h1 h2 h3 hn ih => simpa [walk, h1, h2, h3, hn] using ih mustBeDirectory
  | case7 links place name names h1 h2 h3 b m hn =>
    intro l target
    rw [walk, if_neg h1, if_neg h2, if_neg h3]
    simp only [hn]
    split <;> simp
  | case8 place name names h1 h2 h3 target hn => simp [walk, h1, h2, h3, hn]
  | case9 place name names h1 h2 h3 target hn left ih =>
    simp only [dite_eq_ite] at ih
    simpa [walk, h1, h2, h3, hn] using ih _

/-- On the way to something that is present, something stands everywhere. -/
theorem node?_of_walk {t : FileTree} {links : Nat} {mustBeDirectory : Bool} {place l : Location}
    {names : List String} {n : Node} (h : walk t true links mustBeDirectory place names = .ok (.present l n)) :
    ∀ q ∈ trail t links place names, t.node? q.1 ≠ none := by
  fun_induction descend t links place names generalizing mustBeDirectory with
  | case1 => simp [trail]
  | case2 links place names ih => simpa [trail] using ih (by simpa [walk] using h)
  | case3 links place names _ ih => simpa [trail] using ih (by simpa [walk] using h)
  | case4 links place name names h1 h2 h3 => simp [trail, h1, h2, h3]
  | case5 links place name names h1 h2 h3 hn =>
    by_cases hr : names = [] <;> simp [walk, h1, h2, h3, hn, hr] at h
  | case6 links place name names h1 h2 h3 hn ih =>
    simpa [trail, h1, h2, h3, hn] using ih (by simpa [walk, h1, h2, h3, hn] using h)
  | case7 links place name names h1 h2 h3 b m hn => simp [trail, h1, h2, h3, hn]
  | case8 place name names h1 h2 h3 target hn => simp [walk, h1, h2, h3, hn] at h
  | case9 place name names h1 h2 h3 target hn left ih =>
    simp only [dite_eq_ite] at ih
    simpa [trail, h1, h2, h3, hn] using ih (by simpa [walk, h1, h2, h3, hn] using h)

/-- What is found to be a regular file stands where it is found. -/
theorem node?_of_walk_file {t : FileTree} {links : Nat} {mustBeDirectory : Bool} {place l : Location}
    {names : List String} {b : Bytes} {m : Nat}
    (h : walk t true links mustBeDirectory place names = .ok (.present l (.file b m))) :
    t.node? l = some (.file b m) := by
  fun_induction descend t links place names generalizing mustBeDirectory with
  | case1 => simp [walk] at h
  | case2 links place names ih => exact ih (by simpa [walk] using h)
  | case3 links place names _ ih => exact ih (by simpa [walk] using h)
  | case4 links place name names h1 h2 h3 => simp [walk, h1, h2, h3] at h
  | case5 links place name names h1 h2 h3 hn =>
    by_cases hr : names = [] <;> simp [walk, h1, h2, h3, hn, hr] at h
  | case6 links place name names h1 h2 h3 hn ih => exact ih (by simpa [walk, h1, h2, h3, hn] using h)
  | case7 links place name names h1 h2 h3 c k hn =>
    rw [walk, if_neg h1, if_neg h2, if_neg h3] at h
    simp only [hn] at h
    split at h
    · simp only [Except.ok.injEq, Target.present.injEq, Node.file.injEq] at h
      obtain ⟨rfl, rfl, rfl⟩ := h
      exact hn
    · simp at h
  | case8 place name names h1 h2 h3 target hn => simp [walk, h1, h2, h3, hn] at h
  | case9 place name names h1 h2 h3 target hn left ih =>
    simp only [dite_eq_ite] at ih
    exact ih (by simpa [walk, h1, h2, h3, hn] using h)

/-- How a path is followed once a regular file has appeared at `l`. A path that ends there finds the file, unless it
asks for a directory; all others are followed as before. -/
def FollowedPast (t t' : FileTree) (l : Location) (b : Bytes) (m : Nat) (links : Nat) (place : Location)
    (names : List String) : Prop :=
  trail t' links place names ⊆ trail t links place names ∧ ∀ mustBeDirectory,
    walk t' true links mustBeDirectory place names = walk t true links mustBeDirectory place names ∨
      (l, true) ∈ trail t links place names ∧
        (walk t' true links mustBeDirectory place names = .ok (.present l (.file b m)) ∨
          walk t' true links mustBeDirectory place names = .error .notADirectory ∧
            ∀ p b m, walk t true links mustBeDirectory place names ≠ .ok (.present p (.file b m)))

section
variable {t t' : FileTree} {l : Location} {b : Bytes} {m : Nat}

theorem followedPast_of_eq {links : Nat} {place : Location} {names : List String}
    (ht : trail t' links place names = trail t links place names)
    (hw : ∀ mustBeDirectory, walk t' true links mustBeDirectory place names =
      walk t true links mustBeDirectory place names) : FollowedPast t t' l b m links place names :=
  ⟨ht ▸ List.Subset.refl _, fun mustBeDirectory => .inl (hw mustBeDirectory)⟩

theorem followedPast_here (hl : t'.node? l = some (.file b m)) {links : Nat} {place : Location} {name : String}
    {names : List String} (h1 : ¬ name = ".") (h2 : ¬ name = "..") (h3 : ¬ maxName < name.utf8ByteSize)
    (hhere : place ++ [name] = l) (hclear : (l, false) ∉ trail t links place (name :: names)) :
    FollowedPast t t' l b m links place (name :: names) := by
  have hmem : (l, names.isEmpty) ∈ trail t links place (name :: names) := by
    simp [trail, h1, h2, h3, hhere]
  cases names with
  | cons n ns => exact absurd hmem hclear
  | nil =>
    refine ⟨?_, fun mustBeDirectory => .inr ⟨hmem, ?_⟩⟩
    · intro q hq
      have hq' : q = (l, true) := by simpa [trail, h1, h2, h3, hhere, hl] using hq
      rw [hq']
      exact hmem
    · cases mustBeDirectory with
      | false => exact .inl (by simp [walk, h1, h2, h3, hhere, hl])
      | true => exact .inr ⟨by simp [walk, h1, h2, h3, hhere, hl], walk_ne_file t true links place _⟩

theorem following_file (hd : DiffersAt t t' l) (hl : t'.node? l = some (.file b m)) {links : Nat} {place : Location}
    {names : List String} (hclear : (l, false) ∉ trail t links place names) :
    FollowedPast t t' l b m links place names := by
  fun_induction descend t links place names with
  | case1 => exact followedPast_of_eq (by simp [trail]) (by simp [walk])
  | case2 links place names ih =>
    simpa [FollowedPast, trail, walk] using ih (by simpa [trail] using hclear)
  | case3 links place names _ ih =>
    simpa [FollowedPast, trail, walk] using ih (by simpa [trail] using hclear)
  | case4 links place name names h1 h2 h3 =>
    exact followedPast_of_eq (by simp [trail, h1, h2, h3]) (by simp [walk, h1, h2, h3])
  | case5 links place name names h1 h2 h3 hn =>
    by_cases hhere : place ++ [name] = l
    · exact followedPast_here hl h1 h2 h3 hhere hclear
    · have hn' := (hd.2 _ hhere).trans hn
      exact followedPast_of_eq (by simp [trail, h1, h2, h3, hn, hn']) (by simp [walk, h1, h2, h3, hn, hn'])
  | case6 links place name names h1 h2 h3 hn ih =>
    by_cases hhere : place ++ [name] = l
    · exact followedPast_here hl h1 h2 h3 hhere hclear
    · have hn' := (hd.2 _ hhere).trans hn
      simp only [trail, h1, h2, h3, hn, if_false, List.mem_cons, not_or] at hclear
      obtain ⟨hsub, hwalk⟩ := ih hclear.2
      refine ⟨?_, fun mustBeDirectory => ?_⟩
      · simpa [trail, h1, h2, h3, hn, hn'] using List.Subset.trans hsub (List.subset_cons_self _ _)
      · have hi := hwalk mustBeDirectory
        simp only [walk, trail, h1, h2, h3, hn, hn', if_false, List.mem_cons]
        exact hi.imp_right (And.imp_left .inr)
  | case7 links place name names h1 h2 h3 c k hn =>
    by_cases hhere : place ++ [name] = l
    · exact followedPast_here hl h1 h2 h3 hhere hclear
    · have hn' := (hd.2 _ hhere).trans hn
      exact followedPast_of_eq (by simp [trail, h1, h2, h3, hn, hn']) (by simp [walk, h1, h2, h3, hn, hn'])
  | case8 place name names h1 h2 h3 target hn =>
    by_cases hhere : place ++ [name] = l
    · exact followedPast_here hl h1 h2 h3 hhere hclear
    · have hn' := (hd.2 _ hhere).trans hn
      exact followedPast_of_eq (by simp [trail, h1, h2, h3, hn, hn']) (by simp [walk, h1, h2, h3, hn, hn'])
  | case9 place name names h1 h2 h3 target hn left ih =>
    by_cases hhere : place ++ [name] = l
    · exact followedPast_here hl h1 h2 h3 hhere hclear
    · have hn' := (hd.2 _ hhere).trans hn
      simp only [dite_eq_ite] at ih
      simp only [trail, h1, h2, h3, hn, if_false, List.mem_cons, not_or] at hclear
      obtain ⟨hsub, hwalk⟩ := ih hclear.2
      refine ⟨?_, fun mustBeDirectory => ?_⟩
      · simpa [trail, h1, h2, h3, hn, hn'] using List.Subset.trans hsub (List.subset_cons_self _ _)
      · have hi := hwalk (mustBeDirectory || (names.isEmpty && Path.endsWithSlash target))
        simp only [walk, trail, h1, h2, h3, hn, hn', if_false, List.mem_cons, not_true_eq_false, and_false]
        exact hi.imp_right (And.imp_left .inr)

end
end CertRotation.FileTree
