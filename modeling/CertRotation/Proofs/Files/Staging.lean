import CertRotation.Proofs.Files.FreshNames
import CertRotation.Proofs.Files.Places

/-!
# Putting files in place

A file is prepared under a name that nothing mentions, and then either takes its place by one step or is given up. Until
that step, no path can come across it.
-/
namespace CertRotation.Files
open FileTree

/-! ## States between steps -/

theorem after_append (t : FileTree) (steps more : List Step) : after t (steps ++ more) = after (after t steps) more :=
  List.foldl_append

theorem mem_states_append {t t' : FileTree} {steps more : List Step} :
    t' ∈ states t (steps ++ more) ↔ t' ∈ states t steps ∨ t' ∈ states (after t steps) more := by
  induction steps generalizing t with
  | nil =>
    cases more with
    | nil => simp [states, after]
    | cons s more => simp [states, after]
  | cons s steps ih =>
    rw [List.cons_append, states, List.mem_cons, ih, states, List.mem_cons, or_assoc]
    rfl

theorem after_mem_states (t : FileTree) (steps : List Step) : after t steps ∈ states t steps := by
  induction steps generalizing t with
  | nil => simp [states, after]
  | cons s steps ih => exact List.mem_cons_of_mem _ (ih (s.apply t))

/-- Steps at one location leave all others alone. -/
theorem differsAt_of_mem_states {t t₀ t' : FileTree} {l : Location} {steps : List Step} (hd : DiffersAt t t₀ l)
    (h : ∀ s ∈ steps, s.IsAt l) (ht : t' ∈ states t₀ steps) : DiffersAt t t' l := by
  induction steps generalizing t₀ with
  | nil =>
    obtain rfl : t' = t₀ := by simpa [states] using ht
    exact hd
  | cons s steps ih =>
    rw [states, List.mem_cons] at ht
    rcases ht with rfl | ht
    · exact hd
    · exact ih (hd.trans (apply_differs t₀ (h s (by simp)))) (fun s hs => h s (by simp [hs])) ht

/-! ## Places for new files -/

/-- Nothing in the tree, and no name of `path`, mentions the name of this location. -/
def Fresh (t : FileTree) (path : String) (place : Location) : Prop :=
  ∃ d n, place = d ++ [temporaryName n] ∧ temporaryName n ∉ Path.names path ∧ temporaryName n ∉ t.mentioned

/-- The tree but for a new file that is prepared for `path`. -/
def Beside (t t' : FileTree) (path : String) : Prop := ∃ place, Fresh t path place ∧ DiffersAt t t' place

section
variable {t t' : FileTree} {path p : String} {place : Location}

theorem fresh_freshName (t : FileTree) (path : String) (d : Location) :
    Fresh t path (d ++ [freshName (Path.names path ++ t.mentioned)]) := by
  obtain ⟨n, hn⟩ := exists_temporaryName (Path.names path ++ t.mentioned)
  have hnot := freshName_not_mem (Path.names path ++ t.mentioned)
  rw [hn, List.mem_append, not_or] at hnot
  exact ⟨d, n, by rw [hn], hnot.1, hnot.2⟩

/-- A new file is prepared in the directory of `path`, unless its own path is too long. -/
theorem stagingPlace_eq_ok : stagingPlace t path = .ok place ↔ check (stagingPath t path) = .ok () ∧ ∃ d left,
    descend t maxLinks (t.start (stagingDirectory path)) (Path.names (stagingDirectory path)) = .ok (d, left) ∧
      place = d ++ [freshName (Path.names path ++ t.mentioned)] := by
  simp only [stagingPlace, bind_eq_ok, directoryAt_eq_ok]
  constructor
  · rintro ⟨u, hcheck, d, ⟨left, hd⟩, hplace⟩
    exact ⟨hcheck, d, left, hd, (Except.ok.inj hplace).symm⟩
  · rintro ⟨hcheck, d, left, hd, rfl⟩
    exact ⟨(), hcheck, d, ⟨left, hd⟩, rfl⟩

theorem fresh_stagingPlace (h : stagingPlace t path = .ok place) : Fresh t path place := by
  obtain ⟨-, d, left, -, rfl⟩ := stagingPlace_eq_ok.mp h
  exact fresh_freshName t path d

theorem beside_refl (t : FileTree) (path : String) : Beside t t path :=
  ⟨_, fresh_freshName t path [], DiffersAt.refl _ _⟩

theorem Fresh.ne_nil (h : Fresh t path place) : place ≠ [] := by
  obtain ⟨d, n, rfl, -⟩ := h
  simp

theorem Fresh.temporary (h : Fresh t path place) : ∃ d n, place = d ++ [temporaryName n] := by
  obtain ⟨d, n, hplace, -⟩ := h
  exact ⟨d, n, hplace⟩

theorem Fresh.node?_eq_none (h : Fresh t path place) : t.node? place = none := by
  obtain ⟨d, n, rfl, -, hmentioned⟩ := h
  cases hn : t.node? (d ++ [temporaryName n]) with
  | none => rfl
  | some node => exact absurd (mem_mentioned_of_node? hn) hmentioned

/-- A path that brings in no temporary names besides those of `path` does not come across the new file. -/
theorem Fresh.ne_of_names (h : Fresh t path place)
    (hn : ∀ n, temporaryName n ∈ Path.names p → temporaryName n ∈ Path.names path) :
    ∀ q ∈ t.trailOf p, q.1 ≠ place := by
  obtain ⟨d, n, rfl, hpath, hmentioned⟩ := h
  intro q hq heq
  obtain ⟨d', name, hname, hmem⟩ := mem_trail hq
  obtain ⟨-, hlast⟩ := List.append_inj' (hname.symm.trans heq) rfl
  obtain rfl := List.head_eq_of_cons_eq hlast
  exact hmem.elim (fun hmem => hpath (hn n hmem)) hmentioned

/-- Neither does a path along which something stands everywhere. -/
theorem Fresh.ne_of_view (h : Fresh t path place) {n : Node} (hv : t.view p = .ok n) :
    ∀ q ∈ t.trailOf p, q.1 ≠ place := by
  intro q hq heq
  obtain ⟨l, hstat⟩ := view_eq_ok.mp hv
  exact node?_of_walk (stat_eq_ok.mp hstat).2 q hq (heq ▸ h.node?_eq_none)

theorem renameTarget_eq_ok {target : Location} :
    t.renameTarget path = .ok target ↔ ∃ d name, t.entryAt path = .ok (d, name) ∧
      Path.endsWithSlash path = false ∧ t.node? (d ++ [name]) ≠ some .directory ∧ target = d ++ [name] := by
  rw [renameTarget, bind_eq_ok]
  constructor
  · rintro ⟨⟨d, name⟩, hentry, h⟩
    obtain ⟨hslash, h⟩ := guard_eq_ok.mp h
    obtain ⟨hdir, h⟩ := guard_eq_ok.mp h
    exact ⟨d, name, hentry, by simpa using hslash, hdir, (Except.ok.inj h).symm⟩
  · rintro ⟨d, name, hentry, hslash, hdir, rfl⟩
    exact ⟨(d, name), hentry, guard_eq_ok.mpr ⟨by simp [hslash], guard_eq_ok.mpr ⟨hdir, rfl⟩⟩⟩

theorem Fresh.renameTarget_eq (h : Fresh t path place) (hd : DiffersAt t t' place) :
    t'.renameTarget path = t.renameTarget path := by
  have hne := h.ne_of_names (p := path) fun _ hn => hn
  have hentry : t'.entryAt path = t.entryAt path :=
    entryAt_congr hd.1 fun q hq => hd.2 q.1 (hne (q.1, false) (mem_trailOf_of_mem_directoryTrail hq))
  rw [renameTarget, renameTarget, hentry]
  cases he : t.entryAt path with
  | error e => rfl
  | ok r =>
    obtain ⟨d, name⟩ := r
    obtain ⟨-, init, left, hnames, -⟩ := entryAt_eq_ok.mp he
    have hplace : d ++ [name] ≠ place := by
      obtain ⟨d', n, rfl, hpath, -⟩ := h
      intro heq
      obtain ⟨-, hlast⟩ := List.append_inj' heq rfl
      obtain rfl := List.head_eq_of_cons_eq hlast
      exact hpath (by simp [hnames])
    simp only [bind, Except.bind, hd.2 _ hplace]

end

/-! ## Staged files -/

/-- The file is given up: all that is ever there besides is a new file. -/
def GivesUp (t : FileTree) (path : String) (steps : List Step) : Prop := ∀ t' ∈ states t steps, Beside t t' path

/-- The tree with a file in the place of `path`. -/
def Placed (t t' : FileTree) (path : String) (b : Bytes) (m : Nat) : Prop :=
  ∃ target, t.renameTarget path = .ok target ∧ DiffersAt t t' target ∧ t'.node? target = some (.file b m)

/-- The file is put at `path` by the last step. -/
def Puts (t : FileTree) (path : String) (b : Bytes) (m : Nat) (steps : List Step) : Prop :=
  Placed t (after t steps) path b m ∧ ∀ t' ∈ states t steps, Beside t t' path ∨ t' = after t steps

/-- A new file can be prepared beside `path` and renamed to it. -/
def Writable (t : FileTree) (path : String) : Prop :=
  (∃ place, stagingPlace t path = .ok place) ∧ ∃ target, t.renameTarget path = .ok target

theorem writable_of_singleName {t : FileTree} {path : String} (h : SingleName path) (hw : t.working = [])
    (hn : t.node? [path] ≠ some .directory) : Writable t path := by
  have hdot : Path.names "." = ["."] := by decide
  have hpath : stagingPath t path = "/./.tmp000000" := by
    unfold stagingPath
    rw [hw, h.staging]
    decide
  refine ⟨⟨_, stagingPlace_eq_ok.mpr ⟨hpath ▸ rfl, [], maxLinks, ?_, rfl⟩⟩, [path],
    renameTarget_eq_ok.mpr ⟨[], path, h.entryAt hw, h.slash, hn, rfl⟩⟩
  simp [h.staging, hdot, start, hw, descend]

/-- Prepare the file at `place` by some steps and put it at `path`. -/
def placing {α : Type} (path : String) (prepare : Location → List Step) (a : α) (place : Location) : Action α := fun t =>
  match (after t (prepare place)).renameTarget path with
  | .error e => (prepare place, .error ⟨path, e⟩)
  | .ok target => (prepare place ++ [.rename place target], .ok a)

theorem Action.bind_apply {α β : Type} (a : Action α) (f : α → Action β) (t : FileTree) :
    (a >>= f) t = match a t with
      | (steps, .error e) => (steps, .error e)
      | (steps, .ok x) => (steps ++ (f x (after t steps)).1, (f x (after t steps)).2) := rfl

theorem Action.step_apply (s : Step) (t : FileTree) : Action.step s t = ([s], .ok ()) := rfl

theorem Action.look_apply {α : Type} (path : String) (f : FileTree → Except Fault α) (t : FileTree) :
    Action.look path f t = ([], about path (f t)) := rfl

theorem commit_apply (place : Location) (path : String) (t : FileTree) :
    commit place path t = match t.renameTarget path with
      | .error e => ([], .error ⟨path, e⟩)
      | .ok target => ([.rename place target], .ok ()) := by
  simp only [commit, Action.bind_apply, Action.look_apply, about]
  cases t.renameTarget path <;> rfl

theorem writeFile_eq (path : String) (contents : Bytes) :
    writeFile path contents =
      staged path (placing path (fun place => [.chmod place privateMode, .write place contents]) ()) := by
  unfold writeFile
  congr 1
  funext place t
  simp only [placing, Action.bind_apply, Action.step_apply, commit_apply, after, List.foldl]
  split <;> rfl

theorem copyFile_of_file {t : FileTree} {source : String} {l : Location} {b : Bytes} {m : Nat} (path : String)
    (h : t.stat source = .ok (l, .file b m)) :
    copyFile source path t =
      staged path (placing path (fun place => [.write place b, .chmod place m]) b.length) t := by
  have hbody : (fun place => do
      Action.step (.write place b)
      Action.step (.chmod place m)
      commit place path
      return b.length) = placing path (fun place => [.write place b, .chmod place m]) b.length := by
    funext place t
    simp only [placing, Action.bind_apply, Action.step_apply, commit_apply, after, List.foldl]
    cases (Step.apply (Step.apply t (.write place b)) (.chmod place m)).renameTarget path <;> rfl
  simp only [copyFile, Action.bind_apply, Action.look_apply, h, about, Except.mapError, hbody, after, List.foldl_nil,
    List.nil_append]

theorem puts_of_prepared {t : FileTree} {path : String} {place target : Location} {b : Bytes} {m : Nat}
    {steps : List Step} (hfresh : Fresh t path place) (hd : ∀ t' ∈ states t steps, DiffersAt t t' place)
    (hn : (after t steps).node? place = some (.file b m)) (ht : t.renameTarget path = .ok target) :
    Puts t path b m (steps ++ [.rename place target]) := by
  obtain ⟨d, name, -, -, -, hname⟩ := renameTarget_eq_ok.mp ht
  have hput := apply_rename hfresh.ne_nil (by simp [hname] : target ≠ []) hfresh.node?_eq_none
    (hd _ (after_mem_states t steps)) hn
  have hlast : after t (steps ++ [.rename place target]) = Step.apply (after t steps) (.rename place target) :=
    after_append t steps _
  rw [← hlast] at hput
  refine ⟨⟨target, ht, hput⟩, fun t' ht' => ?_⟩
  rcases mem_states_append.mp ht' with ht' | ht'
  · exact .inl ⟨place, hfresh, hd t' ht'⟩
  · rw [states, states, ← hlast, List.mem_cons, List.mem_singleton] at ht'
    rcases ht' with rfl | rfl
    · exact .inl ⟨place, hfresh, hd _ (after_mem_states t steps)⟩
    · exact .inr rfl

section
variable {α : Type} {path : String} {t : FileTree} {body : Location → Action α} {place : Location} {steps : List Step}

theorem staged_of_error (body : Location → Action α) {e : Fault} (h : stagingPlace t path = .error e) :
    staged path body t = ([], .error ⟨stagingDirectory path, e⟩) := by
  simp only [staged, h]

theorem staged_of_body_ok {a : α} (h : stagingPlace t path = .ok place)
    (hbody : body place (Step.apply t (.create place)) = (steps, .ok a)) :
    staged path body t = (.create place :: steps, .ok a) := by
  simp only [staged, h, hbody]

theorem staged_of_body_error {e : Failure} (h : stagingPlace t path = .ok place)
    (hbody : body place (Step.apply t (.create place)) = (steps, .error e)) :
    staged path body t = (.create place :: steps ++ [.remove place], .error e) := by
  simp only [staged, h, hbody]

end

/-- A file that is prepared at its own place with contents and mode is put at the path with these, if it can be. -/
theorem staged_placing {α : Type} {path : String} {prepare : Location → List Step} (a : α) {b : Bytes} {m : Nat}
    (hat : ∀ place, ∀ s ∈ prepare place, s.IsAt place)
    (hfile : ∀ t place, place ≠ [] → t.node? place = some (.file [] privateMode) →
      (after t (prepare place)).node? place = some (.file b m)) (t : FileTree) :
    (¬ Writable t path ∧ ∃ steps e, staged path (placing path prepare a) t = (steps, .error e) ∧
      GivesUp t path steps) ∨
    Writable t path ∧ ∃ steps, staged path (placing path prepare a) t = (steps, .ok a) ∧ Puts t path b m steps := by
  cases hplace : stagingPlace t path with
  | error e =>
    refine .inl ⟨fun h => by simp [Writable, hplace] at h, [], ⟨stagingDirectory path, e⟩,
      staged_of_error _ hplace, fun t' ht => ?_⟩
    obtain rfl := List.mem_singleton.mp ht
    exact beside_refl t' path
  | ok place =>
    have hfresh := fresh_stagingPlace hplace
    have hd : ∀ t' ∈ states t (.create place :: prepare place), DiffersAt t t' place := by
      intro t' ht
      refine differsAt_of_mem_states (DiffersAt.refl t place) ?_ ht
      simpa [Step.IsAt] using hat place
    have htarget := hfresh.renameTarget_eq (hd _ (after_mem_states t _))
    change (after (Step.apply t (.create place)) (prepare place)).renameTarget path = _ at htarget
    cases hrename : t.renameTarget path with
    | error e =>
      rw [hrename] at htarget
      refine .inl ⟨fun h => by simp [Writable, hrename] at h, .create place :: prepare place ++ [.remove place],
        ⟨path, e⟩, staged_of_body_error hplace (by simp only [placing, htarget]),
        fun t' ht => ⟨place, hfresh, ?_⟩⟩
      refine differsAt_of_mem_states (DiffersAt.refl t place) ?_ ht
      simpa [Step.IsAt, or_imp, forall_and] using hat place
    | ok target =>
      rw [hrename] at htarget
      have hn := hfile _ place hfresh.ne_nil (node?_apply_create t hfresh.ne_nil)
      have hbody : placing path prepare a place (Step.apply t (.create place)) =
          (prepare place ++ [.rename place target], .ok a) := by simp only [placing, htarget]
      exact .inr ⟨⟨⟨place, hplace⟩, target, hrename⟩, .create place :: prepare place ++ [.rename place target],
        staged_of_body_ok hplace hbody, puts_of_prepared hfresh hd hn hrename⟩

/-- Writing a file puts all of it at the path, or nothing. -/
theorem writeFile_cases (path : String) (contents : Bytes) (t : FileTree) :
    (¬ Writable t path ∧ ∃ steps e, writeFile path contents t = (steps, .error e) ∧ GivesUp t path steps) ∨
      Writable t path ∧ ∃ steps, writeFile path contents t = (steps, .ok ()) ∧
        Puts t path contents privateMode steps := by
  rw [writeFile_eq]
  refine staged_placing () (by simp [Step.IsAt]) (fun t place hne hn => ?_) t
  exact node?_apply_write contents hne (node?_apply_chmod privateMode hne hn)

/-- Copying a regular file puts all of it with its mode at the path, or nothing. -/
theorem copyFile_cases {t : FileTree} {source : String} {l : Location} {b : Bytes} {m : Nat} (path : String)
    (h : t.stat source = .ok (l, .file b m)) :
    (¬ Writable t path ∧ ∃ steps e, copyFile source path t = (steps, .error e) ∧ GivesUp t path steps) ∨
      Writable t path ∧ ∃ steps, copyFile source path t = (steps, .ok b.length) ∧ Puts t path b m steps := by
  rw [copyFile_of_file path h]
  refine staged_placing b.length (by simp [Step.IsAt]) (fun t place hne hn => ?_) t
  exact node?_apply_chmod m hne (node?_apply_write b hne hn)

theorem placed_of_writeFile {path : String} {contents : Bytes} {t : FileTree} {steps : List Step}
    (h : writeFile path contents t = (steps, .ok ())) : Placed t (after t steps) path contents privateMode := by
  cases writeFile_cases path contents t with
  | inl hfails =>
    obtain ⟨-, steps', e, hwrite, -⟩ := hfails
    cases (Prod.mk.inj (h.symm.trans hwrite)).2
  | inr hputs =>
    obtain ⟨-, steps', hwrite, hputs⟩ := hputs
    obtain ⟨rfl, -⟩ := Prod.mk.inj (h.symm.trans hwrite)
    exact hputs.1

/-! ## Files that are given up -/

theorem erase_set (t : FileTree) (l : Location) (n : Node) : (t.set l n).erase l = t.erase l := by
  simp [FileTree.set, FileTree.erase, List.filter_filter]

/-- What is done at a location does not matter once that is cleared. -/
theorem erase_apply (t : FileTree) {s : Step} {l : Location} (h : s.IsAt l) : (s.apply t).erase l = t.erase l := by
  cases s with
  | create place =>
    obtain rfl : place = l := h
    exact erase_set t place _
  | write place contents =>
    obtain rfl : place = l := h
    simp only [Step.apply]
    split
    · exact erase_set t place _
    · rfl
  | chmod place mode =>
    obtain rfl : place = l := h
    simp only [Step.apply]
    split
    · exact erase_set t place _
    · rfl
  | rename source target => exact h.elim
  | remove place =>
    obtain rfl : place = l := h
    simp [Step.apply, FileTree.erase, List.filter_filter]
  | makeDirectory place =>
    obtain rfl : place = l := h
    exact erase_set t place _

theorem erase_after {steps : List Step} {l : Location} (h : ∀ s ∈ steps, s.IsAt l) (t : FileTree) :
    (after t steps).erase l = t.erase l := by
  induction steps generalizing t with
  | nil => rfl
  | cons s steps ih =>
    obtain ⟨hs, hsteps⟩ := List.forall_mem_cons.mp h
    exact (ih hsteps (s.apply t)).trans (erase_apply t hs)

theorem Fresh.erase_eq {t : FileTree} {path : String} {place : Location} (h : Fresh t path place) :
    t.erase place = t := by
  obtain ⟨d, n, rfl, -, hmentioned⟩ := h
  have hnodes : t.nodes.filter (fun e => e.1 ≠ d ++ [temporaryName n]) = t.nodes := by
    refine List.filter_eq_self.mpr fun e he => decide_eq_true fun heq => hmentioned ?_
    exact List.mem_flatMap.mpr ⟨e, he, by simp [heq]⟩
  rw [FileTree.erase, hnodes]

/-- Whatever goes wrong once the new file is there, nothing is left of it. -/
theorem after_of_staged_error {α : Type} {path : String} {body : Location → Action α} {t : FileTree}
    {steps : List Step} {e : Failure}
    (hat : ∀ place t' steps' e', body place t' = (steps', .error e') → ∀ s ∈ steps', s.IsAt place)
    (h : staged path body t = (steps, .error e)) : after t steps = t := by
  cases hplace : stagingPlace t path with
  | error e' =>
    obtain ⟨rfl, -⟩ := Prod.mk.inj (h.symm.trans (staged_of_error body hplace))
    rfl
  | ok place =>
    cases hbody : body place (Step.apply t (.create place)) with
    | mk steps' r =>
      cases r with
      | ok a => cases (Prod.mk.inj (h.symm.trans (staged_of_body_ok hplace hbody))).2
      | error e' =>
        obtain ⟨rfl, -⟩ := Prod.mk.inj (h.symm.trans (staged_of_body_error hplace hbody))
        have hsteps : ∀ s ∈ .create place :: steps', s.IsAt place :=
          List.forall_mem_cons.mpr ⟨rfl, hat place _ steps' e' hbody⟩
        calc after t (.create place :: steps' ++ [.remove place])
            = (after t (.create place :: steps')).erase place := after_append t _ _
          _ = t.erase place := erase_after hsteps t
          _ = t := (fresh_stagingPlace hplace).erase_eq

/-- Until it is renamed, a file that is being placed is worked on where it was prepared. -/
theorem isAt_of_placing_error {α : Type} {path : String} {prepare : Location → List Step} {a : α} {place : Location}
    {t : FileTree} {steps : List Step} {e : Failure} (hat : ∀ place, ∀ s ∈ prepare place, s.IsAt place)
    (h : placing path prepare a place t = (steps, .error e)) : ∀ s ∈ steps, s.IsAt place := by
  unfold placing at h
  split at h
  · obtain ⟨rfl, -⟩ := Prod.mk.inj h
    exact hat place
  · cases (Prod.mk.inj h).2

theorem after_of_writeFile_error {path : String} {contents : Bytes} {t : FileTree} {steps : List Step} {e : Failure}
    (h : writeFile path contents t = (steps, .error e)) : after t steps = t := by
  rw [writeFile_eq] at h
  exact after_of_staged_error (fun _ _ _ _ => isAt_of_placing_error (by simp [Step.IsAt])) h

theorem after_of_copyFile_error {source path : String} {t : FileTree} {l : Location} {b : Bytes} {m : Nat}
    {steps : List Step} {e : Failure} (hstat : t.stat source = .ok (l, .file b m))
    (h : copyFile source path t = (steps, .error e)) : after t steps = t := by
  rw [copyFile_of_file path hstat] at h
  exact after_of_staged_error (fun _ _ _ _ => isAt_of_placing_error (by simp [Step.IsAt])) h

/-! ## What is seen of a file in its place -/

section
variable {t t' : FileTree} {path : String} {b : Bytes} {m : Nat}

theorem Placed.place (h : Placed t t' path b m) : ∃ d name, t.entryAt path = .ok (d, name) ∧
    DiffersAt t t' (d ++ [name]) ∧ t'.node? (d ++ [name]) = some (.file b m) := by
  obtain ⟨target, htarget, hd, hn⟩ := h
  obtain ⟨d, name, hentry, -, -, rfl⟩ := renameTarget_eq_ok.mp htarget
  exact ⟨d, name, hentry, hd, hn⟩

/-- The entry in whose place the file has come stays the entry of the path. -/
theorem Placed.entry (h : Placed t t' path b m) (hdirect : t.Direct path) :
    ∃ d name, t'.entryAt path = .ok (d, name) ∧ t'.node? (d ++ [name]) = some (.file b m) := by
  obtain ⟨d, name, hentry, hd, hn⟩ := h.place
  refine ⟨d, name, ?_, hn⟩
  rw [entryAt_congr hd.1 fun q hq => hd.2 q.1 (hdirect d name hentry q hq), hentry]

theorem Placed.endsWithSlash (h : Placed t t' path b m) : Path.endsWithSlash path = false := by
  obtain ⟨target, htarget, -⟩ := h
  obtain ⟨-, -, -, hslash, -⟩ := renameTarget_eq_ok.mp htarget
  exact hslash

theorem Placed.view (h : Placed t t' path b m) (hdirect : t.Direct path) : t'.view path = .ok (.file b m) := by
  obtain ⟨d, name, hentry, hn⟩ := h.entry hdirect
  exact view_of_entry hentry h.endsWithSlash hn

/-- Other paths show what they have shown, unless they lead to the place of the new file. -/
theorem Placed.view_of_separate {paths : List String} (h : Placed t t' path b m) (hs : t.Separate paths)
    (hp : path ∈ paths) {q : String} (hq : q ∈ paths) :
    t'.view q = t.view q ∨ t.LeadsTo q path ∧
      (t'.view q = .ok (.file b m) ∨ t'.view q = .error .notADirectory ∧ ∀ c k, t.view q ≠ .ok (.file c k)) := by
  obtain ⟨d, name, hentry, hd, hn⟩ := h.place
  exact (view_of_file hd hn (hs path hp d name hentry q hq)).2.imp_right fun ⟨hmem, hview⟩ =>
    ⟨⟨d, name, hentry, hmem⟩, hview⟩

theorem Placed.separate {paths : List String} (h : Placed t t' path b m) (hs : t.Separate paths)
    (hp : path ∈ paths) : t'.Separate paths := by
  obtain ⟨d, name, hentry, hd, hn⟩ := h.place
  exact separate_of_file hs hp hentry hd hn

end
end CertRotation.Files
