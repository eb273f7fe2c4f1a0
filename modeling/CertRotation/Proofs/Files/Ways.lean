import CertRotation.Proofs.Files.Staging

/-!
# Trees with the same ways

Paths lead through directories and links. Trees that have these in common lead every path to the same directory, whatever
regular files they hold, and a file that takes a place where no link stands leaves all ways as they were.
-/
namespace CertRotation.FileTree
open Files

/-- The directory or link at `l`, through which paths may lead. -/
def way? (t : FileTree) (l : Location) : Option Node :=
  match t.node? l with
  | some (.file ..) => none
  | n => n

/-- Both trees have the same directories and links. -/
def SameWays (t t' : FileTree) : Prop := t'.working = t.working ∧ ∀ l, t'.way? l = t.way? l

/-- `l` is where a file comes that is renamed to `path`. -/
def PlaceOf (t : FileTree) (path : String) (l : Location) : Prop :=
  ∃ d name, t.entryAt path = .ok (d, name) ∧ l = d ++ [name]

/-- No link stands in the place of `path`. -/
def Unlinked (t : FileTree) (path : String) : Prop :=
  ∀ l, t.PlaceOf path l → ∀ target, t.node? l ≠ some (.link target)

section
variable {t t' t'' : FileTree} {path : String} {l : Location} {n : Node} {b : Bytes} {m : Nat}

theorem way?_eq_some : t.way? l = some n ↔ t.node? l = some n ∧ ∀ b m, n ≠ .file b m := by
  unfold way?
  split
  · next b m hn =>
    rw [hn]
    constructor
    · simp
    · rintro ⟨hfile, hnot⟩
      exact absurd (Option.some.inj hfile).symm (hnot b m)
  · next hnot =>
    refine ⟨fun hn => ⟨hn, fun b m hfile => hnot b m (hfile ▸ hn)⟩, And.left⟩

theorem way?_eq_none : t.way? l = none ↔ t.node? l = none ∨ ∃ b m, t.node? l = some (.file b m) := by
  unfold way?
  split
  · next b m hn => simp [hn]
  · next hnot => simpa using fun b m hn => absurd hn (hnot b m)

/-! ## Following paths -/

namespace SameWays

theorem refl (t : FileTree) : SameWays t t := ⟨rfl, fun _ => rfl⟩

theorem symm (h : SameWays t t') : SameWays t' t := ⟨h.1.symm, fun l => (h.2 l).symm⟩

theorem trans (h : SameWays t t') (h' : SameWays t' t'') : SameWays t t'' :=
  ⟨h'.1.trans h.1, fun l => (h'.2 l).trans (h.2 l)⟩

theorem start (h : SameWays t t') (path : String) : t'.start path = t.start path := by
  rw [FileTree.start, FileTree.start, h.1]

theorem node?_eq_some (h : SameWays t t') (hn : ∀ b m, n ≠ .file b m) : t'.node? l = some n ↔ t.node? l = some n := by
  have hway := h.2 l
  constructor
  · intro ht
    exact (way?_eq_some.mp (hway.symm.trans (way?_eq_some.mpr ⟨ht, hn⟩))).1
  · intro ht
    exact (way?_eq_some.mp (hway.trans (way?_eq_some.mpr ⟨ht, hn⟩))).1

theorem descend (h : SameWays t t') {links : Nat} {place : Location} {names : List String} {r : Location × Nat}
    (hd : FileTree.descend t links place names = .ok r) : FileTree.descend t' links place names = .ok r := by
  fun_induction FileTree.descend t links place names with
  | case1 => simpa [FileTree.descend] using hd
  | case2 links place names ih => simpa [FileTree.descend] using ih hd
  | case3 links place names _ ih => simpa [FileTree.descend] using ih hd
  | case4 links place name names h1 h2 h3 => simp at hd
  | case5 links place name names h1 h2 h3 hn => simp at hd
  | case6 links place name names h1 h2 h3 hn ih =>
    have hn' := (h.node?_eq_some (by simp)).mpr hn
    simpa [FileTree.descend, h1, h2, h3, hn'] using ih hd
  | case7 links place name names h1 h2 h3 b m hn => simp at hd
  | case8 place name names h1 h2 h3 target hn => simp at hd
  | case9 place name names h1 h2 h3 target hn left ih =>
    have hn' := (h.node?_eq_some (by simp)).mpr hn
    simp only [dite_eq_ite] at ih
    simpa [FileTree.descend, h1, h2, h3, hn'] using ih hd

theorem entryAt (h : SameWays t t') {r : Location × String} (hentry : t.entryAt path = .ok r) :
    t'.entryAt path = .ok r := by
  obtain ⟨d, name⟩ := r
  obtain ⟨hcheck, init, left, hnames, hd, hname⟩ := entryAt_eq_ok.mp hentry
  exact entryAt_eq_ok.mpr ⟨hcheck, init, left, hnames, h.start path ▸ h.descend hd, hname⟩

theorem placeOf_iff (h : SameWays t t') : t'.PlaceOf path l ↔ t.PlaceOf path l :=
  ⟨fun ⟨d, name, hentry, hl⟩ => ⟨d, name, h.symm.entryAt hentry, hl⟩,
    fun ⟨d, name, hentry, hl⟩ => ⟨d, name, h.entryAt hentry, hl⟩⟩

theorem unlinked (h : SameWays t t') (hu : t.Unlinked path) : t'.Unlinked path :=
  fun l hl target hn => hu l (h.placeOf_iff.mp hl) target ((h.node?_eq_some (by simp)).mp hn)

theorem renameTarget (h : SameWays t t') (ht : t.renameTarget path = .ok l) : t'.renameTarget path = .ok l := by
  obtain ⟨d, name, hentry, hslash, hdir, rfl⟩ := renameTarget_eq_ok.mp ht
  exact renameTarget_eq_ok.mpr ⟨d, name, h.entryAt hentry, hslash, fun hn => hdir ((h.node?_eq_some (by simp)).mp hn),
    rfl⟩

/-- A new file can be prepared in the same directory, under whatever name is free there. -/
theorem stagingPlace (h : SameWays t t') (hs : Files.stagingPlace t path = .ok l) :
    ∃ l', Files.stagingPlace t' path = .ok l' := by
  obtain ⟨hcheck, d, left, hd, -⟩ := stagingPlace_eq_ok.mp hs
  have hpath : stagingPath t' path = stagingPath t path := by
    unfold stagingPath
    rw [h.1]
  exact ⟨_, stagingPlace_eq_ok.mpr ⟨hpath ▸ hcheck, d, left, h.start _ ▸ h.descend hd, rfl⟩⟩

theorem writable (h : SameWays t t') (hw : Writable t path) : Writable t' path := by
  obtain ⟨⟨place, hplace⟩, target, htarget⟩ := hw
  exact ⟨h.stagingPlace hplace, target, h.renameTarget htarget⟩

/-- A path that ends at a regular file ends there still, as long as the file stays. -/
theorem walk_file (h : SameWays t t') {links : Nat} {mustBeDirectory : Bool} {place : Location} {names : List String}
    (hl : t'.node? l = t.node? l)
    (hw : walk t true links mustBeDirectory place names = .ok (.present l (.file b m))) :
    walk t' true links mustBeDirectory place names = .ok (.present l (.file b m)) := by
  fun_induction FileTree.descend t links place names generalizing mustBeDirectory with
  | case1 => simp [walk] at hw
  | case2 links place names ih => simpa [walk] using ih (by simpa [walk] using hw)
  | case3 links place names _ ih => simpa [walk] using ih (by simpa [walk] using hw)
  | case4 links place name names h1 h2 h3 => simp [walk, h1, h2, h3] at hw
  | case5 links place name names h1 h2 h3 hn =>
    by_cases hr : names = [] <;> simp [walk, h1, h2, h3, hn, hr] at hw
  | case6 links place name names h1 h2 h3 hn ih =>
    have hn' := (h.node?_eq_some (by simp)).mpr hn
    simpa [walk, h1, h2, h3, hn'] using ih (by simpa [walk, h1, h2, h3, hn] using hw)
  | case7 links place name names h1 h2 h3 c k hn =>
    rw [walk, if_neg h1, if_neg h2, if_neg h3] at hw ⊢
    simp only [hn] at hw
    split at hw
    · next hend =>
      simp only [Except.ok.injEq, Target.present.injEq, Node.file.injEq] at hw
      obtain ⟨rfl, rfl, rfl⟩ := hw
      simp [hl, hn, hend]
    · simp at hw
  | case8 place name names h1 h2 h3 target hn => simp [walk, h1, h2, h3, hn] at hw
  | case9 place name names h1 h2 h3 target hn left ih =>
    have hn' := (h.node?_eq_some (by simp)).mpr hn
    simp only [dite_eq_ite] at ih
    simpa [walk, h1, h2, h3, hn'] using ih (by simpa [walk, h1, h2, h3, hn] using hw)

theorem stat_file (h : SameWays t t') (hl : t'.node? l = t.node? l) (hstat : t.stat path = .ok (l, .file b m)) :
    t'.stat path = .ok (l, .file b m) := by
  obtain ⟨hcheck, hwalk⟩ := stat_eq_ok.mp hstat
  exact stat_eq_ok.mpr ⟨hcheck, h.start path ▸ h.walk_file hl hwalk⟩

/-- What is found at a path depends on what stands in its place. -/
theorem stat_place (h : SameWays t t') (hu : t.Unlinked path) (hp : t.PlaceOf path l) (hl : t'.node? l = t.node? l) :
    t'.stat path = t.stat path := by
  obtain ⟨d, name, hentry, rfl⟩ := hp
  obtain ⟨hcheck, init, left, hnames, hd, hdots, hlong⟩ := entryAt_eq_ok.mp hentry
  have hlink := hu _ ⟨d, name, hentry, rfl⟩
  have hlast : ∀ mustBeDirectory, walk t' true left mustBeDirectory d [name] =
      walk t true left mustBeDirectory d [name] := by
    intro mustBeDirectory
    simp only [walk, not_or.mp hdots, hlong, hl, if_false]
    cases hn : t.node? (d ++ [name]) with
    | none => rfl
    | some n =>
      cases n with
      | file b m => rfl
      | directory => rfl
      | link target => exact absurd hn (hlink target)
  have hwalk : walk t' true maxLinks (Path.endsWithSlash path) (t'.start path) (Path.names path) =
      walk t true maxLinks (Path.endsWithSlash path) (t.start path) (Path.names path) := by
    rw [hnames, walk_append _ _ _ _ _ _ (by simp), walk_append _ _ _ _ _ _ (by simp), hd, h.start, h.descend hd]
    exact hlast _
  rw [stat, stat, resolve, resolve, hwalk]

end SameWays

/-! ## Places -/

theorem PlaceOf.unique {l' : Location} (h : t.PlaceOf path l) (h' : t.PlaceOf path l') : l = l' := by
  obtain ⟨d, name, hentry, rfl⟩ := h
  obtain ⟨d', name', hentry', rfl⟩ := h'
  obtain ⟨rfl, rfl⟩ := Prod.mk.inj (Except.ok.inj (hentry.symm.trans hentry'))
  rfl

/-- A path that ends at a regular file has a place, and the file stands there unless a link does. -/
theorem placeOf_of_stat (hstat : t.stat path = .ok (l, .file b m)) :
    ∃ l', t.PlaceOf path l' ∧ ((∀ target, t.node? l' ≠ some (.link target)) → l' = l) := by
  obtain ⟨hcheck, hwalk⟩ := stat_eq_ok.mp hstat
  rcases List.eq_nil_or_concat (Path.names path) with hnil | ⟨init, name, hnames⟩
  · simp [hnil, walk] at hwalk
  · rw [List.concat_eq_append] at hnames
    rw [hnames, walk_append _ _ _ _ _ _ (by simp)] at hwalk
    cases hd : descend t maxLinks (t.start path) init with
    | error e => simp [hd] at hwalk
    | ok r =>
      obtain ⟨d, left⟩ := r
      rw [hd] at hwalk
      have h1 : name ≠ "." := fun h => by simp [h, walk] at hwalk
      have h2 : name ≠ ".." := fun h => by simp [h, walk] at hwalk
      have h3 : ¬ maxName < name.utf8ByteSize := fun h => by simp [h1, h2, h, walk] at hwalk
      have hentry := entryAt_eq_ok.mpr ⟨hcheck, init, left, hnames, hd, by simp [h1, h2], h3⟩
      refine ⟨d ++ [name], ⟨d, name, hentry, rfl⟩, fun hlink => ?_⟩
      simp only [walk, h1, h2, h3, if_false] at hwalk
      cases hn : t.node? (d ++ [name]) with
      | none => simp [hn] at hwalk
      | some n =>
        cases n with
        | directory => simp [hn] at hwalk
        | link target => exact absurd hn (hlink target)
        | file c k =>
          simp only [hn] at hwalk
          split at hwalk
          · simp only [Except.ok.injEq, Target.present.injEq] at hwalk
            exact hwalk.1
          · simp at hwalk

theorem Unlinked.placeOf_of_stat (hu : t.Unlinked path) (hstat : t.stat path = .ok (l, .file b m)) :
    t.PlaceOf path l := by
  obtain ⟨l', hplace, heq⟩ := FileTree.placeOf_of_stat hstat
  exact heq (hu l' hplace) ▸ hplace

end
end CertRotation.FileTree

namespace CertRotation.Files
open FileTree

section
variable {t t' : FileTree} {path : String} {l : Location} {b : Bytes} {m : Nat}

theorem Placed.placeOf (h : Placed t t' path b m) :
    ∃ l, t.PlaceOf path l ∧ t.node? l ≠ some .directory ∧ DiffersAt t t' l ∧ t'.node? l = some (.file b m) := by
  obtain ⟨target, htarget, hd, hn⟩ := h
  obtain ⟨d, name, hentry, -, hdir, rfl⟩ := renameTarget_eq_ok.mp htarget
  exact ⟨d ++ [name], ⟨d, name, hentry, rfl⟩, hdir, hd, hn⟩

/-- Only regular files make way for the file that is put in place. -/
theorem Placed.sameWays (h : Placed t t' path b m) (hu : t.Unlinked path) : SameWays t t' := by
  obtain ⟨l, hplace, hdir, hd, hn⟩ := h.placeOf
  refine ⟨hd.1, fun x => ?_⟩
  by_cases hx : x = l
  · subst hx
    rw [way?_eq_none.mpr (.inr ⟨b, m, hn⟩), eq_comm, way?_eq_none]
    cases hn' : t.node? x with
    | none => exact .inl rfl
    | some n =>
      cases n with
      | file c k => exact .inr ⟨c, k, rfl⟩
      | directory => exact absurd hn' hdir
      | link target => exact absurd hn' (hu x hplace target)
  · rw [way?, way?, hd.2 x hx]

/-- All other regular files stay where they are. -/
theorem Placed.node?_of_ne (h : Placed t t' path b m) (hl : ¬ t.PlaceOf path l) : t'.node? l = t.node? l := by
  obtain ⟨l', hplace, -, hd, -⟩ := h.placeOf
  exact hd.2 l fun heq => hl (heq ▸ hplace)

theorem Placed.stat_file {q : String} {c : Bytes} {k : Nat} (h : Placed t t' path b m) (hu : t.Unlinked path)
    (hl : ¬ t.PlaceOf path l) (hstat : t.stat q = .ok (l, .file c k)) : t'.stat q = .ok (l, .file c k) :=
  (h.sameWays hu).stat_file (h.node?_of_ne hl) hstat

/-- A file that is being prepared is nowhere in the way. -/
theorem Beside.stat_file {p q : String} (h : Beside t t' p) (hstat : t.stat q = .ok (l, .file b m)) :
    t'.stat q = .ok (l, .file b m) := by
  obtain ⟨place, hfresh, hd⟩ := h
  obtain ⟨hcheck, hwalk⟩ := stat_eq_ok.mp hstat
  have hoff := hfresh.ne_of_view (view_eq_ok.mpr ⟨l, hstat⟩)
  have hwalk' := (following_congr fun q hq => hd.2 q.1 (hoff q hq)).2.2
  refine stat_eq_ok.mpr ⟨hcheck, ?_⟩
  rw [FileTree.start, hd.1]
  exact (hwalk' _).trans hwalk

end
end CertRotation.Files

namespace CertRotation.FileTree
open Files

/-! ## Trees without ways -/

/-- Paths start in the root, and there are regular files only. -/
def Flat (t : FileTree) : Prop := t.working = [] ∧ ∀ l, l ≠ [] → t.way? l = none

section
variable {t : FileTree} {path : String} {l : Location}

theorem flat_of_nodes (hw : t.working = []) (h : ∀ e ∈ t.nodes, ∃ b m, e.2 = .file b m) : t.Flat := by
  refine ⟨hw, fun l hl => way?_eq_none.mpr ?_⟩
  cases hn : t.node? l with
  | none => exact .inl rfl
  | some n =>
    obtain ⟨b, m, rfl⟩ := h _ (mem_nodes_of_node? hl hn)
    exact .inr ⟨b, m, rfl⟩

theorem Flat.sameWays {t' : FileTree} (h : t.Flat) (hways : SameWays t t') : t'.Flat :=
  ⟨hways.1.trans h.1, fun l hl => (hways.2 l).trans (h.2 l hl)⟩

theorem SingleName.placeOf_iff (h : SingleName path) (hw : t.working = []) : t.PlaceOf path l ↔ l = [path] := by
  constructor
  · exact fun hl => hl.unique ⟨[], path, h.entryAt hw, rfl⟩
  · rintro rfl
    exact ⟨[], path, h.entryAt hw, rfl⟩

theorem SingleName.unlinked (h : SingleName path) (hf : t.Flat) : t.Unlinked path := by
  intro l hl target hn
  obtain rfl := (h.placeOf_iff hf.1).mp hl
  rcases way?_eq_none.mp (hf.2 [path] (by simp)) with hnone | ⟨b, m, hfile⟩
  · exact absurd (hn.symm.trans hnone) (by simp)
  · exact absurd (hn.symm.trans hfile) (by simp)

theorem SingleName.writable (h : SingleName path) (hf : t.Flat) : Writable t path := by
  refine writable_of_singleName h hf.1 fun hn => ?_
  rcases way?_eq_none.mp (hf.2 [path] (by simp)) with hnone | ⟨b, m, hfile⟩
  · exact absurd (hn.symm.trans hnone) (by simp)
  · exact absurd (hn.symm.trans hfile) (by simp)

theorem SingleName.fileExists (h : SingleName path) (hf : t.Flat) :
    t.fileExists path = .ok false ∨ t.fileExists path = .ok true := by
  rcases way?_eq_none.mp (hf.2 [path] (by simp)) with hn | ⟨b, m, hn⟩
  · exact .inl (by simp [FileTree.fileExists, h.stat_missing hf.1 hn])
  · exact .inr (by simp [FileTree.fileExists, h.stat hf.1 hn])

end
end CertRotation.FileTree
