import CertRotation.Proofs.Files.Following
import CertRotation.Proofs.Traversal

/-!
# Places of paths

What a path shows is what it denotes once all links are followed, while a file that is renamed to the path takes the
place of its entry, link or not. A file that has taken a place is seen under every path that ends there, and nothing
else is seen to change as long as no path leads through that place.
-/
namespace CertRotation.FileTree
open Files

/-- What stands at the end of `path`, links followed. -/
def view (t : FileTree) (path : String) : Except Fault Node := (t.stat path).map (·.2)

def trailOf (t : FileTree) (path : String) : List (Location × Bool) :=
  trail t maxLinks (t.start path) (Path.names path)

/-- What is looked up on the way to the directory of `path`. -/
def directoryTrail (t : FileTree) (path : String) : List (Location × Bool) :=
  trail t maxLinks (t.start path) (Path.names path).dropLast

/-- No path of `paths` goes on beyond the entry of one of them. -/
def Separate (t : FileTree) (paths : List String) : Prop :=
  ∀ p ∈ paths, ∀ d name, t.entryAt p = .ok (d, name) → ∀ q ∈ paths, (d ++ [name], false) ∉ t.trailOf q

/-- The way to the directory of `path` does not pass the entry itself. -/
def Direct (t : FileTree) (path : String) : Prop :=
  ∀ d name, t.entryAt path = .ok (d, name) → ∀ q ∈ t.directoryTrail path, q.1 ≠ d ++ [name]

/-- Following `path` comes to an end at the entry of `other`. -/
def LeadsTo (t : FileTree) (path other : String) : Prop :=
  ∃ d name, t.entryAt other = .ok (d, name) ∧ (d ++ [name], true) ∈ t.trailOf path

section
variable {t t' : FileTree} {path : String} {d : Location} {name : String} {b : Bytes} {m : Nat}

theorem mem_trailOf_of_mem_directoryTrail {q : Location × Bool} (h : q ∈ t.directoryTrail path) :
    (q.1, false) ∈ t.trailOf path := by
  unfold directoryTrail at h
  rcases List.eq_nil_or_concat (Path.names path) with hnil | ⟨init, name, hnames⟩
  · rw [hnil] at h
    simp [trail] at h
  · rw [hnames, List.concat_eq_append, List.dropLast_concat] at h
    rw [trailOf, hnames, List.concat_eq_append, trail_append t _ _ _ (by simp)]
    exact List.mem_append_left _ (List.mem_map_of_mem h)

/-! ## Looking at a path -/

theorem stat_eq_ok {l : Location} {n : Node} :
    t.stat path = .ok (l, n) ↔ check path = .ok () ∧
      walk t true maxLinks (Path.endsWithSlash path) (t.start path) (Path.names path) = .ok (.present l n) := by
  simp only [stat, resolve, bind_eq_ok]
  constructor
  · rintro ⟨target, ⟨u, hcheck, hwalk⟩, htarget⟩
    cases target with
    | absent d name => simp [throw, throwThe, MonadExceptOf.throw] at htarget
    | present l' n' =>
      obtain ⟨rfl, rfl⟩ := Prod.mk.inj (Except.ok.inj htarget)
      exact ⟨hcheck, hwalk⟩
  · rintro ⟨hcheck, hwalk⟩
    exact ⟨_, ⟨(), hcheck, hwalk⟩, rfl⟩

theorem view_eq_ok {n : Node} : t.view path = .ok n ↔ ∃ l, t.stat path = .ok (l, n) := by
  unfold view
  cases t.stat path with
  | error e => simp [Except.map]
  | ok r =>
    obtain ⟨l, n'⟩ := r
    simp [Except.map]

theorem readText_eq_ok {text : String} :
    t.readText path = .ok text ↔ ∃ l b m, t.stat path = .ok (l, .file b m) ∧ Utf8.decode? b = some text := by
  simp only [readText, bind_eq_ok]
  constructor
  · rintro ⟨b, hread, htext⟩
    obtain ⟨⟨l, n⟩, hstat, hfile⟩ := bind_eq_ok.mp hread
    cases n with
    | file c m =>
      obtain rfl := Except.ok.inj hfile
      split at htext
      · next s hs => exact ⟨l, c, m, hstat, hs.trans (congrArg some (Except.ok.inj htext))⟩
      · simp [throw, throwThe, MonadExceptOf.throw] at htext
    | directory => simp [throw, throwThe, MonadExceptOf.throw] at hfile
    | link target => simp [throw, throwThe, MonadExceptOf.throw] at hfile
  · rintro ⟨l, b, m, hstat, htext⟩
    exact ⟨b, bind_eq_ok.mpr ⟨(l, .file b m), hstat, rfl⟩, by rw [htext]; rfl⟩

/-- What a path shows depends on its trail only. -/
theorem view_congr (hw : t'.working = t.working) (h : ∀ q ∈ t.trailOf path, t'.node? q.1 = t.node? q.1) :
    t'.trailOf path = t.trailOf path ∧ t'.view path = t.view path := by
  have hstart : t'.start path = t.start path := by rw [start, start, hw]
  obtain ⟨htrail, -, hwalk⟩ := following_congr h
  refine ⟨by rw [trailOf, hstart]; exact htrail, ?_⟩
  rw [view, view, stat, stat, resolve, resolve, hstart, hwalk]

/-! ## Entries -/

theorem entryAt_eq_ok :
    t.entryAt path = .ok (d, name) ↔ check path = .ok () ∧ ∃ init left, Path.names path = init ++ [name] ∧
      descend t maxLinks (t.start path) init = .ok (d, left) ∧ ¬ (name = "." ∨ name = "..") ∧
      ¬ maxName < name.utf8ByteSize := by
  rcases List.eq_nil_or_concat (Path.names path) with hnil | ⟨init, last, hnames⟩
  · simp [entryAt, hnil, bind_eq_ok, throw, throwThe, MonadExceptOf.throw]
  · rw [List.concat_eq_append] at hnames
    simp only [entryAt, hnames, List.getLast?_concat, List.dropLast_concat, bind_eq_ok, directoryAt_eq_ok, guard_eq_ok]
    constructor
    · rintro ⟨u, hcheck, d', ⟨left, hdescend⟩, hdots, hlong, heq⟩
      obtain ⟨rfl, rfl⟩ := Prod.mk.inj (Except.ok.inj heq)
      exact ⟨hcheck, init, left, rfl, hdescend, hdots, hlong⟩
    · rintro ⟨hcheck, init', left, hsame, hdescend, hdots, hlong⟩
      obtain ⟨rfl, hlast⟩ := List.append_inj' hsame rfl
      obtain rfl := List.head_eq_of_cons_eq hlast
      exact ⟨(), hcheck, d, ⟨left, hdescend⟩, hdots, hlong, rfl⟩

/-- What is an entry depends on the way to its directory only. -/
theorem entryAt_congr (hw : t'.working = t.working) (h : ∀ q ∈ t.directoryTrail path, t'.node? q.1 = t.node? q.1) :
    t'.entryAt path = t.entryAt path := by
  have hstart : t'.start path = t.start path := by rw [start, start, hw]
  obtain ⟨-, hdescend, -⟩ := following_congr h
  simp only [entryAt, directoryAt_eq, hstart, hdescend]

/-- The way to the directory of an entry passes no regular file. -/
theorem not_file_of_mem_directoryTrail (h : t.entryAt path = .ok (d, name)) :
    ∀ q ∈ t.directoryTrail path, ∀ b m, t.node? q.1 ≠ some (.file b m) := by
  obtain ⟨-, init, left, hnames, hdescend, -⟩ := entryAt_eq_ok.mp h
  rw [directoryTrail, hnames, List.dropLast_concat]
  exact not_file_of_mem_trail hdescend

/-! ## A file that takes the place of an entry -/

theorem Separate.direct {paths : List String} (h : t.Separate paths) (hp : path ∈ paths) : t.Direct path :=
  fun d name hentry _ hq heq => h path hp d name hentry path hp (heq ▸ mem_trailOf_of_mem_directoryTrail hq)

/-- An entry that is found after a file has appeared somewhere was found before. -/
theorem entryAt_of_file {l : Location} (hd : DiffersAt t t' l) (hl : t'.node? l = some (.file b m))
    (h : t'.entryAt path = .ok (d, name)) : t.entryAt path = .ok (d, name) := by
  rw [← h]
  refine entryAt_congr hd.1.symm fun q hq => (hd.2 q.1 fun heq => ?_).symm
  exact not_file_of_mem_directoryTrail h q hq b m (heq ▸ hl)

theorem direct_of_file {l : Location} (hd : DiffersAt t t' l) (hl : t'.node? l = some (.file b m))
    (h : t.Direct path) : t'.Direct path := by
  intro d name hentry q hq
  have hoff : ∀ r ∈ t'.directoryTrail path, t.node? r.1 = t'.node? r.1 := fun r hr =>
    (hd.2 r.1 fun heq => not_file_of_mem_directoryTrail hentry r hr b m (heq ▸ hl)).symm
  have hstart : t.start path = t'.start path := by rw [start, start, hd.1]
  have htrail : t.directoryTrail path = t'.directoryTrail path := by
    rw [directoryTrail, hstart]
    exact (following_congr hoff).1
  exact h d name (entryAt_of_file hd hl hentry) q (htrail ▸ hq)

/-- The file is seen under the path in whose place it has come. -/
theorem view_of_entry (hentry : t'.entryAt path = .ok (d, name)) (hslash : Path.endsWithSlash path = false)
    (hn : t'.node? (d ++ [name]) = some (.file b m)) : t'.view path = .ok (.file b m) := by
  obtain ⟨hcheck, init, left, hnames, hdescend, hdots, hlong⟩ := entryAt_eq_ok.mp hentry
  refine view_eq_ok.mpr ⟨d ++ [name], stat_eq_ok.mpr ⟨hcheck, ?_⟩⟩
  rw [hslash, hnames, walk_append t' true false maxLinks _ init (by simp), hdescend]
  simp [walk, not_or.mp hdots, hlong, hn]

/-- Other paths show what they have shown, unless they end in the place of the new file. -/
theorem view_of_file {l : Location} (hd : DiffersAt t t' l) (hl : t'.node? l = some (.file b m))
    (hclear : (l, false) ∉ t.trailOf path) :
    t'.trailOf path ⊆ t.trailOf path ∧
      (t'.view path = t.view path ∨ (l, true) ∈ t.trailOf path ∧
        (t'.view path = .ok (.file b m) ∨
          t'.view path = .error .notADirectory ∧ ∀ c k, t.view path ≠ .ok (.file c k))) := by
  have hstart : t'.start path = t.start path := by rw [start, start, hd.1]
  obtain ⟨hsub, hwalk⟩ := following_file hd hl hclear
  refine ⟨by rw [trailOf, hstart]; exact hsub, ?_⟩
  rw [view, view, stat, stat, resolve, resolve, hstart]
  cases hcheck : check path with
  | error e => exact .inl rfl
  | ok u =>
    have hresolve : ∀ r : Except Fault Target, (Except.ok u >>= fun _ => r) = r := fun _ => rfl
    simp only [hresolve]
    rcases hwalk (Path.endsWithSlash path) with heq | ⟨hmem, heq | ⟨heq, hnot⟩⟩
    · rw [heq]
      exact .inl rfl
    · rw [heq]
      exact .inr ⟨hmem, .inl rfl⟩
    · rw [heq]
      refine .inr ⟨hmem, .inr ⟨rfl, fun c k hview => ?_⟩⟩
      have hshown : t.view path = .ok (.file c k) := by
        rw [view, stat, resolve, hcheck]
        exact hview
      obtain ⟨p, hstat⟩ := view_eq_ok.mp hshown
      exact hnot p c k (stat_eq_ok.mp hstat).2

/-- Paths stay separate when a file takes the place of one of them. -/
theorem separate_of_file {paths : List String} {p : String} (hs : t.Separate paths) (hp : p ∈ paths)
    (hentry : t.entryAt p = .ok (d, name)) (hd : DiffersAt t t' (d ++ [name]))
    (hl : t'.node? (d ++ [name]) = some (.file b m)) : t'.Separate paths := by
  intro p' hp' d' name' hentry' q hq hmem
  have hbefore := entryAt_of_file hd hl hentry'
  exact hs p' hp' d' name' hbefore q hq ((view_of_file hd hl (hs p hp d name hentry q hq)).1 hmem)

/-- Paths stay separate when nothing changes along any of them. -/
theorem separate_congr {paths : List String} (hw : t'.working = t.working)
    (h : ∀ p ∈ paths, ∀ q ∈ t.trailOf p, t'.node? q.1 = t.node? q.1) (hs : t.Separate paths) : t'.Separate paths := by
  intro p hp d name hentry q hq
  rw [(view_congr hw (h q hq)).1]
  rw [entryAt_congr hw fun r hr => h p hp (r.1, false) (mem_trailOf_of_mem_directoryTrail hr)] at hentry
  exact hs p hp d name hentry q hq

/-! ## Names in the root -/

/-- A path that is a single name. -/
structure SingleName (path : String) : Prop where
  check : check path = .ok ()
  names : Path.names path = [path]
  slash : Path.endsWithSlash path = false
  dots : path ≠ "." ∧ path ≠ ".."
  staging : stagingDirectory path = "."
  short : ¬ maxName < path.utf8ByteSize

theorem singleName_iff {path : String} : SingleName path ↔ (FileTree.check path).isOk = true ∧
    Path.names path = [path] ∧ Path.endsWithSlash path = false ∧ (path ≠ "." ∧ path ≠ "..") ∧
    stagingDirectory path = "." ∧ ¬ maxName < path.utf8ByteSize := by
  have hcheck : (FileTree.check path).isOk = true ↔ FileTree.check path = .ok () := by
    cases FileTree.check path <;> simp [Except.isOk, Except.toBool]
  rw [hcheck]
  constructor
  · intro h
    exact ⟨h.check, h.names, h.slash, h.dots, h.staging, h.short⟩
  · rintro ⟨hc, hnames, hslash, hdots, hstaging, hshort⟩
    exact ⟨hc, hnames, hslash, hdots, hstaging, hshort⟩

instance (path : String) : Decidable (SingleName path) := decidable_of_iff _ singleName_iff.symm

theorem SingleName.entryAt (h : SingleName path) (hw : t.working = []) : t.entryAt path = .ok ([], path) :=
  entryAt_eq_ok.mpr ⟨h.check, [], maxLinks, h.names, by simp [descend, start, hw], not_or.mpr h.dots, h.short⟩

theorem SingleName.direct (h : SingleName path) : t.Direct path := by
  intro d name _ q hq
  simp [directoryTrail, h.names, trail] at hq

theorem SingleName.stat (h : SingleName path) (hw : t.working = []) (hn : t.node? [path] = some (.file b m)) :
    t.stat path = .ok ([path], .file b m) := by
  refine stat_eq_ok.mpr ⟨h.check, ?_⟩
  simp [h.names, h.slash, start, hw, walk, h.dots, h.short, hn]

theorem SingleName.stat_missing (h : SingleName path) (hw : t.working = []) (hn : t.node? [path] = none) :
    t.stat path = .error .notFound := by
  simp [FileTree.stat, resolve, h.check, h.names, start, hw, walk, h.dots, h.short, hn, bind, Except.bind, throw,
    throwThe, MonadExceptOf.throw]

theorem SingleName.readText {text : String} (h : SingleName path) (hw : t.working = [])
    (hn : t.node? [path] = some (.file b m)) (htext : Utf8.decode? b = some text) : t.readText path = .ok text :=
  readText_eq_ok.mpr ⟨[path], b, m, h.stat hw hn, htext⟩

end
end CertRotation.FileTree
