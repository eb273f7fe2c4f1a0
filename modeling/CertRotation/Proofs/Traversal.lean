import Mathlib.Data.List.Forall2

/-!
# Computations that succeed or fail

A chain of partial computations succeeds exactly if each of them does, and so does a computation done for every item
of a list. It fails with the error of the first that does not, so that a property of errors is checked part by part.
-/
namespace CertRotation
variable {α β ε : Type}

theorem bind_eq_ok {x : Except ε α} {f : α → Except ε β} {b : β} :
    x >>= f = .ok b ↔ ∃ a, x = .ok a ∧ f a = .ok b := by
  cases x with
  | error e => simp [bind, Except.bind]
  | ok a => simp [bind, Except.bind]

/-- A reader that goes on after another one gets the state that is left. -/
theorem run_bind_iff {σ : Type} {r : StateT σ Option α} {f : α → StateT σ Option β} {s s' : σ} {b : β} :
    (r >>= f).run s = some (b, s') ↔ ∃ a middle, r.run s = some (a, middle) ∧ (f a).run middle = some (b, s') := by
  rw [StateT.run_bind]
  constructor
  · intro h
    obtain ⟨⟨a, middle⟩, ha, hb⟩ := Option.bind_eq_some_iff.mp h
    exact ⟨a, middle, ha, hb⟩
  · rintro ⟨a, middle, ha, hb⟩
    exact Option.bind_eq_some_iff.mpr ⟨(a, middle), ha, hb⟩

theorem mapError_eq_ok {ε' : Type} {x : Except ε α} {f : ε → ε'} {a : α} : x.mapError f = .ok a ↔ x = .ok a := by
  cases x <;> simp [Except.mapError]

theorem toOption_eq_some {x : Except ε α} {a : α} : x.toOption = some a ↔ x = .ok a := by
  cases x <;> simp [Except.toOption]

theorem guard_eq_ok {p : Prop} [Decidable p] {e : ε} {f : Unit → Except ε α} {a : α} :
    (if p then throw e >>= f else f ()) = .ok a ↔ ¬ p ∧ f () = .ok a := by
  split <;> simp_all [throw, throwThe, MonadExceptOf.throw, bind, Except.bind]

theorem exists_of_mem_right {R : α → β → Prop} {l : List α} {m : List β} (h : List.Forall₂ R l m) {y : β}
    (hy : y ∈ m) : ∃ x ∈ l, R x y := by
  induction h with
  | nil => simp at hy
  | @cons x y' l m hxy _ ih =>
    rcases List.mem_cons.mp hy with rfl | hy
    · exact ⟨x, by simp, hxy⟩
    · obtain ⟨z, hz, hzy⟩ := ih hy
      exact ⟨z, by simp [hz], hzy⟩

theorem mapM_eq_some {f : α → Option β} {l : List α} {m : List β} :
    l.mapM f = some m ↔ List.Forall₂ (fun x y => f x = some y) l m := by
  induction l generalizing m with
  | nil => cases m <;> simp
  | cons x l ih =>
    rw [List.mapM_cons]
    constructor
    · intro h
      obtain ⟨y, hy, h⟩ := Option.bind_eq_some_iff.mp h
      obtain ⟨ys, hys, h⟩ := Option.bind_eq_some_iff.mp h
      obtain rfl : y :: ys = m := by simpa using h
      exact .cons hy (ih.mp hys)
    · rintro (_ | ⟨hy, hys⟩)
      rw [hy, ih.mpr hys]
      rfl

theorem mapM_eq_ok {f : α → Except ε β} {l : List α} {m : List β} :
    l.mapM f = .ok m ↔ List.Forall₂ (fun x y => f x = .ok y) l m := by
  induction l generalizing m with
  | nil => cases m <;> simp [pure, Except.pure]
  | cons x l ih =>
    rw [List.mapM_cons]
    constructor
    · intro h
      obtain ⟨y, hy, h⟩ := bind_eq_ok.mp h
      obtain ⟨ys, hys, h⟩ := bind_eq_ok.mp h
      obtain rfl : y :: ys = m := by simpa [pure, Except.pure] using h
      exact .cons hy (ih.mp hys)
    · rintro (_ | ⟨hy, hys⟩)
      rw [hy, ih.mpr hys]
      rfl

/-! ## Computations that fail -/

theorem bind_eq_error {x : Except ε α} {f : α → Except ε β} {e : ε} :
    x >>= f = .error e ↔ x = .error e ∨ ∃ a, x = .ok a ∧ f a = .error e := by
  cases x <;> simp [bind, Except.bind]

theorem mapError_eq_error {ε' : Type} {x : Except ε α} {f : ε → ε'} {e : ε'} :
    x.mapError f = .error e ↔ ∃ e', x = .error e' ∧ e = f e' := by
  cases x <;> simp [Except.mapError, eq_comm]

theorem guard_eq_error {p : Prop} [Decidable p] {e₀ e : ε} {f : Unit → Except ε α} :
    (if p then throw e₀ >>= f else f ()) = .error e ↔ p ∧ e = e₀ ∨ ¬ p ∧ f () = .error e := by
  split <;> simp_all [throw, throwThe, MonadExceptOf.throw, bind, Except.bind, eq_comm]

theorem exists_of_mapM_eq_error {f : α → Except ε β} {l : List α} {e : ε} (h : l.mapM f = .error e) :
    ∃ a ∈ l, f a = .error e := by
  induction l with
  | nil => cases h
  | cons a l ih =>
    rw [List.mapM_cons] at h
    cases bind_eq_error.mp h with
    | inl ha => exact ⟨a, List.mem_cons_self, ha⟩
    | inr hrest =>
      obtain ⟨b, -, hrest⟩ := hrest
      obtain ⟨a', ha', hfails⟩ := ih ((bind_eq_error.mp hrest).resolve_right (by rintro ⟨bs, -, hbs⟩; cases hbs))
      exact ⟨a', List.mem_cons_of_mem a ha', hfails⟩

/-! ## Computations that change something

What a failing computation has changed stays changed. -/

section
variable {σ : Type}

theorem bind_apply (a : ExceptT ε (StateM σ) α) (f : α → ExceptT ε (StateM σ) β) (s : σ) :
    (a >>= f) s = match a s with
      | (.error e, s') => (.error e, s')
      | (.ok x, s') => f x s' := by
  show (StateT.bind a (ExceptT.bindCont f)) s = _
  unfold StateT.bind
  rcases h : a s with ⟨r, s'⟩
  cases r <;> rfl

/-- Either the first part fails, or the second goes on from where the first has left off. -/
theorem bind_apply_eq {a : ExceptT ε (StateM σ) α} {f : α → ExceptT ε (StateM σ) β} {s s' : σ} {r : Except ε β}
    (h : (a >>= f) s = (r, s')) :
    (∃ e, a s = (.error e, s') ∧ r = .error e) ∨ ∃ x s₁, a s = (.ok x, s₁) ∧ f x s₁ = (r, s') := by
  rw [bind_apply] at h
  rcases hfirst : a s with ⟨first, s₁⟩
  rw [hfirst] at h
  cases first with
  | error e =>
    obtain ⟨hr, rfl⟩ := Prod.mk.inj h
    exact .inl ⟨e, rfl, hr.symm⟩
  | ok x => exact .inr ⟨x, s₁, rfl, h⟩

theorem bind_apply_eq_ok {a : ExceptT ε (StateM σ) α} {f : α → ExceptT ε (StateM σ) β} {s s' : σ} {y : β} :
    (a >>= f) s = (.ok y, s') ↔ ∃ x s₁, a s = (.ok x, s₁) ∧ f x s₁ = (.ok y, s') := by
  constructor
  · intro h
    rcases bind_apply_eq h with ⟨e, -, he⟩ | h
    · simp at he
    · exact h
  · rintro ⟨x, s₁, hfirst, h⟩
    rw [bind_apply, hfirst]
    exact h

theorem pure_apply (a : α) (s : σ) : (pure a : ExceptT ε (StateM σ) α) s = (.ok a, s) := rfl

end

/-! ## Errors that a computation can end with -/

/-- If the result is an error, then one with the property. -/
def Faults {ε α : Type} (P : ε → Prop) (r : Except ε α) : Prop := ∀ x, r = .error x → P x

/-- Wherever the computation starts, it does not end with an error without the property. -/
def Fails {ε σ α : Type} (P : ε → Prop) (a : ExceptT ε (StateM σ) α) : Prop := ∀ s, Faults P (a s).1

section
variable {ε' σ : Type} {P Q : ε → Prop}

theorem Faults.ok (x : α) : Faults P (.ok x : Except ε α) := fun x h => by cases h

theorem Faults.error {x : ε} (h : P x) : Faults P (.error x : Except ε α) := fun _ hx => Except.error.inj hx ▸ h

theorem Faults.of_forall (h : ∀ x, P x) (r : Except ε α) : Faults P r := fun x _ => h x

theorem Faults.bind {r : Except ε α} {f : α → Except ε β} (h : Faults P r) (hf : ∀ x, Faults P (f x)) :
    Faults P (r >>= f) := by
  intro x hx
  cases bind_eq_error.mp hx with
  | inl hfirst => exact h x hfirst
  | inr hrest =>
    obtain ⟨y, -, hrest⟩ := hrest
    exact hf y x hrest

theorem Faults.mapError {r : Except ε' α} {f : ε' → ε} (h : Faults (fun x => P (f x)) r) : Faults P (r.mapError f) := by
  intro x hx
  obtain ⟨y, hy, rfl⟩ := mapError_eq_error.mp hx
  exact h y hy

theorem Faults.map {r : Except ε α} (f : α → β) (h : Faults P r) : Faults P (r.map f) := by
  cases r with
  | error x => exact .error (h x rfl)
  | ok x => exact .ok _

theorem Fails.pure (x : α) : Fails P (Pure.pure x : ExceptT ε (StateM σ) α) := fun _ => .ok x

theorem Fails.throw {x : ε} (h : P x) : Fails P (MonadExcept.throw x : ExceptT ε (StateM σ) α) := fun _ => .error h

theorem Fails.bind {a : ExceptT ε (StateM σ) α} {f : α → ExceptT ε (StateM σ) β} (h : Fails P a)
    (hf : ∀ x, Fails P (f x)) : Fails P (a >>= f) := by
  intro s x hx
  rcases hrun : (a >>= f) s with ⟨r, s'⟩
  rw [hrun] at hx
  obtain rfl : r = .error x := hx
  cases bind_apply_eq hrun with
  | inl hfirst =>
    obtain ⟨e, ha, he⟩ := hfirst
    obtain rfl := Except.error.inj he
    exact h s x (by rw [ha])
  | inr hrest =>
    obtain ⟨y, s₁, -, hrest⟩ := hrest
    exact hf y s₁ x (by rw [hrest])

theorem Fails.mono {a : ExceptT ε (StateM σ) α} (h : Fails P a) (hPQ : ∀ x, P x → Q x) : Fails Q a :=
  fun s x hx => hPQ x (h s x hx)

end

end CertRotation
