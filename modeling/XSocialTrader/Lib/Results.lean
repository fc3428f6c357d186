import Mathlib.Data.List.Forall2

/-! Computations that return a value or an error: what a chain of them returns, taken apart
at each link. -/
namespace Results

universe u

variable {ε : Type*} {α β : Type u} {x : Except ε α} {f : α → Except ε β}

theorem bind_ok_iff {b : β} : (x >>= f) = .ok b ↔ ∃ a, x = .ok a ∧ f a = .ok b := by
  cases x <;> simp [bind, Except.bind]

theorem bind_error_iff {e : ε} :
    (x >>= f) = .error e ↔ x = .error e ∨ ∃ a, x = .ok a ∧ f a = .error e := by
  cases x <;> simp [bind, Except.bind]

theorem map_ok_iff {g : α → β} {b : β} : x.map g = .ok b ↔ ∃ a, x = .ok a ∧ g a = b := by
  cases x <;> simp [Except.map]

theorem map_error_iff {g : α → β} {e : ε} : x.map g = .error e ↔ x = .error e := by
  cases x <;> simp [Except.map]

theorem mapM_cons (a : α) (as : List α) :
    (a :: as).mapM f = f a >>= fun b => (as.mapM f).map fun bs => b :: bs := by
  rw [List.mapM_cons]
  cases f a with
  | error e => rfl
  | ok b => cases as.mapM f <;> rfl

/-- A list of computations returns the list of their values. -/
theorem mapM_ok_iff {as : List α} {bs : List β} :
    as.mapM f = .ok bs ↔ List.Forall₂ (fun a b => f a = .ok b) as bs := by
  induction as generalizing bs with
  | nil => cases bs <;> simp [pure, Except.pure]
  | cons a as ih =>
    simp only [mapM_cons, bind_ok_iff, map_ok_iff, List.forall₂_cons_left_iff, ih]
    constructor
    · rintro ⟨b, hb, bs', hbs, rfl⟩
      exact ⟨b, bs', hb, hbs, rfl⟩
    · rintro ⟨b, bs', hb, hbs, rfl⟩
      exact ⟨b, hb, bs', hbs, rfl⟩

theorem mapM_ok_of_mem {as : List α} {bs : List β} {a : α} (h : as.mapM f = .ok bs)
    (ha : a ∈ as) : ∃ b, f a = .ok b := by
  induction as generalizing bs with
  | nil => cases ha
  | cons a' as ih =>
    simp only [mapM_cons, bind_ok_iff, map_ok_iff] at h
    obtain ⟨b, hb, bs', hbs, -⟩ := h
    rcases List.mem_cons.mp ha with rfl | ha
    · exact ⟨b, hb⟩
    · exact ih hbs ha

/-- The error of a list of computations is the error of one of them. -/
theorem mapM_error {as : List α} {e : ε} (h : as.mapM f = .error e) :
    ∃ a ∈ as, f a = .error e := by
  induction as with
  | nil => simp [pure, Except.pure] at h
  | cons a as ih =>
    rw [mapM_cons, bind_error_iff] at h
    rcases h with h | ⟨b, -, h⟩
    · exact ⟨a, List.mem_cons_self, h⟩
    · obtain ⟨a', ha', he⟩ := ih (map_error_iff.mp h)
      exact ⟨a', List.mem_cons_of_mem _ ha', he⟩

end Results
