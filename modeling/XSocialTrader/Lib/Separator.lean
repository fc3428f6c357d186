import Mathlib.Data.List.Basic

/-! Texts joined at a separator that is not escaped. A joined text determines its parts as far
as they are known not to hold the separator, and no further. -/
namespace Separator

variable {α : Type*} {sep : α} {a b c d : List α}

/-- Two joins agree if their parts do, or if a piece between two separators belongs to the left
part of one and to the right part of the other. -/
theorem join_eq_join_iff : a ++ sep :: b = c ++ sep :: d ↔ a = c ∧ b = d ∨
    (∃ m, a = c ++ sep :: m ∧ d = m ++ sep :: b) ∨
    ∃ m, c = a ++ sep :: m ∧ b = m ++ sep :: d := by
  rw [List.append_eq_append_iff]
  constructor
  · rintro (⟨m, rfl, h⟩ | ⟨m, rfl, h⟩)
    · cases m with
      | nil => exact Or.inl ⟨by simp, (List.cons.inj h).2⟩
      | cons x m =>
        obtain ⟨rfl, rfl⟩ := List.cons.inj h
        exact Or.inr (Or.inr ⟨m, rfl, rfl⟩)
    · cases m with
      | nil => exact Or.inl ⟨by simp, (List.cons.inj h).2.symm⟩
      | cons x m =>
        obtain ⟨rfl, rfl⟩ := List.cons.inj h
        exact Or.inr (Or.inl ⟨m, rfl, rfl⟩)
  · rintro (⟨rfl, rfl⟩ | ⟨m, rfl, rfl⟩ | ⟨m, rfl, rfl⟩)
    · exact Or.inl ⟨[], by simp⟩
    · exact Or.inr ⟨sep :: m, rfl, rfl⟩
    · exact Or.inl ⟨sep :: m, rfl, rfl⟩

/-- The first separator is found if the left parts are free of it. -/
theorem join_inj (ha : sep ∉ a) (hc : sep ∉ c) :
    a ++ sep :: b = c ++ sep :: d ↔ a = c ∧ b = d := by
  rw [join_eq_join_iff]
  constructor
  · rintro (h | ⟨m, rfl, -⟩ | ⟨m, rfl, -⟩)
    · exact h
    · exact absurd (by simp) ha
    · exact absurd (by simp) hc
  · exact Or.inl

end Separator
