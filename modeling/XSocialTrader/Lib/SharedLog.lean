import Mathlib.Data.List.Basic

/-! A log that several writers append to. What one of them has written stands in it in order,
with the entries of the others in between, and nothing else does while it is alone. -/
namespace SharedLog

variable {α : Type*} {alone : Prop} {own new xs ys zs : List α}

/-- The log has grown from `xs` to `ys`, and `own` is one writer's part of what was added. -/
def Grew (alone : Prop) (own xs ys : List α) : Prop :=
  ∃ added, ys = xs ++ added ∧ own.Sublist added ∧ (alone → added = own)

theorem Grew.refl (alone : Prop) (xs : List α) : Grew alone [] xs xs :=
  ⟨[], (List.append_nil xs).symm, List.Sublist.refl [], fun _ => rfl⟩

/-- What the others append keeps the writer's part. -/
theorem Grew.others (h : Grew alone own xs ys) (hlater : ys <+: zs) (halone : alone → zs = ys) :
    Grew alone own xs zs := by
  obtain ⟨added, rfl, hown, hadded⟩ := h
  obtain ⟨later, rfl⟩ := hlater
  refine ⟨added ++ later, List.append_assoc xs added later,
    hown.trans (List.sublist_append_left added later), fun ha => ?_⟩
  rw [List.append_cancel_left ((halone ha).trans (List.append_nil _).symm), List.append_nil,
    hadded ha]

theorem Grew.write (h : Grew alone own xs ys) (new : List α) :
    Grew alone (own ++ new) xs (ys ++ new) := by
  obtain ⟨added, rfl, hown, hadded⟩ := h
  exact ⟨added ++ new, List.append_assoc xs added new, hown.append (List.Sublist.refl new),
    fun ha => by rw [hadded ha]⟩

end SharedLog
