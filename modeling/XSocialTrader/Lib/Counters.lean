import Mathlib.Data.List.Basic
import Mathlib.Logic.Function.Basic

/-! Counters in one keyed store. An increment reads a missing counter as zero, and what a counter
holds is what has been added under its own key, in order. -/
namespace Counters

variable {κ α : Type*} [DecidableEq κ] (add : α → α → α) (zero : α)

def increment (store : κ → Option α) (entry : κ × α) : κ → Option α :=
  Function.update store entry.1 (some (add ((store entry.1).getD zero) entry.2))

def apply (log : List (κ × α)) (store : κ → Option α) : κ → Option α :=
  log.foldl (increment add zero) store

/-- A counter with a value, or none, after some amounts. -/
def total (held : Option α) (amounts : List α) : Option α :=
  amounts.foldl (fun held x => some (add (held.getD zero) x)) held

/-- The amounts that a log adds under a key. -/
def amounts (log : List (κ × α)) (k : κ) : List α :=
  log.filterMap fun entry => if entry.1 = k then some entry.2 else none

theorem apply_key (log : List (κ × α)) (store : κ → Option α) (k : κ) :
    apply add zero log store k = total add zero (store k) (amounts log k) := by
  induction log generalizing store with
  | nil => rfl
  | cons entry log ih =>
    rw [apply, List.foldl_cons]
    refine (ih (increment add zero store entry)).trans ?_
    by_cases hk : entry.1 = k
    · subst hk
      simp [increment, amounts, total]
    · rw [increment, Function.update_of_ne (Ne.symm hk)]
      simp [amounts, hk]

@[simp] theorem total_concat (held : Option α) (xs : List α) (x : α) :
    total add zero held (xs ++ [x]) = some (add ((total add zero held xs).getD zero) x) := by
  simp [total]

end Counters
