import Mathlib.Algebra.Group.Nat.Defs
import Mathlib.Data.List.Basic

/-! A loop of attempts with exponential backoff: the pause doubles up to a cap, and an attempt
that gets through starts it afresh. -/
namespace Backoff

variable {β : Type*}

/-- One attempt: whether it gets through, what it brings, and whether the loop pauses after it. -/
structure Attempt (β : Type*) where
  connected : Bool
  outputs : List β
  pauses : Bool

/-- What is seen of an attempt, with the length of the pause after it. -/
structure Round (β : Type*) where
  connected : Bool
  outputs : List β
  slept : Option ℕ

/-- The loop, from the pause that is next. -/
def run (initial cap : ℕ) : ℕ → List (Attempt β) → List (Round β)
  | _, [] => []
  | pause, a :: as =>
    let pause := if a.connected then initial else pause
    if a.pauses then
      ⟨a.connected, a.outputs, some pause⟩ :: run initial cap (min (pause * 2) cap) as
    else ⟨a.connected, a.outputs, none⟩ :: run initial cap pause as

/-- The pause after `j` others. -/
def delay (initial cap j : ℕ) : ℕ := min (initial * 2 ^ j) cap

/-- How many pauses there have been since the last attempt that got through. -/
def pausesSince : ℕ → List (Round β) → ℕ
  | j, [] => j
  | j, r :: rs =>
    pausesSince ((if r.connected then 0 else j) + if r.slept.isSome then 1 else 0) rs

/-- Between any two consecutive attempts there is a pause, as long as the number of pauses since
the last attempt that got through says; `j` pauses came before the first round. -/
def BacksOff (initial cap j : ℕ) (rounds : List (Round β)) : Prop :=
  ∀ before r r' after, rounds = before ++ r :: r' :: after →
    r.slept = some (delay initial cap (if r.connected then 0 else pausesSince j before))

variable {initial cap j : ℕ}

theorem delay_zero (h : initial ≤ cap) : delay initial cap 0 = initial := by
  simp [delay, h]

theorem delay_succ (j : ℕ) : delay initial cap (j + 1) = min (delay initial cap j * 2) cap := by
  unfold delay
  rw [Nat.pow_succ, ← Nat.mul_assoc]
  omega

theorem backsOff_nil : BacksOff initial cap j ([] : List (Round β)) := by
  intro before r r' after h
  simp at h

theorem backsOff_cons (r : Round β) (rs : List (Round β)) :
    BacksOff initial cap j (r :: rs) ↔
      (rs ≠ [] → r.slept = some (delay initial cap (if r.connected then 0 else j))) ∧
        BacksOff initial cap
          ((if r.connected then 0 else j) + if r.slept.isSome then 1 else 0) rs := by
  constructor
  · intro h
    refine ⟨fun hrs => ?_, fun before r₁ r₂ after heq => ?_⟩
    · obtain ⟨r', after, rfl⟩ := List.exists_cons_of_ne_nil hrs
      exact h [] r r' after rfl
    · exact h (r :: before) r₁ r₂ after (congrArg (r :: ·) heq)
  · rintro ⟨hfirst, hrest⟩ before r₁ r₂ after heq
    cases before with
    | nil =>
      obtain ⟨rfl, rfl⟩ := List.cons.inj heq
      exact hfirst (List.cons_ne_nil _ _)
    | cons r₀ before =>
      obtain ⟨rfl, hrs⟩ := List.cons.inj heq
      exact hrest before r₁ r₂ after hrs

theorem run_eq_nil_iff {pause : ℕ} {as : List (Attempt β)} :
    run initial cap pause as = [] ↔ as = [] := by
  cases as with
  | nil => simp [run]
  | cons a as =>
    simp only [run]
    split <;> simp

/-- The loop backs off exactly if it pauses after each attempt but the last. -/
theorem run_backsOff_iff (hcap : initial ≤ cap) (as : List (Attempt β)) (j : ℕ) :
    BacksOff initial cap j (run initial cap (delay initial cap j) as) ↔
      ∀ a ∈ as.dropLast, a.pauses = true := by
  induction as generalizing j with
  | nil => simp [run, backsOff_nil]
  | cons a as ih =>
    have hpause : (if a.connected then initial else delay initial cap j) =
        delay initial cap (if a.connected then 0 else j) := by
      split
      · exact (delay_zero hcap).symm
      · rfl
    cases as with
    | nil =>
      simp only [run]
      split <;> simp [backsOff_cons, backsOff_nil]
    | cons a' as =>
      have hne : ∀ pause, run initial cap pause (a' :: as) ≠ [] := fun pause h =>
        List.cons_ne_nil a' as (run_eq_nil_iff.mp h)
      rw [List.dropLast_cons_cons, List.forall_mem_cons, run, hpause]
      cases hp : a.pauses with
      | true =>
        rw [if_pos rfl, backsOff_cons, ← delay_succ]
        simp only [ih, hne, Option.isSome_some, if_true, ne_eq, not_false_eq_true, true_implies,
          true_and]
      | false =>
        rw [if_neg Bool.false_ne_true, backsOff_cons]
        simp [hne]

end Backoff
