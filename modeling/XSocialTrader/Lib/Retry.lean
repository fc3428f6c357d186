import Mathlib.Algebra.BigOperators.Group.List.Basic
import Mathlib.Algebra.GroupWithZero.Nat
import Mathlib.Data.List.Range

/-! A bounded loop of attempts: an attempt settles the loop with a value or an error, or it
fails in a way that is worth another attempt after a pause. -/
namespace Retry

variable {α ε η : Type*}

inductive Verdict (α ε η : Type*) where
  | returns (a : α)
  | raises (e : ε)
  | again (failure : η)

namespace Verdict

def retries : Verdict α ε η → Bool
  | .again _ => true
  | _ => false

/-- What a verdict that settles the loop makes of it. -/
def settled : Verdict α ε η → Option (Except ε α)
  | .returns a => some (.ok a)
  | .raises e => some (.error e)
  | .again _ => none

def failure? : Verdict α ε η → Option η
  | .again failure => some failure
  | _ => none

end Verdict

/-- How a loop ended, how many attempts it made, and after which of them it paused. -/
structure Run (α ε : Type*) where
  result : Except ε α
  tries : ℕ
  paused : List ℕ

/-- The loop with `left` attempts from number `k` on; `last` is the latest failure. -/
def loop (verdict : ℕ → Verdict α ε η) (giveUp : Option η → ε) : ℕ → ℕ → Option η → Run α ε
  | 0, _, last => ⟨.error (giveUp last), 0, []⟩
  | left + 1, k, _ => match verdict k with
    | .returns a => ⟨.ok a, 1, []⟩
    | .raises e => ⟨.error e, 1, []⟩
    | .again failure =>
      let rest := loop verdict giveUp left (k + 1) (some failure)
      ⟨rest.result, rest.tries + 1, k :: rest.paused⟩

variable {verdict : ℕ → Verdict α ε η} {giveUp : Option η → ε} {left k j : ℕ} {last : Option η}

theorem loop_again (h : (verdict k).retries = true) :
    loop verdict giveUp (left + 1) k last =
      let rest := loop verdict giveUp left (k + 1) (verdict k).failure?
      ⟨rest.result, rest.tries + 1, k :: rest.paused⟩ := by
  cases hv : verdict k with
  | returns a => simp [hv, Verdict.retries] at h
  | raises e => simp [hv, Verdict.retries] at h
  | again failure => simp [loop, hv, Verdict.failure?]

/-- The first attempt that is not worth another one settles the loop. -/
theorem loop_settled {result : Except ε α} (hj : j < left)
    (hbefore : ∀ i < j, (verdict (k + i)).retries = true)
    (hsettles : (verdict (k + j)).settled = some result) :
    loop verdict giveUp left k last = ⟨result, j + 1, List.range' k j⟩ := by
  induction j generalizing left k last with
  | zero =>
    obtain ⟨n, rfl⟩ := Nat.exists_eq_succ_of_ne_zero (Nat.pos_iff_ne_zero.mp hj)
    rw [Nat.add_zero] at hsettles
    cases hv : verdict k with
    | returns a =>
      rw [hv] at hsettles
      obtain rfl := Option.some.inj hsettles
      simp [loop, hv]
    | raises e =>
      rw [hv] at hsettles
      obtain rfl := Option.some.inj hsettles
      simp [loop, hv]
    | again failure => simp [hv, Verdict.settled] at hsettles
  | succ j ih =>
    obtain ⟨n, rfl⟩ := Nat.exists_eq_succ_of_ne_zero (by omega : left ≠ 0)
    have hfirst : (verdict k).retries = true := by simpa using hbefore 0 (by omega)
    have hshift (i : ℕ) : k + 1 + i = k + (i + 1) := by omega
    rw [loop_again hfirst, ih (by omega) (fun i hi => hshift i ▸ hbefore (i + 1) (by omega))
      (hshift j ▸ hsettles)]
    rfl

/-- A loop whose attempts are all worth another one makes them all, pauses after each, and
gives up. -/
theorem loop_exhausted (h : ∀ i < left, (verdict (k + i)).retries = true) :
    ∃ failure, loop verdict giveUp left k last =
      ⟨.error (giveUp failure), left, List.range' k left⟩ := by
  induction left generalizing k last with
  | zero => exact ⟨last, rfl⟩
  | succ left ih =>
    have hfirst : (verdict k).retries = true := by simpa using h 0 (by omega)
    have hshift (i : ℕ) : k + 1 + i = k + (i + 1) := by omega
    rw [loop_again hfirst]
    obtain ⟨e, he⟩ := @ih (k + 1) (verdict k).failure?
      fun i hi => hshift i ▸ h (i + 1) (by omega)
    rw [he]
    exact ⟨e, rfl⟩

variable {verdict' : ℕ → Verdict α ε η}

/-- What the attempts that a loop does not make would have come to plays no part. -/
theorem loop_congr
    (h : ∀ i < (loop verdict giveUp left k last).tries, verdict' (k + i) = verdict (k + i)) :
    loop verdict' giveUp left k last = loop verdict giveUp left k last := by
  induction left generalizing k last with
  | zero => rfl
  | succ left ih =>
    have hfirst : 0 < (loop verdict giveUp (left + 1) k last).tries := by
      cases hv : verdict k <;> simp [loop, hv]
    have hk : verdict' k = verdict k := h 0 hfirst
    cases hv : verdict k with
    | returns a => simp [loop, hk, hv]
    | raises e => simp [loop, hk, hv]
    | again failure =>
      have hrest : loop verdict' giveUp left (k + 1) (some failure) =
          loop verdict giveUp left (k + 1) (some failure) := by
        refine ih fun i hi => ?_
        rw [Nat.add_assoc, Nat.add_comm 1]
        exact h (i + 1) (by simpa [loop, hv] using hi)
      simp only [loop, hk, hv, hrest]

/-- One of the two happens. -/
theorem settled_or_exhausted (verdict : ℕ → Verdict α ε η) (left : ℕ) :
    (∃ j < left, (∀ i < j, (verdict i).retries = true) ∧
      ∃ result, (verdict j).settled = some result) ∨ ∀ i < left, (verdict i).retries = true := by
  induction left with
  | zero => exact Or.inr fun i hi => absurd hi (Nat.not_lt_zero i)
  | succ left ih =>
    rcases ih with ⟨j, hj, hbefore, hsettles⟩ | hall
    · exact Or.inl ⟨j, by omega, hbefore, hsettles⟩
    · cases hlast : verdict left with
      | returns a => exact Or.inl ⟨left, by omega, hall, .ok a, by rw [hlast]; rfl⟩
      | raises e => exact Or.inl ⟨left, by omega, hall, .error e, by rw [hlast]; rfl⟩
      | again failure =>
        refine Or.inr fun i hi => ?_
        rcases Nat.lt_succ_iff_lt_or_eq.mp hi with hi | rfl
        · exact hall i hi
        · rw [hlast]; rfl

/-- Doubling pauses after the first `n` attempts come to one unit less than the next one. -/
theorem sum_doubling (n : ℕ) : ((List.range' 0 n).map (2 ^ ·)).sum = 2 ^ n - 1 := by
  rw [← List.range_eq_range']
  induction n with
  | zero => rfl
  | succ n ih =>
    rw [List.range_succ, List.map_append, List.sum_append, ih, List.map_singleton,
      List.sum_singleton, Nat.pow_succ]
    have hpos : 0 < 2 ^ n := Nat.two_pow_pos n
    omega

end Retry
