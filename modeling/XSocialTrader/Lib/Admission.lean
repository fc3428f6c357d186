import XSocialTrader.Lib.LabelledRun
import Mathlib.Algebra.BigOperators.Group.Finset.Piecewise
import Mathlib.Algebra.Order.BigOperators.Group.Finset
import Mathlib.Data.Fintype.Basic

/-! A check that admits processes to an effect, once it is shut for good: nobody is admitted any
more, and each process that was admitted before has the effect once at most. -/
namespace Admission
open LabelledRun

variable {σ α ι : Type*}

/-- While the check is shut, each step that meets the condition leaves it shut and admits nobody;
an effect takes an admission and uses it up. -/
structure Shuts (step : σ → α → Option σ) (C : σ → α → Prop) (shut : σ → Prop)
    (admitted : σ → ι → Prop) (effect : σ → α → ι → Bool) : Prop where
  stays : ∀ s a t, shut s → C s a → step s a = some t → shut t
  takes : ∀ s a t i, shut s → C s a → step s a = some t → effect s a i = true → admitted s i
  admits : ∀ s a t i, shut s → C s a → step s a = some t → admitted t i →
    admitted s i ∧ effect s a i = false

variable {step : σ → α → Option σ} {C : σ → α → Prop} {shut : σ → Prop}
  {admitted : σ → ι → Prop} [∀ s, DecidablePred (admitted s)] {effect : σ → α → ι → Bool}
  {s t : σ} {as : List α}

/-- How many admissions a process has left. -/
def left (admitted : σ → ι → Prop) [∀ s, DecidablePred (admitted s)] (s : σ) (i : ι) : ℕ :=
  if admitted s i then 1 else 0

theorem Shuts.left_add_effect (h : Shuts step C shut admitted effect) {a : α} (hs : shut s)
    (ha : C s a) (hstep : step s a = some t) (i : ι) :
    left admitted t i + (effect s a i).toNat ≤ left admitted s i := by
  have hadmits := h.admits s a t i hs ha hstep
  have htakes := h.takes s a t i hs ha hstep
  unfold left
  by_cases ht : admitted t i
  · obtain ⟨hi, he⟩ := hadmits ht
    simp [ht, hi, he]
  · cases he : effect s a i with
    | false => simp [ht]
    | true => simp [ht, htakes he]

/-- A process has the effect at most once, and only if it was admitted. -/
theorem Shuts.each (h : Shuts step C shut admitted effect) (hs : shut s)
    (hC : Guarded step C s as) (hrun : exec step s as = some t) (i : ι) :
    left admitted t i + tally step effect s as i ≤ left admitted s i := by
  have hrule := guarded_tally_invariant effect
    (fun u n => shut u ∧ ∀ i, left admitted u i + n i ≤ left admitted s i) ?_
    (n := fun _ => 0) ⟨hs, fun _ => le_rfl⟩ hC hrun
  · simpa only [Nat.zero_add] using hrule.2 i
  · rintro u n a v ⟨hu, hn⟩ ha hstep
    refine ⟨h.stays u a v hu ha hstep, fun i => ?_⟩
    have huses := h.left_add_effect hu ha hstep i
    have hbound := hn i
    dsimp only
    omega

/-- What each effect adds one to grows by at most the number of admitted processes. -/
theorem Shuts.total [Fintype ι] (h : Shuts step C shut admitted effect) (hs : shut s)
    (hC : Guarded step C s as) (hrun : exec step s as = some t) (m : σ → ℕ)
    (hm : ∀ u a v, step u a = some v → m v = m u + ∑ i, (effect u a i).toNat) :
    m t ≤ m s + (Finset.univ.filter (admitted s)).card := by
  have hcount : m t = m s + ∑ i, tally step effect s as i := by
    have hrule := guarded_tally_invariant effect (fun u n => m u = m s + ∑ i, n i) ?_
      (n := fun _ => 0) (by simp) hC hrun
    · simpa only [Nat.zero_add] using hrule
    · intro u n a v hu _ hstep
      rw [hm u a v hstep, hu, Finset.sum_add_distrib]
      omega
  rw [hcount, Finset.card_filter]
  exact Nat.add_le_add_left (Finset.sum_le_sum fun i _ =>
    (Nat.le_add_left _ _).trans (h.each hs hC hrun i)) _

end Admission
