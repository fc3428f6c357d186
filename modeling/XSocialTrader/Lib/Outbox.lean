import Mathlib.Data.List.Nodup
import Mathlib.Logic.Function.Basic
import XSocialTrader.Lib.LabelledRun

/-! Commit, then push. Owners commit rows with unique keys, hold the new keys in memory and
push them one at a time; an owner may drop what it holds. A key is pushed at most once, only
after its row, and a dropped key is never pushed again. -/
namespace Outbox
open LabelledRun

variable {ω κ : Type*}

/-- The committed keys, the keys pushed so far, and what each owner has yet to push. -/
@[ext]
structure State (ω κ : Type*) where
  rows : List κ
  pushed : List κ
  held : ω → List κ

inductive Act (ω κ : Type*) where
  | other
  | commit (w : ω) (added : List κ)
  | push (w : ω)
  | drop (w : ω)

section Step

variable [DecidableEq ω] [DecidableEq κ]

/-- A commit is refused unless its keys are new and distinct and nothing is held. -/
def step (s : State ω κ) : Act ω κ → Option (State ω κ)
  | .other => some s
  | .commit w added =>
    if s.held w = [] ∧ (∀ k ∈ added, k ∉ s.rows) ∧ added.Nodup then
      some { s with rows := s.rows ++ added, held := Function.update s.held w added }
    else none
  | .push w => match s.held w with
    | [] => none
    | k :: rest => some { s with
        pushed := s.pushed ++ [k], held := Function.update s.held w rest }
  | .drop w => some { s with held := Function.update s.held w [] }

variable {s t : State ω κ} {w : ω} {k : κ} {rest added : List κ}

theorem step_commit (h : step s (.commit w added) = some t) :
    s.held w = [] ∧ (∀ k ∈ added, k ∉ s.rows) ∧ added.Nodup ∧
      t = { s with rows := s.rows ++ added, held := Function.update s.held w added } := by
  simp only [step] at h
  split_ifs at h with hc
  exact ⟨hc.1, hc.2.1, hc.2.2, (Option.some.inj h).symm⟩

theorem step_push (h : step s (.push w) = some t) : ∃ k rest, s.held w = k :: rest ∧
    t = { s with pushed := s.pushed ++ [k], held := Function.update s.held w rest } := by
  simp only [step] at h
  split at h
  · exact absurd h (by simp)
  next k rest hw => exact ⟨k, rest, hw, (Option.some.inj h).symm⟩

theorem step_drop (h : step s (.drop w) = some t) :
    t = { s with held := Function.update s.held w [] } := (Option.some.inj h).symm

end Step

/-- Keys are unique in the table, in the queue and among what the owners hold, and whatever
is pushed or held has been committed. -/
structure Inv (s : State ω κ) : Prop where
  rows_nodup : s.rows.Nodup
  pushed_nodup : s.pushed.Nodup
  pushed_subset : ∀ k ∈ s.pushed, k ∈ s.rows
  held_nodup : ∀ w, (s.held w).Nodup
  held_subset : ∀ w, ∀ k ∈ s.held w, k ∈ s.rows
  held_unpushed : ∀ w, ∀ k ∈ s.held w, k ∉ s.pushed
  held_disjoint : ∀ v w, ∀ k ∈ s.held v, k ∈ s.held w → v = w

/-- The key is committed, and it will not be pushed by anyone. -/
structure Lost (k : κ) (s : State ω κ) : Prop where
  committed : k ∈ s.rows
  unpushed : k ∉ s.pushed
  unheld : ∀ w, k ∉ s.held w

/-- The key has been pushed, or an owner still holds it. -/
def Accounted (k : κ) (s : State ω κ) : Prop := k ∈ s.pushed ∨ ∃ w, k ∈ s.held w

theorem Inv.empty {s : State ω κ} (hr : s.rows = []) (hp : s.pushed = [])
    (hh : ∀ w, s.held w = []) : Inv s := by
  constructor <;> simp [hr, hp, hh]

variable [DecidableEq ω] {s t : State ω κ} {w : ω} {k : κ} {rest added : List κ}

/-- What an owner holds after an update is the new list or the old one of another owner. -/
theorem mem_held_update {v : ω} (h : k ∈ Function.update s.held w added v) :
    (v = w ∧ k ∈ added) ∨ v ≠ w ∧ k ∈ s.held v := by
  by_cases hv : v = w
  · subst hv
    rw [Function.update_self] at h
    exact Or.inl ⟨rfl, h⟩
  · rw [Function.update_of_ne hv] at h
    exact Or.inr ⟨hv, h⟩

theorem mem_held_self (h : k ∈ added) : k ∈ Function.update s.held w added w := by
  rwa [Function.update_self]

theorem mem_held_other {v : ω} (hv : v ≠ w) (h : k ∈ s.held v) :
    k ∈ Function.update s.held w added v := by
  rwa [Function.update_of_ne hv]

theorem Inv.commit (h : Inv s) (hfresh : ∀ k ∈ added, k ∉ s.rows) (hn : added.Nodup) :
    Inv { s with rows := s.rows ++ added, held := Function.update s.held w added } := by
  have hold : ∀ v, ∀ k ∈ Function.update s.held w added v, k ∉ s.rows → v = w := by
    intro v k hk hnot
    rcases mem_held_update hk with ⟨hv, -⟩ | ⟨-, hk⟩
    · exact hv
    · exact absurd (h.held_subset v k hk) hnot
  constructor
  · exact h.rows_nodup.append hn fun k hk hk' => hfresh k hk' hk
  · exact h.pushed_nodup
  · exact fun k hk => List.mem_append_left _ (h.pushed_subset k hk)
  · intro v
    by_cases hv : v = w
    · subst hv
      simpa using hn
    · simpa [Function.update_of_ne hv] using h.held_nodup v
  · intro v k hk
    rcases mem_held_update hk with ⟨-, hk⟩ | ⟨-, hk⟩
    · exact List.mem_append_right _ hk
    · exact List.mem_append_left _ (h.held_subset v k hk)
  · intro v k hk
    rcases mem_held_update hk with ⟨-, hk⟩ | ⟨-, hk⟩
    · exact fun hp => hfresh k hk (h.pushed_subset k hp)
    · exact h.held_unpushed v k hk
  · intro u v k hu hv
    by_cases hk : k ∈ s.rows
    · rcases mem_held_update hu with ⟨-, hu⟩ | ⟨-, hu⟩
      · exact absurd hk (hfresh k hu)
      · rcases mem_held_update hv with ⟨-, hv⟩ | ⟨-, hv⟩
        · exact absurd hk (hfresh k hv)
        · exact h.held_disjoint u v k hu hv
    · rw [hold u k hu hk, hold v k hv hk]

/-- Holding less keeps the invariant. -/
theorem Inv.shrink (h : Inv s) (hsub : rest.Sublist (s.held w)) :
    Inv { s with held := Function.update s.held w rest } := by
  have hback : ∀ v, ∀ k ∈ Function.update s.held w rest v, k ∈ s.held v := by
    intro v k hk
    rcases mem_held_update hk with ⟨rfl, hrest⟩ | ⟨-, hold⟩
    · exact hsub.subset hrest
    · exact hold
  constructor
  · exact h.rows_nodup
  · exact h.pushed_nodup
  · exact h.pushed_subset
  · intro v
    by_cases hv : v = w
    · subst hv
      simpa using (h.held_nodup v).sublist hsub
    · simpa [Function.update_of_ne hv] using h.held_nodup v
  · exact fun v k hk => h.held_subset v k (hback v k hk)
  · exact fun v k hk => h.held_unpushed v k (hback v k hk)
  · exact fun u v k hu hv => h.held_disjoint u v k (hback u k hu) (hback v k hv)

theorem Inv.push (h : Inv s) (hw : s.held w = k :: rest) :
    Inv { s with pushed := s.pushed ++ [k], held := Function.update s.held w rest } := by
  have hk : k ∈ s.held w := hw ▸ List.mem_cons_self
  have hsub : rest.Sublist (s.held w) := hw ▸ List.sublist_cons_self k rest
  have hsmall := h.shrink hsub
  have hnot : k ∉ rest := (List.nodup_cons.mp (hw ▸ h.held_nodup w)).1
  constructor
  · exact h.rows_nodup
  · exact List.nodup_append_comm.mp (List.nodup_cons.mpr ⟨h.held_unpushed w k hk, h.pushed_nodup⟩)
  · intro j hj
    rcases List.mem_append.mp hj with hj | hj
    · exact h.pushed_subset j hj
    · exact List.mem_singleton.mp hj ▸ h.held_subset w k hk
  · exact hsmall.held_nodup
  · exact hsmall.held_subset
  · intro v j hj hp
    rcases List.mem_append.mp hp with hp | hp
    · exact hsmall.held_unpushed v j hj hp
    · obtain rfl := List.mem_singleton.mp hp
      rcases mem_held_update hj with ⟨-, hj⟩ | ⟨hv, hj⟩
      · exact hnot hj
      · exact hv (h.held_disjoint v w j hj hk)
  · exact hsmall.held_disjoint

variable [DecidableEq κ] {a : Act ω κ}

theorem step_inv (h : Inv s) (hstep : step s a = some t) : Inv t := by
  cases a with
  | other => exact Option.some.inj hstep ▸ h
  | commit w added =>
    obtain ⟨-, hfresh, hn, rfl⟩ := step_commit hstep
    exact h.commit hfresh hn
  | push w =>
    obtain ⟨k, rest, hw, rfl⟩ := step_push hstep
    exact h.push hw
  | drop w =>
    obtain rfl := step_drop hstep
    exact h.shrink (List.nil_sublist _)

/-- What a step pushes was committed before the step. -/
theorem step_pushed_committed (h : Inv s) (hstep : step s a = some t) :
    ∀ k ∈ t.pushed, k ∈ s.rows := by
  cases a with
  | other => exact Option.some.inj hstep ▸ h.pushed_subset
  | commit w added =>
    obtain ⟨-, -, -, rfl⟩ := step_commit hstep
    exact h.pushed_subset
  | push w =>
    obtain ⟨k, rest, hw, rfl⟩ := step_push hstep
    exact fun j hj => (h.push hw).pushed_subset j hj
  | drop w =>
    obtain rfl := step_drop hstep
    exact h.pushed_subset

/-- Dropping a held key loses it: no other owner holds it and it is not in the queue. -/
theorem drop_lost (h : Inv s) (hk : k ∈ s.held w) (hstep : step s (.drop w) = some t) :
    Lost k t := by
  obtain rfl := step_drop hstep
  refine ⟨h.held_subset w k hk, h.held_unpushed w k hk, fun v hv => ?_⟩
  rcases mem_held_update hv with ⟨-, hv⟩ | ⟨hvw, hv⟩
  · exact List.not_mem_nil hv
  · exact hvw (h.held_disjoint v w k hv hk)

/-- A lost key stays lost: its row keeps every later commit from taking the key up again. -/
theorem Lost.step (h : Lost k s) (hstep : step s a = some t) : Lost k t := by
  cases a with
  | other => exact Option.some.inj hstep ▸ h
  | commit w added =>
    obtain ⟨-, hfresh, -, rfl⟩ := step_commit hstep
    refine ⟨List.mem_append_left _ h.committed, h.unpushed, fun v hv => ?_⟩
    rcases mem_held_update hv with ⟨-, hv⟩ | ⟨-, hv⟩
    · exact hfresh k hv h.committed
    · exact h.unheld v hv
  | push w =>
    obtain ⟨j, rest, hw, rfl⟩ := step_push hstep
    refine ⟨h.committed, fun hp => ?_, fun v hv => ?_⟩
    · rcases List.mem_append.mp hp with hp | hp
      · exact h.unpushed hp
      · exact h.unheld w (by rw [hw, List.mem_singleton.mp hp]; exact List.mem_cons_self)
    · rcases mem_held_update hv with ⟨rfl, hrest⟩ | ⟨-, hold⟩
      · exact h.unheld v (by rw [hw]; exact List.mem_cons_of_mem _ hrest)
      · exact h.unheld v hold
  | drop w =>
    obtain rfl := step_drop hstep
    refine ⟨h.committed, h.unpushed, fun v hv => ?_⟩
    rcases mem_held_update hv with ⟨-, hv⟩ | ⟨-, hv⟩
    · exact List.not_mem_nil hv
    · exact h.unheld v hv

/-- As long as no holder of the key drops it, a committed key is pushed or held. -/
theorem accounted_step (h : k ∈ s.rows → Accounted k s) (hstep : step s a = some t)
    (hkeep : ∀ w, a = .drop w → k ∉ s.held w) (hk : k ∈ t.rows) : Accounted k t := by
  cases a with
  | other => exact Option.some.inj hstep ▸ h (Option.some.inj hstep ▸ hk)
  | commit w added =>
    obtain ⟨hw, -, -, rfl⟩ := step_commit hstep
    rcases List.mem_append.mp hk with hk | hk
    · rcases h hk with hp | ⟨v, hv⟩
      · exact Or.inl hp
      · have hvw : v ≠ w := fun hvw => by simp [hvw, hw] at hv
        exact Or.inr ⟨v, mem_held_other hvw hv⟩
    · exact Or.inr ⟨w, mem_held_self hk⟩
  | push w =>
    obtain ⟨j, rest, hw, rfl⟩ := step_push hstep
    rcases h hk with hp | ⟨v, hv⟩
    · exact Or.inl (List.mem_append_left _ hp)
    · by_cases hvw : v = w
      · subst hvw
        rw [hw] at hv
        rcases List.mem_cons.mp hv with rfl | hv
        · exact Or.inl (List.mem_append_right _ List.mem_cons_self)
        · exact Or.inr ⟨v, mem_held_self hv⟩
      · exact Or.inr ⟨v, mem_held_other hvw hv⟩
  | drop w =>
    obtain rfl := step_drop hstep
    rcases h hk with hp | ⟨v, hv⟩
    · exact Or.inl hp
    · have hvw : v ≠ w := fun hvw => hkeep w rfl (hvw ▸ hv)
      exact Or.inr ⟨v, mem_held_other hvw hv⟩

end Outbox
