import Mathlib.Data.List.Dedup
import Mathlib.Data.List.Sort
import Mathlib.Data.Set.Insert

/-! Driving a set towards a desired one by single insertions and removals. What holds between
any two moments of such a drive is a preorder, so it survives every interruption. -/
namespace Reconcile

section Towards

variable {α : Type*} {D R S T : Set α} {u : α}

/-- From `R` to `S` no member of the desired set is lost and nothing outside it is gained. -/
def Towards (D R S : Set α) : Prop := R ∩ D ⊆ S ∧ S ⊆ R ∪ D

theorem Towards.refl : Towards D R R := ⟨Set.inter_subset_left, Set.subset_union_left⟩

theorem Towards.trans (h : Towards D R S) (h' : Towards D S T) : Towards D R T := by
  constructor
  · rintro u ⟨hR, hD⟩
    exact h'.1 ⟨h.1 ⟨hR, hD⟩, hD⟩
  · intro u hT
    rcases h'.2 hT with hS | hD
    · exact h.2 hS
    · exact Or.inr hD

theorem towards_insert (hu : u ∈ D) : Towards D R (insert u R) := by
  refine ⟨fun v hv => Or.inr hv.1, ?_⟩
  rintro v (rfl | hv)
  · exact Or.inr hu
  · exact Or.inl hv

theorem towards_remove (hu : u ∉ D) : Towards D R (R \ {u}) := by
  refine ⟨fun v hv => ⟨hv.1, ?_⟩, fun v hv => Or.inl hv.1⟩
  rintro rfl
  exact hu hv.2

end Towards

section Path

variable {σ : Type*} {R : σ → σ → Prop} {s t u : σ} {passed later : List σ}

variable (R) in
/-- A walk from `s` to `t` whose stations are related to all that come after them. -/
structure Path (s : σ) (passed : List σ) (t : σ) : Prop where
  ordered : (s :: passed).Pairwise R
  reaches : ∀ v ∈ s :: passed, R v t

theorem Path.nil (hrefl : ∀ s, R s s) : Path R s [] s :=
  ⟨List.pairwise_singleton R s, by simpa using hrefl s⟩

theorem Path.single (hrefl : ∀ s, R s s) (h : R s t) : Path R s [t] t := by
  refine ⟨by simpa using h, fun v hv => ?_⟩
  rcases List.mem_pair.mp hv with rfl | rfl
  · exact h
  · exact hrefl v

variable (htrans : ∀ a b c : σ, R a b → R b c → R a c)
include htrans

theorem Path.append (h : Path R s passed t) (h' : Path R t later u) :
    Path R s (passed ++ later) u := by
  constructor
  · rw [← List.cons_append, List.pairwise_append]
    refine ⟨h.ordered, (List.pairwise_cons.mp h'.ordered).2, fun v hv w hw => ?_⟩
    exact htrans _ _ _ (h.reaches v hv) ((List.pairwise_cons.mp h'.ordered).1 w hw)
  · intro v hv
    rw [← List.cons_append, List.mem_append] at hv
    rcases hv with hv | hv
    · exact htrans _ _ _ (h.reaches v hv) (h'.reaches t List.mem_cons_self)
    · exact h'.reaches v (List.mem_cons_of_mem t hv)

/-- A fold whose steps are related walks through all its intermediate states. -/
theorem Path.foldl {α : Type*} {f : σ → α → σ} (hrefl : ∀ s, R s s) (hstep : ∀ s a, R s (f s a))
    (l : List α) (s : σ) : Path R s (l.scanl f s).tail (l.foldl f s) := by
  induction l generalizing s with
  | nil => exact Path.nil hrefl
  | cons a l ih =>
    have hrest : ((a :: l).scanl f s).tail = [f s a] ++ (l.scanl f (f s a)).tail := by
      cases l <;> simp
    rw [hrest]
    exact Path.append htrans (Path.single hrefl (hstep s a)) (ih (f s a))

end Path

section Plan

variable {α : Type*} [LinearOrder α] (D R : List α)

/-- The members of a list, once each and in order. -/
def sortedSet (l : List α) : List α := l.dedup.insertionSort (· ≤ ·)

/-- What the desired list has and the other one lacks. -/
def missing : List α := sortedSet (D.filter fun u => u ∉ R)

/-- What the other list has and the desired one lacks. -/
def surplus : List α := sortedSet (R.filter fun u => u ∉ D)

def common : List α := sortedSet (D.filter fun u => u ∈ R)

variable {D R} {u : α}

@[simp] theorem mem_sortedSet {l : List α} : u ∈ sortedSet l ↔ u ∈ l := by
  rw [sortedSet, List.mem_insertionSort, List.mem_dedup]

theorem sortedSet_nodup (l : List α) : (sortedSet l).Nodup :=
  (List.perm_insertionSort _ l.dedup).nodup_iff.mpr (List.nodup_dedup l)

@[simp] theorem sortedSet_nil : sortedSet ([] : List α) = [] := rfl

@[simp] theorem mem_missing : u ∈ missing D R ↔ u ∈ D ∧ u ∉ R := by simp [missing]

@[simp] theorem mem_surplus : u ∈ surplus D R ↔ u ∈ R ∧ u ∉ D := by simp [surplus]

@[simp] theorem mem_common : u ∈ common D R ↔ u ∈ D ∧ u ∈ R := by simp [common]

variable (D R)

/-- The three lists share no member and none of them repeats one. -/
theorem plan_nodup : (missing D R ++ surplus D R ++ common D R).Nodup := by
  refine List.Nodup.append (List.Nodup.append (sortedSet_nodup _) (sortedSet_nodup _) ?_)
    (sortedSet_nodup _) ?_
  · intro u hm hs
    exact (mem_missing.mp hm).2 (mem_surplus.mp hs).1
  · intro u hms hc
    rcases List.mem_append.mp hms with hm | hs
    · exact (mem_missing.mp hm).2 (mem_common.mp hc).2
    · exact (mem_surplus.mp hs).2 (mem_common.mp hc).1

variable {D R}

theorem mem_plan : u ∈ missing D R ++ surplus D R ++ common D R ↔ u ∈ D ∨ u ∈ R := by
  simp only [List.mem_append, mem_missing, mem_surplus, mem_common]
  tauto

/-- Between lists with the same members there is nothing to do. -/
theorem plan_of_same_members (h : ∀ u, u ∈ R ↔ u ∈ D) :
    missing D R = [] ∧ surplus D R = [] ∧ common D R = sortedSet D := by
  refine ⟨List.eq_nil_iff_forall_not_mem.mpr fun u hu => ?_,
    List.eq_nil_iff_forall_not_mem.mpr fun u hu => ?_, ?_⟩
  · exact (mem_missing.mp hu).2 ((h u).mpr (mem_missing.mp hu).1)
  · exact (mem_surplus.mp hu).2 ((h u).mp (mem_surplus.mp hu).1)
  · rw [common, List.filter_eq_self.mpr fun u hu => decide_eq_true ((h u).mpr hu)]

end Plan

end Reconcile
