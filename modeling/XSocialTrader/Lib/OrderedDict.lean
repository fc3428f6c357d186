import Mathlib.Data.List.Induction
import Mathlib.Data.List.Nodup

/-! Dictionaries that keep their keys in the order of first insertion, as lists of pairs. -/
namespace OrderedDict

variable {κ β : Type*} [DecidableEq κ]

/-- A key that is there keeps its place and takes the new value. -/
def setItem : List (κ × β) → κ → β → List (κ × β)
  | [], k, v => [(k, v)]
  | (l, w) :: d, k, v => if l = k then (l, v) :: d else (l, w) :: setItem d k v

def ofPairs (pairs : List (κ × β)) : List (κ × β) :=
  pairs.foldl (fun d p => setItem d p.1 p.2) []

/-- The value of the last pair with a key. -/
def lastValue (pairs : List (κ × β)) (k : κ) : Option β :=
  ((pairs.filter fun p => p.1 = k).getLast?).map Prod.snd

variable {d : List (κ × β)} {k l : κ} {v : β}

theorem mem_keys_setItem : l ∈ (setItem d k v).map Prod.fst ↔ l = k ∨ l ∈ d.map Prod.fst := by
  induction d with
  | nil => simp [setItem]
  | cons p d ih =>
    obtain ⟨m, w⟩ := p
    by_cases hm : m = k
    · simp [setItem, hm]
    · simp only [setItem, hm, if_false, List.map_cons, List.mem_cons, ih]
      tauto

theorem setItem_nodup (h : (d.map Prod.fst).Nodup) : ((setItem d k v).map Prod.fst).Nodup := by
  induction d with
  | nil => simp [setItem]
  | cons p d ih =>
    obtain ⟨m, w⟩ := p
    rw [List.map_cons, List.nodup_cons] at h
    by_cases hm : m = k
    · simpa [setItem, hm] using h
    · simp only [setItem, hm, if_false, List.map_cons, List.nodup_cons]
      refine ⟨?_, ih h.2⟩
      rw [mem_keys_setItem]
      rintro (he | hmem)
      · exact hm he
      · exact h.1 hmem

section Pairs

variable (pairs : List (κ × β))

theorem ofPairs_concat (p : κ × β) : ofPairs (pairs ++ [p]) = setItem (ofPairs pairs) p.1 p.2 := by
  rw [ofPairs, List.foldl_append]
  rfl

theorem ofPairs_nodup : ((ofPairs pairs).map Prod.fst).Nodup := by
  induction pairs using List.reverseRecOn with
  | nil => exact List.nodup_nil
  | append_singleton pairs p ih =>
    rw [ofPairs_concat]
    exact setItem_nodup ih

end Pairs

section Lookup

variable [BEq κ] [LawfulBEq κ]

theorem lookup_cons_ite (k l : κ) (v : β) (d : List (κ × β)) :
    ((k, v) :: d).lookup l = if l = k then some v else d.lookup l := by
  by_cases h : l = k
  · rw [if_pos h, List.lookup_cons, beq_iff_eq.mpr h]
  · rw [if_neg h, List.lookup_cons, beq_eq_false_iff_ne.mpr h]

theorem lookup_setItem (d : List (κ × β)) (k l : κ) (v : β) :
    (setItem d k v).lookup l = if l = k then some v else d.lookup l := by
  induction d with
  | nil => rw [setItem, lookup_cons_ite]
  | cons p d ih =>
    obtain ⟨m, w⟩ := p
    by_cases hm : m = k
    · rw [setItem, if_pos hm, lookup_cons_ite, lookup_cons_ite, hm]
      split_ifs <;> rfl
    · rw [setItem, if_neg hm, lookup_cons_ite, lookup_cons_ite, ih]
      by_cases h : l = k
      · simp [h, Ne.symm hm]
      · simp [h]

/-- A dictionary built pair by pair answers with the last pair of a key. -/
theorem lookup_ofPairs (pairs : List (κ × β)) (k : κ) :
    (ofPairs pairs).lookup k = lastValue pairs k := by
  induction pairs using List.reverseRecOn with
  | nil => rfl
  | append_singleton pairs p ih =>
    rw [ofPairs_concat, lookup_setItem, ih, lastValue, lastValue, List.filter_append]
    by_cases h : k = p.1
    · simp [h]
    · simp [h, Ne.symm h]

/-- In a dictionary the pairs are what the lookups find. -/
theorem mem_iff_lookup (h : (d.map Prod.fst).Nodup) : (k, v) ∈ d ↔ d.lookup k = some v := by
  induction d with
  | nil => simp
  | cons p d ih =>
    obtain ⟨m, w⟩ := p
    rw [List.map_cons, List.nodup_cons] at h
    rw [List.mem_cons, Prod.mk.injEq, lookup_cons_ite, ih h.2]
    by_cases hm : k = m
    · subst hm
      have hnone : d.lookup k ≠ some v := fun hk =>
        h.1 (List.mem_map.mpr ⟨(k, v), (ih h.2).mpr hk, rfl⟩)
      simp [hnone, eq_comm]
    · simp [hm]

theorem lookup_eq_none_iff : d.lookup k = none ↔ k ∉ d.map Prod.fst := by
  induction d with
  | nil => simp
  | cons p d ih =>
    obtain ⟨m, w⟩ := p
    rw [lookup_cons_ite, List.map_cons, List.mem_cons, not_or, ← ih]
    by_cases hm : k = m <;> simp [hm]

end Lookup

end OrderedDict
