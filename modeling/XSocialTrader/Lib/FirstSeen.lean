import Mathlib.Data.List.Basic

/-! The elements of a list whose key is neither known beforehand nor that of an earlier element,
and the prefix of the list that ends with one of them. -/
namespace FirstSeen

variable {α κ : Type*} [DecidableEq κ] (key : α → κ)

/-- The element at `i` has a key that is not known and that no earlier element has. -/
def isNew (known : List κ) (l : List α) (i : ℕ) : Bool :=
  l[i]?.any fun a => key a ∉ known && key a ∉ (l.take i).map key

/-- Where the new elements are. -/
def newAt (known : List κ) (l : List α) : List ℕ :=
  (List.range l.length).filter (isNew key known l)

/-- The new elements, in order. -/
def firsts (known : List κ) (l : List α) : List α := (newAt key known l).filterMap (l[·]?)

/-- Up to and including the element at an index; all of it without one. -/
def upTo (stop : Option ℕ) (l : List α) : List α :=
  match stop with
  | some i => l.take (i + 1)
  | none => l

variable {key} {known known' : List κ} {a : α} {l : List α}

theorem newAt_congr (h : ∀ x, x ∈ known ↔ x ∈ known') :
    newAt key known l = newAt key known' l := by
  unfold newAt isNew
  simp only [h]

theorem firsts_congr (h : ∀ x, x ∈ known ↔ x ∈ known') :
    firsts key known l = firsts key known' l := by
  rw [firsts, firsts, newAt_congr h]

/-- Behind an element of the list, its key counts as known. -/
theorem isNew_cons (i : ℕ) :
    isNew key known (a :: l) (i + 1) = isNew key (key a :: known) l i := by
  simp only [isNew, List.getElem?_cons_succ, List.take_succ_cons, List.map_cons, List.mem_cons,
    not_or, Bool.decide_and]
  congr 1
  funext b
  ac_rfl

theorem newAt_cons : newAt key known (a :: l) =
    (if key a ∈ known then [] else [0]) ++ (newAt key (key a :: known) l).map (· + 1) := by
  have hrest : (List.range l.length |>.map Nat.succ).filter (isNew key known (a :: l)) =
      (newAt key (key a :: known) l).map (· + 1) := by
    rw [List.filter_map, newAt]
    congr 2
    funext i
    exact isNew_cons i
  rw [newAt, List.length_cons, List.range_succ_eq_map, List.filter_cons, hrest]
  by_cases h : key a ∈ known <;> simp [isNew, h]

theorem newAt_cons_known (h : key a ∈ known) :
    newAt key known (a :: l) = (newAt key known l).map (· + 1) := by
  have hsame : ∀ x, x ∈ key a :: known ↔ x ∈ known := by
    intro x
    rw [List.mem_cons, or_iff_right_iff_imp]
    rintro rfl
    exact h
  rw [newAt_cons, if_pos h, List.nil_append, newAt_congr hsame]

theorem newAt_cons_new (h : key a ∉ known) :
    newAt key known (a :: l) = 0 :: (newAt key (key a :: known) l).map (· + 1) := by
  rw [newAt_cons, if_neg h, List.singleton_append]

theorem filterMap_getElem?_succ (is : List ℕ) :
    (is.map (· + 1)).filterMap ((a :: l)[·]?) = is.filterMap (l[·]?) := by
  rw [List.filterMap_map]
  rfl

@[simp] theorem firsts_nil : firsts key known ([] : List α) = [] := rfl

theorem firsts_cons_known (h : key a ∈ known) :
    firsts key known (a :: l) = firsts key known l := by
  rw [firsts, newAt_cons_known h, filterMap_getElem?_succ, firsts]

theorem firsts_cons_new (h : key a ∉ known) :
    firsts key known (a :: l) = a :: firsts key (key a :: known) l := by
  rw [firsts, newAt_cons_new h]
  show a :: ((newAt key (key a :: known) l).map (· + 1)).filterMap ((a :: l)[·]?) = _
  rw [filterMap_getElem?_succ, firsts]

/-- The keys of the new elements are those of the list that are not known. -/
theorem mem_map_firsts {x : κ} :
    x ∈ (firsts key known l).map key ↔ x ∉ known ∧ x ∈ l.map key := by
  induction l generalizing known with
  | nil => simp
  | cons a l ih =>
    by_cases h : key a ∈ known
    · rw [firsts_cons_known h, ih, List.map_cons, List.mem_cons]
      refine and_congr_right fun hx => ?_
      rw [or_iff_right]
      rintro rfl
      exact hx h
    · rw [firsts_cons_new h, List.map_cons, List.mem_cons, ih, List.map_cons, List.mem_cons,
        List.mem_cons, not_or]
      by_cases hx : x = key a
      · simp [hx, h]
      · simp [hx]

/-- No two new elements have one key. -/
theorem nodup_map_firsts : ((firsts key known l).map key).Nodup := by
  induction l generalizing known with
  | nil => simp
  | cons a l ih =>
    by_cases h : key a ∈ known
    · rw [firsts_cons_known h]
      exact ih
    · rw [firsts_cons_new h, List.map_cons, List.nodup_cons, mem_map_firsts]
      exact ⟨fun hmem => hmem.1 (List.mem_cons_self ..), ih⟩

/-- No more elements are new than there are. -/
theorem length_firsts_le : (firsts key known l).length ≤ l.length := by
  calc (firsts key known l).length ≤ (newAt key known l).length := List.length_filterMap_le _ _
    _ ≤ (List.range l.length).length := List.length_filter_le _ _
    _ = l.length := List.length_range

@[simp] theorem upTo_none : upTo none l = l := rfl

@[simp] theorem upTo_nil (stop : Option ℕ) : upTo stop ([] : List α) = [] := by
  cases stop <;> rfl

@[simp] theorem upTo_zero : upTo (some 0) (a :: l) = [a] := rfl

@[simp] theorem upTo_succ (stop : Option ℕ) :
    upTo (stop.map (· + 1)) (a :: l) = a :: upTo stop l := by
  cases stop <;> rfl

end FirstSeen
