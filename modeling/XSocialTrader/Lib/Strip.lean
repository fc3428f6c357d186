import Mathlib.Data.List.DropRight
import Mathlib.Data.List.TakeWhile

/-! Two ways to strip a text of blanks at both ends and of signs in front. `bare` drops the signs
first and the blanks after them, `trim` drops any mixture; they part where a blank hides a sign. -/
namespace Strip

variable {α : Type*} {p q : α → Bool} {l : List α}

/-- Without blanks at either end. -/
def strip (p : α → Bool) (l : List α) : List α := (l.dropWhile p).rdropWhile p

/-- Without leading signs, then without blanks. -/
def bare (p q : α → Bool) (l : List α) : List α := strip p (l.dropWhile q)

/-- Without leading signs and blanks in any mixture, and without trailing blanks. -/
def trim (p q : α → Bool) (l : List α) : List α := (l.dropWhile fun x => p x || q x).rdropWhile p

theorem rdropWhile_cons {x : α} (hx : p x = false) (l : List α) :
    ∃ l', (x :: l).rdropWhile p = x :: l' := by
  obtain ⟨t, ht⟩ := List.rdropWhile_prefix p (l := x :: l)
  cases hr : (x :: l).rdropWhile p with
  | nil =>
    have hall := List.rdropWhile_eq_nil_iff.mp hr x List.mem_cons_self
    simp [hx] at hall
  | cons y ys =>
    rw [hr] at ht
    obtain ⟨rfl, -⟩ := List.cons.inj ht
    exact ⟨ys, rfl⟩

theorem strip_eq_nil_iff : strip p l = [] ↔ ∀ x ∈ l, p x = true := by
  rw [strip, List.rdropWhile_eq_nil_iff]
  constructor
  · intro h
    cases hr : l.dropWhile p with
    | nil => exact List.dropWhile_eq_nil_iff.mp hr
    | cons x xs =>
      have hhead := List.head_dropWhile_not p (l := l) (by simp [hr])
      rw [h _ (List.head_mem _)] at hhead
      cases hhead
  · exact fun h x hx => h x ((List.dropWhile_sublist p).subset hx)

/-- Nothing is left of blanks. -/
theorem bare_of_strip (q : α → Bool) (h : strip p l = []) : bare p q l = [] :=
  strip_eq_nil_iff.mpr fun x hx =>
    strip_eq_nil_iff.mp h x ((List.dropWhile_sublist q).subset hx)

theorem strip_strip (p : α → Bool) (l : List α) : strip p (strip p l) = strip p l := by
  unfold strip
  cases hr : l.dropWhile p with
  | nil => simp
  | cons x xs =>
    have hx : p x = false := by
      have hhead := List.head_dropWhile_not p (l := l) (by simp [hr])
      simpa [hr] using hhead
    obtain ⟨l', hl'⟩ := rdropWhile_cons hx xs
    rw [hl', List.dropWhile_cons_of_neg (by simp [hx]), ← hl', List.rdropWhile_idempotent]

theorem dropWhile_of_head (h : ∀ x, l.head? = some x → q x = false) : l.dropWhile q = l := by
  cases l with
  | nil => rfl
  | cons x xs => exact List.dropWhile_cons_of_neg (by simp [h x rfl])

/-- A bare text that starts with no sign stays as it is. -/
theorem bare_bare (h : ∀ x, (bare p q l).head? = some x → q x = false) :
    bare p q (bare p q l) = bare p q l := by
  rw [bare, dropWhile_of_head h]
  exact strip_strip p _

/-- A bare text that starts with no sign is what trimming leaves. -/
theorem trim_eq_bare (h : ∀ x, (bare p q l).head? = some x → q x = false) :
    trim p q l = bare p q l := by
  have hblanks : ∀ l : List α, (∀ x, (strip p l).head? = some x → q x = false) →
      l.dropWhile (fun x => p x || q x) = l.dropWhile p := by
    intro l
    induction l with
    | nil => exact fun _ => rfl
    | cons x xs ih =>
      intro hhead
      cases hp : p x with
      | true =>
        have hstrip : strip p (x :: xs) = strip p xs := by simp [strip, hp]
        rw [hstrip] at hhead
        simpa [hp] using ih hhead
      | false =>
        obtain ⟨l', hl'⟩ := rdropWhile_cons hp xs
        have hq : q x = false := hhead x (by simp [strip, hp, hl'])
        simp [hp, hq]
  have hall : l.dropWhile (fun x => p x || q x) = (l.dropWhile q).dropWhile p := by
    rw [← hblanks _ h]
    clear h
    induction l with
    | nil => rfl
    | cons x xs ih => cases hq : q x <;> simp [hq, ih]
  rw [trim, hall]
  rfl

/-- A text that starts with a sign does not stay as it is. -/
theorem bare_ne_self {x : α} (hx : q x = true) (xs : List α) : bare p q (x :: xs) ≠ x :: xs := by
  intro h
  have hlen := congrArg List.length h
  have hstrip : (bare p q (x :: xs)).length ≤ xs.length := by
    rw [bare, List.dropWhile_cons_of_pos hx, strip]
    calc (((xs.dropWhile q).dropWhile p).rdropWhile p).length
        ≤ ((xs.dropWhile q).dropWhile p).length := (List.rdropWhile_prefix p _).length_le
      _ ≤ (xs.dropWhile q).length := (List.dropWhile_suffix p).length_le
      _ ≤ xs.length := (List.dropWhile_suffix q).length_le
  rw [hlen, List.length_cons] at hstrip
  omega

/-- A text that is bare is trimmed. -/
theorem trim_of_bare (h : bare p q l = l) : trim p q l = l := by
  have hhead : ∀ x, (bare p q l).head? = some x → q x = false := by
    intro x hx
    by_contra hq
    rw [Bool.not_eq_false] at hq
    rw [h] at hx
    cases l with
    | nil => cases hx
    | cons y ys =>
      obtain rfl := Option.some.inj hx
      exact bare_ne_self hq ys h
  rw [trim_eq_bare hhead, h]

theorem bare_sublist (p q : α → Bool) (l : List α) : (bare p q l).Sublist l :=
  ((List.rdropWhile_prefix p _).sublist.trans (List.dropWhile_sublist p)).trans
    (List.dropWhile_sublist q)

theorem trim_sublist (p q : α → Bool) (l : List α) : (trim p q l).Sublist l :=
  (List.rdropWhile_prefix p _).sublist.trans (List.dropWhile_sublist _)

section Map

variable {f : α → α} (hp : ∀ x, p (f x) = p x) (hq : ∀ x, q (f x) = q x)

include hp in
theorem rdropWhile_map (l : List α) : (l.map f).rdropWhile p = (l.rdropWhile p).map f := by
  rw [List.rdropWhile, ← List.map_reverse, List.dropWhile_map, ← List.map_reverse,
    List.rdropWhile]
  simp only [Function.comp_def, hp]

include hp hq in
theorem bare_map (l : List α) : bare p q (l.map f) = (bare p q l).map f := by
  rw [bare, strip, List.dropWhile_map, List.dropWhile_map, rdropWhile_map hp]
  simp only [Function.comp_def, hp, hq]
  rfl

include hp hq in
theorem trim_map (l : List α) : trim p q (l.map f) = (trim p q l).map f := by
  rw [trim, List.dropWhile_map, rdropWhile_map hp]
  simp only [Function.comp_def, hp, hq]
  rfl

end Map

end Strip
