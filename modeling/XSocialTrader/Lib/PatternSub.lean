import Mathlib.Data.List.Infix
import Mathlib.Order.Bounds.Basic

/-! Substitution of a marker for the matches of a pattern, from the left and without overlaps, and
what it leaves of the words that the pattern looks for. -/
namespace PatternSub

section Substitution

variable {α : Type*}

/-- A pattern that says how long its match at the head of a text is. -/
abbrev Pattern (α : Type*) := List α → Option ℕ

/-- One character of each class in a row, then perhaps a run of a first class, then a run of a
second one that is taken as long as it can be. The two runs share no character. -/
structure Shape (α : Type*) where
  lead : List (α → Bool)
  gap : Option (α → Bool)
  body : α → Bool
  atLeast : ℕ
  atMost : Option ℕ

/-- The length of the match at the head of a text. -/
def Shape.pattern (p : Shape α) : Pattern α := fun s =>
  let rest := s.drop p.lead.length
  let gapLength := (p.gap.map fun c => (rest.takeWhile c).length).getD 0
  let run := ((rest.drop gapLength).takeWhile p.body).length
  let taken := (p.atMost.map (min run)).getD run
  if p.lead.length ≤ s.length ∧ (p.lead.zipWith (· ·) s).all id ∧
      (p.gap.isSome → 0 < gapLength) ∧ p.atLeast ≤ taken then
    some (p.lead.length + gapLength + taken)
  else none

variable (p : Pattern α) (marker : List α)

/-- The text with its matches replaced; `skip` characters are left of the last match. -/
def subFrom : ℕ → List α → List α
  | _, [] => []
  | skip + 1, _ :: cs => subFrom skip cs
  | 0, c :: cs => match p (c :: cs) with
    | none => c :: subFrom 0 cs
    | some n => marker ++ subFrom (n - 1) cs

/-- `pattern.sub(marker, s)`. -/
def sub (s : List α) : List α := subFrom p marker 0 s

/-- The pattern matches somewhere in the text. -/
def Occurs (s : List α) : Prop := ∃ t, t <:+ s ∧ (p t).isSome = true

instance (p : Pattern α) (s : List α) : Decidable (Occurs p s) :=
  decidable_of_iff (∃ t ∈ s.tails, (p t).isSome = true) (by simp only [List.mem_tails, Occurs])

variable {p marker} {s : List α}

theorem not_occurs_cons {c : α} (h : ¬ Occurs p (c :: s)) : p (c :: s) = none ∧ ¬ Occurs p s := by
  constructor
  · rw [← Option.not_isSome_iff_eq_none]
    exact fun hmatch => h ⟨c :: s, List.suffix_rfl, hmatch⟩
  · rintro ⟨t, ht, hmatch⟩
    exact h ⟨t, ht.trans (List.suffix_cons c s), hmatch⟩

/-- A text without a match stays as it is. -/
theorem sub_of_not_occurs (h : ¬ Occurs p s) : sub p marker s = s := by
  induction s with
  | nil => rfl
  | cons c s ih =>
    obtain ⟨hnone, hrest⟩ := not_occurs_cons h
    have htail : subFrom p marker 0 s = s := ih hrest
    rw [sub, subFrom, hnone, htail]

end Substitution

section Scan

variable {α : Type*} {p : Pattern α} {marker s t gap : List α} {words : Set (List α)} {w : List α}

/-- A stretch of the text in which no match begins, whatever follows it. -/
def Unmatched (p : Pattern α) (s gap : List α) : Prop :=
  ∃ before after, s = before ++ gap ++ after ∧
    ∀ t, t <:+ gap → t ≠ [] → p (t ++ after) = none

theorem Unmatched.append_left (h : Unmatched p s gap) (t : List α) : Unmatched p (t ++ s) gap := by
  obtain ⟨before, after, rfl, hnone⟩ := h
  exact ⟨t ++ before, after, by simp only [List.append_assoc], hnone⟩

theorem Unmatched.infix (h : Unmatched p s gap) : gap <:+: s := by
  obtain ⟨before, after, rfl, -⟩ := h
  exact List.infix_append before gap after

/-- Words do not reach into the marker: one that touches it would have to lie beside it. -/
def Inert (marker : List α) (words : Set (List α)) : Prop :=
  ∀ w ∈ words, ∀ x y, w <:+: x ++ (marker ++ y) → w <:+: x ∨ w <:+: y

/-- A word in the text that the scan puts out, behind the stretch it is in, lies in a stretch
without a match. -/
theorem exists_unmatched_of_infix_subFrom (hinert : Inert marker words) (hw : w ∈ words)
    (s : List α) (skip : ℕ) (gap : List α) (hskip : skip ≠ 0 → gap = [])
    (hgap : ∀ t, t <:+ gap → t ≠ [] → p (t ++ s) = none)
    (h : w <:+: gap ++ subFrom p marker skip s) :
    ∃ gap', Unmatched p (gap ++ s) gap' ∧ w <:+: gap' := by
  induction s generalizing skip gap with
  | nil =>
    rw [subFrom, List.append_nil] at h
    exact ⟨gap, ⟨[], [], by simp, hgap⟩, h⟩
  | cons c s ih =>
    cases skip with
    | succ k =>
      obtain rfl := hskip (Nat.succ_ne_zero k)
      rw [subFrom] at h
      obtain ⟨gap', hgap', hw'⟩ := ih k [] (fun _ => rfl) (by simp) h
      exact ⟨gap', hgap'.append_left [c], hw'⟩
    | zero =>
      cases hp : p (c :: s) with
      | none =>
        rw [subFrom, hp] at h
        have hlonger : ∀ t, t <:+ gap ++ [c] → t ≠ [] → p (t ++ s) = none := by
          intro t ht hne
          rcases List.suffix_concat_iff.mp ht with rfl | ⟨t', rfl, ht'⟩
          · exact absurd rfl hne
          · rw [List.append_assoc, List.singleton_append]
            cases t' with
            | nil => exact hp
            | cons a t' => exact hgap (a :: t') ht' (List.cons_ne_nil a t')
        have hmove : w <:+: (gap ++ [c]) ++ subFrom p marker 0 s := by
          rwa [List.append_assoc, List.singleton_append]
        obtain ⟨gap', hgap', hw'⟩ := ih 0 (gap ++ [c]) (absurd rfl) hlonger hmove
        rw [List.append_assoc, List.singleton_append] at hgap'
        exact ⟨gap', hgap', hw'⟩
      | some n =>
        rw [subFrom, hp] at h
        rcases hinert w hw gap _ h with hw' | hw'
        · exact ⟨gap, ⟨[], c :: s, by simp, hgap⟩, hw'⟩
        · obtain ⟨gap', hgap', hw''⟩ := ih (n - 1) [] (fun _ => rfl) (by simp) hw'
          refine ⟨gap', ?_, hw''⟩
          have hrest := hgap'.append_left (gap ++ [c])
          rwa [List.nil_append, List.append_assoc, List.singleton_append] at hrest

theorem exists_unmatched_of_infix_sub (hinert : Inert marker words) (hw : w ∈ words)
    (h : w <:+: sub p marker s) : ∃ gap, Unmatched p s gap ∧ w <:+: gap :=
  exists_unmatched_of_infix_subFrom hinert hw s 0 [] (absurd rfl) (by simp) h

/-- A substitution makes no word: one in the result was in the text. -/
theorem infix_of_infix_sub (hinert : Inert marker words) (hw : w ∈ words)
    (h : w <:+: sub p marker s) : w <:+: s := by
  obtain ⟨gap, hgap, hword⟩ := exists_unmatched_of_infix_sub hinert hw h
  exact hword.trans hgap.infix

/-- A marker between two copies of a character that no word has. -/
theorem Inert.of_bracketed {c : α} {inner : List α} (hc : ∀ w ∈ words, c ∉ w)
    (hinner : ∀ w ∈ words, ¬ w <:+: inner) : Inert (c :: (inner ++ [c])) words := by
  -- a word that meets the character on neither side lies on one side
  have hsplit : ∀ w ∈ words, ∀ x y, w <:+: x ++ c :: y → w <:+: x ∨ w <:+: y := by
    intro w hw x y h
    rcases List.infix_append_iff_ne_nil.mp h with hx | hy | ⟨w₁, w₂, -, hne, rfl, -, hpre⟩
    · exact Or.inl hx
    · rcases List.infix_cons_iff.mp hy with hpre | hy
      · rcases List.prefix_cons_iff.mp hpre with rfl | ⟨t, rfl, -⟩
        · exact Or.inr List.nil_infix
        · exact absurd List.mem_cons_self (hc _ hw)
      · exact Or.inr hy
    · rcases List.prefix_cons_iff.mp hpre with rfl | ⟨t, rfl, -⟩
      · exact absurd rfl hne
      · exact absurd (List.mem_append_right w₁ List.mem_cons_self) (hc _ hw)
  intro w hw x y h
  rw [List.cons_append, List.append_assoc, List.singleton_append] at h
  rcases hsplit w hw x _ h with hx | hrest
  · exact Or.inl hx
  · rcases hsplit w hw inner y hrest with hin | hy
    · exact absurd hin (hinner w hw)
    · exact Or.inr hy

end Scan

section Finds

variable {α : Type*}

/-- The lengths of the words at the head of a text. -/
def wordLengths (words : Set (List α)) (s : List α) : Set ℕ :=
  {n | ∃ w ∈ words, w <+: s ∧ w.length = n}

/-- The pattern finds the longest word at the head of a text, if there is one. -/
structure Finds (p : Pattern α) (words : Set (List α)) : Prop where
  greatest : ∀ {s n}, p s = some n → IsGreatest (wordLengths words s) n
  complete : ∀ {s w}, w ∈ words → w <+: s → (p s).isSome = true
  nonempty : [] ∉ words

variable {p : Pattern α} {marker s : List α} {words : Set (List α)}

theorem occurs_iff (h : Finds p words) : Occurs p s ↔ ∃ w ∈ words, w <:+: s := by
  constructor
  · rintro ⟨t, ht, hmatch⟩
    obtain ⟨n, hn⟩ := Option.isSome_iff_exists.mp hmatch
    obtain ⟨w, hw, hpre, -⟩ := (h.greatest hn).1
    exact ⟨w, hw, List.infix_iff_prefix_suffix.mpr ⟨t, hpre, ht⟩⟩
  · rintro ⟨w, hw, hin⟩
    obtain ⟨t, hpre, ht⟩ := List.infix_iff_prefix_suffix.mp hin
    exact ⟨t, ht, h.complete hw hpre⟩

theorem Unmatched.not_infix {gap w : List α} (h : Finds p words) (hgap : Unmatched p s gap)
    (hw : w ∈ words) : ¬ w <:+: gap := by
  intro hin
  obtain ⟨t, hpre, ht⟩ := List.infix_iff_prefix_suffix.mp hin
  obtain ⟨before, after, -, hnone⟩ := hgap
  have hne : t ≠ [] := by
    rintro rfl
    exact h.nonempty (List.prefix_nil.mp hpre ▸ hw)
  have hsome := h.complete hw (hpre.trans (List.prefix_append t after))
  rw [hnone t ht hne] at hsome
  cases hsome

/-- No word of the pattern is left behind by its substitution. -/
theorem not_infix_sub (h : Finds p words) (hinert : Inert marker words) {w : List α}
    (hw : w ∈ words) : ¬ w <:+: sub p marker s := by
  intro hin
  obtain ⟨gap, hgap, hword⟩ := exists_unmatched_of_infix_sub hinert hw hin
  exact hgap.not_infix h hw hword

/-- Substitutions one after another: a word of any of them in the result was in the text all the
time, and belongs to none of those made. -/
theorem infix_of_infix_foldl_sub {ι : Type*} {pattern : ι → Pattern α} {words : ι → Set (List α)}
    {is : List ι} (hfinds : ∀ i ∈ is, Finds (pattern i) (words i)) {j : ι}
    (hinert : Inert marker (words j)) {w : List α} (hw : w ∈ words j)
    (h : w <:+: is.foldl (fun s i => sub (pattern i) marker s) s) : w <:+: s ∧ j ∉ is := by
  induction is generalizing s with
  | nil => exact ⟨h, List.not_mem_nil⟩
  | cons i is ih =>
    obtain ⟨hin, hj⟩ := ih (fun i' hi' => hfinds i' (List.mem_cons_of_mem i hi')) h
    refine ⟨infix_of_infix_sub hinert hw hin, ?_⟩
    intro hmem
    rcases List.mem_cons.mp hmem with rfl | hmem
    · exact not_infix_sub (hfinds j List.mem_cons_self) hinert hw hin
    · exact hj hmem

end Finds

end PatternSub
