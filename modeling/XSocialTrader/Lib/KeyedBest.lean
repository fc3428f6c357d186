import Mathlib.Data.List.MinMax

/-! One entry for each key, the one of highest rank, kept while the entries come in one by one.
A later entry of the same rank does not replace an earlier one. -/
namespace KeyedBest

variable {κ β ρ : Type*} [DecidableEq κ] [LinearOrder ρ] {rank : β → ρ}

/-- The newest entry of a key comes first, so it is the one that `lookup` finds. -/
def insert (rank : β → ρ) (grouped : List (κ × β)) (entry : κ × β) : List (κ × β) :=
  match grouped.lookup entry.1 with
  | none => entry :: grouped
  | some existing => if rank existing < rank entry.2 then entry :: grouped else grouped

/-- The values that entries have under a key, in order. -/
def valuesOf (entries : List (κ × β)) (key : κ) : List β :=
  (entries.filter fun e => e.1 = key).map Prod.snd

theorem lookup_insert (grouped : List (κ × β)) (entry : κ × β) (key : κ) :
    (insert rank grouped entry).lookup key = if entry.1 = key then
      List.argAux (fun b c => rank c < rank b) (grouped.lookup key) entry.2
    else grouped.lookup key := by
  obtain ⟨k, b⟩ := entry
  by_cases hk : k = key
  · subst hk
    rw [insert, if_pos rfl]
    cases h : grouped.lookup k with
    | none => simp [List.argAux]
    | some c =>
      simp only [List.argAux]
      split_ifs <;> simp [h]
  · have hne : (key == k) = false := beq_false_of_ne fun he => hk he.symm
    rw [if_neg hk]
    unfold insert
    split
    · rw [List.lookup_cons, hne]
    · split_ifs
      · rw [List.lookup_cons, hne]
      · rfl

/-- What a key ends up with is the first of its values of the highest rank. -/
theorem lookup_foldl_insert (entries : List (κ × β)) (key : κ) :
    (entries.foldl (insert rank) []).lookup key = (valuesOf entries key).argmax rank := by
  have hfold : ∀ grouped : List (κ × β), (entries.foldl (insert rank) grouped).lookup key =
      (valuesOf entries key).foldl (List.argAux fun b c => rank c < rank b)
        (grouped.lookup key) := by
    induction entries with
    | nil => exact fun _ => rfl
    | cons entry entries ih =>
      intro grouped
      rw [List.foldl_cons, ih, lookup_insert]
      by_cases hk : entry.1 = key <;> simp [valuesOf, hk]
  exact hfold []

section Argmax

variable {values values' : List β} {b : β}

/-- The head is the first of the highest rank if nothing ranks higher. -/
theorem argmax_cons_self (h : ∀ c ∈ values, rank c ≤ rank b) :
    (b :: values).argmax rank = some b := by
  classical
  rw [List.argmax_eq_some_iff]
  refine ⟨List.mem_cons_self, ?_, fun c _ _ => by simp⟩
  intro c hc
  rcases List.mem_cons.mp hc with rfl | hc
  · exact le_rfl
  · exact h c hc

/-- If the values of the highest rank are all one value, their order does not matter. -/
theorem argmax_eq_of_perm (hperm : values'.Perm values)
    (hone : ∀ b ∈ values, ∀ c ∈ values, (∀ d ∈ values, rank d ≤ rank b) → rank b = rank c → b = c) :
    values'.argmax rank = values.argmax rank := by
  cases hb : values.argmax rank with
  | none =>
    rw [List.argmax_eq_none] at hb ⊢
    exact List.Perm.eq_nil (hb ▸ hperm)
  | some b =>
    cases hc : values'.argmax rank with
    | none =>
      rw [List.argmax_eq_none] at hc
      subst hc
      rw [hperm.nil_eq.symm] at hb
      cases hb
    | some c =>
      have hbmem := List.argmax_mem hb
      have hcmem := hperm.mem_iff.mp (List.argmax_mem hc)
      have htop : ∀ d ∈ values, rank d ≤ rank b := fun d hd => List.le_of_mem_argmax hd hb
      have hrank : rank b = rank c :=
        le_antisymm (List.le_of_mem_argmax (hperm.mem_iff.mpr hbmem) hc) (htop c hcmem)
      exact congrArg some (hone b hbmem c hcmem htop hrank).symm

end Argmax

end KeyedBest
