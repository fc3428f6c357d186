import Mathlib.Data.List.Basic

/-! Runs of a machine whose step is a partial function of the state and a label.
A list of labels is one interleaving; every fact about all interleavings is an
induction over that list. -/
namespace LabelledRun

variable {σ α : Type*} (step : σ → α → Option σ)

/-- Execute the labels from left to right; a label that is not enabled ends in `none`. -/
def exec : σ → List α → Option σ
  | s, [] => some s
  | s, a :: as => (step s a).bind fun t => exec t as

/-- Some finite list of labels leads from one state to the other. -/
def Reaches (s t : σ) : Prop := ∃ as, exec step s as = some t

/-- Every executed label meets a condition on the state in which it is taken. -/
def Guarded (C : σ → α → Prop) : σ → List α → Prop
  | _, [] => True
  | s, a :: as => C s a ∧ ∀ t, step s a = some t → Guarded C t as

/-- The run from this start takes the label in this state. -/
def Takes (s₀ : σ) (as : List α) (s : σ) (a : α) : Prop :=
  ∃ before after, as = before ++ a :: after ∧ exec step s₀ before = some s

/-- Some executed label meets a condition on the state in which it is taken. -/
def Occurs (C : σ → α → Prop) : σ → List α → Prop
  | _, [] => False
  | s, a :: as => C s a ∨ ∃ t, step s a = some t ∧ Occurs C t as

/-- How many executed labels score for each key. -/
def tally {ι : Type*} (scores : σ → α → ι → Bool) : σ → List α → ι → ℕ
  | _, [], _ => 0
  | s, a :: as, i => (scores s a i).toNat + match step s a with
    | none => 0
    | some t => tally scores t as i

instance decidableGuarded (C : σ → α → Prop) [∀ s a, Decidable (C s a)] :
    ∀ s as, Decidable (Guarded step C s as)
  | _, [] => isTrue trivial
  | s, a :: as => match h : step s a with
    | none => decidable_of_iff (C s a) (by simp [Guarded, h])
    | some t =>
      haveI := decidableGuarded C t as
      decidable_of_iff (C s a ∧ Guarded step C t as) (by simp [Guarded, h])

variable {step} {s t u : σ} {a : α} {as bs : List α} {C : σ → α → Prop}

@[simp] theorem exec_nil : exec step s [] = some s := rfl

theorem exec_cons (h : step s a = some t) : exec step s (a :: as) = exec step t as := by
  rw [exec, h, Option.bind_some]

theorem exec_cons_some :
    exec step s (a :: as) = some t ↔ ∃ v, step s a = some v ∧ exec step v as = some t := by
  simp only [exec, Option.bind_eq_some_iff]

theorem exec_append :
    exec step s (as ++ bs) = (exec step s as).bind fun v => exec step v bs := by
  induction as generalizing s with
  | nil => rfl
  | cons a as ih =>
    simp only [List.cons_append, exec, Option.bind_assoc]
    congr 1
    funext v
    exact ih

theorem Reaches.refl : Reaches step s s := ⟨[], rfl⟩

theorem Reaches.trans (h : Reaches step s t) (h' : Reaches step t u) : Reaches step s u := by
  obtain ⟨as, has⟩ := h
  obtain ⟨bs, hbs⟩ := h'
  exact ⟨as ++ bs, by rw [exec_append, has]; exact hbs⟩

theorem Reaches.head (h : step s a = some t) (h' : Reaches step t u) : Reaches step s u := by
  obtain ⟨as, has⟩ := h'
  exact ⟨a :: as, exec_cons_some.mpr ⟨t, h, has⟩⟩

theorem Reaches.single (h : step s a = some t) : Reaches step s t := .head h .refl

/-- What every enabled step keeps holds at the end of every run. -/
theorem exec_invariant (I : σ → Prop) (hstep : ∀ s a t, I s → step s a = some t → I t)
    (hs : I s) (h : exec step s as = some t) : I t := by
  induction as generalizing s with
  | nil => exact Option.some.inj h ▸ hs
  | cons a as ih =>
    obtain ⟨v, hv, ht⟩ := exec_cons_some.mp h
    exact ih (hstep s a v hs hv) ht

theorem Reaches.invariant (I : σ → Prop) (hstep : ∀ s a t, I s → step s a = some t → I t)
    (hs : I s) (h : Reaches step s t) : I t := by
  obtain ⟨as, has⟩ := h
  exact exec_invariant I hstep hs has

/-- The same rule for runs whose labels all meet a condition. -/
theorem guarded_invariant (I : σ → Prop)
    (hstep : ∀ s a t, I s → C s a → step s a = some t → I t)
    (hs : I s) (hC : Guarded step C s as) (h : exec step s as = some t) : I t := by
  induction as generalizing s with
  | nil => exact Option.some.inj h ▸ hs
  | cons a as ih =>
    obtain ⟨v, hv, ht⟩ := exec_cons_some.mp h
    exact ih (hstep s a v hs hC.1 hv) (hC.2 v hv) ht

/-- Each executed label is taken in the state that the labels before it lead to. -/
theorem guarded_takes (s₀ : σ) (as : List α) : Guarded step (Takes step s₀ as) s₀ as := by
  have hsuffix : ∀ (before after : List α) (s : σ), exec step s₀ before = some s →
      Guarded step (Takes step s₀ (before ++ after)) s after := by
    intro before after
    induction after generalizing before with
    | nil => exact fun _ _ => trivial
    | cons a after ih =>
      intro s hs
      refine ⟨⟨before, after, rfl, hs⟩, fun t ht => ?_⟩
      have hnext : exec step s₀ (before ++ [a]) = some t := by
        rw [exec_append, hs, Option.bind_some, exec_cons ht, exec_nil]
      rw [List.append_cons]
      exact ih (before ++ [a]) t hnext
  exact hsuffix [] as s₀ rfl

/-- A condition on labels alone holds at each executed one if it holds of all of them. -/
theorem guarded_and_forall {P : α → Prop} (hC : Guarded step C s as) (hP : ∀ a ∈ as, P a) :
    Guarded step (fun s a => C s a ∧ P a) s as := by
  induction as generalizing s with
  | nil => trivial
  | cons a as ih =>
    exact ⟨⟨hC.1, hP a List.mem_cons_self⟩, fun t ht =>
      ih (hC.2 t ht) fun b hb => hP b (List.mem_cons_of_mem a hb)⟩

/-- In a run that meets one condition, a condition that an invariant implies at each executed
label is met too. -/
theorem guarded_of_invariant {P : σ → α → Prop} (I : σ → Prop)
    (hstep : ∀ s a t, I s → C s a → step s a = some t → I t ∧ P s a)
    (hs : I s) (hC : Guarded step C s as) (h : exec step s as = some t) : Guarded step P s as := by
  induction as generalizing s with
  | nil => trivial
  | cons a as ih =>
    obtain ⟨v, hv, ht⟩ := exec_cons_some.mp h
    obtain ⟨hI, hP⟩ := hstep s a v hs hC.1 hv
    refine ⟨hP, fun w hw => ?_⟩
    obtain rfl := Option.some.inj (hv.symm.trans hw)
    exact ih hI (hC.2 v hv) ht

/-- The rule for an invariant that speaks of the scores reached so far. -/
theorem guarded_tally_invariant {ι : Type*} (scores : σ → α → ι → Bool) (I : σ → (ι → ℕ) → Prop)
    (hstep : ∀ s n a t, I s n → C s a → step s a = some t →
      I t fun i => n i + (scores s a i).toNat)
    {n : ι → ℕ} (hs : I s n) (hC : Guarded step C s as) (h : exec step s as = some t) :
    I t fun i => n i + tally step scores s as i := by
  induction as generalizing s n with
  | nil => simpa [tally] using Option.some.inj h ▸ hs
  | cons a as ih =>
    obtain ⟨v, hv, ht⟩ := exec_cons_some.mp h
    have hrest := ih (hstep s n a v hs hC.1 hv) (hC.2 v hv) ht
    simpa only [tally, hv, Nat.add_assoc] using hrest

/-- A reflexive and transitive relation kept by each step relates the ends of a run. -/
theorem Reaches.relates (R : σ → σ → Prop) (hrefl : ∀ s, R s s)
    (htrans : ∀ s t u, R s t → R t u → R s u) (hstep : ∀ s a t, step s a = some t → R s t)
    (h : Reaches step s t) : R s t :=
  h.invariant (R s) (fun _ a _ hR hv => htrans _ _ _ hR (hstep _ a _ hv)) (hrefl s)

/-- A part of a state that can be read, and replaced while the rest stays. -/
structure Part (τ σ : Type*) where
  view : τ → σ
  put : τ → σ → τ
  view_put : ∀ t s, view (put t s) = s
  put_view : ∀ t, put t (view t) = t
  put_put : ∀ t s s', put (put t s) s' = put t s'

/-- A machine that sees a part of the state only runs inside the whole, as long as the rest lets
each of its moves happen. -/
theorem Reaches.ofPart {τ β : Type*} {stepAll : τ → β → Option τ} (part : Part τ σ)
    (label : α → β) (P : τ → Prop)
    (hmove : ∀ t a v, P t → step (part.view t) a = some v →
      stepAll t (label a) = some (part.put t v) ∧ P (part.put t v))
    {t : τ} (ht : P t) (h : Reaches step (part.view t) s) : Reaches stepAll t (part.put t s) := by
  obtain ⟨as, has⟩ := h
  induction as generalizing t with
  | nil =>
    rw [← Option.some.inj has, part.put_view]
    exact .refl
  | cons a as ih =>
    obtain ⟨v, hv, hrest⟩ := exec_cons_some.mp has
    obtain ⟨hstep, hP⟩ := hmove t a v ht hv
    have hnext := ih hP (by rwa [part.view_put])
    rw [part.put_put] at hnext
    exact .head hstep hnext

/-- A property that fails at the start and holds at the end begins to hold at some step. -/
theorem exists_crossing (P : σ → Prop) (hs : ¬ P s) (ht : P t)
    (h : exec step s as = some t) :
    ∃ u a v, Reaches step s u ∧ ¬ P u ∧ step u a = some v ∧ P v ∧ Reaches step v t := by
  induction as generalizing s with
  | nil => exact absurd (Option.some.inj h ▸ ht) hs
  | cons a as ih =>
    obtain ⟨v, hv, hrest⟩ := exec_cons_some.mp h
    by_cases hP : P v
    · exact ⟨s, a, v, .refl, hs, hv, hP, as, hrest⟩
    · obtain ⟨u, b, w, hu, hPu, hb, hPw, hw⟩ := ih hP hrest
      exact ⟨u, b, w, .head hv hu, hPu, hb, hPw, hw⟩

/-- A run meets a condition at every step unless its negation occurs at one. -/
theorem guarded_or_occurs (C : σ → α → Prop) (h : exec step s as = some t) :
    Guarded step (fun s a => ¬ C s a) s as ∨ Occurs step C s as := by
  induction as generalizing s with
  | nil => exact Or.inl trivial
  | cons a as ih =>
    obtain ⟨v, hv, hrest⟩ := exec_cons_some.mp h
    by_cases hC : C s a
    · exact Or.inr (Or.inl hC)
    · rcases ih hrest with hg | ho
      · refine Or.inl ⟨hC, fun w hw => ?_⟩
        rwa [Option.some.inj (hw.symm.trans hv)]
      · exact Or.inr (Or.inr ⟨v, hv, ho⟩)

/-- What one occurring label establishes and every step keeps holds at the end. -/
theorem occurs_persists (I Q : σ → Prop) (hI : ∀ s a t, I s → step s a = some t → I t)
    (hest : ∀ s a t, I s → C s a → step s a = some t → Q t)
    (hkeep : ∀ s a t, I s → Q s → step s a = some t → Q t)
    (hs : I s) (ho : Occurs step C s as) (h : exec step s as = some t) : Q t := by
  induction as generalizing s with
  | nil => exact absurd ho id
  | cons a as ih =>
    obtain ⟨v, hv, hrest⟩ := exec_cons_some.mp h
    rcases ho with hC | ⟨w, hw, ho⟩
    · have hboth : I v ∧ Q v := ⟨hI s a v hs hv, hest s a v hs hC hv⟩
      exact (exec_invariant (fun x => I x ∧ Q x)
        (fun x b y hx hy => ⟨hI x b y hx.1 hy, hkeep x b y hx.1 hx.2 hy⟩) hboth hrest).2
    · obtain rfl := Option.some.inj (hw.symm.trans hv)
      exact ih (hI s a w hs hv) ho hrest

end LabelledRun
