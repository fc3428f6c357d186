import Mathlib.Data.List.Basic

/-! Worker loops: a body runs once for each reading of the outside world and may
leave the loop. A finite list of readings is a finite prefix of the run, so facts
about every list are facts about runs of any length. -/
namespace WorkerLoop

variable {σ ε ρ β : Type*}

/-- What one iteration does next: go round again or leave with a value. -/
inductive Control (σ ρ : Type*) where
  | next (s : σ)
  | exit (s : σ) (r : ρ)

def Control.state : Control σ ρ → σ
  | .next s => s
  | .exit s _ => s

@[simp] theorem Control.state_next (s : σ) : (Control.next s : Control σ ρ).state = s := rfl

@[simp] theorem Control.state_exit (s : σ) (r : ρ) : (Control.exit s r).state = s := rfl

/-- The same way out of an iteration, with another state. -/
def Control.map (f : σ → σ) : Control σ ρ → Control σ ρ
  | .next s => .next (f s)
  | .exit s r => .exit (f s) r

variable (body : ε → σ → Control σ ρ)

/-- The state after the readings, with the exit value when the body has left the loop. -/
def loop : σ → List ε → σ × Option ρ
  | s, [] => (s, none)
  | s, e :: es => match body e s with
    | .next t => loop t es
    | .exit t r => (t, some r)

/-- The readings at which the body ran, each with the state it found. -/
def visits : σ → List ε → List (ε × σ)
  | _, [] => []
  | s, e :: es => (e, s) :: match body e s with
    | .next t => visits t es
    | .exit _ _ => []

/-- Readings whose two times never go backwards, starting from a given time. -/
def Timed (start stop : ε → ℕ) : ℕ → List ε → Prop
  | _, [] => True
  | n, e :: es => n ≤ start e ∧ start e ≤ stop e ∧ Timed start stop (stop e) es

variable {body} {s : σ} {es : List ε}

theorem loop_next {e : ε} {t : σ} (h : body e s = .next t) :
    loop body s (e :: es) = loop body t es := by simp only [loop, h]

theorem loop_exit {e : ε} {t : σ} {r : ρ} (h : body e s = .exit t r) :
    loop body s (e :: es) = (t, some r) := by simp only [loop, h]

theorem visits_next {e : ε} {t : σ} (h : body e s = .next t) :
    visits body s (e :: es) = (e, s) :: visits body t es := by simp only [visits, h]

theorem visits_exit {e : ε} {t : σ} {r : ρ} (h : body e s = .exit t r) :
    visits body s (e :: es) = [(e, s)] := by simp only [visits, h]

@[simp] theorem visits_singleton (e : ε) : visits body s [e] = [(e, s)] := by
  cases hb : body e s with
  | next t => rw [visits_next hb, visits]
  | exit t r => exact visits_exit hb

/-- Every visit used one of the readings. -/
theorem visits_reading_mem {v : ε × σ} (hv : v ∈ visits body s es) : v.1 ∈ es := by
  induction es generalizing s with
  | nil => exact absurd hv (List.not_mem_nil)
  | cons e es ih =>
    cases hb : body e s with
    | next t =>
      rw [visits_next hb] at hv
      rcases List.mem_cons.mp hv with rfl | hv
      · exact List.mem_cons_self
      · exact List.mem_cons_of_mem _ (ih hv)
    | exit t r =>
      rw [visits_exit hb, List.mem_singleton] at hv
      exact hv ▸ List.mem_cons_self

variable (body) in
/-- The loop rule: an invariant kept round the loop holds at each visit and while the loop
runs, and a way out of the loop has its own postcondition. -/
theorem loop_rule (I : σ → Prop) (Q : σ → ρ → Prop) (C : ε × σ → Prop)
    (hnext : ∀ e s t, I s → C (e, s) → body e s = .next t → I t)
    (hexit : ∀ e s t r, I s → C (e, s) → body e s = .exit t r → Q t r) (hs : I s)
    (hC : ∀ v ∈ visits body s es, C v) :
    ((loop body s es).2 = none → I (loop body s es).1) ∧
      (∀ r, (loop body s es).2 = some r → Q (loop body s es).1 r) ∧
      ∀ v ∈ visits body s es, I v.2 := by
  induction es generalizing s with
  | nil => exact ⟨fun _ => hs, by simp [loop], by simp [visits]⟩
  | cons e es ih =>
    cases hb : body e s with
    | next t =>
      rw [visits_next hb] at hC
      rw [loop_next hb, visits_next hb]
      have h := ih (hnext e s t hs (hC _ List.mem_cons_self) hb) fun v hv =>
        hC v (List.mem_cons_of_mem _ hv)
      exact ⟨h.1, h.2.1, List.forall_mem_cons.mpr ⟨hs, h.2.2⟩⟩
    | exit t r =>
      rw [visits_exit hb] at hC
      rw [loop_exit hb, visits_exit hb]
      have ht : Q t r := hexit e s t r hs (hC _ List.mem_cons_self) hb
      exact ⟨by simp, fun r' hr => Option.some.inj hr ▸ ht, List.forall_mem_singleton.mpr hs⟩

variable (body) in
/-- An invariant kept on every way through the body holds at each visit and at the end. -/
theorem loop_invariant (I : σ → Prop) (C : ε × σ → Prop)
    (hbody : ∀ e s, I s → C (e, s) → I (body e s).state) (hs : I s)
    (hC : ∀ v ∈ visits body s es, C v) :
    I (loop body s es).1 ∧ ∀ v ∈ visits body s es, I v.2 := by
  have h := loop_rule body I (fun t _ => I t) C
    (fun e s t hI hc hb => by simpa [hb] using hbody e s hI hc)
    (fun e s t r hI hc hb => by simpa [hb] using hbody e s hI hc) hs hC
  refine ⟨?_, h.2.2⟩
  cases hx : (loop body s es).2 with
  | none => exact h.1 hx
  | some r => exact h.2.1 r hx

/-- Where each visit keeps the invariant exactly under a condition, all visits keep it
exactly when the condition holds at all of them. -/
theorem visits_keep_iff (I : σ → Prop) (C : ε × σ → Prop)
    (hbody : ∀ e s, I s → (I (body e s).state ↔ C (e, s))) (hs : I s) :
    (∀ v ∈ visits body s es, I (body v.1 v.2).state) ↔ ∀ v ∈ visits body s es, C v := by
  induction es generalizing s with
  | nil => simp [visits]
  | cons e es ih =>
    have he := hbody e s hs
    cases hb : body e s with
    | next t =>
      rw [visits_next hb, List.forall_mem_cons, List.forall_mem_cons, he]
      refine and_congr_right fun hc => ih ?_
      have ht := he.mpr hc
      rwa [hb] at ht
    | exit t r =>
      rw [visits_exit hb, List.forall_mem_singleton, List.forall_mem_singleton, he]

variable (body) in
/-- A log that grows at each visit by a known piece is the pieces of all visits in order. -/
theorem loop_log (L : σ → List β) (emit : ε × σ → List β)
    (hbody : ∀ e s, L (body e s).state = L s ++ emit (e, s)) :
    L (loop body s es).1 = L s ++ (visits body s es).flatMap emit := by
  induction es generalizing s with
  | nil => simp [loop, visits]
  | cons e es ih =>
    have he := hbody e s
    cases hb : body e s with
    | next t =>
      rw [loop_next hb, visits_next hb, ih, List.flatMap_cons]
      rw [hb, Control.state_next] at he
      rw [he, List.append_assoc]
    | exit t r =>
      rw [loop_exit hb, visits_exit hb, List.flatMap_singleton]
      rwa [hb, Control.state_exit] at he

variable (body) in
/-- The invariant rule for invariants that speak of the time reached so far. -/
theorem loop_timed_invariant (start stop : ε → ℕ) (I : ℕ → σ → Prop) (C : ε × σ → Prop)
    (hbody : ∀ n e s, I n s → C (e, s) → n ≤ start e → start e ≤ stop e →
      I (stop e) (body e s).state)
    {n : ℕ} (hs : I n s) (ht : Timed start stop n es) (hC : ∀ v ∈ visits body s es, C v) :
    ∃ m, I m (loop body s es).1 := by
  induction es generalizing n s with
  | nil => exact ⟨n, hs⟩
  | cons e es ih =>
    obtain ⟨hn, hse, hes⟩ := ht
    cases hb : body e s with
    | next t =>
      rw [visits_next hb] at hC
      rw [loop_next hb]
      have hI : I (stop e) t := by
        simpa [hb] using hbody n e s hs (hC _ List.mem_cons_self) hn hse
      exact ih hI hes fun v hv => hC v (List.mem_cons_of_mem _ hv)
    | exit t r =>
      rw [visits_exit hb] at hC
      rw [loop_exit hb]
      exact ⟨stop e, by simpa [hb] using hbody n e s hs (hC _ List.mem_cons_self) hn hse⟩

end WorkerLoop
