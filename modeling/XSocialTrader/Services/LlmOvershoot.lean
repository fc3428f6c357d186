import XSocialTrader.Services.LlmBudget
import Mathlib.Algebra.BigOperators.Group.Finset.Piecewise
import Mathlib.Algebra.Order.BigOperators.Group.Finset
import Mathlib.Tactic.Linarith

/-! How far concurrent workers overshoot the daily limit. A worker that records a call at or
above the limit activates the kill switch and passes no further check, so each of them adds at
most one such call. -/
namespace XSocialTrader.Llm
open LabelledRun

section Crossings

variable {ω κ F : Type} [DecidableEq ω] [PyFloat F]

/-- The spend that the worker's charge results in; a negative cost is not recorded. -/
def recorded (s : Sys ω κ F) (w : ω) (now : UtcDateTime) : Option F :=
  match s.phase w with
  | .publishing [] costUsd =>
    if PyFloat.lt costUsd (PyFloat.ofInt 0) then none
    else some (PyFloat.add (s.spend (dayKey now.date)) costUsd)
  | _ => none

/-- The worker records a call on the day whose resulting spend is at or above the limit. -/
def recordsOver (cfg : Config F) (day : UtcDate) (s : Sys ω κ F) : Label ω κ F → ω → Bool
  | .worker v (.charge now), w => v == w && now.date == day &&
      (recorded s v now).any fun spendUsd => PyFloat.le cfg.limitUsd spendUsd
  | _, _ => false

/-- No deactivation, no worker that ends between its charge and the commit of its activation,
and no analysis that costs more than `c`. -/
def Orderly (c : ℚ) (s : Sys ω κ ℚ) : Label ω κ ℚ → Prop
  | .operator k => k.deactivates = false
  | .worker w .stop => (s.phase w).stage ≠ .alarmed
  | .worker _ (.finishAnalyze analysis) => 0 ≤ analysis.costUsd ∧ analysis.costUsd ≤ c
  | _ => True

instance (c : ℚ) (s : Sys ω κ ℚ) (l : Label ω κ ℚ) : Decidable (Orderly c s l) := by
  unfold Orderly
  split <;> infer_instance

end Crossings

section Overshoot

variable {ω κ : Type} [DecidableEq ω] [Fintype ω] [DecidableEq κ] [Fintype κ]
  {cfg : Config ℚ} {day : UtcDate} {c : ℚ} {s t : Sys ω κ ℚ} {n : ω → ℕ} {w : ω} {a : Action ℚ}

/-- A worker that has recorded a call over the limit is on its way to the switch, or has turned
it on and is behind the check for good. -/
structure Spent (cfg : Config ℚ) (day : UtcDate) (c : ℚ) (s : Sys ω κ ℚ) (n : ω → ℕ) : Prop where
  ids : KillSwitch.IdsDistinct s.kill
  armed : KillSwitch.AllArmed s.kill
  cost : ∀ w, ∀ x ∈ (s.phase w).cost, 0 ≤ x ∧ x ≤ c
  once : ∀ w, n w = 0 ∨ n w = 1 ∧ ((s.phase w).stage = .alarmed ∨
    Latched s.kill.rows ∧ (s.phase w).stage = .unchecked)
  spend : s.spend (dayKey day) < cfg.limitUsd + (∑ w, n w : ℕ) * c

/-- A step of the switch that leaves the counter and the workers alone. -/
theorem Spent.kill_step (h : Spent cfg day c s n) {k : KillSwitch.Label (ω ⊕ κ)}
    (hk : k.deactivates = false) (hkill : KillSwitch.step s.kill k = some t.kill)
    (hspend : t.spend = s.spend) (hcost : ∀ w, ∀ x ∈ (t.phase w).cost, 0 ≤ x ∧ x ≤ c)
    (hstage : ∀ w, (t.phase w).stage = (s.phase w).stage ∨
      (s.phase w).stage = .alarmed ∧ (t.phase w).stage = .unchecked ∧ Latched t.kill.rows) :
    Spent cfg day c t n := by
  obtain ⟨harmed, hlatched, -⟩ := h.armed.step hk hkill
  refine ⟨KillSwitch.step_idsDistinct h.ids hkill, harmed, hcost, fun w => ?_, hspend ▸ h.spend⟩
  refine (h.once w).imp_right (And.imp_right fun hw => ?_)
  rcases hstage w with heq | ⟨-, hto, hs⟩
  · rw [heq]
    exact hw.imp_right (And.imp_left hlatched)
  · exact Or.inr ⟨hs, hto⟩

omit [DecidableEq ω] [DecidableEq κ] [Fintype κ] in
/-- A step that leaves the counter and the switch alone. -/
theorem Spent.keep (h : Spent cfg day c s n) (hkill : t.kill = s.kill)
    (hspend : t.spend = s.spend) (hcost : ∀ w, ∀ x ∈ (t.phase w).cost, 0 ≤ x ∧ x ≤ c)
    (halarm : ∀ w, (s.phase w).stage = .alarmed → (t.phase w).stage = .alarmed)
    (hcheck : ∀ w, Latched s.kill.rows → (s.phase w).stage = .unchecked →
      (t.phase w).stage = .unchecked) : Spent cfg day c t n := by
  refine ⟨hkill ▸ h.ids, hkill ▸ h.armed, hcost, fun w => ?_, hspend ▸ h.spend⟩
  rw [hkill]
  refine (h.once w).imp_right (And.imp_right ?_)
  rintro (hw | ⟨hs, hw⟩)
  · exact Or.inl (halarm w hw)
  · exact Or.inr ⟨hs, hcheck w hs hw⟩

/-- A charge is the last move of a call. -/
theorem act_charge_phase {sh sh' : Shared ω κ ℚ} {ph ph' : Phase ℚ} {now : UtcDateTime}
    (h : act cfg w sh ph (.charge now) = some (sh', ph')) :
    ∃ costUsd, ph = .publishing [] costUsd := by
  cases ph with
  | publishing newEventIds costUsd =>
    cases newEventIds with
    | nil => exact ⟨costUsd, rfl⟩
    | cons => cases h
  | scanning tweet decision todo added => cases todo <;> cases h
  | _ => cases h

omit [Fintype ω] [DecidableEq κ] [Fintype κ] in
theorem recordsOver_charge {now : UtcDateTime} {x : ℚ} (h : recorded s w now = some x) (v : ω) :
    recordsOver cfg day s (.worker w (.charge now)) v =
      decide (w = v ∧ now.date = day ∧ cfg.limitUsd ≤ x) := by
  simp [recordsOver, h, Bool.decide_and, Bool.and_assoc, Bool.beq_eq_decide_eq]

omit [DecidableEq κ] [Fintype κ] in
/-- A worker that has recorded no call over the limit records its first. -/
theorem Spent.over (h : Spent cfg day c s n) {x : ℚ} (hzero : n w = 0) (hx : x ≤ c)
    (hkill : t.kill = s.kill) (hspend : t.spend (dayKey day) = s.spend (dayKey day) + x)
    (hcost : ∀ v, ∀ y ∈ (t.phase v).cost, 0 ≤ y ∧ y ≤ c)
    (hother : ∀ v, v ≠ w → t.phase v = s.phase v) (hstage : (t.phase w).stage = .alarmed) :
    Spent cfg day c t fun v => n v + (decide (w = v)).toNat := by
  have hsum : ∑ v, (n v + (decide (w = v)).toNat) = ∑ v, n v + 1 := by
    simp [Finset.sum_add_distrib, Bool.toNat, Bool.cond_decide]
  refine ⟨hkill ▸ h.ids, hkill ▸ h.armed, hcost, fun v => ?_, ?_⟩
  · by_cases hv : v = w
    · subst hv
      exact Or.inr ⟨by simp [hzero], Or.inl hstage⟩
    · rw [hother v hv, hkill]
      simpa [Ne.symm hv] using h.once v
  · have hbound := h.spend
    rw [hsum, hspend, Nat.cast_add, Nat.cast_one]
    linarith

omit [DecidableEq κ] [Fintype κ] [DecidableEq ω] in
/-- A worker that has recorded no call over the limit ends an iteration below it. -/
theorem Spent.under (h : Spent cfg day c s n) (hzero : n w = 0) (hkill : t.kill = s.kill)
    (hspend : t.spend (dayKey day) < cfg.limitUsd + (∑ v, n v : ℕ) * c)
    (hcost : ∀ v, ∀ y ∈ (t.phase v).cost, 0 ≤ y ∧ y ≤ c)
    (hother : ∀ v, v ≠ w → t.phase v = s.phase v) : Spent cfg day c t n := by
  refine ⟨hkill ▸ h.ids, hkill ▸ h.armed, hcost, fun v => ?_, hspend⟩
  by_cases hv : v = w
  · exact Or.inl (hv ▸ hzero)
  · rw [hother v hv, hkill]
    exact h.once v

/-- A charge takes the count of its own worker up exactly if it reaches the limit. -/
theorem Spent.charge (h : Spent cfg day c s n) (hc : 0 ≤ c) {now : UtcDateTime}
    (hact : act cfg w s.toShared (s.phase w) (.charge now) = some (t.toShared, t.phase w))
    (hother : ∀ v, v ≠ w → t.phase v = s.phase v) :
    Spent cfg day c t fun v =>
      n v + (recordsOver cfg day s (.worker w (.charge now)) v).toNat := by
  obtain ⟨costUsd, hphase⟩ := act_charge_phase hact
  obtain ⟨hneg, hle⟩ := h.cost w costUsd (by rw [hphase]; rfl)
  have hzero : n w = 0 := by
    rcases h.once w with hzero | ⟨-, hw | ⟨-, hw⟩⟩
    · exact hzero
    all_goals
      rw [hphase] at hw
      cases hw
  let x := s.spend (dayKey now.date) + costUsd
  have hrecorded : recorded s w now = some x := by
    simp [recorded, hphase, not_lt.mpr hneg, x]
  simp only [hphase, act, lt_rat, ofInt_rat, Int.cast_zero, not_lt.mpr hneg, decide_false,
    Bool.false_eq_true, if_false] at hact
  obtain ⟨hshared, hto⟩ := Prod.mk.inj (Option.some.inj hact)
  have hkill : t.kill = s.kill := (congrArg Shared.kill hshared).symm
  have hspend : t.spend = Function.update s.spend (dayKey now.date) x :=
    (congrArg Shared.spend hshared).symm
  have hidle : (t.phase w).cost = none := by
    rw [← hto]
    split_ifs <;> rfl
  have hcost (v : ω) : ∀ y ∈ (t.phase v).cost, 0 ≤ y ∧ y ≤ c := by
    by_cases hv : v = w
    · rw [hv, hidle]
      intro y hy
      cases hy
    · rw [hother v hv]
      exact h.cost v
  simp only [recordsOver_charge hrecorded]
  by_cases hover : now.date = day ∧ cfg.limitUsd ≤ x
  · have hstage : (t.phase w).stage = .alarmed := by
      rw [← hto]
      simp only [le_rat, add_rat]
      rw [if_pos (by exact decide_eq_true hover.2)]
      rfl
    have hadded : t.spend (dayKey day) = s.spend (dayKey day) + costUsd := by
      rw [hspend, ← hover.1, Function.update_self]
    simpa only [hover, and_self, and_true] using
      h.over hzero hle hkill hadded hcost hother hstage
  · have hbelow : t.spend (dayKey day) < cfg.limitUsd + (∑ v, n v : ℕ) * c := by
      rw [hspend]
      by_cases hday : now.date = day
      · have hlt : x < cfg.limitUsd := not_le.mp fun hle => hover ⟨hday, hle⟩
        have hpos : 0 ≤ ((∑ v, n v : ℕ) : ℚ) * c := mul_nonneg (Nat.cast_nonneg _) hc
        rw [← hday, Function.update_self]
        linarith
      · rw [Function.update_of_ne (dayKey_inj.not.mpr (Ne.symm hday))]
        exact h.spend
    simpa only [hover, and_false, decide_false, Bool.toNat_false, add_zero] using
      h.under hzero hkill hbelow hcost hother

/-- Every other move of a worker leaves the counts alone. -/
theorem Spent.move (h : Spent cfg day c s n) (hl : Orderly c s (.worker w a))
    (hmove : Move cfg w s.toShared t.toShared (s.phase w) (t.phase w) a)
    (hother : ∀ v, v ≠ w → t.phase v = s.phase v) (ha : ∀ now, a ≠ .charge now) :
    Spent cfg day c t n := by
  -- What holds of the moved worker and of every other one before holds of all.
  have hall (P : Phase ℚ → Phase ℚ → Prop) (hw : P (s.phase w) (t.phase w))
      (hv : ∀ v, P (s.phase v) (s.phase v)) (v : ω) : P (s.phase v) (t.phase v) := by
    by_cases hvw : v = w
    · exact hvw ▸ hw
    · rw [hother v hvw]
      exact hv v
  have hcost (hw : ∀ x ∈ (t.phase w).cost, 0 ≤ x ∧ x ≤ c) (v : ω) :
      ∀ x ∈ (t.phase v).cost, 0 ≤ x ∧ x ≤ c := by
    by_cases hvw : v = w
    · exact hvw ▸ hw
    · rw [hother v hvw]
      exact h.cost v
  cases hmove with
  | quiet a hkill hspend hfrom hto hcost' =>
    apply h.keep hkill hspend
    · refine hcost fun x hx => ?_
      rcases hcost' x hx with hx | ⟨b, rfl, rfl⟩
      · exact h.cost w x hx
      · exact hl
    · exact hall (fun p q => p.stage = .alarmed → q.stage = .alarmed)
        (fun hw => absurd hw hfrom) fun v => id
    · intro v hs
      refine hall (fun p q => p.stage = .unchecked → q.stage = .unchecked) ?_ (fun v => id) v
      intro hw
      rcases hto with hto | hto
      · rw [hto, hw]
      · exact hto
  | check hs hfrom hactive hto =>
    apply h.keep (congrArg Shared.kill hs) (congrArg Shared.spend hs)
    · exact hcost (by simp [hto, Phase.cost])
    · exact hall (fun p q => p.stage = .alarmed → q.stage = .alarmed)
        (fun hw => by simp [hfrom, Phase.stage] at hw) fun v => id
    · intro v hs
      rw [latched_iff h.ids.rows_nodup, hactive] at hs
      cases hs
  | start hs hfrom hto hcost' =>
    apply h.keep (congrArg Shared.kill hs) (congrArg Shared.spend hs)
    · exact hcost (by simp [hcost'])
    · exact hall (fun p q => p.stage = .alarmed → q.stage = .alarmed)
        (fun hw => by simp [hfrom] at hw) fun v => id
    · intro v _
      exact hall (fun p q => p.stage = .unchecked → q.stage = .unchecked)
        (fun hw => by simp [hfrom] at hw) (fun v => id) v
  | charge now => exact absurd rfl (ha now)
  | alarm a k hk hfrom hkill hspend hto =>
    obtain ⟨hactivates, hphase⟩ : k.deactivates = false ∧ ((t.phase w).stage = .alarmed ∨
        k = .commit (.inl w) ∧ (t.phase w).stage = .unchecked) ∧ (t.phase w).cost = none := by
      obtain ⟨_, _, _, -, rfl, hp⟩ | ⟨-, rfl | rfl, hp⟩ | ⟨-, rfl, hp⟩ | ⟨hp, -, -, rfl⟩ := hto
      · exact ⟨rfl, Or.inl (by rw [hp]; rfl), by rw [hp]; rfl⟩
      · exact ⟨rfl, Or.inl (by rw [hp]; rfl), by rw [hp]; rfl⟩
      · exact ⟨rfl, Or.inl (by rw [hp]; rfl), by rw [hp]; rfl⟩
      · exact ⟨rfl, Or.inr ⟨rfl, by rw [hp]; rfl⟩, by rw [hp]; rfl⟩
      · exact absurd hfrom hl
    apply h.kill_step hactivates hkill hspend (hcost (by simp [hphase.2]))
    refine hall (fun p q => q.stage = p.stage ∨ p.stage = .alarmed ∧ q.stage = .unchecked ∧
      Latched t.kill.rows) ?_ fun v => Or.inl rfl
    rcases hphase.1 with hto | ⟨hcommit, hto⟩
    · exact Or.inl (hto.trans hfrom.symm)
    · exact Or.inr ⟨hfrom, hto, (h.armed.step hactivates hkill).2.2 _ hcommit⟩
  | giveUp hs hfrom hto => exact absurd hfrom hl

theorem Spent.step (h : Spent cfg day c s n) (hc : 0 ≤ c) {l : Label ω κ ℚ}
    (hl : Orderly c s l) (hstep : Llm.step cfg s l = some t) :
    Spent cfg day c t fun v => n v + (recordsOver cfg day s l v).toNat := by
  cases l with
  | worker w a =>
    obtain ⟨-, hact, hother⟩ := step_worker hstep
    by_cases ha : ∃ now, a = .charge now
    · obtain ⟨now, rfl⟩ := ha
      exact h.charge hc hact hother
    · have hscore (v : ω) : recordsOver cfg day s (.worker w a) v = false := by
        cases a with
        | charge now => exact absurd ⟨now, rfl⟩ ha
        | _ => rfl
      simp only [hscore, Bool.toNat_false, add_zero]
      exact h.move hl (act_move hact) hother fun now hnow => ha ⟨now, hnow⟩
  | enqueue raw | setAliases aliases =>
    obtain rfl := Option.some.inj hstep
    exact h.keep rfl rfl h.cost (fun _ => id) fun _ _ => id
  | ingest tweet =>
    simp only [Llm.step] at hstep
    split_ifs at hstep
    obtain rfl := Option.some.inj hstep
    exact h.keep rfl rfl h.cost (fun _ => id) fun _ _ => id
  | operator k =>
    obtain ⟨kill, hkill, rfl⟩ := Option.map_eq_some_iff.mp hstep
    refine Spent.kill_step (t := { s with kill := kill }) h ?_ hkill rfl h.cost fun _ => Or.inl rfl
    cases k with
    | flush k req id => cases req <;> exact hl
    | _ => rfl

/-- The day's spend stays below the limit plus one call for each worker, since none of them
records more than one call at or above the limit. -/
theorem spend_lt_limit_add {s₀ : Sys ω κ ℚ} {as : List (Label ω κ ℚ)}
    (hidle : ∀ w, s₀.phase w = .idle) (hkill : KillSwitch.Initial s₀.kill)
    (hspend : s₀.spend (dayKey day) < cfg.limitUsd) (hc : 0 ≤ c)
    (hquiet : Guarded (Llm.step cfg) (Orderly c) s₀ as)
    (hrun : exec (Llm.step cfg) s₀ as = some t) :
    t.spend (dayKey day) < cfg.limitUsd + Fintype.card ω * c ∧
      ∀ w, tally (Llm.step cfg) (recordsOver cfg day) s₀ as w ≤ 1 := by
  have h₀ : Spent cfg day c s₀ fun _ => 0 := by
    refine ⟨hkill.idsDistinct, .of_idle hkill.2, fun w => ?_, fun _ => Or.inl rfl, ?_⟩
    · simp [hidle w, Phase.cost]
    · simpa using hspend
  have h := guarded_tally_invariant (recordsOver cfg day) (Spent cfg day c)
    (fun _ _ _ _ h hl hs => h.step hc hl hs) h₀ hquiet hrun
  simp only [Nat.zero_add] at h
  have honce (w : ω) : tally (Llm.step cfg) (recordsOver cfg day) s₀ as w ≤ 1 :=
    Nat.le_one_iff_eq_zero_or_eq_one.mpr ((h.once w).imp_right And.left)
  refine ⟨h.spend.trans_le ?_, honce⟩
  have hsum : ∑ w, tally (Llm.step cfg) (recordsOver cfg day) s₀ as w ≤ Fintype.card ω := by
    simpa using Finset.sum_le_card_nsmul Finset.univ _ 1 fun w _ => honce w
  gcongr

/-- One worker records one call over the limit and turns the switch on. -/
theorem spend_lt_limit_add_after_breach :
    ∃ t, exec (Llm.step paperConfig) paperStart (paperBreach 0 ++ paperActivation 0) = some t ∧
      t.spend (dayKey paperNoon.date) < 10 + Fintype.card (Fin 1) * 12 ∧
      ∀ w, tally (Llm.step paperConfig) (recordsOver paperConfig paperNoon.date) paperStart
        (paperBreach 0 ++ paperActivation 0) w ≤ 1 := by
  have hrun : (exec (Llm.step paperConfig) paperStart
      (paperBreach 0 ++ paperActivation 0)).isSome = true := by decide +kernel
  obtain ⟨t, ht⟩ := Option.isSome_iff_exists.mp hrun
  have hspend : paperStart.spend (dayKey paperNoon.date) < paperConfig.limitUsd := by
    show (0 : ℚ) < 10
    decide
  exact ⟨t, ht, spend_lt_limit_add (fun _ => rfl) paperClocked_opening.kill hspend (by decide)
    (by decide +kernel) ht⟩

end Overshoot

end XSocialTrader.Llm
