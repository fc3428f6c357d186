import XSocialTrader.Core.Clock
import XSocialTrader.Services.LlmPipeline

/-! The daily budget of the LLM workers. Nothing compares the counter with the limit before a
call: a worker that crosses the limit activates the kill switch after it, and the check at the
head of an iteration finds the switch on. -/
namespace XSocialTrader.Llm
open LabelledRun

variable {ω κ F : Type}

/-- How far the check of the switch is behind a worker. -/
inductive Stage where
  | unchecked | cleared | calling | alarmed
  deriving DecidableEq, Repr

/-- A worker is cleared from its check to its call, and alarmed from a charge that reached the
limit to the commit of its activation. -/
def Phase.stage : Phase F → Stage
  | .idle | .redisRead => .unchecked
  | .checked | .popped _ | .loaded _ => .cleared
  | .analyzing _ | .analyzed _ _ | .flushed _ _ | .scanning _ _ _ _ | .publishing _ _ => .calling
  | .breached _ _ | .activating => .alarmed

/-- The cost that the worker has yet to charge. -/
def Phase.cost : Phase F → Option F
  | .analyzed _ analysis => some analysis.costUsd
  | .flushed _ decision | .scanning _ decision _ _ => some decision.analysis.costUsd
  | .publishing _ costUsd => some costUsd
  | _ => none

theorem Phase.not_alarmed_of_owes {ph : Phase F} (h : ph.owes = false) :
    ph.stage ≠ .alarmed := by
  cases ph with
  | breached | activating => cases h
  | _ => simp [Phase.stage]

section Moves

variable [DecidableEq ω] [Fintype ω] [DecidableEq κ] [Fintype κ] [PyFloat F]
  {cfg : Config F} {s s' : Shared ω κ F} {ph ph' : Phase F} {w : ω} {a : Action F}

/-- What one move of a worker can do to the counter, the kill switch and its own stage. -/
inductive Move (cfg : Config F) (w : ω) (s s' : Shared ω κ F) (ph ph' : Phase F) :
    Action F → Prop
  | quiet (a : Action F) (hkill : s'.kill = s.kill) (hspend : s'.spend = s.spend)
      (hfrom : ph.stage ≠ .alarmed) (hto : ph'.stage = ph.stage ∨ ph'.stage = .unchecked)
      (hcost : ∀ x ∈ ph'.cost, ph.cost = some x ∨ ∃ b, a = .finishAnalyze b ∧ b.costUsd = x) :
      Move cfg w s s' ph ph' a
  | check (hs : s' = s) (hfrom : ph = .redisRead)
      (hactive : (isActive none none s.kill.rows).active = false) (hto : ph' = .checked) :
      Move cfg w s s' ph ph' .readDb
  | start (hs : s' = s) (hfrom : ph.stage = .cleared) (hto : ph'.stage = .calling)
      (hcost : ph'.cost = none) : Move cfg w s s' ph ph' .startAnalyze
  | charge (now : UtcDateTime) (costUsd : F) (hfrom : ph = .publishing [] costUsd)
      (hkill : s'.kill = s.kill)
      (hspend : s'.spend = Function.update s.spend (String.ofList now.date.text)
        (PyFloat.add (s.spend (String.ofList now.date.text)) costUsd))
      (hto : ph' = if PyFloat.le cfg.limitUsd (s'.spend (String.ofList now.date.text)) then
          .breached (String.ofList now.date.text) (s'.spend (String.ofList now.date.text))
        else .idle) :
      Move cfg w s s' ph ph' (.charge now)
  | alarm (a : Action F) (k : KillSwitch.Label (ω ⊕ κ)) (hk : k.process = .inl w)
      (hfrom : ph.stage = .alarmed) (hkill : KillSwitch.step s.kill k = some s'.kill)
      (hspend : s'.spend = s.spend)
      (hto : (∃ day x id, ph = .breached day x ∧ k = .flush (.inl w) (.activate .budgetLlm
          "llm_budget_tracker" (some (cfg.breachReason day x))) id ∧ ph' = .activating) ∨
        (ph = .activating ∧ (k = .redis (.inl w) ∨ k = .publish (.inl w)) ∧ ph' = .activating) ∨
        (ph = .activating ∧ k = .commit (.inl w) ∧ ph' = .idle) ∨
        (ph = .activating ∧ k = .stop (.inl w) ∧ ph' = .idle ∧ a = .stop)) :
      Move cfg w s s' ph ph' a
  | giveUp (hs : s' = s) (hfrom : ph.stage = .alarmed) (hto : ph' = .idle) :
      Move cfg w s s' ph ph' .stop

theorem act_move (h : act cfg w s ph a = some (s', ph')) : Move cfg w s s' ph ph' a := by
  cases act_turn h with
  | leave hfrom =>
    exact .quiet _ rfl rfl (Phase.not_alarmed_of_owes hfrom) (Or.inr rfl) (by simp [Phase.cost])
  | stop =>
    by_cases hstage : ph.stage = .alarmed
    · exact .giveUp rfl hstage rfl
    · exact .quiet _ rfl rfl hstage (Or.inr rfl) (by simp [Phase.cost])
  | readDb hactive => exact .check rfl rfl hactive rfl
  | startAnalyze => exact .start rfl rfl rfl rfl
  | discard => exact .quiet _ rfl rfl (by simp [Phase.stage]) (Or.inr rfl) (by simp [Phase.cost])
  | readRedis | pop | load | finishAnalyze | flushDecision | resolve | scanKnown | scanNew |
    commit | push =>
    -- the stage stays, and the cost is the one that the worker had or that of its analysis
    exact .quiet _ rfl rfl (by simp [Phase.stage]) (Or.inl rfl) (by simp [Phase.cost])
  | charge hday hspend =>
    subst hday hspend
    exact .charge _ _ rfl rfl rfl (by simp [Function.update_self])
  | activate hkill =>
    exact .alarm _ _ rfl rfl hkill rfl (Or.inl ⟨_, _, _, rfl, rfl, rfl⟩)
  | activateRedis hkill =>
    exact .alarm _ _ rfl rfl hkill rfl (Or.inr (Or.inl ⟨rfl, Or.inl rfl, rfl⟩))
  | activatePublish hkill =>
    exact .alarm _ _ rfl rfl hkill rfl (Or.inr (Or.inl ⟨rfl, Or.inr rfl, rfl⟩))
  | activateCommit hkill =>
    exact .alarm _ _ rfl rfl hkill rfl (Or.inr (Or.inr (Or.inl ⟨rfl, rfl, rfl⟩)))
  | activateStop hkill =>
    exact .alarm _ _ rfl rfl hkill rfl (Or.inr (Or.inr (Or.inr ⟨rfl, rfl, rfl, rfl⟩)))

end Moves

/-- The part of the counter's key that names a day. -/
def dayKey (day : UtcDate) : String := String.ofList day.text

theorem dayKey_inj {d e : UtcDate} : dayKey d = dayKey e ↔ d = e := by
  rw [dayKey, dayKey, String.ofList_inj, UtcDate.text_inj]

section Refusal

variable [DecidableEq ω] [Fintype ω] [DecidableEq κ] [Fintype κ] [PyFloat F]

/-- The spend recorded under the key of a day has reached the limit. -/
def OverBudget (cfg : Config F) (s : Sys ω κ F) (day : UtcDate) : Prop :=
  PyFloat.le cfg.limitUsd (s.spend (dayKey day)) = true

instance (cfg : Config F) (s : Sys ω κ F) (day : UtcDate) : Decidable (OverBudget cfg s day) := by
  unfold OverBudget
  infer_instance

def Label.startsAnalysis : Label ω κ F → ω → Bool
  | .worker v .startAnalyze, w => v == w
  | _, _ => false

omit [Fintype ω] [DecidableEq κ] [Fintype κ] [PyFloat F] in
theorem Label.startsAnalysis_iff {v w : ω} {a : Action F} :
    (Label.worker v a : Label ω κ F).startsAnalysis w = true ↔ v = w ∧ a = .startAnalyze := by
  cases a <;> simp [Label.startsAnalysis]

/-- The workers and the time of the last step. -/
structure Clocked (ω κ F : Type) where
  sys : Sys ω κ F
  clock : UtcDateTime

/-- A charge goes to the day that its worker has read from the clock. -/
def ReadBefore (now : UtcDateTime) : Label ω κ F → Prop
  | .worker _ (.charge t) => t.stamp ≤ now.stamp
  | _ => True

instance (now : UtcDateTime) (l : Label ω κ F) : Decidable (ReadBefore now l) := by
  unfold ReadBefore
  split <;> infer_instance

/-- A step at a time; the clock does not go back. -/
def clockedStep (cfg : Config F) (c : Clocked ω κ F) (l : UtcDateTime × Label ω κ F) :
    Option (Clocked ω κ F) :=
  if c.clock.stamp ≤ l.1.stamp ∧ ReadBefore l.1 l.2 then
    (step cfg c.sys l.2).map fun s => ⟨s, l.1⟩
  else none

/-- The worker's activation is yet to come, or is in flight and newer than every deactivation. -/
def Due (s : Sys ω κ F) (w : ω) : Prop :=
  match s.phase w with
  | .breached _ _ => True
  | .activating => KillSwitch.Armed s.kill (.inl w)
  | _ => False

instance (s : Sys ω κ F) (w : ω) : Decidable (Due s w) := by
  unfold Due
  split <;> infer_instance

omit [DecidableEq ω] [Fintype ω] [DecidableEq κ] [Fintype κ] [PyFloat F] in
theorem due_iff {s : Sys ω κ F} {w : ω} : Due s w ↔ (∃ day x, s.phase w = .breached day x) ∨
    s.phase w = .activating ∧ KillSwitch.Armed s.kill (.inl w) := by
  unfold Due
  split <;> simp_all

/-- The worker's charge takes the spend of today to the limit. -/
def reachesLimit (cfg : Config F) (s : Sys ω κ F) (w : ω) (t today : UtcDateTime) : Bool :=
  match s.phase w with
  | .publishing [] costUsd => t.date == today.date &&
      PyFloat.le cfg.limitUsd (PyFloat.add (s.spend (dayKey t.date)) costUsd)
  | _ => false

/-- The steps that leave the limit to the switch: while today's spend has reached the limit and
the table has the switch off, no worker ends whose activation alone is due, and no worker passes
the check; no deactivation that is newer than every activation is committed; and no worker is
between its check and its call when the charge of another one reaches the limit. -/
def Undisturbed (cfg : Config F) (s : Sys ω κ F) (l : UtcDateTime × Label ω κ F) : Prop :=
  match l.2 with
  | .worker w .stop => OverBudget cfg s l.1.date →
      (isActive none none s.kill.rows).active = false → Due s w → ∃ v, v ≠ w ∧ Due s v
  | .worker _ .readDb => OverBudget cfg s l.1.date →
      (isActive none none s.kill.rows).active = false → ∀ v, ¬ Due s v
  | .worker w (.charge t) => reachesLimit cfg s w t l.1 = true →
      ∀ v, v ≠ w → (s.phase v).stage ≠ .cleared
  | .operator (.commit k) => OverBudget cfg s l.1.date →
      ∀ call ∈ s.kill.call (.inr k), KillSwitch.Harmless s.kill.rows call.2
  | _ => True

instance (cfg : Config F) (s : Sys ω κ F) (l : UtcDateTime × Label ω κ F) :
    Decidable (Undisturbed cfg s l) := by
  unfold Undisturbed
  split <;> infer_instance

/-- No call is under way, and the counters of today and of later days are below the limit. -/
structure Opening (cfg : Config F) (c : Clocked ω κ F) : Prop where
  idle : ∀ w, c.sys.phase w = .idle
  kill : KillSwitch.Initial c.sys.kill
  spend : ∀ day : UtcDate, c.clock.date.code ≤ day.code → ¬ OverBudget cfg c.sys day

/-- While today's spend has reached the limit, the table is latched or an activation is due,
and no worker is between its check and its call. -/
structure Watched (cfg : Config F) (s : Sys ω κ F) (today : UtcDate) : Prop where
  ids : KillSwitch.IdsDistinct s.kill
  rows : ∀ w p row, s.kill.call (.inl w) = some (p, row) → row.activated = true
  later : ∀ day : UtcDate, today.code < day.code → ¬ OverBudget cfg s day
  switch : OverBudget cfg s today → Latched s.kill.rows ∨ ∃ w, Due s w
  cleared : OverBudget cfg s today → ∀ w, (s.phase w).stage ≠ .cleared

variable {cfg : Config F} {s t : Sys ω κ F} {c c' : Clocked ω κ F} {w : ω} {a : Action F}

omit [DecidableEq ω] [Fintype ω] [DecidableEq κ] [Fintype κ] in
theorem Opening.watched (h : Opening cfg c) : Watched cfg c.sys c.clock.date where
  ids := h.kill.idsDistinct
  rows w p row hc := by simp [h.kill.2] at hc
  later day hday := h.spend day hday.le
  switch hover := absurd hover (h.spend _ le_rfl)
  cleared hover := absurd hover (h.spend _ le_rfl)

omit [DecidableEq ω] [Fintype ω] [DecidableEq κ] [Fintype κ] in
/-- A new day begins below the limit. -/
theorem Watched.advance {clock now : UtcDateTime} (h : Watched cfg s clock.date)
    (hle : clock.stamp ≤ now.stamp) : Watched cfg s now.date := by
  have hcode := UtcDateTime.date_code_le hle
  have hsame : OverBudget cfg s now.date → now.date = clock.date := by
    intro hover
    by_contra hne
    have hlt : clock.date.code < now.date.code :=
      lt_of_le_of_ne hcode fun heq => hne (UtcDate.code_inj.mp heq).symm
    exact h.later _ hlt hover
  refine ⟨h.ids, h.rows, fun day hday => h.later day (hcode.trans_lt hday), ?_, ?_⟩
  · exact fun hover => h.switch (hsame hover ▸ hover)
  · exact fun hover => h.cleared (hsame hover ▸ hover)

omit [DecidableEq ω] [Fintype ω] [DecidableEq κ] [Fintype κ] in
/-- A step that leaves the counter alone. -/
theorem Watched.keep {today : UtcDate} (h : Watched cfg s today) (hspend : t.spend = s.spend)
    (hids : KillSwitch.IdsDistinct t.kill)
    (hrows : ∀ w p row, t.kill.call (.inl w) = some (p, row) → row.activated = true)
    (hswitch : OverBudget cfg s today → Latched t.kill.rows ∨ ∃ w, Due t w)
    (hcleared : ∀ w, (t.phase w).stage = .cleared → (s.phase w).stage = .cleared) :
    Watched cfg t today := by
  have hover (day : UtcDate) : OverBudget cfg t day ↔ OverBudget cfg s day := by
    rw [OverBudget, OverBudget, hspend]
  refine ⟨hids, hrows, ?_, ?_, ?_⟩
  · exact fun day hday hbad => h.later day hday ((hover day).mp hbad)
  · exact fun hbad => hswitch ((hover today).mp hbad)
  · exact fun hbad w hw => h.cleared ((hover today).mp hbad) w (hcleared w hw)

omit [Fintype ω] [DecidableEq κ] [Fintype κ] in
/-- A worker that ends leaves a latched table or another worker's activation behind. -/
theorem Watched.switch_of_stop {now : UtcDateTime} (h : Watched cfg s now.date)
    (hquiet : Undisturbed cfg s (now, .worker w .stop)) (hover : OverBudget cfg s now.date) :
    Latched s.kill.rows ∨ ∃ v, v ≠ w ∧ Due s v := by
  obtain hs | ⟨v, hv⟩ := h.switch hover
  · exact Or.inl hs
  · by_cases hvw : v = w
    · subst hvw
      cases hactive : (isActive none none s.kill.rows).active with
      | true => exact Or.inl ((latched_iff h.ids.rows_nodup).mpr hactive)
      | false => exact Or.inr (hquiet hover hactive hv)
    · exact Or.inr ⟨v, hvw, hv⟩

omit [PyFloat F] in
/-- Another process does not take a worker's activation away. -/
theorem Due.of_ne {k : KillSwitch.Label (ω ⊕ κ)} {v : ω} (h : Due s v)
    (hphase : t.phase v = s.phase v) (hk : .inl v ≠ k.process)
    (hcommit : ∀ l row, k = .commit l → s.kill.call l = some (.published, row) →
      KillSwitch.Harmless s.kill.rows row)
    (hkill : KillSwitch.step s.kill k = some t.kill) : Latched t.kill.rows ∨ Due t v := by
  rw [due_iff] at h ⊢
  rw [hphase]
  obtain h | ⟨h, harmed⟩ := h
  · exact Or.inr (Or.inl h)
  · obtain harmed | hlatch := harmed.of_ne hk hcommit hkill
    · exact Or.inr (Or.inr ⟨h, harmed⟩)
    · exact Or.inl hlatch

/-- A step of a worker's activation. -/
theorem Watched.alarm {now : UtcDateTime} {k : KillSwitch.Label (ω ⊕ κ)}
    (h : Watched cfg s now.date) (hother : ∀ v, v ≠ w → t.phase v = s.phase v)
    (hquiet : Undisturbed cfg s (now, .worker w a)) (hk : k.process = .inl w)
    (hkill : KillSwitch.step s.kill k = some t.kill) (hspend : t.spend = s.spend)
    (hto : (∃ day x id, s.phase w = .breached day x ∧ k = .flush (.inl w) (.activate .budgetLlm
          "llm_budget_tracker" (some (cfg.breachReason day x))) id ∧ t.phase w = .activating) ∨
        (s.phase w = .activating ∧ (k = .redis (.inl w) ∨ k = .publish (.inl w)) ∧
          t.phase w = .activating) ∨
        (s.phase w = .activating ∧ k = .commit (.inl w) ∧ t.phase w = .idle) ∨
        (s.phase w = .activating ∧ k = .stop (.inl w) ∧ t.phase w = .idle ∧ a = .stop)) :
    Watched cfg t now.date := by
  have hcommit : ∀ l row, k = .commit l → s.kill.call l = some (.published, row) →
      KillSwitch.Harmless s.kill.rows row := by
    rintro l row rfl hl
    obtain rfl : l = .inl w := hk
    exact Or.inl (h.rows w _ row hl)
  have hlatched (hs : Latched s.kill.rows) : Latched t.kill.rows :=
    KillSwitch.step_latched hs hcommit hkill
  have hne {v : ω} (hvw : v ≠ w) (hv : Due s v) : Latched t.kill.rows ∨ ∃ v, Due t v := by
    have hprocess : Sum.inl v ≠ k.process := by
      rw [hk]
      exact fun heq => hvw (Sum.inl.inj heq)
    exact (hv.of_ne (hother v hvw) hprocess hcommit hkill).imp_right fun hv => ⟨v, hv⟩
  apply h.keep hspend (KillSwitch.step_idsDistinct h.ids hkill)
  · intro v p row hc
    rcases KillSwitch.step_call hkill hc with ⟨q, hq⟩ | ⟨req, id, rfl, -, hrow⟩
    · exact h.rows v q row hq
    · obtain ⟨day, x, id', -, heq, -⟩ | ⟨-, heq | heq, -⟩ | ⟨-, heq, -⟩ | ⟨-, heq, -, -⟩ := hto
      all_goals cases heq
      obtain rfl := Option.some.inj hrow
      rfl
  · intro hover
    obtain ⟨day, x, id, hfrom, rfl, hphase⟩ | ⟨hfrom, hcarry, hphase⟩ | ⟨hfrom, rfl, -⟩ |
      ⟨hfrom, -, -, rfl⟩ := hto
    · exact Or.inr ⟨w, due_iff.mpr (Or.inr ⟨hphase, (KillSwitch.Armed.of_flush hkill).1⟩)⟩
    · obtain hs | ⟨v, hv⟩ := h.switch hover
      · exact Or.inl (hlatched hs)
      · by_cases hvw : v = w
        · subst hvw
          simp only [Due, hfrom] at hv
          exact Or.inr ⟨v, due_iff.mpr (Or.inr ⟨hphase, (hv.carry hcarry hkill).1⟩)⟩
        · exact hne hvw hv
    · obtain hs | ⟨v, hv⟩ := h.switch hover
      · exact Or.inl (hlatched hs)
      · by_cases hvw : v = w
        · subst hvw
          simp only [Due, hfrom] at hv
          exact Or.inl (hv.latched hkill)
        · exact hne hvw hv
    · obtain hs | ⟨v, hvw, hv⟩ := h.switch_of_stop hquiet hover
      · exact Or.inl (hlatched hs)
      · exact hne hvw hv
  · intro v hv
    by_cases hvw : v = w
    · subst hvw
      obtain ⟨_, _, _, -, -, hp⟩ | ⟨-, -, hp⟩ | ⟨-, -, hp⟩ | ⟨-, -, hp, -⟩ := hto <;>
        rw [hp] at hv <;> cases hv
    · rwa [hother v hvw] at hv

omit [DecidableEq ω] [PyFloat F] [Fintype ω] [DecidableEq κ] [Fintype κ] in
/-- An activation stays due while the switch and its worker stay as they are. -/
theorem Due.keep {v : ω} (h : Due s v) (hkill : t.kill = s.kill)
    (hphase : t.phase v = s.phase v) : Due t v := by
  unfold Due
  rw [hphase, hkill]
  exact h

omit [DecidableEq ω] [Fintype ω] [DecidableEq κ] [Fintype κ] in
/-- A switch that is left alone stays as it is unless this worker was to turn it on. -/
theorem Watched.switch_kept {today : UtcDate} (h : Watched cfg s today) (hkill : t.kill = s.kill)
    (hother : ∀ v, v ≠ w → t.phase v = s.phase v) (hfrom : (s.phase w).stage ≠ .alarmed)
    (hover : OverBudget cfg s today) : Latched t.kill.rows ∨ ∃ v, Due t v := by
  obtain hs | ⟨v, hv⟩ := h.switch hover
  · exact Or.inl (hkill ▸ hs)
  · refine Or.inr ⟨v, hv.keep hkill (hother v ?_)⟩
    rintro rfl
    apply hfrom
    obtain ⟨day, x, hv⟩ | ⟨hv, -⟩ := due_iff.mp hv <;> rw [hv] <;> rfl

omit [DecidableEq ω] [Fintype ω] [DecidableEq κ] [Fintype κ] in
/-- A worker passes the check only below the limit. -/
theorem Watched.check {today : UtcDate} (h : Watched cfg s today) (hkill : t.kill = s.kill)
    (hspend : t.spend = s.spend) (hactive : (isActive none none s.kill.rows).active = false)
    (hno : OverBudget cfg s today → ∀ v, ¬ Due s v) : Watched cfg t today := by
  have hunder : ¬ OverBudget cfg s today := by
    intro hover
    obtain hlatch | ⟨v, hv⟩ := h.switch hover
    · rw [latched_iff h.ids.rows_nodup, hactive] at hlatch
      cases hlatch
    · exact hno hover v hv
  have hover (day : UtcDate) : OverBudget cfg t day ↔ OverBudget cfg s day := by
    rw [OverBudget, OverBudget, hspend]
  refine ⟨hkill ▸ h.ids, hkill ▸ h.rows, ?_, ?_, ?_⟩
  · exact fun day hday hbad => h.later day hday ((hover day).mp hbad)
  · exact fun hbad => absurd ((hover _).mp hbad) hunder
  · exact fun hbad => absurd ((hover _).mp hbad) hunder

omit [Fintype ω] [DecidableEq κ] [Fintype κ] in
/-- A charge that reaches today's limit makes its worker's activation due; one on a day that is
past changes nothing for today. -/
theorem Watched.charge {now day : UtcDateTime} {costUsd : F} (h : Watched cfg s now.date)
    (hother : ∀ v, v ≠ w → t.phase v = s.phase v) (hread : day.stamp ≤ now.stamp)
    (hquiet : Undisturbed cfg s (now, .worker w (.charge day)))
    (hfrom : s.phase w = .publishing [] costUsd) (hkill : t.kill = s.kill)
    (hspend : t.spend = Function.update s.spend (dayKey day.date)
      (PyFloat.add (s.spend (dayKey day.date)) costUsd))
    (hto : t.phase w = if PyFloat.le cfg.limitUsd (t.spend (dayKey day.date)) then
        .breached (dayKey day.date) (t.spend (dayKey day.date)) else .idle) :
    Watched cfg t now.date := by
  have hcode : day.date.code ≤ now.date.code := UtcDateTime.date_code_le hread
  have hover (d : UtcDate) (hd : d ≠ day.date) : OverBudget cfg t d ↔ OverBudget cfg s d := by
    rw [OverBudget, OverBudget, hspend, Function.update_of_ne (dayKey_inj.not.mpr hd)]
  refine ⟨hkill ▸ h.ids, hkill ▸ h.rows, ?_, ?_, ?_⟩
  · intro d hd hbad
    refine h.later d hd ((hover d ?_).mp hbad)
    rintro rfl
    exact absurd hd hcode.not_gt
  · intro hbad
    by_cases hday : now.date = day.date
    · have hle : PyFloat.le cfg.limitUsd (t.spend (dayKey day.date)) = true := by
        rw [← hday]
        exact hbad
      exact Or.inr ⟨w, due_iff.mpr (Or.inl ⟨_, _, hto.trans (if_pos hle)⟩)⟩
    · exact h.switch_kept hkill hother (by simp [hfrom, Phase.stage]) ((hover _ hday).mp hbad)
  · intro hbad v
    by_cases hvw : v = w
    · rw [hvw, hto]
      split_ifs <;> simp [Phase.stage]
    · rw [hother v hvw]
      by_cases hday : now.date = day.date
      · refine hquiet ?_ v hvw
        rw [OverBudget, hspend, hday, Function.update_self] at hbad
        simp [reachesLimit, hfrom, hday, hbad]
      · exact h.cleared ((hover _ hday).mp hbad) v

/-- A worker's move keeps the watch. -/
theorem Watched.move {now : UtcDateTime} (h : Watched cfg s now.date)
    (hmove : Move cfg w s.toShared t.toShared (s.phase w) (t.phase w) a)
    (hother : ∀ v, v ≠ w → t.phase v = s.phase v)
    (hread : ReadBefore now (.worker w a : Label ω κ F))
    (hquiet : Undisturbed cfg s (now, .worker w a)) : Watched cfg t now.date := by
  -- A stage that only falls back keeps every other worker's too.
  have hfall (hto : (t.phase w).stage ≠ .cleared ∨ (s.phase w).stage = .cleared) (v : ω)
      (hv : (t.phase v).stage = .cleared) : (s.phase v).stage = .cleared := by
    by_cases hvw : v = w
    · subst hvw
      exact hto.resolve_left (absurd hv)
    · rwa [hother v hvw] at hv
  cases hmove with
  | quiet a hkill hspend hfrom hto hcost =>
    apply h.keep hspend (hkill ▸ h.ids) (hkill ▸ h.rows) (h.switch_kept hkill hother hfrom)
      (hfall _)
    rcases hto with hto | hto
    · rw [hto]
      exact (em _).symm
    · exact Or.inl (by simp [hto])
  | check hs hfrom hactive hto =>
    exact h.check (congrArg Shared.kill hs) (congrArg Shared.spend hs) hactive
      fun hover => hquiet hover hactive
  | start hs hfrom hto hcost =>
    have hkill : t.kill = s.kill := congrArg Shared.kill hs
    exact h.keep (congrArg Shared.spend hs) (hkill ▸ h.ids) (hkill ▸ h.rows)
      (h.switch_kept hkill hother (by simp [hfrom])) (hfall (Or.inr hfrom))
  | charge day costUsd hfrom hkill hspend hto =>
    exact h.charge hother hread hquiet hfrom hkill hspend hto
  | alarm a k hk hfrom hkill hspend hto =>
    exact h.alarm hother hquiet hk hkill hspend hto
  | giveUp hs hfrom hto =>
    have hkill : t.kill = s.kill := congrArg Shared.kill hs
    apply h.keep (congrArg Shared.spend hs) (hkill ▸ h.ids) (hkill ▸ h.rows)
    · intro hover
      obtain hs | ⟨v, hvw, hv⟩ := h.switch_of_stop hquiet hover
      · exact Or.inl (hkill ▸ hs)
      · exact Or.inr ⟨v, hv.keep hkill (hother v hvw)⟩
    · exact hfall (Or.inl (by simp [hto, Phase.stage]))

/-- Anybody else's step keeps the watch. -/
theorem Watched.outside {now : UtcDateTime} {l : Label ω κ F} (h : Watched cfg s now.date)
    (hl : ∀ w a, l ≠ .worker w a) (hquiet : Undisturbed cfg s (now, l))
    (hstep : step cfg s l = some t) : Watched cfg t now.date := by
  cases l with
  | worker w a => exact absurd rfl (hl w a)
  | enqueue raw | setAliases aliases =>
    obtain rfl := Option.some.inj hstep
    exact h.keep rfl h.ids h.rows h.switch fun _ => id
  | ingest tweet =>
    simp only [step] at hstep
    split_ifs at hstep
    obtain rfl := Option.some.inj hstep
    exact h.keep rfl h.ids h.rows h.switch fun _ => id
  | operator k =>
    obtain ⟨kill, hkill, rfl⟩ := Option.map_eq_some_iff.mp hstep
    have hne (v : ω) :
        Sum.inl v ≠ (KillSwitch.operatorLabel k : KillSwitch.Label (ω ⊕ κ)).process := by
      cases k <;> exact Sum.inl_ne_inr
    apply h.keep (t := { s with kill := kill }) rfl (KillSwitch.step_idsDistinct h.ids hkill)
    · intro v p row hc
      rw [KillSwitch.step_call_of_ne hkill (hne v)] at hc
      exact h.rows v p row hc
    · intro hover
      have hcommit : ∀ l row, KillSwitch.operatorLabel k = .commit l →
          s.kill.call l = some (.published, row) → KillSwitch.Harmless s.kill.rows row := by
        intro l row hk hcall
        cases k <;> cases hk
        exact hquiet hover _ hcall
      obtain hs | ⟨v, hv⟩ := h.switch hover
      · exact Or.inl (KillSwitch.step_latched hs hcommit hkill)
      · have hnext := hv.of_ne (t := { s with kill := kill }) rfl (hne v) hcommit hkill
        exact hnext.imp_right fun hv => ⟨v, hv⟩
    · exact fun _ => id

/-- A call starts from a worker that is cleared. -/
theorem act_start_stage {sh sh' : Shared ω κ F} {ph ph' : Phase F}
    (h : act cfg w sh ph .startAnalyze = some (sh', ph')) : ph.stage = .cleared := by
  cases ph with
  | loaded => rfl
  | scanning tweet decision todo added => cases todo <;> cases h
  | publishing newEventIds costUsd => cases newEventIds <;> cases h
  | _ => cases h

/-- No analysis is started while the spend recorded for today has reached the limit. -/
def Refuses (cfg : Config F) (s : Sys ω κ F) (l : UtcDateTime × Label ω κ F) : Prop :=
  ∀ w, l.2.startsAnalysis w = true → ¬ OverBudget cfg s l.1.date

theorem Watched.clockedStep (h : Watched cfg c.sys c.clock.date) {l : UtcDateTime × Label ω κ F}
    (hquiet : Undisturbed cfg c.sys l) (hstep : Llm.clockedStep cfg c l = some c') :
    Watched cfg c'.sys c'.clock.date ∧ Refuses cfg c.sys l := by
  obtain ⟨s, clock⟩ := c
  obtain ⟨now, l⟩ := l
  simp only [Llm.clockedStep] at hstep
  split_ifs at hstep with htime
  obtain ⟨t, ht, rfl⟩ := Option.map_eq_some_iff.mp hstep
  have hnow := h.advance htime.1
  cases l with
  | worker w a =>
    obtain ⟨-, hact, hother⟩ := step_worker ht
    refine ⟨hnow.move (act_move hact) hother htime.2 hquiet, fun v hv hover => ?_⟩
    obtain ⟨rfl, rfl⟩ := Label.startsAnalysis_iff.mp hv
    exact hnow.cleared hover _ (act_start_stage hact)
  | enqueue | ingest | setAliases | operator =>
    refine ⟨hnow.outside (fun w a hl => ?_) hquiet ht, fun v hv => ?_⟩
    · cases hl
    · cases hv

instance (cfg : Config F) (s : Sys ω κ F) (l : UtcDateTime × Label ω κ F) :
    Decidable (Refuses cfg s l) := by
  unfold Refuses
  infer_instance

/-- Once a worker has taken the spend to the limit, the switch keeps every worker from the next
call: unless one of them ends before it has activated the switch, an operator turns it off, or
a worker has passed the check before the activation is committed. -/
theorem refuses_over_budget {c₀ : Clocked ω κ F} {as : List (UtcDateTime × Label ω κ F)}
    (h₀ : Opening cfg c₀)
    (hquiet : Guarded (clockedStep cfg) (fun c => Undisturbed cfg c.sys) c₀ as)
    (hrun : exec (clockedStep cfg) c₀ as = some c) :
    Guarded (clockedStep cfg) (fun c => Refuses cfg c.sys) c₀ as :=
  guarded_of_invariant (fun c => Watched cfg c.sys c.clock.date)
    (fun _ _ _ h hq hs => h.clockedStep hq hs) h₀.watched hquiet hrun

end Refusal

section Paper

def paperClocked : Clocked (Fin 1) (Fin 1) ℚ := ⟨paperStart, paperNoon⟩

theorem paperClocked_opening : Opening paperConfig paperClocked where
  idle _ := rfl
  kill := ⟨List.nodup_nil, fun _ => rfl⟩
  spend day _ := show ¬ (decide ((10 : ℚ) ≤ 0) = true) by decide

/-- One call that takes the spend over the limit. -/
def paperBreach (w : Fin 1) : List (Label (Fin 1) (Fin 1) ℚ) :=
  paperCapture ++ throughCommit w { paperAnalysis with intent := .noise, costUsd := 12 } 1 0 ++
    afterCommit w 0 paperNoon

/-- The activation, and the check of the next run. -/
def paperActivation (w : Fin 1) : List (Label (Fin 1) (Fin 1) ℚ) :=
  [.worker w (.activate 1), .worker w .activateRedis, .worker w .activatePublish,
    .worker w .activateCommit, .worker w (.readRedis none)]

/-- The moves of an iteration up to its call. -/
def throughStart (w : Fin 1) : List (Label (Fin 1) (Fin 1) ℚ) :=
  [.enqueue "1".toUTF8, .worker w (.readRedis none), .worker w .readDb, .worker w .pop,
    .worker w .load, .worker w .startAnalyze]

/-- The worker dies between the charge and the commit of its activation; the next run finds the
switch off. -/
theorem breach_forgotten_after_crash : ¬ ∀ (cfg : Config ℚ) (c₀ c : Clocked (Fin 1) (Fin 1) ℚ)
    (as : List (UtcDateTime × Label (Fin 1) (Fin 1) ℚ)), Opening cfg c₀ →
      exec (clockedStep cfg) c₀ as = some c →
      Guarded (clockedStep cfg) (fun c => Refuses cfg c.sys) c₀ as := by
  intro h
  let as : List (UtcDateTime × Label (Fin 1) (Fin 1) ℚ) :=
    (paperBreach 0 ++ .worker 0 .stop :: throughStart 0).map fun l => (paperNoon, l)
  have hrun : (exec (clockedStep paperConfig) paperClocked as).isSome = true := by decide +kernel
  obtain ⟨c, hc⟩ := Option.isSome_iff_exists.mp hrun
  have hrefuses := h paperConfig paperClocked c as paperClocked_opening hc
  have hcalls : ¬ Guarded (clockedStep paperConfig) (fun c => Refuses paperConfig c.sys)
      paperClocked as := by decide +kernel
  exact hcalls hrefuses

/-- The breach is followed by its activation, and the next run stops at the check. -/
theorem refuses_over_budget_after_breach :
    let as := (paperBreach 0 ++ paperActivation 0).map fun l => (paperNoon, l)
    Guarded (clockedStep paperConfig) (fun c => Refuses paperConfig c.sys) paperClocked as := by
  intro as
  have hrun : (exec (clockedStep paperConfig) paperClocked as).isSome = true := by decide +kernel
  obtain ⟨c, hc⟩ := Option.isSome_iff_exists.mp hrun
  exact refuses_over_budget paperClocked_opening (by decide +kernel) hc

end Paper

end XSocialTrader.Llm
