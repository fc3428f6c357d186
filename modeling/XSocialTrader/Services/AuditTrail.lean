import XSocialTrader.Services.RulePipeline

/-! The audit rows of one iteration (INV-4). They share a transaction with the orders row, so
whatever leaves the session block before the commit takes them back, after the id has left the
queue; a rejected submission is the only exception that does not. -/
namespace XSocialTrader
open WorkerLoop

variable {F : Type} [PyFloat F]

namespace RulePipeline

variable (r : RulePipeline F)

/-- The iteration pops the id, and its event has a row. -/
structure Pops (e : Reading F) (w : World F) (eventId : String) (event : Event F) : Prop where
  no_abort : e.atKillCheck = none ∧ e.atPop = none
  kill_inactive : e.killBefore.state.active = false
  popped : w.poppedId e = some eventId
  found : e.events.find eventId = some event

/-- `RiskManager.validate` runs on this proposal. -/
structure Validates (e : Reading F) (w : World F) (p : ProposedOrder F)
    (ctx : ValidationContext F) : Prop where
  submits : r.Submits e w p ctx
  kill_inactive : e.kill.state.active = false
  permitted : r.permits p = true

/-- Once the iteration has ended, its table holds one row per rule with the engine's outcome
and, if the risk manager ran, one row per risk rule with its verdict. -/
structure Audited (e : Reading F) (w : World F) (eventId : String) (event : Event F)
    (out : RuleEngineOutcome F) (riskRows : List (RuleEvaluationRow F)) : Prop where
  evaluated : evaluate r.sha256 e.rules.rules event = .ok out
  committed : (r.iterate e w).state.ruleEvaluations =
    w.ruleEvaluations ++ evaluationRows eventId out ++ riskRows
  validated : ∀ p ctx, r.Validates e w p ctx → ∃ checks,
    runChecks p ctx r.riskRules = .ok checks ∧ riskRows = auditRows r.sha256 p checks
  unvalidated : (∀ p ctx, ¬ r.Validates e w p ctx) → riskRows = []

/-- What the database asks of the order of an accepted proposal. -/
structure Recordable (e : Reading F) (w : World F) (p : ProposedOrder F) : Prop where
  receipt : ∃ receipt, e.placeOrder (validatedOrder p) = .ok receipt
  no_abort : e.atFlush = none
  storable : Storable p
  key_unused : ∀ row ∈ w.visibleOrders e ++ e.racingOrders,
    row.idempotencyKey ≠ computeIdempotencyKey p.eventId p.strategyId

/-- The submission ends in a receipt that is recorded or in a rejection that is caught: the
switch is on, the order is live and not permitted, or no risk rule raises and, if all of them
pass, the broker answers with a receipt and the orders row can be flushed. -/
def Answered (e : Reading F) (w : World F) (p : ProposedOrder F) (ctx : ValidationContext F) :
    Prop :=
  e.kill.state.active = true ∨ r.permits p = false ∨ ∃ checks,
    runChecks p ctx r.riskRules = .ok checks ∧ (allPassed checks = true → Recordable e w p)

/-- Nothing raises between the pop and the commit but a rejection: the engine evaluates, the
rows can be written, the context of a proposal can be built, and its submission is answered. -/
structure Kept (e : Reading F) (w : World F) (eventId : String) (event : Event F) : Prop where
  no_abort : e.beforeSubmit = none ∧ e.atCommit = none
  engine : ∃ out, evaluate r.sha256 e.rules.rules event = .ok out ∧
    flushEvaluations (evaluationRows eventId out) = .ok () ∧
    ∀ p, out.matched.bind RuleEvaluationRecord.proposedOrder = some p → ∃ ctx,
      buildValidationContext e.now none (PyFloat.ofInt 0) e.account (.ok ()) (w.visibleOrders e) =
        .ok ctx ∧ r.Answered e w p ctx

variable {r} {e : Reading F} {w : World F} {eventId : String} {event : Event F}

theorem iterate_popped_abort (h : Pops e w eventId event) {a : Abort}
    (hb : e.beforeSubmit = some a) : ∃ queue, r.iterate e w =
      .exit { w with orders := w.visibleOrders e, queue := queue } (.aborted a) := by
  obtain ⟨⟨hcheck, hpop⟩, hkill, hpopped, -⟩ := h
  obtain ⟨raw, queue, hqueue, hid⟩ := World.exists_of_poppedId hpopped
  exact ⟨queue, by simp only [iterate, hcheck, hkill, hpop, hqueue, hid, hb]; rfl⟩

/-- From the pop on, the iteration is the session block. -/
theorem iterate_popped (h : Pops e w eventId event) (hb : e.beforeSubmit = none) :
    ∃ queue, r.iterate e w =
      processEvent r e { w with orders := w.visibleOrders e, queue := queue } eventId event := by
  obtain ⟨⟨hcheck, hpop⟩, hkill, hpopped, hfound⟩ := h
  obtain ⟨raw, queue, hqueue, hid⟩ := World.exists_of_poppedId hpopped
  exact ⟨queue, by simp only [iterate, hcheck, hkill, hpop, hqueue, hid, hb, hfound]; rfl⟩

variable (r) in
/-- The rows of the risk manager: none if it does not run or a rule raises. -/
def verdictRows (e : Reading F) (p : ProposedOrder F) (ctx : ValidationContext F) :
    List (RuleEvaluationRow F) :=
  if e.kill.state.active = true ∨ r.permits p = false then []
  else (runChecks p ctx r.riskRules).toOption.elim [] (auditRows r.sha256 p)

/-- An answered submission leaves its verdicts in the session. -/
theorem submit_answered {p : ProposedOrder F} {ctx : ValidationContext F}
    (h : r.Answered e w p ctx) (pending : List (RuleEvaluationRow F)) :
    let out := r.submit e.toSubmitEnv p ctx (w.visibleOrders e) ⟨pending, []⟩
    (∀ a, out.result ≠ .aborted a) ∧
      out.session.evaluations = pending ++ r.verdictRows e p ctx := by
  intro out
  simp only [out, Executor.submit, verdictRows]
  cases hactive : e.kill.state.active with
  | true => simp
  | false =>
    cases hpermits : r.permits p with
    | false => simp
    | true =>
      obtain ⟨checks, hchecks, hrecord⟩ := by simpa [Answered, hactive, hpermits] using h
      cases hpass : allPassed checks with
      | false => simp [hchecks, hpass, Except.toOption]
      | true =>
        obtain ⟨⟨receipt, hreceipt⟩, hflush, hstorable, hkey⟩ := hrecord hpass
        rcases persistOrder_cases e.toSubmitEnv p (w.visibleOrders e)
          ⟨pending ++ auditRows r.sha256 p checks, []⟩ receipt with ⟨hout, -⟩ | ⟨a, -, hnot⟩
        · simp [hchecks, hpass, hreceipt, hout, Except.toOption]
        · exact absurd ⟨hflush, hstorable, hkey⟩ hnot

/-- Any other submission leaves the session block with an exception or a stop. -/
theorem submit_unanswered {p : ProposedOrder F} {ctx : ValidationContext F}
    (h : ¬ r.Answered e w p ctx) (pending : List (RuleEvaluationRow F)) :
    ∃ a, (r.submit e.toSubmitEnv p ctx (w.visibleOrders e) ⟨pending, []⟩).result =
      .aborted a := by
  obtain ⟨hactive, hpermits, hchecks⟩ : e.kill.state.active = false ∧ r.permits p = true ∧
      ∀ checks, runChecks p ctx r.riskRules = .ok checks →
        allPassed checks = true ∧ ¬ Recordable e w p := by
    simpa [Answered] using h
  simp only [Executor.submit, hactive, hpermits]
  cases hc : runChecks p ctx r.riskRules with
  | error exc => exact ⟨.raised exc, rfl⟩
  | ok checks =>
    obtain ⟨hpass, hnot⟩ := hchecks checks hc
    cases hanswer : e.placeOrder (validatedOrder p) with
    | error exc => exact ⟨.raised exc, by simp [hpass]⟩
    | ok receipt =>
      rcases persistOrder_cases e.toSubmitEnv p (w.visibleOrders e)
        ⟨pending ++ auditRows r.sha256 p checks, []⟩ receipt with ⟨-, hok⟩ | ⟨a, hout, -⟩
      · exact absurd ⟨⟨receipt, hanswer⟩, hok.1, hok.2.1, hok.2.2⟩ hnot
      · exact ⟨a, by simp [hpass, hout]⟩

/-- A committed session block with a proposal. -/
theorem submitMatched_kept {pending : List (RuleEvaluationRow F)} {p : ProposedOrder F}
    {ctx : ValidationContext F} {t : World F} (hcommit : e.atCommit = none)
    (horders : t.orders = w.visibleOrders e) (hflush : flushEvaluations pending = .ok ())
    (hctx : buildValidationContext e.now none (PyFloat.ofInt 0) e.account (.ok ())
      (w.visibleOrders e) = .ok ctx) (h : r.Answered e w p ctx) :
    (submitMatched r e t pending p).state.ruleEvaluations =
      t.ruleEvaluations ++ pending ++ r.verdictRows e p ctx := by
  obtain ⟨hresult, hsession⟩ := submit_answered h pending
  simp only [submitMatched, horders, hflush, hctx]
  cases hout : (r.submit e.toSubmitEnv p ctx (w.visibleOrders e) ⟨pending, []⟩).result with
  | submitted receipt validatedOrder dbOrderId =>
    simp only [commitSession_none hcommit, Control.state_next, hsession, List.append_assoc]
  | rejected exc =>
    simp only [commitSession_none hcommit, Control.state_next, hsession, List.append_assoc]
  | aborted a => exact absurd hout (hresult a)

/-- One that is left before its commit. -/
theorem submitMatched_unkept {pending : List (RuleEvaluationRow F)} {p : ProposedOrder F}
    {t : World F} (horders : t.orders = w.visibleOrders e)
    (h : ¬ (e.atCommit = none ∧ flushEvaluations pending = .ok () ∧ ∃ ctx,
      buildValidationContext e.now none (PyFloat.ofInt 0) e.account (.ok ())
        (w.visibleOrders e) = .ok ctx ∧ r.Answered e w p ctx)) :
    (submitMatched r e t pending p).state.ruleEvaluations = t.ruleEvaluations := by
  unfold submitMatched
  rw [horders]
  cases hflush : flushEvaluations pending with
  | error exc =>
    cases hctx : buildValidationContext e.now none (PyFloat.ofInt 0) e.account (.error exc)
        (w.visibleOrders e) with
    | error exc' => rfl
    | ok ctx =>
      obtain ⟨_, _, _, -, hbad, -⟩ := buildValidationContext_ok hctx
      cases hbad
  | ok _ =>
    cases hctx : buildValidationContext e.now none (PyFloat.ofInt 0) e.account (.ok ())
        (w.visibleOrders e) with
    | error exc => rfl
    | ok ctx =>
      by_cases hanswered : r.Answered e w p ctx
      · have hcommit : e.atCommit ≠ none := fun hcommit =>
          h ⟨hcommit, hflush, ctx, hctx, hanswered⟩
        obtain ⟨a, ha⟩ := Option.ne_none_iff_exists'.mp hcommit
        obtain ⟨hresult, -⟩ := submit_answered hanswered pending
        cases hout : (r.submit e.toSubmitEnv p ctx (w.visibleOrders e) ⟨pending, []⟩).result with
        | submitted receipt validatedOrder dbOrderId =>
          simp only [hout, commitSession_some ha, Control.state_exit]
        | rejected exc => simp only [hout, commitSession_some ha, Control.state_exit]
        | aborted a => exact absurd hout (hresult a)
      · obtain ⟨a, hout⟩ := submit_unanswered hanswered pending
        simp only [hout, Control.state_exit]

/-- What the table holds after an iteration that meets the condition. -/
theorem iterate_kept (h : Pops e w eventId event) (hkept : r.Kept e w eventId event) :
    ∃ out riskRows, r.Audited e w eventId event out riskRows := by
  obtain ⟨⟨hbefore, hcommit⟩, out, heval, hflush, hanswered⟩ := hkept
  obtain ⟨queue, hiterate⟩ := iterate_popped (r := r) h hbefore
  have hsub := fun p ctx =>
    submits_iff ⟨h.no_abort.1, h.no_abort.2, hbefore⟩ h.kill_inactive h.popped h.found heval p ctx
  cases hmatched : out.matched.bind RuleEvaluationRecord.proposedOrder with
  | none =>
    refine ⟨out, [], heval, ?_, fun p ctx hv => ?_, fun _ => rfl⟩
    · rw [hiterate]
      simp only [processEvent, heval, hmatched, hflush, commitSession_none hcommit,
        Control.state_next, List.append_nil]
    · exact absurd ((hsub p ctx).mp hv.submits).1 (by simp [hmatched])
  | some p =>
    obtain ⟨ctx, hctx, hans⟩ := hanswered p hmatched
    refine ⟨out, r.verdictRows e p ctx, heval, ?_, fun q ctx' hv => ?_, fun hnot => ?_⟩
    · rw [hiterate]
      simp only [processEvent, heval, hmatched]
      exact submitMatched_kept hcommit rfl hflush hctx hans
    · obtain ⟨hq, hctx'⟩ := (hsub q ctx').mp hv.submits
      rw [hmatched] at hq
      obtain rfl := Option.some.inj hq
      rw [hflush, hctx] at hctx'
      obtain rfl := Except.ok.inj hctx'
      obtain ⟨checks, hchecks, -⟩ :
          ∃ checks, runChecks p ctx r.riskRules = .ok checks ∧ _ := by
        simpa [Answered, hv.kill_inactive, hv.permitted] using hans
      exact ⟨checks, hchecks, by
        simp [verdictRows, hv.kill_inactive, hv.permitted, hchecks, Except.toOption]⟩
    · have hsubmits : r.Submits e w p ctx := (hsub p ctx).mpr ⟨hmatched, by rw [hflush, hctx]⟩
      unfold verdictRows
      rw [if_pos]
      by_contra hgates
      rw [not_or, Bool.not_eq_true, Bool.not_eq_false] at hgates
      exact hnot p ctx ⟨hsubmits, hgates.1, hgates.2⟩

/-- Any other iteration leaves the table as it was. -/
theorem iterate_unkept (h : Pops e w eventId event) (hkept : ¬ r.Kept e w eventId event) :
    (r.iterate e w).state.ruleEvaluations = w.ruleEvaluations := by
  cases hbefore : e.beforeSubmit with
  | some a =>
    obtain ⟨queue, hiterate⟩ := iterate_popped_abort (r := r) h hbefore
    rw [hiterate]
    rfl
  | none =>
    obtain ⟨queue, hiterate⟩ := iterate_popped (r := r) h hbefore
    rw [hiterate, processEvent]
    cases heval : evaluate r.sha256 e.rules.rules event with
    | error exc => rfl
    | ok out =>
      cases hmatched : out.matched.bind RuleEvaluationRecord.proposedOrder with
      | none =>
        cases hflush : flushEvaluations (evaluationRows eventId out) with
        | error exc => simp only [hmatched, hflush, Control.state_exit]
        | ok _ =>
          have hcommit : e.atCommit ≠ none := fun hcommit => hkept
            ⟨⟨hbefore, hcommit⟩, out, heval, hflush, fun p hp => by simp [hmatched] at hp⟩
          obtain ⟨a, ha⟩ := Option.ne_none_iff_exists'.mp hcommit
          simp only [hmatched, hflush, commitSession_some ha, Control.state_exit]
      | some p =>
        simp only [hmatched]
        refine submitMatched_unkept (w := w) rfl fun hall => hkept ?_
        obtain ⟨hcommit, hflush, ctx, hctx, hanswered⟩ := hall
        refine ⟨⟨hbefore, hcommit⟩, out, heval, hflush, fun q hq => ?_⟩
        rw [hmatched] at hq
        obtain rfl := Option.some.inj hq
        exact ⟨ctx, hctx, hanswered⟩

/-- A consumed event has its audit trail exactly if there was nothing to evaluate or nothing but
a rejection has raised up to the commit. -/
theorem audited_iff (h : Pops e w eventId event) :
    (∃ out riskRows, r.Audited e w eventId event out riskRows) ↔
      e.rules.rules = [] ∨ r.Kept e w eventId event := by
  by_cases hkept : r.Kept e w eventId event
  · exact ⟨fun _ => Or.inr hkept, fun _ => iterate_kept h hkept⟩
  · have hsame := iterate_unkept h hkept
    constructor
    · rintro ⟨out, riskRows, heval, hcommitted, -, -⟩
      rw [hsame, List.append_assoc, List.self_eq_append_right, List.append_eq_nil_iff] at hcommitted
      have hnone : out.evaluations = [] := List.map_eq_nil_iff.mp hcommitted.1
      have hids := evaluateRules_ruleIds heval
      rw [e.rules.insertionSort_eq, hnone] at hids
      exact Or.inl (List.map_eq_nil_iff.mp hids.symm)
    · intro hrules
      have hempty := hrules.resolve_right hkept
      have heval : evaluate r.sha256 e.rules.rules event = .ok ⟨none, []⟩ := by
        rw [hempty]
        rfl
      refine ⟨⟨none, []⟩, [], heval, ?_, fun p ctx hv => ?_, fun _ => rfl⟩
      · rw [hsame]
        simp [evaluationRows]
      · obtain ⟨_, _, out, hpop, hfind, heval', hp, -⟩ := hv.submits.proposes
        obtain rfl := Option.some.inj (h.popped.symm.trans hpop)
        obtain rfl := Option.some.inj (h.found.symm.trans hfind)
        rw [heval] at heval'
        obtain rfl := Except.ok.inj heval'
        cases hp

section Paper

def paperEvent : Event ℚ := ⟨"t1:AAPL", 1, 1, "AAPL", "bullish", 9 / 10, "swing"⟩

def paperIteration : Reading ℚ := paperReading "t1:AAPL" (paperRules .market none) paperNoon

def paperOutage : Reading ℚ := { paperIteration with account := ⟨.error .brokerError, .ok []⟩ }

theorem paperIteration_pops : Pops paperIteration (World.start [] [] []) "t1:AAPL" paperEvent where
  no_abort := ⟨rfl, rfl⟩
  kill_inactive := by decide
  popped := by decide +kernel
  found := by decide +kernel

/-- `get_account_summary` raises after the engine has evaluated the event: its rows are rolled
back, and the id has left the queue. -/
theorem broker_outage_unaudited : ¬ ∀ (r : RulePipeline ℚ) (e : Reading ℚ) (w : World ℚ)
    (eventId : String) (event : Event ℚ), Pops e w eventId event → e.beforeSubmit = none →
      e.atFlush = none → e.atCommit = none →
      ∃ out riskRows, r.Audited e w eventId event out riskRows := by
  intro h
  obtain ⟨out, riskRows, heval, hcommitted, -⟩ := h (paperPipeline 5) paperOutage
    (World.start [] [] []) "t1:AAPL" paperEvent
    ⟨⟨rfl, rfl⟩, by decide, by decide +kernel, by decide +kernel⟩ rfl rfl rfl
  have hnone : ((paperPipeline 5).iterate paperOutage
      (World.start [] [] [])).state.ruleEvaluations.length = 0 := by decide +kernel
  have hids := congrArg List.length (evaluateRules_ruleIds heval)
  rw [hcommitted] at hnone
  simp only [List.length_append, evaluationRows, List.length_map] at hnone hids
  have hone : (paperOutage.rules.rules.insertionSort ruleLe).length = 1 := by decide +kernel
  omega

/-- An iteration in which nothing raises. -/
theorem audited_iff_paper :
    (∃ out riskRows, (paperPipeline 5).Audited paperIteration (World.start [] [] []) "t1:AAPL"
      paperEvent out riskRows) ↔ paperIteration.rules.rules = [] ∨
        (paperPipeline 5).Kept paperIteration (World.start [] [] []) "t1:AAPL" paperEvent :=
  audited_iff paperIteration_pops

end Paper

end RulePipeline

end XSocialTrader
