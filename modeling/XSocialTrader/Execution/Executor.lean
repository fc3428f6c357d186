import XSocialTrader.Execution.Context
import XSocialTrader.KillSwitch.Service
import XSocialTrader.Risk.Manager

/-! `OrderExecutor.submit`: kill switch, live gate, risk rules, broker, orders row. The
session is the caller's; nothing here commits. -/
namespace XSocialTrader

/-- How a worker leaves its code before the end: an exception passes through, or the process
stops. Either way the open session is rolled back. -/
inductive Abort where
  | raised (e : PyExc)
  | stopped
  deriving DecidableEq, Repr

/-- A call of `place_order` with its answer. The proposal is kept beside the order made
from it because the broker is not told the reference price. -/
structure BrokerCall (F : Type) [PyFloat F] where
  proposed : ProposedOrder F
  answer : Except PyExc OrderReceipt

/-- Rows a session has flushed and not committed. -/
structure Session (F : Type) [PyFloat F] where
  evaluations : List (RuleEvaluationRow F)
  orders : List (OrderRow F)

/-- `SubmissionRejected` and its two subclasses. -/
inductive SubmissionRejected (F : Type) where
  | killSwitchActive (source : KillSwitchSource)
  | liveModeNotPermitted
  | riskRejected (validation : List (RuleCheckResult F))

inductive SubmitResult (F : Type) where
  | submitted (receipt : OrderReceipt) (validatedOrder : ValidatedOrder F) (dbOrderId : ℕ)
  | rejected (exc : SubmissionRejected F)
  | aborted (a : Abort)

structure Executor (F : Type) [PyFloat F] where
  settings : Settings F
  calendar : MarketCalendar
  sha256 : PyValue F → String

/-- What one `submit` meets outside its process. `racingOrders` are rows that other sessions
commit after this one has read the seen ids. -/
structure SubmitEnv (F : Type) where
  kill : Stores
  placeOrder : ValidatedOrder F → Except PyExc OrderReceipt
  racingOrders : List (OrderRow F)
  createdAt : UtcDateTime
  atFlush : Option Abort

structure Submission (F : Type) [PyFloat F] where
  session : Session F
  calls : List (BrokerCall F)
  result : SubmitResult F

variable {F : Type} [PyFloat F]

/-- `str(exc)`. -/
def SubmissionRejected.message : SubmissionRejected F → String
  | .killSwitchActive source => "kill switch active (source=" ++ source.text ++ ")"
  | .liveModeNotPermitted =>
    "INV-1: live order requires TRADING_MODE=live AND PAPER_TRADING=False"
  | .riskRejected validation => "risk manager rejected: " ++ failureReasons validation

def BrokerCall.order (c : BrokerCall F) : ValidatedOrder F := validatedOrder c.proposed

def Executor.riskRules (x : Executor F) : List (RiskRule F) :=
  buildRiskManager x.settings x.calendar

/-- The rules of `build_risk_manager` include the idempotency rule. -/
theorem Executor.idempotencyRule_mem (x : Executor F) : idempotencyRule ∈ x.riskRules := by
  simp [Executor.riskRules, buildRiskManager]

/-- INV-1: the order is not live, or the settings opt in twice. -/
def Executor.permits (x : Executor F) (p : ProposedOrder F) : Bool :=
  !(p.tradingMode == .live && !x.settings.isLiveTrading)

/-- The part of `submit` after the broker has answered. -/
def persistOrder (env : SubmitEnv F) (p : ProposedOrder F) (committed : List (OrderRow F))
    (session : Session F) (receipt : OrderReceipt) : Session F × SubmitResult F :=
  let seen := committed ++ env.racingOrders
  let row := orderRow seen p receipt env.createdAt
  match env.atFlush with
  | some a => (session, .aborted a)
  | none => match insertOrder seen row with
    | .error e => (session, .aborted (.raised e))
    | .ok _ => ({ session with orders := session.orders ++ [row] },
        .submitted receipt (validatedOrder p) row.id)

/-- `submit`. -/
def Executor.submit (x : Executor F) (env : SubmitEnv F) (p : ProposedOrder F)
    (ctx : ValidationContext F) (committed : List (OrderRow F)) (session : Session F) :
    Submission F :=
  let state := env.kill.state
  if state.active then ⟨session, [], .rejected (.killSwitchActive state.source)⟩
  else if x.permits p = false then ⟨session, [], .rejected .liveModeNotPermitted⟩
  else match runChecks p ctx x.riskRules with
    | .error e => ⟨session, [], .aborted (.raised e)⟩
    | .ok checks =>
      let session := { session with
        evaluations := session.evaluations ++ auditRows x.sha256 p checks }
      if allPassed checks then
        let answer := env.placeOrder (validatedOrder p)
        match answer with
        | .error e => ⟨session, [⟨p, answer⟩], .aborted (.raised e)⟩
        | .ok receipt =>
          let out := persistOrder env p committed session receipt
          ⟨out.1, [⟨p, answer⟩], out.2⟩
      else ⟨session, [], .rejected (.riskRejected checks)⟩

/-- Everything `submit` asks before it calls the broker. -/
structure Executor.Passes (x : Executor F) (kill : Stores) (p : ProposedOrder F)
    (ctx : ValidationContext F) : Prop where
  kill_inactive : kill.state.active = false
  permitted : x.permits p = true
  rules_hold : ∀ rule ∈ x.riskRules, rule.Holds p ctx

/-- What `submit` does: it stops at a gate without a call, or all gates pass, there is one
call, and the row is added exactly if the answer is a receipt and the flush accepts it. -/
theorem Executor.submit_cases (x : Executor F) (env : SubmitEnv F) (p : ProposedOrder F)
    (ctx : ValidationContext F) (committed : List (OrderRow F)) (session : Session F) :
    let out := x.submit env p ctx committed session
    (¬ x.Passes env.kill p ctx ∧ out.calls = [] ∧ out.session.orders = session.orders ∧
      ((∃ exc, out.result = .rejected exc) ∨ ∃ a, out.result = .aborted a)) ∨
    (x.Passes env.kill p ctx ∧ ∃ s, s.orders = session.orders ∧
      out.calls = [⟨p, env.placeOrder (validatedOrder p)⟩] ∧
      ((∃ e, env.placeOrder (validatedOrder p) = .error e ∧ out.session = s ∧
          out.result = .aborted (.raised e)) ∨
        ∃ receipt, env.placeOrder (validatedOrder p) = .ok receipt ∧
          (out.session, out.result) = persistOrder env p committed s receipt)) := by
  intro out
  simp only [out, Executor.submit]
  cases hk : env.kill.state.active with
  | true =>
    exact Or.inl ⟨fun h => by simp [h.kill_inactive] at hk, rfl, rfl, Or.inl ⟨_, rfl⟩⟩
  | false =>
    cases hp : x.permits p with
    | false => exact Or.inl ⟨fun h => by simp [h.permitted] at hp, rfl, rfl, Or.inl ⟨_, rfl⟩⟩
    | true =>
      have haccept := runChecks_accepts_iff p ctx x.riskRules
      cases hc : runChecks p ctx x.riskRules with
      | error e =>
        refine Or.inl ⟨fun h => ?_, rfl, rfl, Or.inr ⟨_, rfl⟩⟩
        obtain ⟨checks, hok, -⟩ := haccept.mpr h.rules_hold
        simp [hc] at hok
      | ok checks =>
        cases ha : allPassed checks with
        | false =>
          refine Or.inl ⟨fun h => ?_, ?_⟩
          · obtain ⟨checks', hok, hpass⟩ := haccept.mpr h.rules_hold
            obtain rfl := Except.ok.inj (hc.symm.trans hok)
            simp [ha] at hpass
          · simp [ha]
        | true =>
          refine Or.inr ⟨⟨hk, hp, haccept.mp ⟨checks, hc, ha⟩⟩, { session with
            evaluations := session.evaluations ++ auditRows x.sha256 p checks }, rfl, ?_⟩
          cases hb : env.placeOrder (validatedOrder p) <;> simp [ha]

/-- What follows a receipt: the row joins the session exactly when nothing strikes at the
flush and the table accepts it. -/
theorem persistOrder_cases (env : SubmitEnv F) (p : ProposedOrder F)
    (committed : List (OrderRow F)) (session : Session F) (receipt : OrderReceipt) :
    (persistOrder env p committed session receipt =
        ({ session with orders := session.orders ++
            [orderRow (committed ++ env.racingOrders) p receipt env.createdAt] },
          .submitted receipt (validatedOrder p) (nextOrderId (committed ++ env.racingOrders))) ∧
      env.atFlush = none ∧ Storable p ∧
      ∀ r ∈ committed ++ env.racingOrders,
        r.idempotencyKey ≠ computeIdempotencyKey p.eventId p.strategyId) ∨
    (∃ a, persistOrder env p committed session receipt = (session, .aborted a) ∧
      ¬ (env.atFlush = none ∧ Storable p ∧ ∀ r ∈ committed ++ env.racingOrders,
        r.idempotencyKey ≠ computeIdempotencyKey p.eventId p.strategyId)) := by
  unfold persistOrder
  have hok := insertOrder_ok_iff (committed ++ env.racingOrders) (committed ++ env.racingOrders)
    p receipt env.createdAt
  cases hf : env.atFlush with
  | some a => exact Or.inr ⟨a, rfl, by simp⟩
  | none =>
    cases hi : insertOrder (committed ++ env.racingOrders)
        (orderRow (committed ++ env.racingOrders) p receipt env.createdAt) with
    | error e =>
      refine Or.inr ⟨.raised e, by simp [hi], ?_⟩
      rintro ⟨-, hs, hk⟩
      have := (hok _).mpr ⟨hs, hk, rfl⟩
      simp [hi] at this
    | ok rows =>
      obtain ⟨hs, hk, -⟩ := (hok rows).mp hi
      exact Or.inl ⟨by simp only [hi]; rfl, rfl, hs, hk⟩

theorem persistOrder_evaluations (env : SubmitEnv F) (p : ProposedOrder F)
    (committed : List (OrderRow F)) (session : Session F) (receipt : OrderReceipt) :
    (persistOrder env p committed session receipt).1.evaluations = session.evaluations := by
  rcases persistOrder_cases env p committed session receipt with ⟨h, -⟩ | ⟨a, h, -⟩ <;> rw [h]

/-- `submit` adds the audit rows of its checks to the session, or leaves the rows alone. -/
theorem Executor.submit_evaluations (x : Executor F) (env : SubmitEnv F) (p : ProposedOrder F)
    (ctx : ValidationContext F) (committed : List (OrderRow F)) (session : Session F) :
    let out := x.submit env p ctx committed session
    out.session.evaluations = session.evaluations ∨
      ∃ checks, runChecks p ctx x.riskRules = .ok checks ∧
        out.session.evaluations = session.evaluations ++ auditRows x.sha256 p checks := by
  intro out
  simp only [out, Executor.submit]
  split_ifs
  · exact Or.inl rfl
  · exact Or.inl rfl
  · split
    · exact Or.inl rfl
    next checks hc =>
      refine Or.inr ⟨checks, hc, ?_⟩
      split_ifs
      · split
        · rfl
        · exact persistOrder_evaluations _ _ _ _ _
      · rfl

end XSocialTrader
