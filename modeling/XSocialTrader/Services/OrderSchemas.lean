import XSocialTrader.Services.RulePipeline

/-! One order in four schemas: the rule's action, the proposal, the broker's order and the row.
The bounds that they share carry over by themselves; how `limit_price` goes with `order_type`
and with `reference_price_usd` is left to the author of the rule. -/
namespace XSocialTrader

section Agreement

variable {F : Type} [PyFloat F]

/-- `ProposedOrder(...)`: `quantity` and `reference_price_usd` are checked with `gt=0`. -/
def proposedOrderOf (eventId strategyId : String) (tradingMode : TradingMode) (side : OrderSide)
    (orderType : OrderType) (symbol : String) (quantity : ℤ) (limitPrice : Option F)
    (referencePriceUsd : F) : Except PyExc (ProposedOrder F) :=
  if hq : 0 < quantity then
    if hr : PyFloat.le referencePriceUsd (PyFloat.ofInt 0) = false then
      .ok ⟨eventId, strategyId, tradingMode, side, orderType, symbol, quantity, limitPrice,
        referencePriceUsd, hq, hr⟩
    else .error .validationError
  else .error .validationError

/-- `ValidatedOrder(...)`. -/
def validatedOrderOf (idempotencyKey eventId strategyId : String) (tradingMode : TradingMode)
    (side : OrderSide) (orderType : OrderType) (symbol : String) (quantity : ℤ)
    (limitPrice : Option F) : Except PyExc (ValidatedOrder F) :=
  if hq : 0 < quantity then
    .ok ⟨idempotencyKey, eventId, strategyId, tradingMode, side, orderType, symbol, quantity,
      limitPrice, hq⟩
  else .error .validationError

/-- What the rule's schema has checked, the proposal's schema accepts. -/
theorem proposedOrderOf_rule (rule : RuleSpec F) (event : Event F) :
    proposedOrderOf event.eventId rule.action.strategyId rule.action.tradingMode rule.action.side
      rule.action.orderType event.ticker rule.action.quantity rule.action.limitPrice
      rule.action.referencePriceUsd = .ok (buildProposedOrder rule event) := by
  rw [proposedOrderOf, dif_pos rule.action.quantity_pos, dif_pos rule.action.reference_pos]
  rfl

/-- What the proposal's schema has checked, the broker's schema accepts. -/
theorem validatedOrderOf_proposal (p : ProposedOrder F) :
    validatedOrderOf (computeIdempotencyKey p.eventId p.strategyId) p.eventId p.strategyId
      p.tradingMode p.side p.orderType p.symbol p.quantity p.limitPrice =
        .ok (validatedOrder p) := by
  rw [validatedOrderOf, dif_pos p.quantity_pos]
  rfl

/-- Every later stage accepts the order that a rule makes of an event: neither constructor
raises, and the row meets each CHECK and fits the columns. -/
structure SchemasAgree (rule : RuleSpec F) (event : Event F) : Prop where
  proposed : proposedOrderOf event.eventId rule.action.strategyId rule.action.tradingMode
    rule.action.side rule.action.orderType event.ticker rule.action.quantity
    rule.action.limitPrice rule.action.referencePriceUsd = .ok (buildProposedOrder rule event)
  validated : validatedOrderOf (computeIdempotencyKey event.eventId rule.action.strategyId)
    event.eventId rule.action.strategyId rule.action.tradingMode rule.action.side
    rule.action.orderType event.ticker rule.action.quantity rule.action.limitPrice =
      .ok (validatedOrder (buildProposedOrder rule event))
  checks : ∀ (rows : List (OrderRow F)) (receipt : OrderReceipt) (createdAt : UtcDateTime),
    ∀ c ∈ (orderRow rows (buildProposedOrder rule event) receipt createdAt).checks, c.2 = true
  bindable : ∀ (rows : List (OrderRow F)) (receipt : OrderReceipt) (createdAt : UtcDateTime),
    (orderRow rows (buildProposedOrder rule event) receipt createdAt).bindable = true

/-- Only the CHECK on the limit price can fail. -/
theorem orderRow_checks_iff (rows : List (OrderRow F)) (p : ProposedOrder F)
    (receipt : OrderReceipt) (createdAt : UtcDateTime) :
    (∀ c ∈ (orderRow rows p receipt createdAt).checks, c.2 = true) ↔
      (p.orderType = .limit ↔ (p.limitPrice.bind bindFloat).isSome = true) := by
  have hq := p.quantity_pos
  cases hl : p.limitPrice.bind bindFloat <;> cases ho : p.orderType <;>
    cases hm : p.tradingMode <;> cases hs : p.side <;>
    simp [OrderRow.checks, orderRow, hl, ho, hm, hs, hq,
      OrderType.value, TradingMode.value, OrderSide.value]

theorem bindFloat_isSome_iff (price : Option F) :
    (price.bind bindFloat).isSome = true ↔ ∃ x, price = some x ∧ PyFloat.eq x x = true := by
  cases price with
  | none => simp
  | some x => cases h : PyFloat.eq x x <;> simp [bindFloat, h]

/-- The schemas agree exactly on rules whose quantity has 64 bits and whose limit price is given,
as a number, for limit orders and for no others. -/
theorem schemas_agree_iff (rule : RuleSpec F) (event : Event F) :
    SchemasAgree rule event ↔ rule.action.quantity < 2 ^ 63 ∧
      (rule.action.orderType = .limit ↔
        ∃ x, rule.action.limitPrice = some x ∧ PyFloat.eq x x = true) := by
  rw [← bindFloat_isSome_iff]
  constructor
  · intro h
    let receipt : OrderReceipt := ⟨"", ""⟩
    exact ⟨of_decide_eq_true (h.bindable [] receipt paperNoon),
      (orderRow_checks_iff [] _ receipt paperNoon).mp (h.checks [] receipt paperNoon)⟩
  · rintro ⟨hquantity, hprice⟩
    refine ⟨proposedOrderOf_rule rule event, ?_, fun rows receipt createdAt => ?_,
      fun rows receipt createdAt => decide_eq_true hquantity⟩
    · exact validatedOrderOf_proposal (buildProposedOrder rule event)
    · exact (orderRow_checks_iff rows _ receipt createdAt).mpr hprice

end Agreement

/-- A market rule may carry a limit price; the row that comes of it fails its CHECK. -/
theorem schemas_disagree : ¬ ∀ (rule : RuleSpec ℚ) (event : Event ℚ), SchemasAgree rule event := by
  intro h
  let event : Event ℚ := ⟨"t1:AAPL", 1, 1, "AAPL", "bullish", 9 / 10, "swing"⟩
  have hcheck := (h (paperRule .market (some 14)) event).checks [] ⟨"k", "x"⟩ paperNoon
    ("ck_orders_limit_price_required_for_limit", false)
  exact absurd (hcheck (by decide +kernel)) (by decide)

section LimitPrice

/-- Whatever `submit` sends to the broker for a limit order of the rule, both caps hold of its
limit price. -/
def LimitPriceCapped (rule : RuleSpec ℚ) : Prop :=
  ∀ (x : Executor ℚ) (env : SubmitEnv ℚ) (event : Event ℚ) (ctx : ValidationContext ℚ)
    (committed : List (OrderRow ℚ)) (session : Session ℚ), 0 < ctx.accountCapitalUsd →
    ∀ call ∈ (x.submit env (buildProposedOrder rule event) ctx committed session).calls,
      call.order.orderType = .limit → ∃ price, call.order.limitPrice = some price ∧
        call.order.quantity * price ≤ x.settings.maxPositionPct / 100 * ctx.accountCapitalUsd ∧
        ctx.totalExposureUsd + call.order.quantity * price ≤
          x.settings.maxTotalExposurePct / 100 * ctx.accountCapitalUsd

variable {x : Executor ℚ} {env : SubmitEnv ℚ} {p : ProposedOrder ℚ} {ctx : ValidationContext ℚ}

/-- An order that passes the gates is within both caps at its reference price. -/
theorem Executor.Passes.within_caps {kill : Stores} (h : x.Passes kill p ctx) :
    p.quantity * p.referencePriceUsd ≤ x.settings.maxPositionPct / 100 * ctx.accountCapitalUsd ∧
      ctx.totalExposureUsd + p.quantity * p.referencePriceUsd ≤
        x.settings.maxTotalExposurePct / 100 * ctx.accountCapitalUsd := by
  obtain ⟨n, hn, hposition⟩ := positionSizeRule_holds_iff.mp
    (h.rules_hold (positionSizeRule x.settings.maxPositionPct)
      (by simp [Executor.riskRules, buildRiskManager]))
  obtain ⟨n', hn', hexposure⟩ := totalExposureRule_holds_iff.mp
    (h.rules_hold (totalExposureRule x.settings.maxTotalExposurePct)
      (by simp [Executor.riskRules, buildRiskManager]))
  simp only [orderNotionalUsd, floatOfInt_rat, Except.ok.injEq, mul_rat] at hn hn'
  rw [← hn] at hposition
  rw [← hn'] at hexposure
  simp only [limitUsd, mul_rat, div_rat, add_rat, lt_rat, ofInt_rat, decide_eq_false_iff_not,
    not_lt, Int.cast_ofNat] at hposition hexposure
  exact ⟨hposition, hexposure⟩

/-- The calls of `submit` are for the proposal, and there are none unless the gates let it
through. -/
theorem Executor.submit_calls {committed : List (OrderRow ℚ)} {session : Session ℚ}
    {call : BrokerCall ℚ} (h : call ∈ (x.submit env p ctx committed session).calls) :
    call.proposed = p ∧ x.Passes env.kill p ctx := by
  rcases x.submit_cases env p ctx committed session with
    ⟨-, hcalls, -⟩ | ⟨hpass, s, -, hcalls, -⟩
  · rw [hcalls] at h
    exact absurd h List.not_mem_nil
  · rw [hcalls, List.mem_singleton] at h
    exact ⟨congrArg BrokerCall.proposed h, hpass⟩

/-- Settings that let an order of any mode through while the market is open. -/
def openExecutor : Executor ℚ where
  settings := { tradingMode := "live", paperTrading := false }
  calendar := fun _ => .ok true
  sha256 := fun _ => "0"

/-- An account that the notional of an order exhausts to the cent under the default cap. -/
def exhaustedContext (p : ProposedOrder ℚ) : ValidationContext ℚ where
  now := paperNoon
  accountCapitalUsd := 50 * (p.quantity * p.referencePriceUsd)
  totalExposureUsd := 0
  tradesToday := 0
  dailyPnlUsd := 0
  dailyPeakUsd := 50 * (p.quantity * p.referencePriceUsd)
  seenEventIds := []
  seenIdempotencyKeys := []

theorem notional_pos (p : ProposedOrder ℚ) : 0 < (p.quantity : ℚ) * p.referencePriceUsd := by
  have href := p.reference_pos
  rw [le_rat, decide_eq_false_iff_not, not_le] at href
  exact mul_pos (Int.cast_pos.mpr p.quantity_pos) (by simpa using href)

theorem openExecutor_passes (p : ProposedOrder ℚ) :
    openExecutor.Passes inactiveStores p (exhaustedContext p) := by
  have hpos := notional_pos p
  have hn : orderNotionalUsd p = .ok ((p.quantity : ℚ) * p.referencePriceUsd) := rfl
  refine ⟨by decide +kernel, ?_, ?_⟩
  · simp [Executor.permits, openExecutor, Settings.isLiveTrading]
  · simp only [Executor.riskRules, buildRiskManager, List.forall_mem_cons]
    refine ⟨?_, ?_, ?_, ?_, ?_, ?_, by simp⟩
    · refine positionSizeRule_holds_iff.mpr ⟨_, hn, ?_⟩
      simp only [limitUsd, openExecutor, exhaustedContext, lt_rat, mul_rat, div_rat, ofInt_rat,
        decide_eq_false_iff_not, not_lt]
      apply le_of_eq
      norm_num
      ring
    · refine totalExposureRule_holds_iff.mpr ⟨_, hn, ?_⟩
      simp only [limitUsd, openExecutor, exhaustedContext, lt_rat, mul_rat, div_rat, add_rat,
        ofInt_rat, decide_eq_false_iff_not, not_lt]
      norm_num
      linarith
    · refine maxTradesPerDayRule_holds_iff.mpr ?_
      show (0 : ℤ) < 10
      decide
    · have hpeak : (0 : ℚ) < 50 * (p.quantity * p.referencePriceUsd) := by linarith
      refine dailyDrawdownRule_holds_iff.mpr ?_
      simp only [exhaustedContext, openExecutor]
      rw [drawdownPct_rat hpeak]
      norm_num
    · exact ⟨_, rfl, rfl⟩
    · exact idempotencyRule_holds_iff.mpr (by simp [exhaustedContext])

/-- A broker that answers nothing but errors, with the kill switch inactive. -/
def refusingEnv : SubmitEnv ℚ := ⟨inactiveStores, fun _ => .error .brokerError, [], paperNoon, none⟩

theorem openExecutor_calls (p : ProposedOrder ℚ) :
    (openExecutor.submit refusingEnv p (exhaustedContext p) [] ⟨[], []⟩).calls =
      [⟨p, .error .brokerError⟩] := by
  rcases openExecutor.submit_cases refusingEnv p (exhaustedContext p) [] ⟨[], []⟩ with
    ⟨hnot, -⟩ | ⟨-, s, -, hcalls, -⟩
  · exact absurd (openExecutor_passes p) hnot
  · exact hcalls

/-- A rule that is capped names a limit price, and not one above its reference price. -/
theorem LimitPriceCapped.limit_le {rule : RuleSpec ℚ} (h : LimitPriceCapped rule)
    (hlimit : rule.action.orderType = .limit) : ∃ price, rule.action.limitPrice = some price ∧
      price ≤ rule.action.referencePriceUsd := by
  let event : Event ℚ := ⟨"t1:AAPL", 1, 1, "AAPL", "bullish", 9 / 10, "swing"⟩
  let p := buildProposedOrder rule event
  have hpos := notional_pos p
  have hcapital : 0 < (exhaustedContext p).accountCapitalUsd := by
    show 0 < 50 * ((p.quantity : ℚ) * p.referencePriceUsd)
    linarith
  have hcall : (⟨p, .error .brokerError⟩ : BrokerCall ℚ) ∈
      (openExecutor.submit refusingEnv p (exhaustedContext p) [] ⟨[], []⟩).calls := by
    rw [openExecutor_calls]
    exact List.mem_cons_self
  obtain ⟨price, hprice, hcap, -⟩ :=
    h openExecutor refusingEnv event (exhaustedContext p) [] ⟨[], []⟩ hcapital _ hcall hlimit
  refine ⟨price, hprice, ?_⟩
  have hcap : (p.quantity : ℚ) * price ≤
      2 / 100 * (50 * ((p.quantity : ℚ) * p.referencePriceUsd)) := hcap
  have hle : (p.quantity : ℚ) * price ≤ p.quantity * p.referencePriceUsd := by linarith
  exact le_of_mul_le_mul_left hle (Int.cast_pos.mpr p.quantity_pos)

/-- The caps bind the price that the broker gets exactly for rules whose limit price, where one
is required, is given and not above the reference price. -/
theorem limit_price_capped_iff (rule : RuleSpec ℚ) :
    LimitPriceCapped rule ↔ (rule.action.orderType = .limit → ∃ price,
      rule.action.limitPrice = some price ∧ price ≤ rule.action.referencePriceUsd) := by
  constructor
  · exact fun h hlimit => h.limit_le hlimit
  · intro h x env event ctx committed session _ call hcall hlimit
    obtain ⟨hp, hpass⟩ := Executor.submit_calls hcall
    rw [BrokerCall.order, hp] at hlimit ⊢
    obtain ⟨price, hprice, hle⟩ := h hlimit
    obtain ⟨hposition, hexposure⟩ := hpass.within_caps
    have hq : (0 : ℚ) ≤ rule.action.quantity := Int.cast_nonneg rule.action.quantity_pos.le
    have hmul := mul_le_mul_of_nonneg_left hle hq
    refine ⟨price, hprice, hmul.trans hposition, ?_⟩
    exact (add_le_add_right hmul _).trans hexposure

/-- A limit of 1000 USD beside a reference price of 15 USD. -/
theorem limit_price_uncapped : ¬ ∀ rule : RuleSpec ℚ, LimitPriceCapped rule := by
  intro h
  obtain ⟨price, hprice, hle⟩ := (h (paperRule .limit (some 1000))).limit_le rfl
  obtain rfl := Option.some.inj hprice
  exact absurd hle (by decide +kernel)

end LimitPrice

end XSocialTrader
