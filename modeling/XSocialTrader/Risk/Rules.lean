import XSocialTrader.Models.Tables

/-! The six risk rules. Each is a pure check of one order against one context; a rule
raises only where an `int` does not fit a `float` or the calendar raises. -/
namespace XSocialTrader

/-- Environment settings that the modelled code reads. -/
structure Settings (F : Type) [PyFloat F] where
  tradingMode : String := "paper"
  paperTrading : Bool := true
  maxPositionPct : F := PyFloat.ofInt 2
  maxTotalExposurePct : F := PyFloat.ofInt 20
  maxTradesPerDay : ℤ := 10
  maxDailyDrawdownPct : F := PyFloat.ofInt 3
  allowAfterHours : Bool := false

/-- INV-1 double opt-in. -/
def Settings.isLiveTrading {F : Type} [PyFloat F] (s : Settings F) : Bool :=
  s.tradingMode == "live" && !s.paperTrading

/-- Account snapshot that the rules evaluate against. -/
structure ValidationContext (F : Type) where
  now : UtcDateTime
  accountCapitalUsd : F
  totalExposureUsd : F
  tradesToday : ℕ
  dailyPnlUsd : F
  dailyPeakUsd : F
  seenEventIds : List String
  seenIdempotencyKeys : List String

structure RuleCheckResult (F : Type) where
  ruleName : String
  passed : Bool
  reason : String
  inputs : List (String × PyValue F)

variable {F : Type} [PyFloat F]

omit [PyFloat F] in
def RuleCheckResult.passing (name : String) (inputs : List (String × PyValue F)) :
    RuleCheckResult F := ⟨name, true, "", inputs⟩

omit [PyFloat F] in
def RuleCheckResult.failing (name reason : String) (inputs : List (String × PyValue F)) :
    RuleCheckResult F := ⟨name, false, reason, inputs⟩

structure RiskRule (F : Type) [PyFloat F] where
  name : String
  check : ProposedOrder F → ValidationContext F → Except PyExc (RuleCheckResult F)

/-- The rule's check returns and passes. -/
def RiskRule.Holds (rule : RiskRule F) (order : ProposedOrder F) (ctx : ValidationContext F) :
    Prop := ∃ r, rule.check order ctx = .ok r ∧ r.passed = true

/-- `order.quantity * order.reference_price_usd`. -/
def orderNotionalUsd (order : ProposedOrder F) : Except PyExc F :=
  match floatOfInt order.quantity with
  | .error e => .error e
  | .ok q => .ok (PyFloat.mul q order.referencePriceUsd)

/-- `(pct / 100.0) * capital`. -/
def limitUsd (pct capital : F) : F := PyFloat.mul (PyFloat.div pct (PyFloat.ofInt 100)) capital

/-- `max(0.0, x)`. -/
def maxZero (x : F) : F := if PyFloat.lt (PyFloat.ofInt 0) x then x else PyFloat.ofInt 0

/-- `repr(s)` of printable text. -/
def strRepr (s : String) : String :=
  let quote := if '\'' ∈ s.toList ∧ '"' ∉ s.toList then '"' else '\''
  let escaped := s.toList.flatMap fun c =>
    if c = '\\' ∨ c = quote then ['\\', c]
    else if c = '\n' then ['\\', 'n']
    else if c = '\r' then ['\\', 'r']
    else if c = '\t' then ['\\', 't']
    else [c]
  String.ofList (quote :: escaped ++ [quote])

def positionSizeRule (maxPositionPct : F) : RiskRule F where
  name := "position_size"
  check order ctx :=
    match orderNotionalUsd order with
    | .error e => .error e
    | .ok notional =>
      let limit := limitUsd maxPositionPct ctx.accountCapitalUsd
      let inputs := [("notional_usd", .float notional), ("limit_usd", .float limit),
        ("max_position_pct", .float maxPositionPct),
        ("account_capital_usd", .float ctx.accountCapitalUsd)]
      if PyFloat.lt limit notional then
        .ok (.failing "position_size"
          ("notional " ++ PyFloat.fixed2 notional ++ " USD exceeds " ++ PyFloat.fixed2 limit ++
            " USD (" ++ PyFloat.repr maxPositionPct ++ "% of " ++
            PyFloat.fixed2 ctx.accountCapitalUsd ++ ")") inputs)
      else .ok (.passing "position_size" inputs)

def totalExposureRule (maxTotalExposurePct : F) : RiskRule F where
  name := "total_exposure"
  check order ctx :=
    match orderNotionalUsd order with
    | .error e => .error e
    | .ok notional =>
      let projected := PyFloat.add ctx.totalExposureUsd notional
      let limit := limitUsd maxTotalExposurePct ctx.accountCapitalUsd
      let inputs := [("notional_usd", .float notional),
        ("current_exposure_usd", .float ctx.totalExposureUsd),
        ("projected_exposure_usd", .float projected), ("limit_usd", .float limit),
        ("max_total_exposure_pct", .float maxTotalExposurePct)]
      if PyFloat.lt limit projected then
        .ok (.failing "total_exposure"
          ("projected exposure " ++ PyFloat.fixed2 projected ++ " USD exceeds " ++
            PyFloat.fixed2 limit ++ " USD (" ++ PyFloat.repr maxTotalExposurePct ++ "% cap)")
          inputs)
      else .ok (.passing "total_exposure" inputs)

def maxTradesPerDayRule (maxTradesPerDay : ℤ) : RiskRule F where
  name := "max_trades_per_day"
  check _ ctx :=
    let inputs := [("trades_today", .int ctx.tradesToday),
      ("max_trades_per_day", .int maxTradesPerDay)]
    if maxTradesPerDay ≤ (ctx.tradesToday : ℤ) then
      .ok (.failing "max_trades_per_day"
        (toString ctx.tradesToday ++ " trades already today (cap " ++ toString maxTradesPerDay
          ++ ")") inputs)
    else .ok (.passing "max_trades_per_day" inputs)

/-- `0.0 if peak <= 0 else max(0.0, (peak - (peak + pnl)) / peak * 100.0)`. -/
def drawdownPct (peak pnl : F) : F :=
  if PyFloat.le peak (PyFloat.ofInt 0) then PyFloat.ofInt 0
  else maxZero (PyFloat.mul
    (PyFloat.div (PyFloat.sub peak (PyFloat.add peak pnl)) peak) (PyFloat.ofInt 100))

def dailyDrawdownRule (maxDrawdownPct : F) : RiskRule F where
  name := "daily_drawdown"
  check _ ctx :=
    let drawdown := drawdownPct ctx.dailyPeakUsd ctx.dailyPnlUsd
    let inputs := [("daily_peak_usd", .float ctx.dailyPeakUsd),
      ("daily_pnl_usd", .float ctx.dailyPnlUsd), ("drawdown_pct", .float drawdown),
      ("max_drawdown_pct", .float maxDrawdownPct)]
    if PyFloat.le maxDrawdownPct drawdown then
      .ok (.failing "daily_drawdown"
        ("drawdown " ++ PyFloat.fixed2 drawdown ++ "% ≥ cap " ++ PyFloat.repr maxDrawdownPct ++
          "% — KILL-05 trigger") inputs)
    else .ok (.passing "daily_drawdown" inputs)

/-- `MarketCalendar.is_open_at`. -/
abbrev MarketCalendar := UtcDateTime → Except PyExc Bool

def marketHoursRule (calendar : MarketCalendar) (allowAfterHours : Bool) : RiskRule F where
  name := "market_hours"
  check _ ctx :=
    let inputs := [("allow_after_hours", .bool allowAfterHours),
      ("ts", .str ctx.now.isoformat)]
    if allowAfterHours then
      .ok (.passing "market_hours" (("reason", .str "after-hours allowed") :: inputs))
    else match calendar ctx.now with
      | .error e => .error e
      | .ok true => .ok (.passing "market_hours" inputs)
      | .ok false => .ok (.failing "market_hours" "market is closed at order time" inputs)

def idempotencyRule : RiskRule F where
  name := "idempotency"
  check order ctx :=
    let inputs := [("event_id", .str order.eventId), ("strategy_id", .str order.strategyId)]
    if order.eventId ∈ ctx.seenEventIds then
      .ok (.failing "idempotency"
        ("event_id " ++ strRepr order.eventId ++ " already produced an order") inputs)
    else
      let expectedKey := computeIdempotencyKey order.eventId order.strategyId
      if expectedKey ∈ ctx.seenIdempotencyKeys then
        .ok (.failing "idempotency"
          ("idempotency_key " ++ strRepr expectedKey ++ " already used") inputs)
      else .ok (.passing "idempotency" inputs)

/-- `build_risk_manager`: the canonical rule set, in order. -/
def buildRiskManager (s : Settings F) (calendar : MarketCalendar) : List (RiskRule F) :=
  [positionSizeRule s.maxPositionPct, totalExposureRule s.maxTotalExposurePct,
    maxTradesPerDayRule s.maxTradesPerDay, dailyDrawdownRule s.maxDailyDrawdownPct,
    marketHoursRule calendar s.allowAfterHours, idempotencyRule]

theorem positionSizeRule_holds_iff {pct : F} {order : ProposedOrder F}
    {ctx : ValidationContext F} : (positionSizeRule pct).Holds order ctx ↔
      ∃ n, orderNotionalUsd order = .ok n ∧
        PyFloat.lt (limitUsd pct ctx.accountCapitalUsd) n = false := by
  unfold RiskRule.Holds positionSizeRule
  cases hn : orderNotionalUsd order with
  | error e => simp [hn]
  | ok n =>
    cases h : PyFloat.lt (limitUsd pct ctx.accountCapitalUsd) n <;>
      simp [hn, h, RuleCheckResult.passing, RuleCheckResult.failing]

theorem totalExposureRule_holds_iff {pct : F} {order : ProposedOrder F}
    {ctx : ValidationContext F} : (totalExposureRule pct).Holds order ctx ↔
      ∃ n, orderNotionalUsd order = .ok n ∧
        PyFloat.lt (limitUsd pct ctx.accountCapitalUsd)
          (PyFloat.add ctx.totalExposureUsd n) = false := by
  unfold RiskRule.Holds totalExposureRule
  cases hn : orderNotionalUsd order with
  | error e => simp [hn]
  | ok n =>
    cases h : PyFloat.lt (limitUsd pct ctx.accountCapitalUsd)
        (PyFloat.add ctx.totalExposureUsd n) <;>
      simp [hn, h, RuleCheckResult.passing, RuleCheckResult.failing]

theorem maxTradesPerDayRule_holds_iff {n : ℤ} {order : ProposedOrder F}
    {ctx : ValidationContext F} :
    (maxTradesPerDayRule n).Holds order ctx ↔ (ctx.tradesToday : ℤ) < n := by
  unfold RiskRule.Holds maxTradesPerDayRule
  by_cases h : n ≤ (ctx.tradesToday : ℤ)
  · simp [h, RuleCheckResult.failing]
  · simp [h, RuleCheckResult.passing, lt_of_not_ge h]

theorem dailyDrawdownRule_holds_iff {cap : F} {order : ProposedOrder F}
    {ctx : ValidationContext F} : (dailyDrawdownRule cap).Holds order ctx ↔
      PyFloat.le cap (drawdownPct ctx.dailyPeakUsd ctx.dailyPnlUsd) = false := by
  unfold RiskRule.Holds dailyDrawdownRule
  cases h : PyFloat.le cap (drawdownPct ctx.dailyPeakUsd ctx.dailyPnlUsd) <;>
    simp [h, RuleCheckResult.passing, RuleCheckResult.failing]

theorem maxZero_rat (x : ℚ) : maxZero x = max 0 x := by
  by_cases h : 0 < x
  · simp [maxZero, h, max_eq_right h.le]
  · simp [maxZero, h, max_eq_left (not_lt.mp h)]

/-- The loss of the day in percent of its peak, in exact arithmetic. -/
theorem drawdownPct_rat {peak : ℚ} (hpeak : 0 < peak) (pnl : ℚ) :
    drawdownPct peak pnl = max 0 (-pnl / peak * 100) := by
  have hnot : ¬ peak ≤ 0 := not_le.mpr hpeak
  simp [drawdownPct, hnot, maxZero_rat]

theorem idempotencyRule_holds_iff {order : ProposedOrder F} {ctx : ValidationContext F} :
    (idempotencyRule).Holds order ctx ↔ order.eventId ∉ ctx.seenEventIds ∧
      computeIdempotencyKey order.eventId order.strategyId ∉ ctx.seenIdempotencyKeys := by
  unfold RiskRule.Holds idempotencyRule
  by_cases he : order.eventId ∈ ctx.seenEventIds
  · simp [he, RuleCheckResult.failing]
  · by_cases hk : computeIdempotencyKey order.eventId order.strategyId ∈ ctx.seenIdempotencyKeys
    · simp [he, hk, RuleCheckResult.failing]
    · simp [he, hk, RuleCheckResult.passing]

/-- Every input that a risk rule records can be written to a JSON column. -/
theorem buildRiskManager_storable {s : Settings F} {calendar : MarketCalendar} {rule : RiskRule F}
    (hrule : rule ∈ buildRiskManager s calendar) {order : ProposedOrder F}
    {ctx : ValidationContext F} {r : RuleCheckResult F} (h : rule.check order ctx = .ok r) :
    ∀ f ∈ r.inputs, f.2.storable = true := by
  simp only [buildRiskManager, List.mem_cons, List.not_mem_nil, or_false] at hrule
  rcases hrule with rfl | rfl | rfl | rfl | rfl | rfl
  · simp only [positionSizeRule] at h
    split at h
    · exact absurd h (by simp)
    · split_ifs at h <;> cases h <;>
        simp [RuleCheckResult.passing, RuleCheckResult.failing, PyValue.storable]
  · simp only [totalExposureRule] at h
    split at h
    · exact absurd h (by simp)
    · split_ifs at h <;> cases h <;>
        simp [RuleCheckResult.passing, RuleCheckResult.failing, PyValue.storable]
  · simp only [maxTradesPerDayRule] at h
    split_ifs at h <;> cases h <;>
      simp [RuleCheckResult.passing, RuleCheckResult.failing, PyValue.storable]
  · simp only [dailyDrawdownRule] at h
    split_ifs at h <;> cases h <;>
      simp [RuleCheckResult.passing, RuleCheckResult.failing, PyValue.storable]
  · simp only [marketHoursRule] at h
    split_ifs at h
    · cases h
      simp [RuleCheckResult.passing, PyValue.storable]
    · split at h
      · exact absurd h (by simp)
      · cases h
        simp [RuleCheckResult.passing, PyValue.storable]
      · cases h
        simp [RuleCheckResult.failing, PyValue.storable]
  · simp only [idempotencyRule] at h
    split_ifs at h <;> cases h <;>
      simp [RuleCheckResult.passing, RuleCheckResult.failing]

end XSocialTrader
