import XSocialTrader.Services.OrderDelivery
import Mathlib.Algebra.Order.BigOperators.Group.List

/-! The three limits on what happens over a day or a run: total exposure, trades per day and
drawdown. Each iteration judges its own order against a snapshot, so what a run adds up to
depends on what the snapshot counts. -/
namespace XSocialTrader
open WorkerLoop

section Exposure

variable {r : RulePipeline ℚ} {e : Reading ℚ} {w : World ℚ} {p : ProposedOrder ℚ}

/-- `quantity * reference_price_usd` in exact arithmetic. -/
def notionalUsd (p : ProposedOrder ℚ) : ℚ := p.quantity * p.referencePriceUsd

/-- `max_total_exposure_pct / 100 * NetLiquidation`. -/
def exposureCapUsd (s : Settings ℚ) (summary : List (String × ℚ)) : ℚ :=
  s.maxTotalExposurePct / 100 * netLiquidation summary

def ordersNotionalUsd (w : World ℚ) : ℚ := (w.broker.map fun c => notionalUsd c.proposed).sum

/-- An order that reaches the broker fits, by itself, on top of the reported exposure. -/
theorem RulePipeline.Places.within_cap {summary : List (String × ℚ)}
    {positions : List (Position ℚ)} (h : r.Places e w p)
    (he : e.account = ⟨.ok summary, .ok positions⟩) :
    exactExposure positions + notionalUsd p ≤ exposureCapUsd r.settings summary := by
  obtain ⟨capital, exposure, next, hsnap, hrules⟩ := h.context
  obtain ⟨summary', positions', hsum, hpos, rfl, hexp, -⟩ := accountSnapshot_ok hsnap
  rw [he] at hsum hpos
  obtain rfl := Except.ok.inj hsum
  obtain rfl := Except.ok.inj hpos
  rw [totalExposure_rat, Except.ok.injEq, ofInt_rat, Int.cast_zero, zero_add] at hexp
  have hrule := hrules (totalExposureRule r.settings.maxTotalExposurePct)
    (by simp [Executor.riskRules, buildRiskManager])
  obtain ⟨n, hn, hle⟩ := totalExposureRule_holds_iff.mp hrule
  simp only [orderNotionalUsd, floatOfInt_rat, Except.ok.injEq, mul_rat] at hn
  simpa [contextOver, limitUsd, ← hexp, ← hn, notionalUsd, exposureCapUsd] using hle

/-- While the reported account stays fixed, every order of a run fits on top of the reported
exposure, so `n` orders use at most `n` times the reported headroom. -/
theorem each_order_within_cap (r : RulePipeline ℚ) (queue : List ByteArray)
    (orders : List (OrderRow ℚ)) (ruleEvaluations : List (RuleEvaluationRow ℚ))
    (es : List (Reading ℚ)) (summary : List (String × ℚ)) (positions : List (Position ℚ))
    (hfixed : ∀ e ∈ es, e.account = ⟨.ok summary, .ok positions⟩) :
    let w := (loop r.iterate (.start queue orders ruleEvaluations) es).1
    let cap := exposureCapUsd r.settings summary
    (∀ c ∈ w.broker, exactExposure positions + notionalUsd c.proposed ≤ cap) ∧
      ordersNotionalUsd w ≤ w.broker.length * (cap - exactExposure positions) := by
  intro w cap
  have hall : ∀ c ∈ w.broker, exactExposure positions + notionalUsd c.proposed ≤ cap := by
    refine (loop_invariant r.iterate
      (fun t => ∀ c ∈ t.broker, exactExposure positions + notionalUsd c.proposed ≤ cap)
      (fun v => v.1.account = ⟨.ok summary, .ok positions⟩) ?_
      (fun c hc => absurd hc List.not_mem_nil)
      (fun v hv => hfixed v.1 (visits_reading_mem hv))).1
    intro e t ht he
    rcases (r.iterate_effect e t).broker with ⟨hb, -⟩ | ⟨call, hb, hplaces⟩
    · rw [hb]
      exact ht
    · rw [hb]
      intro c hc
      rcases List.mem_append.mp hc with hc | hc
      · exact ht c hc
      · rw [List.mem_singleton.mp hc]
        exact hplaces.within_cap he
  refine ⟨hall, ?_⟩
  have hsum := List.sum_le_card_nsmul (w.broker.map fun c => notionalUsd c.proposed)
    (cap - exactExposure positions) fun x hx => by
      obtain ⟨c, hc, rfl⟩ := List.mem_map.mp hx
      have hc := hall c hc
      linarith
  rw [List.length_map, nsmul_eq_mul] at hsum
  exact hsum

/-- One order of 150 USD under a cap of 200 USD. -/
theorem each_order_within_cap_paper :
    let e := paperReading "t1:TSLA" (paperRules .market none) paperNoon
    ∀ c ∈ (loop (paperPipeline 10).iterate (.start [] [] []) [e]).1.broker,
      exactExposure [] + notionalUsd c.proposed ≤ 200 := by
  intro e c hc
  have hcap := (each_order_within_cap (paperPipeline 10) [] [] [] [e]
    [("NetLiquidation", 1000)] [] (by simp [e, paperReading])).1 c hc
  exact hcap.trans_eq (by decide +kernel)

/-- Two open orders of 150 USD exceed a cap of 200 USD that each of them respects. -/
theorem open_orders_exceed_cap : ¬ ∀ (r : RulePipeline ℚ) (queue : List ByteArray)
    (orders : List (OrderRow ℚ)) (ruleEvaluations : List (RuleEvaluationRow ℚ))
    (es : List (Reading ℚ)) (summary : List (String × ℚ)) (positions : List (Position ℚ)),
      (∀ e ∈ es, SingleWorker e) → (∀ e ∈ es, e.account = ⟨.ok summary, .ok positions⟩) →
      exactExposure positions ≤ exposureCapUsd r.settings summary →
      exactExposure positions +
          ordersNotionalUsd (loop r.iterate (.start queue orders ruleEvaluations) es).1 ≤
        exposureCapUsd r.settings summary := by
  intro h
  let first := paperReading "t1:AAPL" (paperRules .market none) paperNoon
  let second := paperReading "t1:TSLA" (paperRules .market none) paperNoon
  have hsum := h (paperPipeline 10) [] [] [] [first, second] [("NetLiquidation", 1000)] []
    (by simp [first, second, paperReading, SingleWorker])
    (by simp [first, second, paperReading]) (by decide +kernel)
  exact absurd hsum (by decide +kernel)

end Exposure

section TradesPerDay

variable {F : Type} [PyFloat F] {r : RulePipeline F} {e : Reading F} {w : World F}
  {p : ProposedOrder F}

/-- The day of the row's `created_at`. -/
def OrderRow.createdOn (d : UtcDate) (row : OrderRow F) : Bool :=
  decide (row.createdAt.toList.take 10 = d.text)

omit [PyFloat F] in
theorem OrderRow.createdOn_iff {row : OrderRow F} {t : UtcDateTime}
    (h : row.createdAt = t.currentTimestamp) (d : UtcDate) :
    row.createdOn d = true ↔ t.date = d := by
  have htake : row.createdAt.toList.take 10 = t.date.text := by
    rw [h, UtcDateTime.currentTimestamp, String.toList_ofList]
    exact List.take_left' t.date.text_length
  rw [OrderRow.createdOn, decide_eq_true_iff, htake, UtcDate.text_inj]

omit [PyFloat F] in
/-- A row of a day is inside that day's window unless it was created in its first second. -/
theorem OrderRow.createdWithin_of_createdOn {row : OrderRow F} {t : UtcDateTime}
    (h : row.createdAt = t.currentTimestamp) (hsecond : ¬ t.InFirstSecond) {d next : UtcDate}
    (hnext : d.nextDay = some next) (hon : row.createdOn d = true) :
    row.createdWithin d next = true := by
  have hd := (OrderRow.createdOn_iff h d).mp hon
  have hlt := (UtcDate.nextDay_code (x := d) hnext).1
  rw [OrderRow.createdWithin, h, Bool.and_eq_true, Bool.not_eq_true', decide_eq_false_iff_not,
    decide_eq_true_iff, currentTimestamp_lt_midnight_iff, currentTimestamp_lt_midnight_iff]
  constructor
  · rintro (hc | ⟨-, hs⟩)
    · exact absurd hc (by rw [hd]; exact lt_irrefl _)
    · exact hsecond hs
  · exact Or.inl (hd ▸ hlt)

/-- An iteration that adds a row does not do so in the first second of a day. -/
def CountsItsRow (r : RulePipeline F) (e : Reading F) (w : World F) : Prop :=
  ∀ p, r.Places e w p → Persists e w p → ¬ e.createdAt.InFirstSecond

/-- Every row has been written by the clock and can be counted, and no day has more of them
than the cap. -/
structure DailyCap (cap : ℤ) (now : ℕ) (w : World F) : Prop where
  dated : ∀ row ∈ w.orders, ∃ t : UtcDateTime, row.createdAt = t.currentTimestamp ∧
    t.stamp ≤ now ∧ ¬ t.InFirstSecond
  capped : ∀ d, (w.orders.countP (OrderRow.createdOn d) : ℤ) ≤ max cap 0

theorem DailyCap.mono {cap : ℤ} {m n : ℕ} {t : World F} (h : DailyCap cap m w) (hmn : m ≤ n)
    (ht : t.orders = w.orders) : DailyCap cap n t := by
  refine ⟨fun row hrow => ?_, fun d => ht ▸ h.capped d⟩
  obtain ⟨s, hs, hle, hsecond⟩ := h.dated row (ht ▸ hrow)
  exact ⟨s, hs, hle.trans hmn, hsecond⟩

/-- The context of a placed order counts the rows of its day, and they are below the cap. -/
theorem RulePipeline.Places.trades_lt (h : r.Places e w p) : ∃ next,
    e.now.date.nextDay = some next ∧
      ((w.visibleOrders e).countP (OrderRow.createdWithin e.now.date next) : ℤ) <
        r.settings.maxTradesPerDay := by
  obtain ⟨capital, exposure, next, hsnap, hrules⟩ := h.context
  obtain ⟨_, _, -, -, -, -, hnext⟩ := accountSnapshot_ok hsnap
  have hrule := hrules (maxTradesPerDayRule r.settings.maxTradesPerDay)
    (by simp [Executor.riskRules, buildRiskManager])
  exact ⟨next, hnext, maxTradesPerDayRule_holds_iff.mp hrule⟩

/-- Before the new row, its day is below the cap: its rows are in the window that the
context counted, or the day has only begun after the context was built. -/
theorem DailyCap.room {n : ℕ} (hw : DailyCap r.settings.maxTradesPerDay n w)
    (hplaces : r.Places e w p) (hvis : w.visibleOrders e = w.orders) (hn : n ≤ e.now.stamp)
    (hclock : e.now.stamp ≤ e.createdAt.stamp) :
    (w.orders.countP (OrderRow.createdOn e.createdAt.date) : ℤ) < r.settings.maxTradesPerDay := by
  obtain ⟨next, hnext, hlt⟩ := hplaces.trades_lt
  rw [hvis] at hlt
  by_cases hday : e.createdAt.date = e.now.date
  · refine lt_of_le_of_lt ?_ hlt
    rw [hday]
    refine Int.ofNat_le.mpr (List.countP_mono_left fun row hrow hon => ?_)
    obtain ⟨t, ht, -, hsecond⟩ := hw.dated row hrow
    exact OrderRow.createdWithin_of_createdOn ht hsecond hnext hon
  · have hcode : e.now.date.code < e.createdAt.date.code :=
      lt_of_le_of_ne (UtcDateTime.date_code_le hclock) fun h =>
        hday (UtcDate.code_inj.mp h.symm)
    have hzero : w.orders.countP (OrderRow.createdOn e.createdAt.date) = 0 := by
      refine List.countP_eq_zero.mpr fun row hrow hon => ?_
      obtain ⟨t, ht, hle, -⟩ := hw.dated row hrow
      have hold := UtcDateTime.date_code_le (hle.trans hn)
      rw [(OrderRow.createdOn_iff ht _).mp hon] at hold
      omega
    omega

/-- One iteration of a single worker keeps the daily cap. -/
theorem DailyCap.step {n : ℕ} {c : Control (World F) Exit}
    (hw : DailyCap r.settings.maxTradesPerDay n w) (he : SingleWorker e)
    (hcounts : CountsItsRow r e w) (hn : n ≤ e.now.stamp)
    (hclock : e.now.stamp ≤ e.createdAt.stamp) (h : Effect r e w c) :
    DailyCap r.settings.maxTradesPerDay e.createdAt.stamp c.state := by
  obtain ⟨hforeign, hracing⟩ := he
  have hvis : w.visibleOrders e = w.orders := by
    rw [World.visibleOrders, hforeign, List.append_nil]
  have hmn := hn.trans hclock
  cases h with
  | quiet c hnone hbroker horders hcount =>
    refine hw.mono hmn ?_
    simpa only [hvis, hracing, List.append_nil, or_self] using horders
  | lost p t a hplaces hpersists hbroker horders =>
    refine hw.mono hmn ?_
    rw [Control.state_exit, horders, hvis, hracing, List.append_nil]
  | persisted p receipt t hplaces hreceipt hpersists hbroker horders hcount =>
    have hroom := hw.room hplaces hvis hn hclock
    have hsecond := hcounts p hplaces hpersists
    rw [hvis, hracing, List.append_nil] at horders
    have hnew : (w.newRow e p receipt).createdAt = e.createdAt.currentTimestamp := rfl
    constructor
    · intro row hrow
      rw [Control.state_next, horders] at hrow
      rcases List.mem_append.mp hrow with hrow | hrow
      · exact (hw.mono hmn rfl).dated row hrow
      · rw [List.mem_singleton.mp hrow]
        exact ⟨e.createdAt, hnew, le_rfl, hsecond⟩
    · intro d
      rw [Control.state_next, horders, List.countP_append, List.countP_singleton]
      split_ifs with hon
      · rw [(OrderRow.createdOn_iff hnew d).mp hon] at hroom
        omega
      · simpa using hw.capped d

/-- If no row is written in the first second of a day, no day of a run has more rows than
the cap. -/
theorem trades_per_day_capped (r : RulePipeline F) (queue : List ByteArray)
    (ruleEvaluations : List (RuleEvaluationRow F)) (es : List (Reading F))
    (hsingle : ∀ e ∈ es, SingleWorker e)
    (hclock : Timed (fun e : Reading F => e.now.stamp) (fun e => e.createdAt.stamp) 0 es)
    (hcounts : ∀ v ∈ visits r.iterate (.start queue [] ruleEvaluations) es,
      CountsItsRow r v.1 v.2) (d : UtcDate) :
    ((loop r.iterate (.start queue [] ruleEvaluations) es).1.orders.countP
      (OrderRow.createdOn d) : ℤ) ≤ max r.settings.maxTradesPerDay 0 := by
  have h₀ : DailyCap r.settings.maxTradesPerDay 0
      (.start queue [] ruleEvaluations : World F) :=
    ⟨fun _ hrow => absurd hrow List.not_mem_nil, fun d => by simp [World.start]⟩
  obtain ⟨m, hm⟩ := loop_timed_invariant r.iterate (fun e : Reading F => e.now.stamp)
    (fun e => e.createdAt.stamp) (DailyCap r.settings.maxTradesPerDay)
    (fun v => SingleWorker v.1 ∧ CountsItsRow r v.1 v.2)
    (fun n e w hw hC hn hse => hw.step hC.1 hC.2 hn hse (r.iterate_effect e w)) h₀ hclock
    (fun v hv => ⟨hsingle v.1 (visits_reading_mem hv), hcounts v hv⟩)
  exact hm.capped d

def paperMidnight : UtcDateTime := { paperNoon with hour := 0, hour_lt := by decide }

/-- Two orders in the first second of a day pass a cap of one: the first row's text is a
proper prefix of the midnight bound and falls out of the window. -/
theorem midnight_rows_uncounted : ¬ ∀ (r : RulePipeline ℚ) (queue : List ByteArray)
    (ruleEvaluations : List (RuleEvaluationRow ℚ)) (es : List (Reading ℚ)),
      (∀ e ∈ es, SingleWorker e) →
      Timed (fun e : Reading ℚ => e.now.stamp) (fun e => e.createdAt.stamp) 0 es →
      ∀ d, ((loop r.iterate (.start queue [] ruleEvaluations) es).1.orders.countP
        (OrderRow.createdOn d) : ℤ) ≤ max r.settings.maxTradesPerDay 0 := by
  intro h
  let first := paperReading "t1:AAPL" (paperRules .market none) paperMidnight
  let second := paperReading "t1:TSLA" (paperRules .market none) paperMidnight
  have hcap := h (paperPipeline 1) [] [] [first, second]
    (by simp [first, second, paperReading, SingleWorker])
    ⟨by decide, by decide, by decide, by decide, trivial⟩ paperMidnight.date
  exact absurd hcap (by decide +kernel)

/-- At noon the second order is turned away. -/
theorem trades_per_day_capped_noon :
    let first := paperReading "t1:AAPL" (paperRules .market none) paperNoon
    let second := paperReading "t1:TSLA" (paperRules .market none) paperNoon
    ((loop (paperPipeline 1).iterate (.start [] [] []) [first, second]).1.orders.countP
      (OrderRow.createdOn paperNoon.date) : ℤ) ≤ 1 := by
  intro first second
  have hnoon : ∀ e ∈ [first, second], e.createdAt = paperNoon := by
    simp [first, second, paperReading]
  refine trades_per_day_capped (paperPipeline 1) [] [] [first, second]
    (by simp [first, second, paperReading, SingleWorker])
    ⟨by decide, by decide, by decide, by decide, trivial⟩ (fun v hv p _ _ => ?_) paperNoon.date
  rw [hnoon v.1 (visits_reading_mem hv)]
  decide

end TradesPerDay

section Drawdown

variable {r : RulePipeline ℚ} {e : Reading ℚ} {w : World ℚ}

/-- `(peak - (peak + pnl)) / peak * 100`, and no less than 0. -/
def contextDrawdownPct (ctx : ValidationContext ℚ) : ℚ :=
  max 0 (-ctx.dailyPnlUsd / ctx.dailyPeakUsd * 100)

/-- `submit` does not call the broker in a context whose drawdown has reached the cap. -/
theorem submit_drawdown (x : Executor ℚ) (env : SubmitEnv ℚ) (p : ProposedOrder ℚ)
    {ctx : ValidationContext ℚ} (committed : List (OrderRow ℚ)) (session : Session ℚ)
    (hpeak : 0 < ctx.dailyPeakUsd)
    (hcap : x.settings.maxDailyDrawdownPct ≤ contextDrawdownPct ctx) :
    (x.submit env p ctx committed session).calls = [] := by
  rcases x.submit_cases env p ctx committed session with ⟨-, hcalls, -⟩ | ⟨hpass, -⟩
  · exact hcalls
  · have hrule := hpass.rules_hold (dailyDrawdownRule x.settings.maxDailyDrawdownPct)
      (by simp [Executor.riskRules, buildRiskManager])
    rw [dailyDrawdownRule_holds_iff, drawdownPct_rat hpeak, le_rat, decide_eq_false_iff_not]
      at hrule
    exact absurd hcap hrule

/-- The peak of an iteration's context is what the broker reports in that iteration. -/
theorem RulePipeline.Submits.peak {p : ProposedOrder ℚ} {ctx : ValidationContext ℚ}
    (h : r.Submits e w p ctx) : ∃ summary, e.account.accountSummary = .ok summary ∧
      ctx.dailyPeakUsd = netLiquidation summary ∧ 0 < netLiquidation summary ∧
      ctx.dailyPnlUsd = 0 := by
  obtain ⟨_, _, _, -, -, -, -, hctx⟩ := h.proposes
  obtain ⟨capital, exposure, next, hsnap, -, rfl⟩ := buildValidationContext_ok hctx
  obtain ⟨summary, positions, hsummary, -, rfl, -, -⟩ := accountSnapshot_ok hsnap
  refine ⟨summary, hsummary, rfl, ?_, Int.cast_zero⟩
  by_contra hle
  simp [accountSnapshot, hsummary, not_lt.mp hle] at hsnap

/-- An order whose context shows a drawdown at or above the cap is not placed. The context of
an iteration has the NetLiquidation of the same iteration for its peak and no loss, whatever
the account was worth in earlier iterations. -/
theorem drawdown_gate (r : RulePipeline ℚ) (queue : List ByteArray) (orders : List (OrderRow ℚ))
    (ruleEvaluations : List (RuleEvaluationRow ℚ)) (es : List (Reading ℚ)) :
    (∀ env p ctx committed session, 0 < ctx.dailyPeakUsd →
      r.settings.maxDailyDrawdownPct ≤ contextDrawdownPct ctx →
        (r.submit env p ctx committed session).calls = []) ∧
    ∀ v ∈ visits r.iterate (.start queue orders ruleEvaluations) es, ∀ p ctx,
      r.Submits v.1 v.2 p ctx →
        (∃ summary, v.1.account.accountSummary = .ok summary ∧
          ctx.dailyPeakUsd = netLiquidation summary) ∧ ctx.dailyPnlUsd = 0 ∧
        (r.settings.maxDailyDrawdownPct ≤ contextDrawdownPct ctx →
          (r.iterate v.1 v.2).state.broker = v.2.broker) := by
  refine ⟨fun env p ctx committed session hpeak hcap => ?_, fun v _ p ctx hsubmits => ?_⟩
  · exact submit_drawdown r.toExecutor env p committed session hpeak hcap
  · obtain ⟨summary, hsummary, hpeak, hpos, hpnl⟩ := hsubmits.peak
    refine ⟨⟨summary, hsummary, hpeak⟩, hpnl, fun hcap => ?_⟩
    rcases (r.iterate_effect v.1 v.2).broker with ⟨hbroker, -⟩ | ⟨call, -, ctx', hsub, hpass⟩
    · exact hbroker
    · obtain ⟨_, _, hpeak', hpos', hpnl'⟩ := hsub.peak
      have hrule := hpass.rules_hold (dailyDrawdownRule r.settings.maxDailyDrawdownPct)
        (by simp [Executor.riskRules, buildRiskManager])
      rw [dailyDrawdownRule_holds_iff, drawdownPct_rat (hpeak' ▸ hpos'), le_rat,
        decide_eq_false_iff_not] at hrule
      simp only [hpnl', neg_zero, zero_div, zero_mul, max_self] at hrule
      simp only [contextDrawdownPct, hpnl, neg_zero, zero_div, zero_mul, max_self] at hcap
      exact absurd hcap hrule

/-- A context with a loss of 5 % places nothing, and the first iteration of a run has no loss. -/
theorem drawdown_gate_paper :
    let e := paperReading "t1:TSLA" (paperRules .market none) paperNoon
    let p := buildProposedOrder (paperRule .market none)
      ⟨"t1:TSLA", 1, 1, "TSLA", "bullish", 9 / 10, "swing"⟩
    ((paperPipeline 5).submit e.toSubmitEnv p ⟨paperNoon, 1000, 0, 0, -50, 1000, [], []⟩ []
        ⟨[], []⟩).calls = [] ∧
      ∃ ctx, (paperPipeline 5).Submits e (.start [] [] []) p ctx ∧ ctx.dailyPeakUsd = 1000 ∧
        ctx.dailyPnlUsd = 0 := by
  intro e p
  have hgate := drawdown_gate (paperPipeline 5) [] [] [] [e]
  have hplaced : placedAt (paperPipeline 5) (e, .start [] [] []) = [p] := by decide +kernel
  obtain ⟨ctx, hsub, -⟩ := (mem_placedAt_iff (paperPipeline 5) e (.start [] [] []) p).mp
    (hplaced ▸ List.mem_singleton_self p)
  refine ⟨hgate.1 _ _ _ _ _ (by decide) (by decide +kernel), ctx, hsub, ?_⟩
  obtain ⟨⟨summary, hsummary, hpeak⟩, hpnl, -⟩ := hgate.2 (e, .start [] [] []) (by simp) p ctx hsub
  obtain rfl := Except.ok.inj hsummary
  exact ⟨hpeak.trans rfl, hpnl⟩

/-- The NetLiquidation that the broker reports. -/
def reportedUsd (e : Reading ℚ) : ℚ :=
  e.account.accountSummary.toOption.elim 0 netLiquidation

/-- The loss from the highest value reported so far, in percent of it. -/
def dayLossPct (es : List (Reading ℚ)) (e : Reading ℚ) : ℚ :=
  let peak := (es.map reportedUsd).foldr max (reportedUsd e)
  (peak - reportedUsd e) / peak * 100

/-- The account is worth 1000 USD at the first order and 500 USD at the second, which is placed
all the same under a cap of 3 %. -/
theorem drawdown_over_run_ignored : ¬ ∀ (r : RulePipeline ℚ) (queue : List ByteArray)
    (orders : List (OrderRow ℚ)) (ruleEvaluations : List (RuleEvaluationRow ℚ))
    (es : List (Reading ℚ)) (e : Reading ℚ) (day : UtcDate),
      (∀ e' ∈ e :: es, SingleWorker e' ∧ e'.now.date = day ∧ 0 < reportedUsd e') →
      (loop r.iterate (.start queue orders ruleEvaluations) es).2 = none →
      r.settings.maxDailyDrawdownPct ≤ dayLossPct es e →
      let w := (loop r.iterate (.start queue orders ruleEvaluations) es).1
      (r.iterate e w).state.broker = w.broker := by
  intro h
  let rule : RuleSpec ℚ := { paperRule .market none with
    action := { (paperRule .market none).action with quantity := 1, quantity_pos := by decide } }
  let rules : LoadedRules ℚ := ⟨[rule], List.nodup_singleton _, List.pairwise_singleton _ _⟩
  let first := paperReading "t1:AAPL" rules paperNoon
  let second : Reading ℚ := { paperReading "t1:TSLA" rules paperNoon with
    account := ⟨.ok [("NetLiquidation", 500)], .ok []⟩ }
  have hsame := h (paperPipeline 5) [] [] [] [first] second paperNoon.date
    (by
      simp only [List.forall_mem_cons]
      refine ⟨⟨⟨rfl, rfl⟩, rfl, ?_⟩, ⟨⟨rfl, rfl⟩, rfl, ?_⟩, fun _ he => absurd he List.not_mem_nil⟩
        <;> decide +kernel)
    (by decide +kernel) (by decide +kernel)
  have hplaced := congrArg List.length hsame
  exact absurd hplaced (by decide +kernel)

end Drawdown

end XSocialTrader
