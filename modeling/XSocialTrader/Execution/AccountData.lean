import XSocialTrader.Core.FloatValues
import XSocialTrader.Execution.Context
import XSocialTrader.Risk.Manager

/-! The size checks on account data that need not be finite. Both are written as "reject if
greater", so what they let through includes every comparison with a NaN. -/
namespace XSocialTrader

/-- The exposure exists exactly if every quantity fits a `float`. -/
theorem totalExposure_ok_iff (acc : Extended ℚ) (positions : List (Position (Extended ℚ))) :
    (∃ exposure, totalExposure acc positions = .ok exposure) ↔
      ∀ q ∈ positions, PyFloat.fits (Extended ℚ) |q.quantity| = true := by
  induction positions generalizing acc with
  | nil => simp [totalExposure]
  | cons q qs ih =>
    rw [List.forall_mem_cons, totalExposure, floatOfInt]
    cases hfits : PyFloat.fits (Extended ℚ) |q.quantity| with
    | false => simp
    | true => simpa using ih _

/-- The exposure has a lower bound exactly if every term of it has one. -/
theorem totalExposure_boundedBelow_iff {acc exposure : Extended ℚ}
    {positions : List (Position (Extended ℚ))}
    (h : totalExposure acc positions = .ok exposure) :
    exposure.BoundedBelow ↔ acc.BoundedBelow ∧ ∀ q ∈ positions,
      (∃ x, q.avgPriceUsd = .fin x) ∨ q.avgPriceUsd = .posInf ∧ q.quantity ≠ 0 := by
  induction positions generalizing acc with
  | nil =>
    obtain rfl := Except.ok.inj h
    simp
  | cons q qs ih =>
    rw [totalExposure, floatOfInt] at h
    split_ifs at h
    have hterm := Extended.boundedBelow_mul_iff (x := ((|q.quantity| : ℤ) : ℚ))
      (by positivity) q.avgPriceUsd
    rw [ih h, List.forall_mem_cons, add_extended, Extended.boundedBelow_add_iff, mul_extended,
      ofInt_extended, hterm, and_assoc]
    simp

theorem add_fin_eq_fin {x : Extended ℚ} {n s : ℚ} (h : x.add (.fin n) = .fin s) :
    ∃ e, x = .fin e ∧ e + n = s := by
  cases x with
  | fin e => exact ⟨e, rfl, by simpa using h⟩
  | posInf | negInf | nan => cases h

/-- The notional, the exposure and both limits are numbers, and neither limit is exceeded. -/
def WithinCaps (s : Settings (Extended ℚ)) (p : ProposedOrder (Extended ℚ))
    (ctx : ValidationContext (Extended ℚ)) : Prop :=
  ∃ notional exposure limit exposureLimit : ℚ, orderNotionalUsd p = .ok (.fin notional) ∧
    ctx.totalExposureUsd = .fin exposure ∧
    limitUsd s.maxPositionPct ctx.accountCapitalUsd = .fin limit ∧
    limitUsd s.maxTotalExposurePct ctx.accountCapitalUsd = .fin exposureLimit ∧
    notional ≤ limit ∧ exposure + notional ≤ exposureLimit

/-- Whatever context the account data give, the order is accepted only within the caps. -/
def FailsClosed (reads : BrokerReads (Extended ℚ)) (p : ProposedOrder (Extended ℚ)) : Prop :=
  ∀ (s : Settings (Extended ℚ)) (maxPositionPct maxTotalExposurePct : ℚ)
    (calendar : MarketCalendar) (now : UtcDateTime) (dailyPeakUsd : Option (Extended ℚ))
    (dailyPnlUsd : Extended ℚ) (autoflush : Except PyExc Unit)
    (orders : List (OrderRow (Extended ℚ))) (ctx : ValidationContext (Extended ℚ)),
    s.maxPositionPct = .fin maxPositionPct → s.maxTotalExposurePct = .fin maxTotalExposurePct →
    buildValidationContext now dailyPeakUsd dailyPnlUsd reads autoflush orders = .ok ctx →
    (∃ checks, runChecks p ctx (buildRiskManager s calendar) = .ok checks ∧
      allPassed checks = true) → WithinCaps s p ctx

/-- The broker reports a capital that passes the guard and positions whose sum exists, and the
quantity of the order fits a `float`. -/
structure Judged (reads : BrokerReads (Extended ℚ)) (p : ProposedOrder (Extended ℚ))
    (capital : Extended ℚ) (positions : List (Position (Extended ℚ))) : Prop where
  capital_reported : ∃ summary, reads.accountSummary = .ok summary ∧
    netLiquidation summary = capital
  capital_passes : PyFloat.le capital (PyFloat.ofInt 0) = false
  positions_reported : reads.positions = .ok positions
  positions_fit : ∀ q ∈ positions, PyFloat.fits (Extended ℚ) |q.quantity| = true
  quantity_fits : PyFloat.fits (Extended ℚ) p.quantity = true

variable {reads : BrokerReads (Extended ℚ)} {p : ProposedOrder (Extended ℚ)}
  {capital exposure : Extended ℚ} {positions : List (Position (Extended ℚ))}

/-- The reference price is positive or NaN. -/
theorem reference_cases (p : ProposedOrder (Extended ℚ)) :
    (∃ r, p.referencePriceUsd = .fin r) ∨ p.referencePriceUsd = .posInf ∨
      p.referencePriceUsd = .nan := by
  have href := p.reference_pos
  cases hr : p.referencePriceUsd with
  | fin r => exact Or.inl ⟨r, rfl⟩
  | posInf => exact Or.inr (Or.inl rfl)
  | negInf => rw [hr] at href; cases href
  | nan => exact Or.inr (Or.inr rfl)

theorem orderNotionalUsd_extended (h : PyFloat.fits (Extended ℚ) p.quantity = true) :
    orderNotionalUsd p = .ok ((Extended.fin (p.quantity : ℚ)).mul p.referencePriceUsd) := by
  simp [orderNotionalUsd, floatOfInt, h]

theorem limitUsd_fin (pct c : ℚ) :
    limitUsd (Extended.fin pct) (.fin c) = .fin (pct / 100 * c) := by
  simp [limitUsd, Extended.div]

/-- An accepted order with finite capital and bounded exposure is within the caps. -/
theorem withinCaps_of_finite {s : Settings (Extended ℚ)} {a b c : ℚ} {calendar : MarketCalendar}
    {ctx : ValidationContext (Extended ℚ)} (ha : s.maxPositionPct = .fin a)
    (hb : s.maxTotalExposurePct = .fin b) (hc : ctx.accountCapitalUsd = .fin c)
    (hprice : p.referencePriceUsd = .posInf ∨
      (∃ r, p.referencePriceUsd = .fin r) ∧ ctx.totalExposureUsd.BoundedBelow)
    (hrules : ∀ rule ∈ buildRiskManager s calendar, rule.Holds p ctx) : WithinCaps s p ctx := by
  obtain ⟨n, hn, hposition⟩ := positionSizeRule_holds_iff.mp
    (hrules (positionSizeRule s.maxPositionPct) (by simp [buildRiskManager]))
  obtain ⟨n', hn', hexposure⟩ := totalExposureRule_holds_iff.mp
    (hrules (totalExposureRule s.maxTotalExposurePct) (by simp [buildRiskManager]))
  obtain rfl := Except.ok.inj (hn.symm.trans hn')
  rw [ha, hc, limitUsd_fin, lt_extended] at hposition
  rw [hb, hc, limitUsd_fin, lt_extended, add_extended] at hexposure
  rw [WithinCaps, ha, hb, hc, limitUsd_fin, limitUsd_fin]
  have hfits : PyFloat.fits (Extended ℚ) p.quantity = true := by
    by_contra hno
    simp [orderNotionalUsd, floatOfInt, hno] at hn
  rw [orderNotionalUsd_extended hfits, Except.ok.injEq] at hn
  rcases hprice with hinf | ⟨⟨r, hr⟩, hbound⟩
  · have hq : (0 : ℚ) < p.quantity := Int.cast_pos.mpr p.quantity_pos
    rw [hinf, Extended.mul_of_pos hq (by simp)] at hn
    rw [← hn] at hposition
    cases hposition
  · rw [hr, Extended.mul_fin] at hn
    subst hn
    have hsum : (ctx.totalExposureUsd.add (.fin (p.quantity * r))).BoundedBelow :=
      (Extended.boundedBelow_add_iff _ _).mpr ⟨hbound, by simp⟩
    obtain ⟨t, ht, hle⟩ := (Extended.fin_lt_eq_false_iff hsum).mp hexposure
    obtain ⟨e, he, rfl⟩ := add_fin_eq_fin ht
    exact ⟨_, e, _, _, hn', he, rfl, rfl, by simpa using hposition, hle⟩

/-- A context of noon over the given figures, on a day without orders or losses. -/
def quietContext (capital exposure : Extended ℚ) (nextMidnight : UtcDate) :
    ValidationContext (Extended ℚ) :=
  contextOver paperNoon (some (.fin 1)) (.fin 0) capital exposure nextMidnight []

/-- Default settings but for the two caps. -/
def capSettings (maxPositionPct maxTotalExposurePct : ℚ) : Settings (Extended ℚ) where
  maxPositionPct := .fin maxPositionPct
  maxTotalExposurePct := .fin maxTotalExposurePct

/-- In an open market nothing but the two size checks keeps an order from a quiet context. -/
theorem quietContext_accepts {a b : ℚ} {nextMidnight : UtcDate} {notional : Extended ℚ}
    (hn : orderNotionalUsd p = .ok notional)
    (hposition : (limitUsd (.fin a) capital).lt notional = false)
    (hexposure : (limitUsd (.fin b) capital).lt (exposure.add notional) = false) :
    ∃ checks, runChecks p (quietContext capital exposure nextMidnight)
        (buildRiskManager (capSettings a b) fun _ => .ok true) = .ok checks ∧
      allPassed checks = true := by
  rw [runChecks_accepts_iff]
  simp only [buildRiskManager, List.forall_mem_cons]
  refine ⟨?_, ?_, ?_, ?_, ?_, ?_, by simp⟩
  · exact positionSizeRule_holds_iff.mpr ⟨notional, hn, hposition⟩
  · exact totalExposureRule_holds_iff.mpr ⟨notional, hn, hexposure⟩
  · refine maxTradesPerDayRule_holds_iff.mpr ?_
    show (0 : ℤ) < 10
    decide
  · refine dailyDrawdownRule_holds_iff.mpr ?_
    show (Extended.fin (3 : ℚ)).le (drawdownPct (.fin 1) (.fin 0)) = false
    decide +kernel
  · exact ⟨_, rfl, rfl⟩
  · exact idempotencyRule_holds_iff.mpr ⟨List.not_mem_nil, List.not_mem_nil⟩

/-- Account data that are judged give a quiet context. -/
theorem Judged.quietContext (h : Judged reads p capital positions) :
    ∃ exposure nextMidnight, totalExposure (PyFloat.ofInt 0) positions = .ok exposure ∧
      buildValidationContext paperNoon (some (.fin 1)) (.fin 0) reads (.ok ()) [] =
        .ok (quietContext capital exposure nextMidnight) := by
  obtain ⟨summary, hsummary, hcapital⟩ := h.capital_reported
  obtain ⟨exposure, hexposure⟩ := (totalExposure_ok_iff (PyFloat.ofInt 0) positions).mpr
    h.positions_fit
  obtain ⟨nextMidnight, hnext⟩ : ∃ d, paperNoon.date.nextDay = some d :=
    Option.isSome_iff_exists.mp (by decide +kernel)
  have hsnapshot : accountSnapshot paperNoon reads = .ok (capital, exposure, nextMidnight) :=
    accountSnapshot_ok_iff.mpr ⟨summary, positions, hsummary, hcapital ▸ h.capital_passes,
      h.positions_reported, hcapital.symm, hexposure, hnext⟩
  refine ⟨exposure, nextMidnight, hexposure, ?_⟩
  rw [buildValidationContext, hsnapshot]
  rfl

/-- With caps that let the order through a quiet context, the caps hold of numbers. -/
theorem FailsClosed.caps (h : FailsClosed reads p) (hj : Judged reads p capital positions) :
    ∃ exposure nextMidnight, totalExposure (PyFloat.ofInt 0) positions = .ok exposure ∧
      ∀ a b : ℚ,
        (limitUsd (.fin a) capital).lt
          ((Extended.fin (p.quantity : ℚ)).mul p.referencePriceUsd) = false →
        (limitUsd (.fin b) capital).lt
          (exposure.add ((Extended.fin (p.quantity : ℚ)).mul p.referencePriceUsd)) = false →
        WithinCaps (capSettings a b) p (quietContext capital exposure nextMidnight) := by
  obtain ⟨exposure, nextMidnight, hexposure, hcontext⟩ := hj.quietContext
  refine ⟨exposure, nextMidnight, hexposure, fun a b hposition htotal => ?_⟩
  exact h (capSettings a b) a b _ _ _ _ _ _ _ rfl rfl hcontext
    (quietContext_accepts (orderNotionalUsd_extended hj.quantity_fits) hposition htotal)

/-- A limit that is no number is exceeded by nothing. -/
theorem FailsClosed.capital_fin (h : FailsClosed reads p)
    (hj : Judged reads p capital positions) : ∃ c, capital = .fin c := by
  obtain ⟨exposure, nextMidnight, -, hcaps⟩ := h.caps hj
  cases capital with
  | fin c => exact ⟨c, rfl⟩
  | negInf => cases hj.capital_passes
  | posInf =>
    have hlimit : limitUsd (Extended.fin (2 : ℚ)) .posInf = .posInf := by decide +kernel
    obtain ⟨_, _, _, _, -, -, hfin, -⟩ := hcaps 2 2 (by rw [hlimit]; simp) (by rw [hlimit]; simp)
    exact absurd (hlimit.symm.trans hfin) (by simp)
  | nan =>
    have hlimit : limitUsd (Extended.fin (2 : ℚ)) .nan = .nan := by decide +kernel
    obtain ⟨_, _, _, _, -, -, hfin, -⟩ := hcaps 2 2 (by rw [hlimit]; simp) (by rw [hlimit]; simp)
    exact absurd (hlimit.symm.trans hfin) (by simp)

theorem FailsClosed.reference_ne_nan (h : FailsClosed reads p)
    (hj : Judged reads p capital positions) : p.referencePriceUsd ≠ .nan := by
  intro hnan
  obtain ⟨exposure, nextMidnight, -, hcaps⟩ := h.caps hj
  have hn := orderNotionalUsd_extended hj.quantity_fits
  have hq : (0 : ℚ) < p.quantity := Int.cast_pos.mpr p.quantity_pos
  have hmul : (Extended.fin (p.quantity : ℚ)).mul .nan = .nan := Extended.mul_of_pos hq (by simp)
  have hadd : exposure.add .nan = .nan := by cases exposure <;> rfl
  rw [hnan, hmul] at hcaps hn
  obtain ⟨n, _, _, _, hfin, -⟩ := hcaps 2 2 (by simp) (by rw [hadd]; simp)
  rw [hn] at hfin
  cases hfin

/-- An exposure that is NaN or minus infinity exceeds no limit. -/
theorem FailsClosed.prices (h : FailsClosed reads p) (hj : Judged reads p capital positions)
    {r : ℚ} (hr : p.referencePriceUsd = .fin r) : ∀ q ∈ positions,
      (∃ x, q.avgPriceUsd = .fin x) ∨ q.avgPriceUsd = .posInf ∧ q.quantity ≠ 0 := by
  obtain ⟨c, rfl⟩ := h.capital_fin hj
  obtain ⟨exposure, nextMidnight, hexposure, hcaps⟩ := h.caps hj
  have hc : 0 < c := by simpa using hj.capital_passes
  have hbound := totalExposure_boundedBelow_iff hexposure
  by_contra hprices
  have hopen : ¬ exposure.BoundedBelow := fun hb => hprices (hbound.mp hb).2
  have hposition : (limitUsd (Extended.fin (100 * (p.quantity * r) / c)) (.fin c)).lt
      ((Extended.fin (p.quantity : ℚ)).mul p.referencePriceUsd) = false := by
    rw [hr, limitUsd_fin, Extended.mul_fin, Extended.lt_fin, decide_eq_false_iff_not, not_lt]
    apply le_of_eq
    field_simp
  have htotal : (limitUsd (Extended.fin (2 : ℚ)) (.fin c)).lt
      (exposure.add ((Extended.fin (p.quantity : ℚ)).mul p.referencePriceUsd)) = false := by
    rw [hr, Extended.mul_fin, limitUsd_fin]
    cases hexp : exposure with
    | fin e => exact absurd (Or.inl ⟨e, hexp⟩) hopen
    | posInf => exact absurd (Or.inr hexp) hopen
    | negInf | nan => rfl
  obtain ⟨_, e, _, _, -, he, -⟩ := hcaps _ 2 hposition htotal
  exact hopen (Or.inl ⟨e, he⟩)

/-- Account data that fail closed leave no figure at which a comparison goes wrong. -/
theorem FailsClosed.finite (h : FailsClosed reads p) (hj : Judged reads p capital positions) :
    (∃ c, capital = .fin c) ∧ (p.referencePriceUsd = .posInf ∨
      (∃ r, p.referencePriceUsd = .fin r) ∧ ∀ q ∈ positions,
        (∃ x, q.avgPriceUsd = .fin x) ∨ q.avgPriceUsd = .posInf ∧ q.quantity ≠ 0) := by
  refine ⟨h.capital_fin hj, ?_⟩
  rcases reference_cases p with ⟨r, hr⟩ | hinf | hnan
  · exact Or.inr ⟨⟨r, hr⟩, h.prices hj hr⟩
  · exact Or.inl hinf
  · exact absurd hnan (h.reference_ne_nan hj)

/-- Account data fail closed exactly if there is nothing to judge, or the capital is a number,
and the reference price is one too unless it is infinite, and no position's price is NaN, minus
infinity or, for no shares, infinite. -/
theorem failsClosed_iff (reads : BrokerReads (Extended ℚ)) (p : ProposedOrder (Extended ℚ)) :
    FailsClosed reads p ↔ ∀ capital positions, Judged reads p capital positions →
      (∃ c, capital = .fin c) ∧ (p.referencePriceUsd = .posInf ∨
        (∃ r, p.referencePriceUsd = .fin r) ∧ ∀ q ∈ positions,
          (∃ x, q.avgPriceUsd = .fin x) ∨ q.avgPriceUsd = .posInf ∧ q.quantity ≠ 0) := by
  constructor
  · exact fun h capital positions hj => h.finite hj
  · intro h s a b calendar now peak pnl autoflush orders ctx ha hb hctx haccept
    obtain ⟨capital, exposure, nextMidnight, hsnapshot, -, rfl⟩ := buildValidationContext_ok hctx
    obtain ⟨summary, positions, hsummary, hpass, hpositions, rfl, hexposure, -⟩ :=
      accountSnapshot_ok_iff.mp hsnapshot
    have hrules := (runChecks_accepts_iff _ _ _).mp haccept
    obtain ⟨n, hn, -⟩ := positionSizeRule_holds_iff.mp
      (hrules (positionSizeRule s.maxPositionPct) (by simp [buildRiskManager]))
    have hfits : PyFloat.fits (Extended ℚ) p.quantity = true := by
      by_contra hno
      simp [orderNotionalUsd, floatOfInt, hno] at hn
    obtain ⟨⟨c, hc⟩, hprice⟩ := h _ positions ⟨⟨summary, hsummary, rfl⟩, hpass, hpositions,
      (totalExposure_ok_iff _ _).mp ⟨exposure, hexposure⟩, hfits⟩
    have hbound := totalExposure_boundedBelow_iff hexposure
    apply withinCaps_of_finite ha hb hc (hprice.imp_right ?_) hrules
    rintro ⟨hr, hprices⟩
    exact ⟨hr, hbound.mpr ⟨by simp, hprices⟩⟩

/-- `NetLiquidation` reported as `nan`: it is not at most zero, and no notional is greater. -/
theorem nan_capital_fails_open : ¬ ∀ (reads : BrokerReads (Extended ℚ))
    (p : ProposedOrder (Extended ℚ)), FailsClosed reads p := by
  intro h
  let p : ProposedOrder (Extended ℚ) := {
    eventId := "t1:AAPL"
    strategyId := "news"
    tradingMode := .paper
    side := .buy
    orderType := .market
    symbol := "AAPL"
    quantity := 10
    limitPrice := none
    referencePriceUsd := .fin 15
    quantity_pos := by decide
    reference_pos := by decide +kernel }
  obtain ⟨⟨c, hc⟩, -⟩ := (h ⟨.ok [("NetLiquidation", .nan)], .ok []⟩ p).finite
    ⟨⟨_, rfl, rfl⟩, rfl, rfl, by simp, by decide +kernel⟩
  cases hc

end XSocialTrader
