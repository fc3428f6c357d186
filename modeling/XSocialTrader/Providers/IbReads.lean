import XSocialTrader.Core.FloatValues
import XSocialTrader.Execution.Context
import XSocialTrader.Lib.OrderedDict
import XSocialTrader.Lib.Results
import XSocialTrader.Providers.Ib
import Mathlib.Tactic.Linarith

/-! The two reads of `IBProvider` that a risk context is built from: account values arrive as
texts, positions as floats that are truncated to whole shares. -/
namespace XSocialTrader.Ib

/-- `int(x)` of a float. -/
class PyTrunc (F : Type) where
  trunc : F → Except PyExc ℤ

/-- The whole part, towards zero. -/
def wholePart (x : ℚ) : ℤ := x.num.tdiv x.den

instance : PyTrunc (Extended ℚ) where
  trunc
    | .fin x => .ok (wholePart x)
    | .posInf => .error .overflowError
    | .negInf => .error .overflowError
    | .nan => .error .valueError

/-- An item of `accountSummary`. -/
structure AccountValue where
  tag : String
  value : Option String
  deriving DecidableEq, Repr

/-- An item of `positions`, under the symbol of its contract. -/
structure IbPosition (F : Type) where
  symbol : String
  position : F
  avgCost : F
  deriving DecidableEq

/-- What a session answers for the expected account. -/
structure Answers (F : Type) where
  accountSummary : List AccountValue
  positions : List (IbPosition F)

variable {F : Type}

/-- The items whose value is a number, by what `float` makes of a text. -/
def numericItems (float : String → Option F) (items : List AccountValue) : List (String × F) :=
  items.filterMap fun item => (item.value.bind float).map fun x => (item.tag, x)

/-- `get_account_summary`: other values are skipped, and a later item replaces an earlier one
of its tag. -/
def getAccountSummary (float : String → Option F) (items : List AccountValue) :
    List (String × F) :=
  OrderedDict.ofPairs (numericItems float items)

variable [PyTrunc F]

def position (p : IbPosition F) : Except PyExc (Position F) :=
  (PyTrunc.trunc p.position).map fun quantity => ⟨p.symbol, quantity, p.avgCost⟩

/-- `get_positions`. -/
def getPositions (raw : List (IbPosition F)) : Except PyExc (List (Position F)) :=
  raw.mapM position

/-- The reads of one snapshot through the provider. -/
def State.reads (st : State) (float : String → Option F) (answers : ℕ → Answers F) :
    BrokerReads F :=
  match st.requireConnected with
  | .error _ => ⟨.error .brokerError, .error .brokerError⟩
  | .ok s => ⟨.ok (getAccountSummary float (answers s).accountSummary),
      getPositions (answers s).positions⟩

/-- A position whose numbers are finite. -/
def IbPosition.extended (p : IbPosition ℚ) : IbPosition (Extended ℚ) :=
  ⟨p.symbol, .fin p.position, .fin p.avgCost⟩

/-! ### Whole shares -/

/-- The exposure in whole shares, and the one that the gateway reports. -/
def wholeExposure (raw : List (IbPosition ℚ)) : ℚ :=
  (raw.map fun p => |(wholePart p.position : ℚ)| * p.avgCost).sum

def reportedExposure (raw : List (IbPosition ℚ)) : ℚ :=
  (raw.map fun p => |p.position| * p.avgCost).sum

theorem wholePart_neg (x : ℚ) : wholePart (-x) = -wholePart x := by
  rw [wholePart, wholePart, Rat.num_neg_eq_neg_num, Rat.den_neg_eq_den, Int.neg_tdiv]

theorem wholePart_of_nonneg {x : ℚ} (hx : 0 ≤ x) : wholePart x = ⌊x⌋ := by
  rw [wholePart, Int.tdiv_eq_ediv_of_nonneg (Rat.num_nonneg.mpr hx), Rat.floor_def']

/-- Truncation rounds the size of a position down. -/
theorem abs_wholePart (x : ℚ) : |(wholePart x : ℚ)| = ⌊|x|⌋ := by
  have hnonneg {y : ℚ} (hy : 0 ≤ y) : |(wholePart y : ℚ)| = ⌊|y|⌋ := by
    rw [wholePart_of_nonneg hy, abs_of_nonneg hy, abs_of_nonneg]
    exact_mod_cast Int.floor_nonneg.mpr hy
  rcases le_total 0 x with hx | hx
  · exact hnonneg hx
  · have hneg := hnonneg (neg_nonneg.mpr hx)
    rw [wholePart_neg, Int.cast_neg, abs_neg, abs_neg] at hneg
    exact hneg

/-- The part of a share that truncation drops from a position. -/
def dropped (p : IbPosition ℚ) : ℚ := Int.fract |p.position|

theorem reportedExposure_eq (raw : List (IbPosition ℚ)) :
    reportedExposure raw = wholeExposure raw + (raw.map fun p => dropped p * p.avgCost).sum := by
  unfold reportedExposure wholeExposure
  rw [← List.sum_map_add]
  congr 1
  apply List.map_congr_left
  intro p _
  rw [abs_wholePart, ← add_mul, dropped, Int.floor_add_fract]

theorem sum_map_eq_zero_iff {α : Type} {f : α → ℚ} {l : List α} (h : ∀ a ∈ l, 0 ≤ f a) :
    (l.map f).sum = 0 ↔ ∀ a ∈ l, f a = 0 := by
  induction l with
  | nil => simp
  | cons a l ih =>
    rw [List.forall_mem_cons] at h
    have hsum : 0 ≤ (l.map f).sum := List.sum_nonneg (by simpa using h.2)
    rw [List.map_cons, List.sum_cons, add_eq_zero_iff_of_nonneg h.1 hsum, ih h.2,
      List.forall_mem_cons]

theorem dropped_eq_zero_iff (p : IbPosition ℚ) : dropped p = 0 ↔ ∃ n : ℤ, p.position = n := by
  rw [dropped, Int.fract_eq_zero_iff, Set.mem_range]
  constructor
  · rintro ⟨n, hn⟩
    rcases abs_choice p.position with habs | habs
    · exact ⟨n, by rw [hn, habs]⟩
    · refine ⟨-n, ?_⟩
      rw [Int.cast_neg, hn, habs, neg_neg]
  · rintro ⟨n, hn⟩
    exact ⟨|n|, by rw [hn, Int.cast_abs]⟩

/-- With costs that are not negative, whole shares understate the exposure by less than one
share of each position, and by nothing exactly if every fractional position cost nothing. -/
theorem wholeExposure_bounds {raw : List (IbPosition ℚ)} (hcost : ∀ p ∈ raw, 0 ≤ p.avgCost) :
    wholeExposure raw ≤ reportedExposure raw ∧
    reportedExposure raw ≤ wholeExposure raw + (raw.map IbPosition.avgCost).sum ∧
    (wholeExposure raw = reportedExposure raw ↔
      ∀ p ∈ raw, p.avgCost = 0 ∨ ∃ n : ℤ, p.position = n) := by
  have hterm : ∀ p ∈ raw, 0 ≤ dropped p * p.avgCost := fun p hp =>
    mul_nonneg (Int.fract_nonneg _) (hcost p hp)
  have hnonneg : 0 ≤ (raw.map fun p => dropped p * p.avgCost).sum :=
    List.sum_nonneg (by simpa using hterm)
  have hle : (raw.map fun p => dropped p * p.avgCost).sum ≤ (raw.map IbPosition.avgCost).sum := by
    apply List.sum_le_sum
    intro p hp
    exact mul_le_of_le_one_left (hcost p hp) (Int.fract_lt_one _).le
  have hzero : (raw.map fun p => dropped p * p.avgCost).sum = 0 ↔
      ∀ p ∈ raw, dropped p * p.avgCost = 0 := sum_map_eq_zero_iff hterm
  rw [reportedExposure_eq]
  refine ⟨by linarith, by linarith, ?_⟩
  rw [left_eq_add, hzero]
  simp only [mul_eq_zero, dropped_eq_zero_iff, or_comm]

theorem getPositions_finite (raw : List (IbPosition ℚ)) :
    getPositions (raw.map IbPosition.extended) =
      .ok (raw.map fun p => ⟨p.symbol, wholePart p.position, .fin p.avgCost⟩) := by
  unfold getPositions
  induction raw with
  | nil => rfl
  | cons p raw ih =>
    rw [List.map_cons, Results.mapM_cons, ih]
    rfl

/-- The exposure of finite positions, unless a size is too large for a `float`. -/
theorem totalExposure_finite {acc : ℚ} {raw : List (IbPosition ℚ)} {exposure : Extended ℚ}
    (h : totalExposure (.fin acc)
      (raw.map fun p => ⟨p.symbol, wholePart p.position, .fin p.avgCost⟩) = .ok exposure) :
    exposure = .fin (acc + wholeExposure raw) := by
  induction raw generalizing acc with
  | nil => simpa [totalExposure, wholeExposure] using (Except.ok.inj h).symm
  | cons p raw ih =>
    rw [List.map_cons, totalExposure, floatOfInt] at h
    split_ifs at h with hfits
    rw [ih h]
    simp [wholeExposure, Int.cast_abs, add_assoc]

/-- A risk context over the provider comes from a session that is connected to the expected
account. Its capital is the last numeric NetLiquidation, which is not zero or less. Where the
positions and costs are finite its exposure is the one in whole shares: with costs that are not
negative, at most the reported one, and equal to it exactly if every fractional position cost
nothing. -/
theorem context_from_verified_session {cfg : Config} {st : State}
    (h : LabelledRun.Reaches (step cfg) initial st) {float : String → Option (Extended ℚ)}
    {answers : ℕ → Answers (Extended ℚ)} {now : UtcDateTime} {peak : Option (Extended ℚ)}
    {pnl : Extended ℚ} {autoflush : Except PyExc Unit} {orders : List (OrderRow (Extended ℚ))}
    {ctx : ValidationContext (Extended ℚ)}
    (hctx : buildValidationContext now peak pnl (st.reads float answers) autoflush orders =
      .ok ctx) :
    ∃ s, st.requireConnected = .ok s ∧ cfg.expectedAccountId ∈ (st.sessions s).managed ∧
      OrderedDict.lastValue (numericItems float (answers s).accountSummary) "NetLiquidation" =
        some ctx.accountCapitalUsd ∧ ctx.accountCapitalUsd.le (.fin 0) = false ∧
      ∀ raw : List (IbPosition ℚ), (answers s).positions = raw.map IbPosition.extended →
        ctx.totalExposureUsd = .fin (wholeExposure raw) ∧
        ((∀ p ∈ raw, 0 ≤ p.avgCost) → wholeExposure raw ≤ reportedExposure raw ∧
          reportedExposure raw ≤ wholeExposure raw + (raw.map IbPosition.avgCost).sum ∧
          (wholeExposure raw = reportedExposure raw ↔
            ∀ p ∈ raw, p.avgCost = 0 ∨ ∃ n : ℤ, p.position = n)) := by
  obtain ⟨capital, exposure, nextMidnight, hsnap, -, rfl⟩ := buildValidationContext_ok hctx
  obtain ⟨summary, positions, hsummary, hle, hpositions, rfl, hexposure, -⟩ :=
    accountSnapshot_ok_iff.mp hsnap
  unfold State.reads at hsummary hpositions
  cases hread : st.requireConnected with
  | error e => simp [hread] at hsummary
  | ok s =>
    simp only [hread, Except.ok.injEq] at hsummary hpositions
    obtain ⟨-, -, hmanaged⟩ := reads_verified h hread
    have hcapital : OrderedDict.lastValue (numericItems float (answers s).accountSummary)
        "NetLiquidation" = some (netLiquidation summary) := by
      rw [← OrderedDict.lookup_ofPairs]
      rw [← hsummary] at hle ⊢
      unfold netLiquidation getAccountSummary at hle ⊢
      cases hl : (OrderedDict.ofPairs (numericItems float
          (answers s).accountSummary)).lookup "NetLiquidation" with
      | none => simp [hl] at hle
      | some x => rfl
    refine ⟨s, rfl, hmanaged, hcapital, hle, fun raw hraw => ⟨?_, wholeExposure_bounds⟩⟩
    rw [hraw, getPositions_finite, Except.ok.injEq] at hpositions
    subst hpositions
    exact (totalExposure_finite hexposure).trans (by rw [Int.cast_zero, zero_add])

/-- The answers to the run that connects at the second attempt. -/
def paperAnswers : ℕ → Answers (Extended ℚ) := fun _ =>
  ⟨[⟨"NetLiquidation", some " 1.25e5 "⟩, ⟨"Currency", some "USD"⟩],
    [IbPosition.extended ⟨"TSLA", 5 / 2, 100⟩]⟩

def paperReads : BrokerReads (Extended ℚ) := connected.reads extendedOfString paperAnswers

theorem context_from_verified_session_paper : ∃ ctx,
    buildValidationContext paperNoon none (.fin 0) paperReads (.ok ()) [] = .ok ctx ∧
    ∃ s, connected.requireConnected = .ok s ∧
      paper.expectedAccountId ∈ (connected.sessions s).managed ∧
      OrderedDict.lastValue (numericItems extendedOfString (paperAnswers s).accountSummary)
        "NetLiquidation" = some ctx.accountCapitalUsd ∧
      ctx.totalExposureUsd = .fin (wholeExposure [⟨"TSLA", 5 / 2, 100⟩]) := by
  have hok : (buildValidationContext paperNoon none (.fin 0) paperReads (.ok ())
      []).isOk = true := by decide +kernel
  cases hctx : buildValidationContext paperNoon none (.fin 0) paperReads (.ok ()) [] with
  | error e =>
    rw [hctx] at hok
    cases hok
  | ok ctx =>
    have hreached : LabelledRun.Reaches (step paper) initial connected := ⟨secondAttempt, rfl⟩
    obtain ⟨s, hs, hmanaged, hcapital, -, hexposure⟩ := context_from_verified_session hreached hctx
    exact ⟨ctx, rfl, s, hs, hmanaged, hcapital, (hexposure [⟨"TSLA", 5 / 2, 100⟩] rfl).1⟩

end XSocialTrader.Ib
