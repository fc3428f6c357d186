import XSocialTrader.Risk.Rules

/-! `build_validation_context`: a snapshot of the account and of the orders table, taken
before the order that it judges. Open orders are not part of it. -/
namespace XSocialTrader

/-- What the broker answers to the two reads of one snapshot. -/
structure BrokerReads (F : Type) where
  accountSummary : Except PyExc (List (String × F))
  positions : Except PyExc (List (Position F))

variable {F : Type} [PyFloat F]

/-- `float(summary.get("NetLiquidation", 0.0))`. -/
def netLiquidation (summary : List (String × F)) : F :=
  (summary.lookup "NetLiquidation").getD (PyFloat.ofInt 0)

/-- `sum(abs(p.quantity) * p.avg_price_usd for p in positions)`, from the left. -/
def totalExposure : F → List (Position F) → Except PyExc F
  | acc, [] => .ok acc
  | acc, p :: ps => match floatOfInt (F := F) |p.quantity| with
    | .error e => .error e
    | .ok q => totalExposure (PyFloat.add acc (PyFloat.mul q p.avgPriceUsd)) ps

/-- `created_at >= midnight_utc` and `created_at < next_midnight`, as SQLite compares them. -/
def OrderRow.createdWithin (midnight nextMidnight : UtcDate) (row : OrderRow F) : Bool :=
  !decide (sqlTextLt row.createdAt (midnightText midnight)) &&
    decide (sqlTextLt row.createdAt (midnightText nextMidnight))

/-- The fields of a context over given account figures. -/
def contextOver (now : UtcDateTime) (dailyPeakUsd : Option F) (dailyPnlUsd : F)
    (capital exposure : F) (nextMidnight : UtcDate) (orders : List (OrderRow F)) :
    ValidationContext F where
  now := now
  accountCapitalUsd := capital
  totalExposureUsd := exposure
  tradesToday := orders.countP (OrderRow.createdWithin now.date nextMidnight)
  dailyPnlUsd := dailyPnlUsd
  dailyPeakUsd := dailyPeakUsd.getD capital
  seenEventIds := orders.map OrderRow.eventId
  seenIdempotencyKeys := orders.map OrderRow.idempotencyKey

/-- The account figures and the end of the day: what precedes the first select. -/
def accountSnapshot (now : UtcDateTime) (reads : BrokerReads F) : Except PyExc (F × F × UtcDate) :=
  match reads.accountSummary with
  | .error e => .error e
  | .ok summary =>
    if PyFloat.le (netLiquidation summary) (PyFloat.ofInt 0) then .error .validationContextError
    else match reads.positions with
      | .error e => .error e
      | .ok positions => match totalExposure (PyFloat.ofInt 0) positions with
        | .error e => .error e
        | .ok exposure => match now.date.nextDay with
          | none => .error .overflowError
          | some nextMidnight => .ok (netLiquidation summary, exposure, nextMidnight)

/-- `build_validation_context`. The first select flushes what the session holds. -/
def buildValidationContext (now : UtcDateTime) (dailyPeakUsd : Option F) (dailyPnlUsd : F)
    (reads : BrokerReads F) (autoflush : Except PyExc Unit) (orders : List (OrderRow F)) :
    Except PyExc (ValidationContext F) :=
  match accountSnapshot now reads with
  | .error e => .error e
  | .ok (capital, exposure, nextMidnight) => match autoflush with
    | .error e => .error e
    | .ok () => .ok (contextOver now dailyPeakUsd dailyPnlUsd capital exposure nextMidnight orders)

/-- The snapshot's figures, and what has to go right for there to be any. -/
theorem accountSnapshot_ok_iff {now : UtcDateTime} {reads : BrokerReads F} {capital exposure : F}
    {nextMidnight : UtcDate} :
    accountSnapshot now reads = .ok (capital, exposure, nextMidnight) ↔
      ∃ summary positions, reads.accountSummary = .ok summary ∧
        PyFloat.le (netLiquidation summary) (PyFloat.ofInt 0) = false ∧
        reads.positions = .ok positions ∧ capital = netLiquidation summary ∧
        totalExposure (PyFloat.ofInt 0) positions = .ok exposure ∧
        now.date.nextDay = some nextMidnight := by
  constructor
  · intro h
    unfold accountSnapshot at h
    split at h
    · exact absurd h (by simp)
    next summary hs =>
      split_ifs at h with hle
      split at h
      · exact absurd h (by simp)
      next positions hp =>
        split at h
        · exact absurd h (by simp)
        next x hx =>
          split at h
          · exact absurd h (by simp)
          next d hd =>
            simp only [Except.ok.injEq, Prod.mk.injEq] at h
            obtain ⟨rfl, rfl, rfl⟩ := h
            exact ⟨summary, positions, hs, Bool.eq_false_iff.mpr hle, hp, rfl, hx, hd⟩
  · rintro ⟨summary, positions, hs, hle, hp, rfl, hx, hd⟩
    simp [accountSnapshot, hs, hle, hp, hx, hd]

theorem accountSnapshot_ok {now : UtcDateTime} {reads : BrokerReads F} {capital exposure : F}
    {nextMidnight : UtcDate}
    (h : accountSnapshot now reads = .ok (capital, exposure, nextMidnight)) :
    ∃ summary positions, reads.accountSummary = .ok summary ∧ reads.positions = .ok positions ∧
      capital = netLiquidation summary ∧
      totalExposure (PyFloat.ofInt 0) positions = .ok exposure ∧
      now.date.nextDay = some nextMidnight := by
  obtain ⟨summary, positions, hs, -, hp, hrest⟩ := accountSnapshot_ok_iff.mp h
  exact ⟨summary, positions, hs, hp, hrest⟩

/-- A context that could be built is the one over the snapshot's figures. -/
theorem buildValidationContext_ok {now : UtcDateTime} {peak : Option F} {pnl : F}
    {reads : BrokerReads F} {autoflush : Except PyExc Unit} {orders : List (OrderRow F)}
    {ctx : ValidationContext F}
    (h : buildValidationContext now peak pnl reads autoflush orders = .ok ctx) :
    ∃ capital exposure nextMidnight,
      accountSnapshot now reads = .ok (capital, exposure, nextMidnight) ∧
      autoflush = .ok () ∧
      ctx = contextOver now peak pnl capital exposure nextMidnight orders := by
  unfold buildValidationContext at h
  split at h
  · exact absurd h (by simp)
  next capital exposure nextMidnight hs =>
    split at h
    · exact absurd h (by simp)
    next => exact ⟨capital, exposure, nextMidnight, hs, rfl, (Except.ok.inj h).symm⟩

theorem buildValidationContext_seen {now : UtcDateTime} {peak : Option F} {pnl : F}
    {reads : BrokerReads F} {autoflush : Except PyExc Unit} {orders : List (OrderRow F)}
    {ctx : ValidationContext F}
    (h : buildValidationContext now peak pnl reads autoflush orders = .ok ctx) :
    ctx.seenEventIds = orders.map OrderRow.eventId ∧
      ctx.seenIdempotencyKeys = orders.map OrderRow.idempotencyKey := by
  obtain ⟨_, _, _, -, -, rfl⟩ := buildValidationContext_ok h
  exact ⟨rfl, rfl⟩

/-- The exposure of a list of positions in exact arithmetic. -/
def exactExposure (positions : List (Position ℚ)) : ℚ :=
  (positions.map fun p => |(p.quantity : ℚ)| * p.avgPriceUsd).sum

theorem totalExposure_rat (acc : ℚ) (positions : List (Position ℚ)) :
    totalExposure acc positions = .ok (acc + exactExposure positions) := by
  induction positions generalizing acc with
  | nil => simp [totalExposure, exactExposure]
  | cons p ps ih =>
    simp only [totalExposure, floatOfInt_rat, ih, exactExposure, List.map_cons, List.sum_cons,
      mul_rat, add_rat, Int.cast_abs, add_assoc]

end XSocialTrader
