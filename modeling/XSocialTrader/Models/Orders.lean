import XSocialTrader.Core.Clock

/-! Enumerations and the in-memory shapes of an order on its way from a rule to the
broker. Each shape carries the bounds its schema checks. -/
namespace XSocialTrader

inductive TradingMode where
  | paper | live
  deriving DecidableEq, Repr

inductive OrderSide where
  | buy | sell
  deriving DecidableEq, Repr

inductive OrderType where
  | market | limit
  deriving DecidableEq, Repr

inductive RuleOutcome where
  | matched | skipped | failed
  deriving DecidableEq, Repr

def TradingMode.value : TradingMode → String
  | .paper => "paper"
  | .live => "live"

def OrderSide.value : OrderSide → String
  | .buy => "buy"
  | .sell => "sell"

def OrderType.value : OrderType → String
  | .market => "market"
  | .limit => "limit"

def RuleOutcome.value : RuleOutcome → String
  | .matched => "matched"
  | .skipped => "skipped"
  | .failed => "failed"

/-- Rule-engine output. `reference_price_usd` is the notional basis of the size checks; its
`gt=0.0` refuses what compares as at most zero. -/
structure ProposedOrder (F : Type) [PyFloat F] where
  eventId : String
  strategyId : String
  tradingMode : TradingMode
  side : OrderSide
  orderType : OrderType
  symbol : String
  quantity : ℤ
  limitPrice : Option F
  referencePriceUsd : F
  quantity_pos : 0 < quantity
  reference_pos : PyFloat.le referencePriceUsd (PyFloat.ofInt 0) = false
  deriving DecidableEq

/-- The order as the broker receives it. -/
structure ValidatedOrder (F : Type) where
  idempotencyKey : String
  eventId : String
  strategyId : String
  tradingMode : TradingMode
  side : OrderSide
  orderType : OrderType
  symbol : String
  quantity : ℤ
  limitPrice : Option F
  quantity_pos : 0 < quantity
  deriving DecidableEq

/-- Broker acknowledgement. -/
structure OrderReceipt where
  idempotencyKey : String
  externalId : String
  deriving DecidableEq, Repr

/-- Broker-reported position; shorts have a negative quantity. -/
structure Position (F : Type) where
  symbol : String
  quantity : ℤ
  avgPriceUsd : F
  deriving DecidableEq

/-- `f"{event_id}:{strategy_id}"`. -/
def computeIdempotencyKey (eventId strategyId : String) : String :=
  eventId ++ ":" ++ strategyId

variable {F : Type} [PyFloat F]

/-- The `ValidatedOrder` that `submit` builds from an accepted proposal. -/
def validatedOrder (p : ProposedOrder F) : ValidatedOrder F where
  idempotencyKey := computeIdempotencyKey p.eventId p.strategyId
  eventId := p.eventId
  strategyId := p.strategyId
  tradingMode := p.tradingMode
  side := p.side
  orderType := p.orderType
  symbol := p.symbol
  quantity := p.quantity
  limitPrice := p.limitPrice
  quantity_pos := p.quantity_pos

@[simp] theorem validatedOrder_eventId (p : ProposedOrder F) :
    (validatedOrder p).eventId = p.eventId := rfl

@[simp] theorem validatedOrder_idempotencyKey (p : ProposedOrder F) :
    (validatedOrder p).idempotencyKey = computeIdempotencyKey p.eventId p.strategyId := rfl

end XSocialTrader
