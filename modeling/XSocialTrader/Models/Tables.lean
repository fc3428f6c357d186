import XSocialTrader.Models.Orders
import Mathlib.Data.List.MinMax
import Mathlib.Data.List.Nodup

/-! Rows of the `events`, `rule_evaluations` and `orders` tables, and the constraints that
the database checks when an `orders` row is flushed. -/
namespace XSocialTrader

/-- One enriched signal; `event_id` is unique. -/
structure Event (F : Type) where
  eventId : String
  rawTweetId : ℤ
  llmDecisionId : ℤ
  ticker : String
  intent : String
  confidence : F
  timeHorizon : String
  deriving DecidableEq

/-- The `events` table. -/
structure EventTable (F : Type) where
  rows : List (Event F)
  eventIds_nodup : (rows.map Event.eventId).Nodup

def EventTable.find {F : Type} (events : EventTable F) (eventId : String) : Option (Event F) :=
  events.rows.find? fun row => row.eventId == eventId

theorem EventTable.find_eq_some_iff {F : Type} (events : EventTable F) (eventId : String)
    (event : Event F) :
    events.find eventId = some event ↔ event ∈ events.rows ∧ event.eventId = eventId := by
  unfold EventTable.find
  constructor
  · intro h
    exact ⟨List.mem_of_find?_eq_some h, by simpa using List.find?_some h⟩
  · rintro ⟨hmem, rfl⟩
    cases h : events.rows.find? fun row => row.eventId == event.eventId with
    | none => exact absurd (List.find?_eq_none.mp h event hmem) (by simp)
    | some found =>
      have hid : found.eventId = event.eventId := by simpa using List.find?_some h
      rw [List.inj_on_of_nodup_map events.eventIds_nodup (List.mem_of_find?_eq_some h) hmem hid]

structure RuleEvaluationRow (F : Type) [PyFloat F] where
  eventId : String
  ruleId : String
  rulePriority : ℤ
  inputsHash : String
  inputsJson : PyValue F
  outcome : String
  proposedOrderJson : Option (ProposedOrder F)

structure OrderRow (F : Type) where
  id : ℕ
  idempotencyKey : String
  eventId : String
  strategyId : String
  externalId : Option String
  tradingMode : String
  side : String
  orderType : String
  symbol : String
  quantity : ℤ
  limitPrice : Option F
  createdAt : String
  deriving DecidableEq

namespace OrderRow

variable {F : Type}

/-- The CHECK constraints of `Order.__table_args__`, by name. -/
def checks (row : OrderRow F) : List (String × Bool) :=
  [("ck_orders_side_valid", row.side == "buy" || row.side == "sell"),
   ("ck_orders_order_type_valid", row.orderType == "market" || row.orderType == "limit"),
   ("ck_orders_trading_mode_valid", row.tradingMode == "paper" || row.tradingMode == "live"),
   ("ck_orders_quantity_positive", decide (0 < row.quantity)),
   ("ck_orders_limit_price_required_for_limit",
      (row.orderType == "limit" && row.limitPrice.isSome) ||
      (row.orderType == "market" && row.limitPrice.isNone))]

/-- SQLite integers have 64 bits; the driver refuses to bind a larger one. -/
def bindable (row : OrderRow F) : Bool := decide (row.quantity < 2 ^ 63)

/-- The name of the constraint that the row violates against the rows the flush sees. -/
def violation (rows : List (OrderRow F)) (row : OrderRow F) : Option String :=
  match row.checks.find? (fun c => !c.2) with
  | some c => some c.1
  | none =>
    if rows.any (fun r => r.idempotencyKey == row.idempotencyKey) then
      some "ix_orders_idempotency_key"
    else none

end OrderRow

/-- Flush of one `orders` row. -/
def insertOrder {F : Type} (rows : List (OrderRow F)) (row : OrderRow F) :
    Except PyExc (List (OrderRow F)) :=
  if row.bindable then
    match row.violation rows with
    | some constraint => .error (.integrityError constraint)
    | none => .ok (rows ++ [row])
  else .error .overflowError

section Insert

variable {F : Type} [PyFloat F]

/-- SQLite stores a NaN as NULL. -/
def bindFloat (x : F) : Option F := if PyFloat.eq x x then some x else none

/-- The primary key of the next row. -/
def nextOrderId (rows : List (OrderRow F)) : ℕ := (rows.map OrderRow.id).foldr max 0 + 1

omit [PyFloat F] in
theorem nextOrderId_notMem (rows : List (OrderRow F)) :
    nextOrderId rows ∉ rows.map OrderRow.id := by
  intro hmem
  have hle : nextOrderId rows ≤ (rows.map OrderRow.id).foldr max 0 :=
    List.le_max_of_le' 0 hmem le_rfl
  unfold nextOrderId at hle
  omega

/-- The `orders` row that `submit` adds after the broker call. -/
def orderRow (rows : List (OrderRow F)) (p : ProposedOrder F) (receipt : OrderReceipt)
    (createdAt : UtcDateTime) : OrderRow F where
  id := nextOrderId rows
  idempotencyKey := computeIdempotencyKey p.eventId p.strategyId
  eventId := p.eventId
  strategyId := p.strategyId
  externalId := some receipt.externalId
  tradingMode := p.tradingMode.value
  side := p.side.value
  orderType := p.orderType.value
  symbol := p.symbol
  quantity := p.quantity
  limitPrice := p.limitPrice.bind bindFloat
  createdAt := createdAt.currentTimestamp

/-- What no stage before the broker call checks: the quantity fits the column and a limit
price is stored exactly for limit orders. -/
def Storable (p : ProposedOrder F) : Prop :=
  p.quantity < 2 ^ 63 ∧
    (p.orderType = .limit ↔ (p.limitPrice.bind bindFloat).isSome = true)

instance (p : ProposedOrder F) : Decidable (Storable p) := by
  unfold Storable
  infer_instance

theorem orderRow_violation (rows rows' : List (OrderRow F)) (p : ProposedOrder F)
    (receipt : OrderReceipt) (t : UtcDateTime) :
    (orderRow rows' p receipt t).violation rows = none ↔
      (p.orderType = .limit ↔ (p.limitPrice.bind bindFloat).isSome = true) ∧
      ∀ r ∈ rows, r.idempotencyKey ≠ computeIdempotencyKey p.eventId p.strategyId := by
  have hq := p.quantity_pos
  cases hl : p.limitPrice.bind bindFloat <;> cases ho : p.orderType <;>
    cases hm : p.tradingMode <;> cases hs : p.side <;>
    simp [OrderRow.violation, OrderRow.checks, orderRow, hl, ho, hm, hs, hq,
      OrderType.value, TradingMode.value, OrderSide.value]

/-- The flush accepts the row exactly when the order is storable and its key is unused. -/
theorem insertOrder_ok_iff (rows rows' : List (OrderRow F)) (p : ProposedOrder F)
    (receipt : OrderReceipt) (t : UtcDateTime) (out : List (OrderRow F)) :
    insertOrder rows (orderRow rows' p receipt t) = .ok out ↔
      Storable p ∧
      (∀ r ∈ rows, r.idempotencyKey ≠ computeIdempotencyKey p.eventId p.strategyId) ∧
      out = rows ++ [orderRow rows' p receipt t] := by
  have hv := orderRow_violation rows rows' p receipt t
  unfold insertOrder OrderRow.bindable
  by_cases hq : p.quantity < 2 ^ 63
  · rw [if_pos (decide_eq_true (p := (orderRow rows' p receipt t).quantity < 2 ^ 63) hq)]
    cases hw : (orderRow rows' p receipt t).violation rows with
    | some c =>
      have hne : ¬ ((p.orderType = .limit ↔ (p.limitPrice.bind bindFloat).isSome = true) ∧
          ∀ r ∈ rows, r.idempotencyKey ≠ computeIdempotencyKey p.eventId p.strategyId) :=
        fun h => by simp [hv.mpr h] at hw
      simp only [reduceCtorEq, false_iff]
      rintro ⟨⟨-, hs⟩, hk, -⟩
      exact hne ⟨hs, hk⟩
    | none =>
      obtain ⟨hs, hk⟩ := hv.mp hw
      simp only [Except.ok.injEq]
      exact ⟨fun h => ⟨⟨hq, hs⟩, hk, h.symm⟩, fun h => h.2.2.symm⟩
  · rw [if_neg fun h =>
      hq (of_decide_eq_true (p := (orderRow rows' p receipt t).quantity < 2 ^ 63) h)]
    simp only [reduceCtorEq, false_iff]
    rintro ⟨⟨hlt, -⟩, -⟩
    exact hq hlt

end Insert

end XSocialTrader
