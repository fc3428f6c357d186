import XSocialTrader.Models.Tables
import Mathlib.Data.List.MinMax

/-! `persist_fill`: one `fills` row for an execution that the broker reports (INV-4). -/
namespace XSocialTrader

/-- Broker-reported execution, one per partial or full fill. -/
structure BrokerFill (F : Type) [PyFloat F] where
  externalFillId : String
  symbol : String
  quantity : ℤ
  price : F
  commissionUsd : F
  filledAt : String
  quantity_pos : 0 < quantity
  price_pos : PyFloat.lt (PyFloat.ofInt 0) price = true

structure FillRow (F : Type) where
  id : ℕ
  orderId : ℕ
  externalFillId : String
  symbol : String
  quantity : ℤ
  price : F
  commissionUsd : F
  filledAt : String

variable {F : Type} [PyFloat F]

namespace FillRow

/-- The NOT NULL and CHECK constraints that a value of a column can violate. -/
def checks (row : FillRow F) : List (String × Bool) :=
  [("fills.price", (bindFloat row.price).isSome),
   ("fills.commission_usd", (bindFloat row.commissionUsd).isSome),
   ("ck_fills_quantity_positive", decide (0 < row.quantity)),
   ("ck_fills_price_positive", PyFloat.lt (PyFloat.ofInt 0) row.price)]

/-- The constraint that the row violates against the rows the flush sees. -/
def violation (fills : List (FillRow F)) (row : FillRow F) : Option String :=
  match row.checks.find? (fun c => !c.2) with
  | some c => some c.1
  | none =>
    if fills.any (fun r => r.externalFillId == row.externalFillId) then
      some "ix_fills_external_fill_id"
    else none

end FillRow

omit [PyFloat F] in
/-- The primary key of the next row. -/
def nextFillId (fills : List (FillRow F)) : ℕ := (fills.map FillRow.id).foldr max 0 + 1

/-- The row that `persist_fill` adds. -/
def fillRow (fills : List (FillRow F)) (brokerFill : BrokerFill F) (dbOrder : OrderRow F) :
    FillRow F where
  id := nextFillId fills
  orderId := dbOrder.id
  externalFillId := brokerFill.externalFillId
  symbol := brokerFill.symbol
  quantity := brokerFill.quantity
  price := brokerFill.price
  commissionUsd := brokerFill.commissionUsd
  filledAt := brokerFill.filledAt

/-- `persist_fill`, up to the flush. -/
def persistFill (brokerFill : BrokerFill F) (dbOrder : OrderRow F) (fills : List (FillRow F)) :
    Except PyExc (FillRow F) :=
  let row := fillRow fills brokerFill dbOrder
  if row.quantity < 2 ^ 63 then
    match row.violation fills with
    | some constraint => .error (.integrityError constraint)
    | none => .ok row
  else .error .overflowError

omit [PyFloat F] in
theorem nextFillId_notMem (fills : List (FillRow F)) : nextFillId fills ∉ fills.map FillRow.id := by
  intro hmem
  have hle : nextFillId fills ≤ (fills.map FillRow.id).foldr max 0 :=
    List.le_max_of_le' 0 hmem le_rfl
  unfold nextFillId at hle
  omega

/-- What a successful call adds: a row of this order, with a new key. -/
theorem persistFill_ok {brokerFill : BrokerFill F} {dbOrder : OrderRow F}
    {fills : List (FillRow F)} {row : FillRow F}
    (h : persistFill brokerFill dbOrder fills = .ok row) :
    row.orderId = dbOrder.id ∧ row.id ∉ fills.map FillRow.id := by
  simp only [persistFill] at h
  split_ifs at h
  split at h
  · cases h
  · obtain rfl := Except.ok.inj h
    exact ⟨rfl, nextFillId_notMem fills⟩

end XSocialTrader
