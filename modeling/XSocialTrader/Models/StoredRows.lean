import XSocialTrader.Execution.Fills
import XSocialTrader.Models.AuditStore

/-! The flush of an `orders` row and of a `fills` row is an INSERT into the migrated table:
the same rows are accepted, and the table gains the same row, as its columns store it. -/
namespace XSocialTrader

open Sql Migrations

variable {F : Type}

def textOrNull : Option String → Value F
  | some s => .text s
  | none => .null

/-- A NaN is stored as NULL. -/
def floatOrNull [PyFloat F] (x : F) : Value F := if PyFloat.eq x x then .real x else .null

section Storing

variable [SqlReal F]

/-- A row with its key, its bound columns and its `created_at`. -/
def storedRow (t : Table F) (id : ℤ) (values : List (String × Value F)) (createdAt : String) :
    Row F :=
  t.stored fun name =>
    if name = "id" then .int id
    else if name = "created_at" then .text createdAt
    else (values.lookup name).getD .null

/-- The database completes bound columns to the stored row. -/
theorem newRow_eq_storedRow {t : Table F} {rows : List (Row F)}
    {values : List (String × Value F)} {now : String} (hkey : t.primaryKey = "id")
    (hstamp : (t.columns.filter (·.currentTimestamp)).map (·.name) = ["created_at"])
    (hid : values.lookup "id" = none) (hcreated : values.lookup "created_at" = none) :
    t.newRow rows values now = storedRow t (t.nextKey rows) values now := by
  have hany (name : String) : (t.columns.any fun c => c.name == name && c.currentTimestamp) =
      decide (name = "created_at") := by
    have hmem : (∃ c ∈ t.columns, c.currentTimestamp = true ∧ c.name = name) ↔
        name ∈ (t.columns.filter (·.currentTimestamp)).map (·.name) := by
      simp [and_assoc]
    rw [Bool.eq_iff_iff, List.any_eq_true, decide_eq_true_eq, ← List.mem_singleton, ← hstamp,
      ← hmem]
    simp [and_comm]
  rw [Table.newRow, storedRow]
  congr 1
  funext name
  simp only [hkey, hany]
  by_cases h₁ : name = "id"
  · subst h₁
    simp [hid, Value.isNull]
  · by_cases h₂ : name = "created_at"
    · subst h₂
      simp [hcreated]
    · simp [h₁, h₂]

/-- What an INSERT of known columns returns, by what its completed row violates. -/
theorem exec_insert_toOption {t : Table F} {rows : List (Row F)} {row : Row F}
    {values : List (String × Value F)} {now : String} (hcolumns : t.knows values = true)
    (hrow : t.newRow rows values now = row) :
    (t.exec rows (.insert values now)).toOption =
      if t.violation rows row = none then some (rows ++ [row]) else none := by
  simp only [Table.exec, hcolumns, if_true, hrow]
  cases t.violation rows row with
  | none => rfl
  | some name => rfl

/-- Through the driver nothing goes in that it cannot bind. -/
theorem execBound_toOption {t : Table F} {rows : List (Row F)} {row : Row F}
    {values : List (String × Value F)} {now : String} (hcolumns : t.knows values = true)
    (hrow : t.newRow rows values now = row) : (t.execBound rows values now).toOption =
      if (∀ v ∈ values, v.2.Bindable) ∧ t.violation rows row = none then some (rows ++ [row])
      else none := by
  rw [Table.execBound]
  by_cases hbind : ∀ v ∈ values, v.2.Bindable
  · rw [if_pos hbind, exec_insert_toOption hcolumns hrow]
    exact if_congr (and_iff_right hbind).symm rfl rfl
  · rw [if_neg hbind, if_neg fun h => hbind h.1]
    rfl

end Storing

/-- The largest of some keys, from any of them on. -/
theorem foldr_max_cons (key : ℕ) (keys : List ℕ) :
    keys.foldr max key = (key :: keys).foldr max 0 := by
  induction keys with
  | nil => simp
  | cons k keys ih => simp only [List.foldr_cons, ih, max_left_comm]

/-- Keys that count up from the largest one count alike on both sides. -/
theorem nextKey_map {α : Type} {t : Table F} {stored : α → Row F} (id : α → ℕ)
    (hkey : ∀ a, t.keyOf (stored a) = id a) (rows : List α) :
    t.nextKey (rows.map stored) = ((rows.map id).foldr max 0 + 1 : ℕ) := by
  cases rows with
  | nil => rfl
  | cons row rows =>
    rw [List.map_cons, List.map_cons, ← foldr_max_cons, Table.nextKey, List.map_map, hkey]
    push_cast
    congr 1
    induction rows with
    | nil => rfl
    | cons row rows ih =>
      simp only [List.map_cons, List.foldr_cons, ih, Nat.cast_max, Function.comp_apply, hkey]

/-- A key that counts on is above all that are there. -/
theorem lt_foldr_max_succ {keys : List ℕ} {key : ℕ} (h : key ∈ keys) :
    key < keys.foldr max 0 + 1 :=
  Nat.lt_succ_of_le (List.le_max_of_le' 0 h le_rfl)

namespace OrderRow

/-- The columns that the INSERT of an order binds; `orderRow` has made a NaN a NULL. -/
def values (row : OrderRow F) : List (String × Value F) :=
  [("idempotency_key", .text row.idempotencyKey), ("event_id", .text row.eventId),
    ("strategy_id", .text row.strategyId), ("external_id", textOrNull row.externalId),
    ("trading_mode", .text row.tradingMode), ("side", .text row.side),
    ("order_type", .text row.orderType), ("symbol", .text row.symbol),
    ("quantity", .int row.quantity),
    ("limit_price", (row.limitPrice.map Value.real).getD .null)]

end OrderRow

theorem textOrNull_bindable (s : Option String) : (textOrNull s : Value F).Bindable := by
  cases s <;> trivial

theorem OrderRow.values_bindable (row : OrderRow F) :
    (∀ v ∈ row.values, v.2.Bindable) ↔ InRange row.quantity := by
  have hprice : ((row.limitPrice.map Value.real).getD .null).Bindable := by
    cases row.limitPrice <;> trivial
  have htext (s : String) : (Value.text s : Value F).Bindable := trivial
  simp only [values, List.forall_mem_cons, htext, textOrNull_bindable, hprice, List.not_mem_nil,
    false_implies, implies_true, and_true, true_and]
  rfl

variable [PyFloat F] [SqlFormat F]

/-- The `orders` table of the migrated database. -/
def ordersStore : Table F := migrated.tableOf "orders" ordersTable

def OrderRow.stored (row : OrderRow F) : Row F :=
  storedRow ordersStore row.id row.values row.createdAt

theorem ordersStore_uniques : (ordersStore : Table F).uniques =
    [("pk_orders", ["id"]), ("ix_orders_idempotency_key", ["idempotency_key"])] := by
  rw [ordersStore, tableOf_uniques]
  simp [ordersTable, uniqueIndexes]

theorem newRow_orders {rows : List (OrderRow F)} {row : OrderRow F}
    (hid : row.id = nextOrderId rows) :
    (ordersStore : Table F).newRow (rows.map OrderRow.stored) row.values row.createdAt =
      row.stored := by
  rw [newRow_eq_storedRow rfl rfl rfl rfl, nextKey_map OrderRow.id fun _ => rfl,
    OrderRow.stored, hid]
  rfl

/-- The CHECKs of the migration are those that the flush of a row is modelled with. -/
theorem OrderRow.admits_stored (row : OrderRow F) :
    (ordersStore : Table F).Admits row.stored ↔ row.checks.find? (fun c => !c.2) = none := by
  have hchecks : (∀ c ∈ (ordersStore : Table F).checks, c.2.eval row.stored ≠ some false) ↔
      row.checks.find? (fun c => !c.2) = none := by
    have htype : row.stored "order_type" = .text row.orderType := rfl
    have hside : row.stored "side" = .text row.side := rfl
    have hmode : row.stored "trading_mode" = .text row.tradingMode := rfl
    have hquantity : row.stored "quantity" = .int row.quantity := rfl
    have hprice : (row.stored "limit_price").isNull = row.limitPrice.isNone := by
      have hstored : row.stored "limit_price" =
          ((row.limitPrice.map Value.real).getD .null).storeAs .real := rfl
      rw [hstored, Value.isNull_storeAs]
      cases row.limitPrice <;> rfl
    simp only [ordersStore, Catalog.tableOf, ordersTable, List.forall_mem_cons, columnIn,
      Cond.eval_isIn_text htype, Cond.eval_isIn_text hside, Cond.eval_isIn_text hmode]
    simp only [Cond.eval, htype, hquantity, hprice, Value.compare, Operator.onTexts,
      Operator.onInts, checks]
    generalize row.limitPrice = price
    cases price <;> simp <;> tauto
  rw [← hchecks]
  constructor
  · intro h
    exact h.checks
  · intro h
    refine ⟨rfl, ?_, h⟩
    simp only [stored, storedRow, Table.stored, Value.isNull_storeAs]
    simp only [ordersStore, Catalog.tableOf, ordersTable, List.forall_mem_cons]
    simp [column, nullableColumn, timestampColumn, values, Value.isNull, List.lookup_cons]

theorem OrderRow.apart_stored (r row : OrderRow F) :
    (ordersStore : Table F).Apart r.stored row.stored ↔
      r.id ≠ row.id ∧ r.idempotencyKey ≠ row.idempotencyKey := by
  have hid (r : OrderRow F) : r.stored "id" = .int r.id := rfl
  have hkey (r : OrderRow F) : r.stored "idempotency_key" = .text r.idempotencyKey := rfl
  simp [Table.Apart, ordersStore_uniques, Table.conflicts, hid, hkey, Value.compare,
    Operator.onInts, Operator.onTexts]

omit [PyFloat F] [SqlFormat F] in
/-- A quantity below the range of the driver is not positive. -/
theorem OrderRow.bindable_of_violation {rows : List (OrderRow F)} {row : OrderRow F}
    (h : row.violation rows = none) : row.bindable = true ↔ InRange row.quantity := by
  have hpositive : 0 < row.quantity := by
    rw [violation] at h
    cases hc : row.checks.find? fun c => !c.2 with
    | some c => simp [hc] at h
    | none =>
      have hcheck := List.find?_eq_none.mp hc ("ck_orders_quantity_positive",
        decide (0 < row.quantity)) (by simp [checks])
      simpa using hcheck
  simp only [bindable, decide_eq_true_eq, InRange]
  omega

/-- The flush of an `orders` row is the INSERT of the driver into the migrated table: it
succeeds on the same tables, and adds the same row. -/
theorem insertOrder_refines {rows : List (OrderRow F)} {row : OrderRow F}
    (hid : row.id = nextOrderId rows) :
    ((ordersStore : Table F).execBound (rows.map OrderRow.stored) row.values
        row.createdAt).toOption =
      (insertOrder rows row).toOption.map (List.map OrderRow.stored) := by
  have hcolumns : (ordersStore : Table F).knows row.values = true := by
    simp [Table.knows, OrderRow.values, ordersStore, Catalog.tableOf, ordersTable, column,
      nullableColumn, timestampColumn]
  have hviolation : (ordersStore : Table F).violation (rows.map OrderRow.stored) row.stored = none ↔
      row.violation rows = none := by
    have hfresh : ∀ r ∈ rows, r.id ≠ row.id := fun r hr heq =>
      nextOrderId_notMem rows (hid ▸ heq ▸ List.mem_map_of_mem hr)
    rw [Table.violation_eq_none, OrderRow.admits_stored, OrderRow.violation, List.forall_mem_map]
    cases row.checks.find? fun c => !c.2 with
    | some c => simp
    | none =>
      simp only [OrderRow.apart_stored, true_and, ite_eq_right_iff, reduceCtorEq, imp_false,
        List.any_eq_true, beq_iff_eq, not_exists, not_and]
      exact ⟨fun h r hr => (h r hr).2, fun h r hr => ⟨hfresh r hr, h r hr⟩⟩
  rw [execBound_toOption hcolumns (newRow_orders hid),
    if_congr (and_congr row.values_bindable hviolation) rfl rfl, insertOrder]
  cases hv : row.violation rows with
  | none =>
    have hbind := OrderRow.bindable_of_violation hv
    by_cases hrange : InRange row.quantity
    · simp [hbind.mpr hrange, hrange, Except.toOption]
    · simp [mt hbind.mp hrange, hrange, Except.toOption]
  | some name => by_cases hbind : row.bindable = true <;> simp [hbind, Except.toOption]

/-- A first market order. -/
def marketOrder : OrderRow ℚ where
  id := 1
  idempotencyKey := "t1:TSLA:s"
  eventId := "t1:TSLA"
  strategyId := "s"
  externalId := some "x1"
  tradingMode := "paper"
  side := "buy"
  orderType := "market"
  symbol := "TSLA"
  quantity := 3
  limitPrice := none
  createdAt := "2026-04-23 15:36:57"

/-- The next order under an idempotency key. -/
def orderKeyed (idempotencyKey : String) : OrderRow ℚ :=
  { marketOrder with id := 2, idempotencyKey := idempotencyKey }

/-- Its key decides whether a second order goes in. -/
theorem insertOrder_refines_market :
    ((ordersStore : Table ℚ).execBound ([marketOrder].map OrderRow.stored)
        (orderKeyed "t1:TSLA:s").values marketOrder.createdAt).toOption = none ∧
    ((ordersStore : Table ℚ).execBound ([marketOrder].map OrderRow.stored)
        (orderKeyed "t1:TSLA:r").values marketOrder.createdAt).toOption =
      some ([marketOrder, orderKeyed "t1:TSLA:r"].map OrderRow.stored) := by
  have hid (key : String) : (orderKeyed key).id = nextOrderId [marketOrder] := rfl
  exact ⟨insertOrder_refines (hid "t1:TSLA:s"), insertOrder_refines (hid "t1:TSLA:r")⟩

/-! ### Fills -/

namespace FillRow

/-- The columns that the INSERT of a fill binds. -/
def values (row : FillRow F) : List (String × Value F) :=
  [("order_id", .int row.orderId), ("external_fill_id", .text row.externalFillId),
    ("symbol", .text row.symbol), ("quantity", .int row.quantity),
    ("price", floatOrNull row.price), ("commission_usd", floatOrNull row.commissionUsd),
    ("filled_at", .text row.filledAt)]

end FillRow

/-- The `fills` table of the migrated database. -/
def fillsStore : Table F := migrated.tableOf "fills" fillsTable

def FillRow.stored (row : FillRow F) (createdAt : String) : Row F :=
  storedRow fillsStore row.id row.values createdAt

theorem fillsStore_uniques : (fillsStore : Table F).uniques =
    [("pk_fills", ["id"]), ("ix_fills_external_fill_id", ["external_fill_id"])] := by
  rw [fillsStore, tableOf_uniques]
  simp [fillsTable, uniqueIndexes]

/-- The table of the fills and the time of each. -/
def storedFills (fills : List (FillRow F × String)) : List (Row F) :=
  fills.map fun fill => fill.1.stored fill.2

theorem newRow_fills {fills : List (FillRow F × String)} {row : FillRow F} (now : String)
    (hid : row.id = nextFillId (fills.map Prod.fst)) :
    (fillsStore : Table F).newRow (storedFills fills) row.values now = row.stored now := by
  rw [newRow_eq_storedRow rfl rfl rfl rfl, storedFills,
    nextKey_map (fun fill : FillRow F × String => fill.1.id) fun _ => rfl, FillRow.stored, hid,
    nextFillId, List.map_map]
  rfl

omit [SqlFormat F] in
theorem floatOrNull_isNull (x : F) : (floatOrNull x).isNull = (bindFloat x).isNone := by
  unfold floatOrNull bindFloat
  split_ifs <;> rfl

/-- A float is stored in its column as it is bound. -/
theorem storeAs_floatOrNull (x : F) : (floatOrNull x).storeAs .real = floatOrNull x := by
  unfold floatOrNull
  split_ifs <;> rfl

theorem FillRow.admits_stored (row : FillRow F) (now : String) :
    (fillsStore : Table F).Admits (row.stored now) ↔
      row.checks.find? (fun c => !c.2) = none := by
  have hprice : row.stored now "price" = floatOrNull row.price := storeAs_floatOrNull _
  have hcommission : row.stored now "commission_usd" = floatOrNull row.commissionUsd :=
    storeAs_floatOrNull _
  have hquantity : row.stored now "quantity" = .int row.quantity := rfl
  have hnull : (∀ c ∈ (fillsStore : Table F).columns, c.nullable = false →
      (row.stored now c.name).isNull = false) ↔
      (bindFloat row.price).isSome = true ∧ (bindFloat row.commissionUsd).isSome = true := by
    simp only [stored, storedRow, Table.stored, Value.isNull_storeAs]
    simp only [fillsStore, Catalog.tableOf, fillsTable, List.forall_mem_cons, column,
      timestampColumn]
    simp [values, List.lookup_cons, floatOrNull_isNull, Option.isSome_iff_ne_none]
    simp [Value.isNull]
  have hchecks : (bindFloat row.price).isSome = true →
      ((∀ c ∈ (fillsStore : Table F).checks, c.2.eval (row.stored now) ≠ some false) ↔
        PyFloat.lt (PyFloat.ofInt 0) row.price = true ∧ 0 < row.quantity) := by
    intro hsome
    have hreal : floatOrNull row.price = .real row.price := by
      unfold bindFloat at hsome
      unfold floatOrNull
      split_ifs at hsome ⊢ with heq
      · rfl
      · cases hsome
    simp [fillsStore, Catalog.tableOf, fillsTable, Cond.eval, hprice, hreal, hquantity,
      Value.compare, Operator.onReals, Operator.onInts, SqlReal.lt, SqlReal.ofInt]
  simp only [checks, List.find?_eq_none, List.forall_mem_cons]
  constructor
  · intro h
    obtain ⟨hp, hc⟩ := hnull.mp h.notNull
    obtain ⟨hpos, hq⟩ := (hchecks hp).mp h.checks
    simp [hp, hc, hpos, hq]
  · rintro ⟨hp, hc, hq, hpos, -⟩
    simp only [Bool.not_eq_true', Bool.not_eq_false, decide_eq_true_eq] at hp hc hq hpos
    exact ⟨rfl, hnull.mpr ⟨hp, hc⟩, (hchecks hp).mpr ⟨hpos, hq⟩⟩

theorem FillRow.apart_stored (r row : FillRow F) (t now : String) :
    (fillsStore : Table F).Apart (r.stored t) (row.stored now) ↔
      r.id ≠ row.id ∧ r.externalFillId ≠ row.externalFillId := by
  have hid (r : FillRow F) (t : String) : r.stored t "id" = .int r.id := rfl
  have hkey (r : FillRow F) (t : String) :
      r.stored t "external_fill_id" = .text r.externalFillId := rfl
  simp [Table.Apart, fillsStore_uniques, Table.conflicts, hid, hkey, Value.compare,
    Operator.onInts, Operator.onTexts]

/-- `persist_fill` is the INSERT of the driver into the migrated table, for an order with a key
that the database can have given it. -/
theorem persistFill_refines (brokerFill : BrokerFill F) {dbOrder : OrderRow F}
    (hkey : InRange dbOrder.id) (fills : List (FillRow F × String)) (now : String) :
    ((fillsStore : Table F).execBound (storedFills fills)
        (fillRow (fills.map Prod.fst) brokerFill dbOrder).values now).toOption =
      (persistFill brokerFill dbOrder (fills.map Prod.fst)).toOption.map fun row =>
        storedFills (fills ++ [(row, now)]) := by
  set row := fillRow (fills.map Prod.fst) brokerFill dbOrder with hrow
  have hcolumns : (fillsStore : Table F).knows row.values = true := by
    simp [Table.knows, FillRow.values, fillsStore, Catalog.tableOf, fillsTable, column,
      timestampColumn]
  have hbind : (∀ v ∈ row.values, v.2.Bindable) ↔ row.quantity < 2 ^ 63 := by
    have hfloat (x : F) : (floatOrNull x).Bindable := by
      unfold floatOrNull
      split_ifs <;> trivial
    have htext (s : String) : (Value.text s : Value F).Bindable := trivial
    have horder : (Value.int row.orderId : Value F).Bindable := hkey
    have hquantity : (Value.int row.quantity : Value F).Bindable ↔ row.quantity < 2 ^ 63 := by
      have hpos : 0 < row.quantity := brokerFill.quantity_pos
      show InRange row.quantity ↔ _
      unfold InRange
      omega
    simp only [FillRow.values, List.forall_mem_cons, hfloat, htext, horder, hquantity,
      List.not_mem_nil, false_implies, implies_true, and_true, true_and]
  have hviolation : (fillsStore : Table F).violation (storedFills fills) (row.stored now) = none ↔
      row.violation (fills.map Prod.fst) = none := by
    have hfresh : ∀ r ∈ fills, r.1.id ≠ row.id := by
      intro r hr heq
      have hmem : r.1.id ∈ (fills.map Prod.fst).map FillRow.id :=
        List.mem_map_of_mem (List.mem_map_of_mem hr)
      rw [heq] at hmem
      exact nextFillId_notMem (fills.map Prod.fst) hmem
    rw [Table.violation_eq_none, FillRow.admits_stored, FillRow.violation, storedFills,
      List.forall_mem_map]
    cases row.checks.find? fun c => !c.2 with
    | some c => simp
    | none =>
      simp only [FillRow.apart_stored, true_and, ite_eq_right_iff, reduceCtorEq, imp_false,
        List.any_eq_true, List.any_map, Function.comp_apply, beq_iff_eq, not_exists, not_and]
      exact ⟨fun h r hr => (h r hr).2, fun h r hr => ⟨hfresh r hr, h r hr⟩⟩
  rw [execBound_toOption hcolumns (newRow_fills now rfl),
    if_congr (and_congr hbind hviolation) rfl rfl]
  simp only [persistFill, ← hrow]
  by_cases hq : row.quantity < 2 ^ 63
  · rw [if_pos hq]
    cases row.violation (fills.map Prod.fst) with
    | none =>
      rw [if_pos ⟨hq, rfl⟩]
      simp [Except.toOption, storedFills]
    | some name =>
      rw [if_neg (by simp)]
      rfl
  · rw [if_neg hq, if_neg fun h => hq h.1]
    rfl

/-- An execution under the broker's id for it. -/
def paperFill (externalFillId : String) : BrokerFill ℚ where
  externalFillId := externalFillId
  symbol := "TSLA"
  quantity := 3
  price := 100
  commissionUsd := 1
  filledAt := "2026-04-23 15:37:00"
  quantity_pos := by decide
  price_pos := by decide

/-- The fill that is stored under an execution id. -/
def storedFill (id : ℕ) (externalFillId : String) : FillRow ℚ :=
  ⟨id, 1, externalFillId, "TSLA", 3, 100, 1, "2026-04-23 15:37:00"⟩

/-- The second fill goes in unless it is the first one again. -/
theorem persistFill_refines_second :
    ((fillsStore : Table ℚ).execBound (storedFills [(storedFill 1 "f1", "t0")])
        (fillRow [storedFill 1 "f1"] (paperFill "f1") marketOrder).values "t1").toOption = none ∧
    ((fillsStore : Table ℚ).execBound (storedFills [(storedFill 1 "f1", "t0")])
        (fillRow [storedFill 1 "f1"] (paperFill "f2") marketOrder).values "t1").toOption =
      some (storedFills [(storedFill 1 "f1", "t0"), (storedFill 2 "f2", "t1")]) :=
  have hkey : InRange marketOrder.id := by decide
  ⟨persistFill_refines (paperFill "f1") hkey [(storedFill 1 "f1", "t0")] "t1",
    persistFill_refines (paperFill "f2") hkey [(storedFill 1 "f1", "t0")] "t1"⟩

end XSocialTrader
