import XSocialTrader.Services.RulePipeline

/-! Broker and orders table. The broker call comes before the row is written, so a receipt
keeps its row only if nothing fails between the two. -/
namespace XSocialTrader
open WorkerLoop

variable {F : Type} [PyFloat F]

namespace RulePipeline

variable {r : RulePipeline F} {e : Reading F} {w : World F} {p : ProposedOrder F}

/-- The context that judged a placed order, and that all its rules hold there. -/
theorem Places.context (h : r.Places e w p) : ∃ capital exposure nextMidnight,
    accountSnapshot e.now e.account = .ok (capital, exposure, nextMidnight) ∧
      ∀ rule ∈ r.riskRules, rule.Holds p (contextOver e.now none (PyFloat.ofInt 0) capital exposure
        nextMidnight (w.visibleOrders e)) := by
  obtain ⟨ctx, ⟨-, -, _, _, _, -, -, -, -, hctx⟩, hpass⟩ := h
  obtain ⟨capital, exposure, nextMidnight, hsnap, -, rfl⟩ := buildValidationContext_ok hctx
  exact ⟨capital, exposure, nextMidnight, hsnap, hpass.rules_hold⟩

/-- The broker is called only for an event and a key that no visible row carries. -/
theorem Places.unseen (h : r.Places e w p) : ∀ row ∈ w.visibleOrders e,
    row.eventId ≠ p.eventId ∧
      row.idempotencyKey ≠ computeIdempotencyKey p.eventId p.strategyId := by
  obtain ⟨_, _, _, -, hrules⟩ := h.context
  have hidem := idempotencyRule_holds_iff.mp (hrules _ r.toExecutor.idempotencyRule_mem)
  intro row hrow
  exact ⟨fun h => hidem.1 (List.mem_map.mpr ⟨row, hrow, h⟩),
    fun h => hidem.2 (List.mem_map.mpr ⟨row, hrow, h⟩)⟩

/-- An iteration calls the broker for one proposal at most. -/
theorem Places.unique {q : ProposedOrder F} (hp : r.Places e w p) (hq : r.Places e w q) :
    p = q := by
  obtain ⟨_, ⟨-, -, id, event, out, hid, hevent, hout, hprop, -⟩, -⟩ := hp
  obtain ⟨_, ⟨-, -, id', event', out', hid', hevent', hout', hprop', -⟩, -⟩ := hq
  obtain rfl := Option.some.inj (hid.symm.trans hid')
  obtain rfl := Option.some.inj (hevent.symm.trans hevent')
  obtain rfl := Except.ok.inj (hout.symm.trans hout')
  exact Option.some.inj (hprop.symm.trans hprop')

end RulePipeline

/-- Every receipt has a committed row with its key. -/
def ReceiptsRecorded (w : World F) : Prop :=
  ∀ c ∈ w.broker, ∀ receipt, c.answer = .ok receipt →
    ∃ row ∈ w.orders, row.idempotencyKey = c.order.idempotencyKey

instance (w : World F) : Decidable (ReceiptsRecorded w) :=
  decidable_of_iff (∀ c ∈ w.broker, c.answer.isOk = true →
      ∃ row ∈ w.orders, row.idempotencyKey = c.order.idempotencyKey) <| by
    refine forall₂_congr fun c _ => ?_
    cases c.answer with
    | error e => simp [Except.isOk, Except.toBool]
    | ok receipt => simp [Except.isOk, Except.toBool]

/-- An order that is placed and gets a receipt can be stored and nothing strikes before the
commit has ended, or another session has committed the same key during the call. -/
def KeepsReceipt (r : RulePipeline F) (e : Reading F) (w : World F) : Prop :=
  ∀ p receipt, r.Places e w p → e.placeOrder (validatedOrder p) = .ok receipt →
    (e.atFlush = none ∧ e.atCommit = none ∧ Storable p) ∨
      ∃ row ∈ e.racingOrders,
        row.idempotencyKey = computeIdempotencyKey p.eventId p.strategyId

/-- Rows are never taken out of the table. -/
theorem Effect.orders_subset {r : RulePipeline F} {e : Reading F} {w : World F}
    {c : Control (World F) Exit} (h : Effect r e w c) : w.orders ⊆ c.state.orders := by
  have hvis : w.orders ⊆ w.visibleOrders e := List.subset_append_left _ _
  cases h with
  | quiet c hnone hbroker horders hcount =>
    rcases horders with ho | ho
    · rw [ho]
      exact hvis
    · rw [ho]
      exact List.Subset.trans hvis (List.subset_append_left _ _)
  | persisted p receipt t hplaces hreceipt hpersists hbroker horders hcount =>
    rw [Control.state_next, horders]
    exact List.Subset.trans hvis (List.Subset.trans (List.subset_append_left _ _)
      (List.subset_append_left _ _))
  | lost p t a hplaces hpersists hbroker horders =>
    rw [Control.state_exit, horders]
    exact List.Subset.trans hvis (List.subset_append_left _ _)

/-- Appending one call leaves the receipts recorded exactly when its own receipt is. -/
theorem receiptsRecorded_append {w t : World F} {call : BrokerCall F} (hw : ReceiptsRecorded w)
    (hbroker : t.broker = w.broker ++ [call]) (hsub : w.orders ⊆ t.orders) :
    ReceiptsRecorded t ↔ ∀ receipt, call.answer = .ok receipt →
      ∃ row ∈ t.orders, row.idempotencyKey = call.order.idempotencyKey := by
  constructor
  · intro h
    exact h call (hbroker ▸ List.mem_append_right _ List.mem_cons_self)
  · intro h c hc receipt hreceipt
    rw [hbroker] at hc
    rcases List.mem_append.mp hc with hc | hc
    · obtain ⟨row, hrow, hkey⟩ := hw c hc receipt hreceipt
      exact ⟨row, hsub hrow, hkey⟩
    · rw [List.mem_singleton] at hc
      subst hc
      exact h receipt hreceipt

/-- One iteration keeps the receipts recorded exactly under the condition. -/
theorem Effect.receiptsRecorded_iff {r : RulePipeline F} {e : Reading F} {w : World F}
    {c : Control (World F) Exit} (h : Effect r e w c) (hw : ReceiptsRecorded w) :
    ReceiptsRecorded c.state ↔ KeepsReceipt r e w := by
  have hsub := h.orders_subset
  cases h with
  | quiet c hnone hbroker horders hcount =>
    refine iff_of_true ?_ fun p _ hp => absurd hp (hnone p)
    intro c' hc' receipt hreceipt
    rw [hbroker] at hc'
    obtain ⟨row, hrow, hkey⟩ := hw c' hc' receipt hreceipt
    exact ⟨row, hsub hrow, hkey⟩
  | persisted p receipt t hplaces hreceipt hpersists hbroker horders hcount =>
    refine iff_of_true ?_ ?_
    · apply (receiptsRecorded_append hw hbroker hsub).mpr
      intro receipt' _
      exact ⟨w.newRow e p receipt, by simp [horders], rfl⟩
    · intro q receipt' hq _
      obtain rfl := hplaces.unique hq
      exact Or.inl ⟨hpersists.no_abort.1, hpersists.no_abort.2, hpersists.storable⟩
  | lost p t a hplaces hpersists hbroker horders =>
    rw [Control.state_exit, receiptsRecorded_append hw hbroker hsub]
    -- The row is missing, so only one that another session committed can carry the key.
    have hrace : (∃ row ∈ t.orders, row.idempotencyKey =
        computeIdempotencyKey p.eventId p.strategyId) ↔ ∃ row ∈ e.racingOrders,
          row.idempotencyKey = computeIdempotencyKey p.eventId p.strategyId := by
      constructor
      · rintro ⟨row, hrow, hkey⟩
        rw [horders] at hrow
        rcases List.mem_append.mp hrow with hrow | hrow
        · exact absurd hkey (hplaces.unseen row hrow).2
        · exact ⟨row, hrow, hkey⟩
      · rintro ⟨row, hrow, hkey⟩
        exact ⟨row, horders ▸ List.mem_append_right _ hrow, hkey⟩
    constructor
    · intro h q receipt hq hreceipt
      obtain rfl := hplaces.unique hq
      exact Or.inr (hrace.mp (h receipt hreceipt))
    · intro h receipt hreceipt
      rcases h p receipt hplaces hreceipt with ⟨hflush, hcommit, hstore⟩ | hrow
      · apply hrace.mpr
        by_contra hnone
        refine hpersists ⟨⟨receipt, hreceipt⟩, ⟨hflush, hcommit⟩, hstore, fun row hrow hkey => ?_⟩
        rcases List.mem_append.mp hrow with hrow | hrow
        · exact (hplaces.unseen row hrow).2 hkey
        · exact hnone ⟨row, hrow, hkey⟩
      · exact hrace.mpr hrow

theorem receiptsRecorded_start (queue : List ByteArray) (orders : List (OrderRow F))
    (ruleEvaluations : List (RuleEvaluationRow F)) :
    ReceiptsRecorded (.start queue orders ruleEvaluations) :=
  fun _ hc => absurd hc List.not_mem_nil

/-- In every run, every receipt has its row after every iteration exactly when each
iteration keeps its own receipt. -/
theorem receipts_recorded_iff (r : RulePipeline F) (queue : List ByteArray)
    (orders : List (OrderRow F)) (ruleEvaluations : List (RuleEvaluationRow F))
    (es : List (Reading F)) :
    let w : World F := .start queue orders ruleEvaluations
    (∀ v ∈ visits r.iterate w es, ReceiptsRecorded (r.iterate v.1 v.2).state) ↔
      ∀ v ∈ visits r.iterate w es, KeepsReceipt r v.1 v.2 :=
  visits_keep_iff ReceiptsRecorded (fun v => KeepsReceipt r v.1 v.2)
    (fun e w hw => (r.iterate_effect e w).receiptsRecorded_iff hw)
    (receiptsRecorded_start queue orders ruleEvaluations)

/-- A limit order without a price passes every check before the broker call; the CHECK
constraint then refuses its row. -/
theorem limit_order_without_price_unrecorded : ¬ ∀ (r : RulePipeline ℚ)
    (queue : List ByteArray) (orders : List (OrderRow ℚ))
    (ruleEvaluations : List (RuleEvaluationRow ℚ)) (es : List (Reading ℚ)),
      let w : World ℚ := .start queue orders ruleEvaluations
      ∀ v ∈ visits r.iterate w es, ReceiptsRecorded (r.iterate v.1 v.2).state := by
  intro h
  let w : World ℚ := .start [] [] []
  let e := paperReading "t1:TSLA" (paperRules .limit none) paperNoon
  have hlost := h (paperPipeline 10) [] [] [] [e] (e, w) List.mem_cons_self
  exact absurd hlost (by decide +kernel)

end XSocialTrader
