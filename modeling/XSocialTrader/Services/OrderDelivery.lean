import XSocialTrader.Services.OrderRecords

/-! Which orders a single worker sends to the broker. Each iteration sends the order of the
first matching rule or none, and the rows it leaves behind keep every event from being
ordered again. -/
namespace XSocialTrader
open WorkerLoop

variable {F : Type} [PyFloat F]

/-- Neither Redis, the database nor the rule engine raises before the broker call. -/
structure Undisturbed (r : RulePipeline F) (e : Reading F) (w : World F) : Prop where
  no_abort : e.atKillCheck = none ∧ e.atPop = none ∧ e.beforeSubmit = none
  evaluates : ∀ eventId event, w.poppedId e = some eventId → e.events.find eventId = some event →
    ∃ out, evaluate r.sha256 e.rules.rules event = .ok out ∧
      flushEvaluations (evaluationRows eventId out) = .ok ()

/-- The one order that an iteration owes to the broker. -/
structure Specified (r : RulePipeline F) (e : Reading F) (w : World F) (p : ProposedOrder F) :
    Prop where
  kill_inactive : e.killBefore.state.active = false ∧ e.kill.state.active = false
  first_match : ∃ eventId event rule, w.poppedId e = some eventId ∧ event ∈ e.events.rows ∧
    event.eventId = eventId ∧ FirstMatch e.rules.rules event rule ∧
    p = buildProposedOrder rule event
  not_live : p.tradingMode = .live → r.settings.isLiveTrading = true
  rules_hold : ∃ ctx, buildValidationContext e.now none (PyFloat.ofInt 0) e.account (.ok ())
    (w.visibleOrders e) = .ok ctx ∧ ∀ rule ∈ r.riskRules, rule.Holds p ctx
  unseen : ∀ row ∈ w.visibleOrders e, row.eventId ≠ p.eventId

theorem Executor.permits_iff (x : Executor F) (p : ProposedOrder F) :
    x.permits p = true ↔ (p.tradingMode = .live → x.settings.isLiveTrading = true) := by
  unfold Executor.permits
  cases p.tradingMode <;> cases x.settings.isLiveTrading <;> decide

namespace RulePipeline

variable {r : RulePipeline F} {e : Reading F} {w : World F} {p : ProposedOrder F}

theorem Places.specified (h : r.Places e w p) : Specified r e w p := by
  have hunseen := h.unseen
  obtain ⟨ctx, ⟨-, hkill, id, event, out, hid, hevent, hout, hprop, hctx⟩, hpass⟩ := h
  obtain ⟨hmem, heid⟩ := (e.events.find_eq_some_iff id event).mp hevent
  obtain ⟨rule, hrule, hp⟩ := (evaluate_proposes_iff hout p).mp (Option.bind_eq_some_iff.mp hprop)
  refine ⟨⟨hkill, hpass.kill_inactive⟩, ⟨id, event, rule, hid, hmem, heid, hrule, hp⟩,
    (r.permits_iff p).mp hpass.permitted, ⟨ctx, ?_, hpass.rules_hold⟩,
    fun row hrow => (hunseen row hrow).1⟩
  obtain ⟨capital, exposure, next, hsnap, -, rfl⟩ := buildValidationContext_ok hctx
  simp only [buildValidationContext, hsnap]

/-- Undisturbed, an iteration places exactly the order it owes. -/
theorem places_iff_specified (hq : Undisturbed r e w) :
    r.Places e w p ↔ Specified r e w p := by
  constructor
  · exact Places.specified
  · rintro ⟨⟨hkill, hkill'⟩, ⟨id, event, rule, hid, hmem, heid, hrule, rfl⟩, hlive,
      ⟨ctx, hctx, hrules⟩, -⟩
    have hevent := (e.events.find_eq_some_iff id event).mpr ⟨hmem, heid⟩
    obtain ⟨out, hout, hflush⟩ := hq.evaluates id event hid hevent
    have hprop := (evaluate_proposes_iff hout _).mpr ⟨rule, hrule, rfl⟩
    refine ⟨ctx, ⟨hq.no_abort, hkill, id, event, out, hid, hevent, hout,
      Option.bind_eq_some_iff.mpr hprop, ?_⟩, hkill', (r.permits_iff _).mpr hlive, hrules⟩
    rw [hflush]
    exact hctx

end RulePipeline

/-- The proposals for which an iteration has called the broker. -/
def placedAt (r : RulePipeline F) (v : Reading F × World F) : List (ProposedOrder F) :=
  ((r.iterate v.1 v.2).state.broker.drop v.2.broker.length).map BrokerCall.proposed

/-- An iteration appends one call, for the order it places, or none. -/
theorem Effect.broker {r : RulePipeline F} {e : Reading F} {w : World F}
    {c : Control (World F) Exit} (h : Effect r e w c) :
    (c.state.broker = w.broker ∧ ∀ p, ¬ r.Places e w p) ∨
      ∃ call, c.state.broker = w.broker ++ [call] ∧ r.Places e w call.proposed := by
  cases h with
  | quiet c hnone hbroker horders hcount => exact Or.inl ⟨hbroker, hnone⟩
  | persisted p receipt t hplaces hreceipt hpersists hbroker horders hcount =>
    exact Or.inr ⟨_, hbroker, hplaces⟩
  | lost p t a hplaces hpersists hbroker horders => exact Or.inr ⟨_, hbroker, hplaces⟩

theorem iterate_broker (r : RulePipeline F) (e : Reading F) (w : World F) :
    (r.iterate e w).state.broker.map BrokerCall.proposed =
      w.broker.map BrokerCall.proposed ++ placedAt r (e, w) := by
  rcases (r.iterate_effect e w).broker with ⟨hb, -⟩ | ⟨call, hb, -⟩
  · simp [placedAt, hb]
  · simp [placedAt, hb]

theorem mem_placedAt_iff (r : RulePipeline F) (e : Reading F) (w : World F)
    (p : ProposedOrder F) : p ∈ placedAt r (e, w) ↔ r.Places e w p := by
  rcases (r.iterate_effect e w).broker with ⟨hb, hnone⟩ | ⟨call, hb, hcall⟩
  · simp [placedAt, hb, hnone p]
  · simp only [placedAt, hb, List.drop_left, List.map_singleton, List.mem_singleton]
    constructor
    · rintro rfl
      exact hcall
    · exact fun hp => hp.unique hcall

theorem placedAt_length_le (r : RulePipeline F) (v : Reading F × World F) :
    (placedAt r v).length ≤ 1 := by
  rcases (r.iterate_effect v.1 v.2).broker with ⟨hb, -⟩ | ⟨call, hb, -⟩
  · simp [placedAt, hb]
  · simp [placedAt, hb]

/-- No event is ordered twice, and none that had a row before the run. -/
structure OrderedOnce (orders : List (OrderRow F)) (w : World F) : Prop where
  nodup : (w.broker.map fun c => c.proposed.eventId).Nodup
  disjoint : ∀ c ∈ w.broker, ∀ row ∈ orders, row.eventId ≠ c.proposed.eventId

/-- The report agrees with the rows that the run has added. -/
structure Balanced (orders : List (OrderRow F)) (w : World F) : Prop where
  rows : ∃ new, w.orders = orders ++ new ∧ new.length = w.submitted
  matched_eq : w.submitted + w.rejected = w.matched
  matched_le : w.matched ≤ w.evaluated

/-- The invariant of a single worker that is still in its loop. -/
structure SingleWorkerInv (orders : List (OrderRow F)) (w : World F) : Prop where
  once : OrderedOnce orders w
  balanced : Balanced orders w
  recorded : ∀ c ∈ w.broker, ∃ row ∈ w.orders, row.eventId = c.proposed.eventId

/-- No other session writes to the orders table. -/
def SingleWorker (e : Reading F) : Prop := e.foreignOrders = [] ∧ e.racingOrders = []

theorem SingleWorkerInv.start (queue : List ByteArray) (orders : List (OrderRow F))
    (ruleEvaluations : List (RuleEvaluationRow F)) :
    SingleWorkerInv orders (.start queue orders ruleEvaluations) where
  once := ⟨List.nodup_nil, fun _ hc => absurd hc List.not_mem_nil⟩
  balanced := ⟨⟨[], by simp [World.start], rfl⟩, rfl, le_rfl⟩
  recorded := fun _ hc => absurd hc List.not_mem_nil

/-- Placing one more order keeps the events distinct, since no visible row carries it. -/
theorem SingleWorkerInv.once_append {r : RulePipeline F} {orders : List (OrderRow F)}
    {e : Reading F} {w t : World F} (hw : SingleWorkerInv orders w) (call : BrokerCall F)
    (hplaces : r.Places e w call.proposed) (hbroker : t.broker = w.broker ++ [call]) :
    OrderedOnce orders t := by
  have hunseen : ∀ row ∈ w.orders, row.eventId ≠ call.proposed.eventId := fun row hrow =>
    (hplaces.unseen row (List.mem_append_left _ hrow)).1
  obtain ⟨new, hnew, -⟩ := hw.balanced.rows
  constructor
  · rw [hbroker, List.map_append, List.nodup_append]
    refine ⟨hw.once.nodup, List.nodup_singleton _, fun a ha b hb hab => ?_⟩
    obtain ⟨c, hc, rfl⟩ := List.mem_map.mp ha
    rw [List.map_singleton, List.mem_singleton] at hb
    obtain ⟨row, hrow, hid⟩ := hw.recorded c hc
    exact hunseen row hrow (hid.trans (hab.trans hb))
  · intro c hc row hrow
    rw [hbroker] at hc
    rcases List.mem_append.mp hc with hc | hc
    · exact hw.once.disjoint c hc row hrow
    · rw [List.mem_singleton.mp hc]
      exact hunseen row (hnew ▸ List.mem_append_left _ hrow)

theorem SingleWorkerInv.next {r : RulePipeline F} {orders : List (OrderRow F)}
    {e : Reading F} {w t : World F} (hw : SingleWorkerInv orders w) (he : SingleWorker e)
    (h : Effect r e w (.next t)) : SingleWorkerInv orders t := by
  obtain ⟨hforeign, hracing⟩ := he
  obtain ⟨new, hnew, hlen⟩ := hw.balanced.rows
  have hmat := hw.balanced.matched_eq
  have hle := hw.balanced.matched_le
  have hvis : w.visibleOrders e = w.orders := by
    rw [World.visibleOrders, hforeign, List.append_nil]
  cases h with
  | quiet c hnone hbroker horders hcount =>
    rcases hcount with ⟨_, _, hbad⟩ | ⟨hs, m, n, hmn, hr, hm, hv⟩
    · exact absurd hbad (by simp)
    · simp only [Control.state_next] at hbroker horders hs hr hm hv
      simp only [hvis, hracing, List.append_nil, or_self] at horders
      refine ⟨⟨hbroker ▸ hw.once.nodup, hbroker ▸ hw.once.disjoint⟩,
        ⟨⟨new, horders.trans hnew, hlen.trans hs.symm⟩, by omega, by omega⟩, ?_⟩
      rw [hbroker, horders]
      exact hw.recorded
  | persisted p receipt t hplaces hreceipt hpersists hbroker horders hcount =>
    obtain ⟨hs, hr, hm, hv⟩ := hcount
    rw [hvis, hracing, List.append_nil] at horders
    refine ⟨hw.once_append ⟨p, .ok receipt⟩ hplaces hbroker,
      ⟨⟨new ++ [w.newRow e p receipt], ?_, ?_⟩, by omega, by omega⟩, ?_⟩
    · rw [horders, hnew, List.append_assoc]
    · rw [List.length_append, List.length_singleton, hlen, hs]
    · intro c hc
      rw [hbroker] at hc
      rcases List.mem_append.mp hc with hc | hc
      · obtain ⟨row, hrow, hid⟩ := hw.recorded c hc
        exact ⟨row, horders ▸ List.mem_append_left _ hrow, hid⟩
      · rw [List.mem_singleton.mp hc]
        exact ⟨w.newRow e p receipt, by simp [horders], rfl⟩

theorem SingleWorkerInv.exit {r : RulePipeline F} {orders : List (OrderRow F)}
    {e : Reading F} {w t : World F} {x : Exit} (hw : SingleWorkerInv orders w)
    (he : SingleWorker e) (h : Effect r e w (.exit t x)) :
    OrderedOnce orders t ∧ ∀ reason, x = .returned reason → Balanced orders t := by
  obtain ⟨hforeign, hracing⟩ := he
  obtain ⟨new, hnew, hlen⟩ := hw.balanced.rows
  have hmat := hw.balanced.matched_eq
  have hle := hw.balanced.matched_le
  cases h with
  | quiet c hnone hbroker horders hcount =>
    simp only [Control.state_exit] at hbroker horders hcount
    refine ⟨⟨hbroker ▸ hw.once.nodup, hbroker ▸ hw.once.disjoint⟩, ?_⟩
    rintro reason rfl
    simp only [World.visibleOrders, hforeign, hracing, List.append_nil, or_self] at horders
    rcases hcount with ⟨_, _, hbad⟩ | ⟨hs, m, n, hmn, hr, hm, hv⟩
    · exact absurd hbad (by simp)
    · exact ⟨⟨new, horders.trans hnew, hlen.trans hs.symm⟩, by omega, by omega⟩
  | lost p t a hplaces hpersists hbroker horders =>
    refine ⟨hw.once_append ⟨p, e.placeOrder (validatedOrder p)⟩ hplaces hbroker, ?_⟩
    rintro reason hbad
    exact absurd hbad (by simp)

/-- The invariant runs through the loop of a single worker. -/
theorem singleWorker_run (r : RulePipeline F) (queue : List ByteArray)
    (orders : List (OrderRow F)) (ruleEvaluations : List (RuleEvaluationRow F))
    (es : List (Reading F)) (hsingle : ∀ e ∈ es, SingleWorker e) :
    let out := loop r.iterate (.start queue orders ruleEvaluations) es
    OrderedOnce orders out.1 ∧
      ∀ reason, out.2 = some (.returned reason) → Balanced orders out.1 := by
  intro out
  have h := loop_rule r.iterate (SingleWorkerInv orders)
    (fun t x => OrderedOnce orders t ∧ ∀ reason, x = .returned reason → Balanced orders t)
    (fun v => SingleWorker v.1)
    (fun e w t hw he hb => hw.next he (hb ▸ r.iterate_effect e w))
    (fun e w t x hw he hb => hw.exit he (hb ▸ r.iterate_effect e w))
    (SingleWorkerInv.start queue orders ruleEvaluations)
    (fun v hv => hsingle v.1 (visits_reading_mem hv))
  cases hx : out.2 with
  | none => exact ⟨(h.1 hx).once, fun reason hr => absurd hr (by simp)⟩
  | some x =>
    have hexit := h.2.1 x hx
    exact ⟨hexit.1, fun reason hr => hexit.2 reason (Option.some.inj hr)⟩

/-- A single worker sends the specified orders and no others, orders no event twice, and
reports what it did. -/
theorem orders_exactly_specified (r : RulePipeline F) (queue : List ByteArray)
    (orders : List (OrderRow F)) (ruleEvaluations : List (RuleEvaluationRow F))
    (es : List (Reading F)) (hsingle : ∀ e ∈ es, SingleWorker e)
    (hquiet : ∀ v ∈ visits r.iterate (.start queue orders ruleEvaluations) es,
      Undisturbed r v.1 v.2) :
    let run := visits r.iterate (.start queue orders ruleEvaluations) es
    let out := loop r.iterate (.start queue orders ruleEvaluations) es
    out.1.broker.map BrokerCall.proposed = run.flatMap (placedAt r) ∧
      (∀ v ∈ run, (placedAt r v).length ≤ 1 ∧
        ∀ p, p ∈ placedAt r v ↔ Specified r v.1 v.2 p) ∧
      OrderedOnce orders out.1 ∧
      ∀ reason, out.2 = some (.returned reason) → Balanced orders out.1 := by
  intro run out
  have hlog : out.1.broker.map BrokerCall.proposed = run.flatMap (placedAt r) :=
    loop_log r.iterate (fun w : World F => w.broker.map BrokerCall.proposed) (placedAt r)
      (iterate_broker r)
  have hrun := singleWorker_run r queue orders ruleEvaluations es hsingle
  refine ⟨hlog, fun v hv => ⟨placedAt_length_le r v, fun p => ?_⟩, hrun.1, hrun.2⟩
  rw [mem_placedAt_iff]
  exact RulePipeline.places_iff_specified (hquiet v hv)

theorem paperReading_undisturbed (n : ℤ) (eventId : String) (t : UtcDateTime)
    (w : World ℚ) :
    Undisturbed (paperPipeline n) (paperReading eventId (paperRules .market none) t) w where
  no_abort := ⟨rfl, rfl, rfl⟩
  evaluates id event hid hevent := by
    have hmem := ((paperEvents.find_eq_some_iff id event).mp hevent).1
    rcases List.mem_cons.mp hmem with rfl | hmem
    · exact ⟨_, rfl, rfl⟩
    · rw [List.mem_singleton.mp hmem]
      exact ⟨_, rfl, rfl⟩

/-- An id that is queued twice is ordered once, and the report says so. -/
theorem orders_exactly_specified_repeated :
    let e := paperReading "t1:TSLA" (paperRules .market none) paperNoon
    OrderedOnce [] (loop (paperPipeline 10).iterate (.start [] [] []) [e, e]).1 ∧
      (loop (paperPipeline 10).iterate (.start [] [] []) [e, e]).1.broker.length = 1 := by
  intro e
  have he : ∀ x ∈ [e, e], x = e := by simp
  refine ⟨(orders_exactly_specified (paperPipeline 10) [] [] [] [e, e] ?_ ?_).2.2.1, ?_⟩
  · intro x hx
    rw [he x hx]
    exact ⟨rfl, rfl⟩
  · intro v hv
    rw [he v.1 (visits_reading_mem hv)]
    exact paperReading_undisturbed 10 "t1:TSLA" paperNoon v.2
  · decide +kernel

end XSocialTrader
