import XSocialTrader.Services.OrderDelivery

/-! What the report of `run_rule_pipeline` says about the broker and the orders table, whatever
the other workers write meanwhile. Only an exception separates a receipt from its row, and a run
that an exception ends returns no report. -/
namespace XSocialTrader
open WorkerLoop

variable {F : Type} [PyFloat F]

/-- The call was answered by a receipt, and its row is in the table. -/
def BrokerCall.Recorded (c : BrokerCall F) (orders : List (OrderRow F)) : Prop :=
  ∃ receipt, c.answer = .ok receipt ∧ ∃ row ∈ orders,
    row.externalId = some receipt.externalId ∧ row.eventId = c.proposed.eventId ∧
      row.idempotencyKey = c.order.idempotencyKey

theorem BrokerCall.Recorded.mono {c : BrokerCall F} {orders later : List (OrderRow F)}
    (h : c.Recorded orders) (hsub : orders ⊆ later) : c.Recorded later := by
  obtain ⟨receipt, hreceipt, row, hrow, hfields⟩ := h
  exact ⟨receipt, hreceipt, row, hsub hrow, hfields⟩

/-- No event has been sent to the broker twice, and all calls but those of `lost` are recorded. -/
structure SentOnce (w : World F) (lost : List (BrokerCall F)) : Prop where
  split : ∃ recorded, w.broker = recorded ++ lost ∧ ∀ c ∈ recorded, c.Recorded w.orders
  nodup : (w.broker.map fun c => c.proposed.eventId).Nodup

/-- The invariant of a run that is still in its loop. -/
structure Accounted (w : World F) : Prop where
  sent : SentOnce w []
  submitted_eq : w.submitted = w.broker.length
  matched_eq : w.matched = w.submitted + w.rejected
  matched_le : w.matched ≤ w.evaluated

variable {r : RulePipeline F} {e : Reading F} {w t : World F}

theorem Accounted.start (queue : List ByteArray) (orders : List (OrderRow F))
    (ruleEvaluations : List (RuleEvaluationRow F)) :
    Accounted (.start queue orders ruleEvaluations) where
  sent := ⟨⟨[], rfl, fun _ hc => absurd hc List.not_mem_nil⟩, List.nodup_nil⟩
  submitted_eq := rfl
  matched_eq := rfl
  matched_le := le_rfl

theorem SentOnce.recorded (h : SentOnce w []) : ∀ c ∈ w.broker, c.Recorded w.orders := by
  obtain ⟨recorded, hbroker, hall⟩ := h.split
  rw [List.append_nil] at hbroker
  rwa [hbroker]

/-- A placed order is for an event that no recorded call was about. -/
theorem SentOnce.nodup_append (h : SentOnce w []) {call : BrokerCall F}
    (hplaces : r.Places e w call.proposed) :
    ((w.broker ++ [call]).map fun c => c.proposed.eventId).Nodup := by
  rw [List.map_append, List.nodup_append]
  refine ⟨h.nodup, List.nodup_singleton _, fun a ha b hb hab => ?_⟩
  obtain ⟨c, hc, rfl⟩ := List.mem_map.mp ha
  rw [List.map_singleton, List.mem_singleton] at hb
  obtain ⟨receipt, -, row, hrow, -, hevent, -⟩ := h.recorded c hc
  exact (hplaces.unseen row (List.mem_append_left _ hrow)).1 (hevent.trans (hab.trans hb))

/-- What an iteration without a call leaves of the broker's log. -/
theorem SentOnce.quiet (h : SentOnce w []) (hbroker : t.broker = w.broker)
    (hsub : w.orders ⊆ t.orders) : SentOnce t [] where
  split := ⟨t.broker, by rw [List.append_nil], fun c hc =>
    (h.recorded c (hbroker ▸ hc)).mono hsub⟩
  nodup := hbroker ▸ h.nodup

theorem Accounted.next (hw : Accounted w) (h : Effect r e w (.next t)) : Accounted t := by
  have hsub := h.orders_subset
  have hsubmitted := hw.submitted_eq
  have hmatched := hw.matched_eq
  have hle := hw.matched_le
  cases h with
  | quiet c hnone hbroker horders hcount =>
    rcases hcount with ⟨_, _, hbad⟩ | ⟨hs, m, n, hmn, hr, hm, hv⟩
    · exact absurd hbad (by simp)
    · simp only [Control.state_next] at hbroker hs hr hm hv hsub
      have hlength : t.broker.length = w.broker.length := congrArg List.length hbroker
      exact ⟨hw.sent.quiet hbroker hsub, by omega, by omega, by omega⟩
  | persisted p receipt t hplaces hreceipt hpersists hbroker horders hcount =>
    obtain ⟨hs, hr, hm, hv⟩ := hcount
    rw [Control.state_next] at hsub
    refine ⟨⟨⟨t.broker, by rw [List.append_nil], fun c hc => ?_⟩, ?_⟩, ?_, by omega, by omega⟩
    · rw [hbroker] at hc
      rcases List.mem_append.mp hc with hc | hc
      · exact (hw.sent.recorded c hc).mono hsub
      · rw [List.mem_singleton.mp hc]
        exact ⟨receipt, rfl, w.newRow e p receipt, by simp [horders], rfl, rfl, rfl⟩
    · rw [hbroker]
      exact hw.sent.nodup_append hplaces
    · rw [hbroker, List.length_append, List.length_singleton, hs, hsubmitted]

/-- Where an iteration leaves the loop: with a report that accounts for the run, or with at most
one call unrecorded. -/
theorem Accounted.exit {x : Exit} (hw : Accounted w) (h : Effect r e w (.exit t x)) :
    Accounted t ∨ ∃ a lost, x = .aborted a ∧ lost.length ≤ 1 ∧ SentOnce t lost := by
  have hsub := h.orders_subset
  have hsubmitted := hw.submitted_eq
  have hmatched := hw.matched_eq
  have hle := hw.matched_le
  cases h with
  | quiet c hnone hbroker horders hcount =>
    simp only [Control.state_exit] at hbroker hsub hcount
    rcases hcount with ⟨_, a, habort⟩ | ⟨hs, m, n, hmn, hr, hm, hv⟩
    · obtain ⟨-, rfl⟩ := Control.exit.inj habort
      exact Or.inr ⟨a, [], rfl, Nat.zero_le 1, hw.sent.quiet hbroker hsub⟩
    · have hlength : t.broker.length = w.broker.length := congrArg List.length hbroker
      exact Or.inl ⟨hw.sent.quiet hbroker hsub, by omega, by omega, by omega⟩
  | lost p t a hplaces hpersists hbroker horders =>
    rw [Control.state_exit] at hsub
    refine Or.inr ⟨a, [⟨p, e.placeOrder (validatedOrder p)⟩], rfl, le_rfl,
      ⟨⟨w.broker, hbroker, fun c hc => (hw.sent.recorded c hc).mono hsub⟩, ?_⟩⟩
    rw [hbroker]
    exact hw.sent.nodup_append hplaces

/-- Whatever other workers commit between and during its iterations, a run sends no event to the
broker twice. While it goes on and once it has returned its report, `submitted` counts the calls
of the broker, each with its receipt and its row, `matched` is `submitted` and `rejected`
together and is at most `evaluated`; a run that an exception ends has at most its last call
unrecorded. -/
theorem report_accounts_for_broker (r : RulePipeline F) (queue : List ByteArray)
    (orders : List (OrderRow F)) (ruleEvaluations : List (RuleEvaluationRow F))
    (es : List (Reading F)) :
    let out := loop r.iterate (.start queue orders ruleEvaluations) es
    (out.1.broker.map fun c => c.proposed.eventId).Nodup ∧
      (((∀ a, out.2 ≠ some (.aborted a)) →
        out.1.submitted = out.1.broker.length ∧
        out.1.matched = out.1.submitted + out.1.rejected ∧ out.1.matched ≤ out.1.evaluated ∧
        ∀ c ∈ out.1.broker, c.Recorded out.1.orders) ∧
      ∀ c ∈ out.1.broker.dropLast, c.Recorded out.1.orders) := by
  intro out
  have hrun := loop_rule r.iterate Accounted
    (fun t x => Accounted t ∨ ∃ a lost, x = .aborted a ∧ lost.length ≤ 1 ∧ SentOnce t lost)
    (fun _ => True) (fun e w t hw _ hb => hw.next (hb ▸ r.iterate_effect e w))
    (fun e w t x hw _ hb => hw.exit (hb ▸ r.iterate_effect e w))
    (Accounted.start queue orders ruleEvaluations)
    (fun v (_ : v ∈ visits r.iterate (.start queue orders ruleEvaluations) es) => trivial)
  have hend : Accounted out.1 ∨ ∃ a lost, out.2 = some (.aborted a) ∧ lost.length ≤ 1 ∧
      SentOnce out.1 lost := by
    cases hx : out.2 with
    | none => exact Or.inl (hrun.1 hx)
    | some x => simpa only [Option.some.injEq] using hrun.2.1 x hx
  rcases hend with hacc | ⟨a, lost, habort, hlen, hsent⟩
  · refine ⟨hacc.sent.nodup, fun _ => ?_, fun c hc => ?_⟩
    · exact ⟨hacc.submitted_eq, hacc.matched_eq, hacc.matched_le, hacc.sent.recorded⟩
    · exact hacc.sent.recorded c (List.dropLast_subset _ hc)
  · refine ⟨hsent.nodup, fun h => absurd habort (h a), fun c hc => ?_⟩
    obtain ⟨recorded, hbroker, hall⟩ := hsent.split
    refine hall c ?_
    rw [hbroker] at hc
    rcases lost with _ | ⟨call, _ | ⟨call', lost⟩⟩
    · rw [List.append_nil] at hc
      exact List.dropLast_subset _ hc
    · rwa [List.dropLast_concat] at hc
    · simp at hlen

section Refusing

/-- A row that was there before a run, or that another worker has committed. -/
def ForeignRow (orders : List (OrderRow F)) (es : List (Reading F)) (row : OrderRow F) : Prop :=
  row ∈ orders ∨ ∃ e ∈ es, row ∈ e.foreignOrders ∨ row ∈ e.racingOrders

variable {orders : List (OrderRow F)} {es : List (Reading F)}

theorem ForeignRow.visible (he : e ∈ es) (hw : ∀ row ∈ w.orders, ForeignRow orders es row) :
    ∀ row ∈ w.visibleOrders e ++ e.racingOrders, ForeignRow orders es row := by
  intro row hrow
  rcases List.mem_append.mp hrow with hrow | hrace
  · rcases List.mem_append.mp hrow with hrow | hforeign
    · exact hw row hrow
    · exact Or.inr ⟨e, he, Or.inl hforeign⟩
  · exact Or.inr ⟨e, he, Or.inr hrace⟩

/-- An iteration whose broker gives no receipt adds no row, and a call of that broker ends the
run. -/
theorem Effect.refused {c : Control (World F) Exit} (h : Effect r e w c) (he : e ∈ es)
    (hrefuses : ∀ order receipt, e.placeOrder order ≠ .ok receipt)
    (hw : ∀ row ∈ w.orders, ForeignRow orders es row) :
    (∀ row ∈ c.state.orders, ForeignRow orders es row) ∧
      ((c.state.broker = w.broker ∧
          ((∃ t a, c = .exit t (.aborted a)) ∨ c.state.submitted = w.submitted)) ∨
        ∃ t a call, c = .exit t (.aborted a) ∧ t.broker = w.broker ++ [call]) := by
  have hvisible := ForeignRow.visible he hw
  cases h with
  | quiet c hnone hbroker horders hcount =>
    refine ⟨?_, Or.inl ⟨hbroker, hcount.imp_right And.left⟩⟩
    rcases horders with ho | ho
    · rw [ho]
      exact fun row hrow => hvisible row (List.mem_append_left _ hrow)
    · rwa [ho]
  | persisted p receipt t hplaces hreceipt hpersists hbroker horders hcount =>
    exact absurd hreceipt (hrefuses _ receipt)
  | lost p t a hplaces hpersists hbroker horders =>
    rw [Control.state_exit, horders]
    exact ⟨hvisible, Or.inr ⟨t, a, _, rfl, hbroker⟩⟩

end Refusing

/-- With a broker that answers no order with a receipt, as `IBProvider.place_order` never does
before its phase, a run calls the broker at most once: the call ends the run without a report.
Every row of the orders table was there before or is another worker's. -/
theorem refusing_broker_places_nothing (r : RulePipeline F) (queue : List ByteArray)
    (orders : List (OrderRow F)) (ruleEvaluations : List (RuleEvaluationRow F))
    (es : List (Reading F))
    (hrefuses : ∀ e ∈ es, ∀ order receipt, e.placeOrder order ≠ .ok receipt) :
    let out := loop r.iterate (.start queue orders ruleEvaluations) es
    (∀ row ∈ out.1.orders, ForeignRow orders es row) ∧ out.1.broker.length ≤ 1 ∧
      (out.1.broker ≠ [] → ∃ a, out.2 = some (.aborted a)) ∧
      ((∀ a, out.2 ≠ some (.aborted a)) → out.1.submitted = 0) := by
  intro out
  have hrun := loop_rule r.iterate
    (fun t => (∀ row ∈ t.orders, ForeignRow orders es row) ∧ t.broker = [] ∧ t.submitted = 0)
    (fun t x => (∀ row ∈ t.orders, ForeignRow orders es row) ∧ t.broker.length ≤ 1 ∧
      (t.broker ≠ [] → ∃ a, x = .aborted a) ∧ ((∀ a, x ≠ .aborted a) → t.submitted = 0))
    (fun v => v.1 ∈ es) ?_ ?_ (s := .start queue orders ruleEvaluations)
    ⟨fun row hrow => Or.inl hrow, rfl, rfl⟩
    (fun v (hv : v ∈ visits r.iterate (.start queue orders ruleEvaluations) es) =>
      visits_reading_mem hv)
  · cases hx : out.2 with
    | none =>
      obtain ⟨hrows, hbroker, hsubmitted⟩ := hrun.1 hx
      exact ⟨hrows, by simp [out, hbroker], fun h => absurd hbroker h, fun _ => hsubmitted⟩
    | some x => simpa only [Option.some.injEq, ne_eq] using hrun.2.1 x hx
  · rintro e w t ⟨hw, hbroker, hsubmitted⟩ he hb
    obtain ⟨hrows, ⟨hsame, hcount⟩ | ⟨_, _, _, hbad, -⟩⟩ :=
      (hb ▸ r.iterate_effect e w).refused he (hrefuses e he) hw
    · rcases hcount with ⟨_, _, hbad⟩ | hs
      · cases hbad
      · exact ⟨hrows, hsame.trans hbroker, hs.trans hsubmitted⟩
    · cases hbad
  · rintro e w t x ⟨hw, hbroker, hsubmitted⟩ he hb
    obtain ⟨hrows, ⟨hsame, hcount⟩ | ⟨_, a, call, hexit, hcall⟩⟩ :=
      (hb ▸ r.iterate_effect e w).refused he (hrefuses e he) hw
    · have hempty : t.broker = [] := hsame.trans hbroker
      refine ⟨hrows, by simp [hempty], fun h => absurd hempty h, fun hx => ?_⟩
      rcases hcount with ⟨_, a, hexit⟩ | hs
      · exact absurd (Control.exit.inj hexit).2 (hx a)
      · exact hs.trans hsubmitted
    · obtain ⟨rfl, rfl⟩ := Control.exit.inj hexit
      rw [hbroker, List.nil_append] at hcall
      exact ⟨hrows, by simp [hcall], fun _ => ⟨a, rfl⟩, fun hx => absurd rfl (hx a)⟩

/-- The first order that passes every check ends the run. -/
theorem refusing_broker_places_nothing_paper :
    let e := { paperReading "t1:TSLA" (paperRules .market none) paperNoon with
      placeOrder := fun _ => .error .brokerError }
    let out := loop (paperPipeline 10).iterate (.start [] [] []) [e, e]
    out.1.broker.length = 1 ∧ ∀ row ∈ out.1.orders, ForeignRow [] [e, e] row := by
  intro e out
  have hrefuses : ∀ e' ∈ [e, e], ∀ order receipt, e'.placeOrder order ≠ .ok receipt := by
    intro e' he' order receipt
    have hsame : e' = e := by simpa using he'
    rw [hsame]
    exact fun h => by cases h
  refine ⟨by decide +kernel, ?_⟩
  exact (refusing_broker_places_nothing (paperPipeline 10) [] [] [] [e, e] hrefuses).1

end XSocialTrader
