import XSocialTrader.Execution.Executor
import XSocialTrader.Lib.WorkerLoop
import XSocialTrader.Rules.Engine

/-! `run_rule_pipeline` as a worker loop over readings of the outside world. A reading says
what the other processes, the clock, the broker and the stores do during one iteration. -/
namespace XSocialTrader
open WorkerLoop

/-- One iteration's view of the outside. `foreignOrders` are rows that others have committed
since the last iteration; the four abort fields say where an exception or a stop strikes. -/
structure Reading (F : Type) [PyFloat F] extends SubmitEnv F where
  killBefore : Stores
  arrivals : List ByteArray
  foreignOrders : List (OrderRow F)
  events : EventTable F
  rules : LoadedRules F
  account : BrokerReads F
  now : UtcDateTime
  atKillCheck : Option Abort
  atPop : Option Abort
  beforeSubmit : Option Abort
  atCommit : Option Abort

/-- The Redis queue, the committed tables, the broker's log and the report's counters. -/
structure World (F : Type) [PyFloat F] where
  queue : List ByteArray
  orders : List (OrderRow F)
  ruleEvaluations : List (RuleEvaluationRow F)
  broker : List (BrokerCall F)
  evaluated : ℕ
  matched : ℕ
  submitted : ℕ
  rejected : ℕ

structure RulePipeline (F : Type) [PyFloat F] extends Executor F where
  drain : Bool

/-- The report's `stopped_reason`, or what ended the run before a report. -/
inductive Exit where
  | returned (stoppedReason : Option String)
  | aborted (a : Abort)
  deriving DecidableEq, Repr

variable {F : Type} [PyFloat F]

/-- The first iteration of a run finds its counters at zero. -/
def World.start (queue : List ByteArray) (orders : List (OrderRow F))
    (ruleEvaluations : List (RuleEvaluationRow F)) : World F :=
  ⟨queue, orders, ruleEvaluations, [], 0, 0, 0, 0⟩

/-- The rows of `_persist_evaluations`. -/
def evaluationRows (eventId : String) (outcome : RuleEngineOutcome F) :
    List (RuleEvaluationRow F) :=
  outcome.evaluations.map fun record => {
    eventId := eventId
    ruleId := record.ruleId
    rulePriority := record.rulePriority
    inputsHash := record.inputsHash
    inputsJson := record.inputs
    outcome := record.outcome.value
    proposedOrderJson := record.proposedOrder }

/-- Flush of rule-evaluation rows: every JSON value is written before the first row is, and
the driver refuses a priority beyond 64 bits. -/
def flushEvaluations (rows : List (RuleEvaluationRow F)) : Except PyExc Unit :=
  if !rows.all fun row => row.inputsJson.storable then .error .typeError
  else if !rows.all fun row =>
      decide (-2 ^ 63 ≤ row.rulePriority) && decide (row.rulePriority < 2 ^ 63) then
    .error .overflowError
  else .ok ()

theorem flushEvaluations_ok_iff (rows : List (RuleEvaluationRow F)) :
    flushEvaluations rows = .ok () ↔ ∀ row ∈ rows, row.inputsJson.storable = true ∧
      -2 ^ 63 ≤ row.rulePriority ∧ row.rulePriority < 2 ^ 63 := by
  constructor
  · intro h row hrow
    unfold flushEvaluations at h
    split_ifs at h with hs hp
    rw [Bool.not_eq_true, Bool.not_eq_false'] at hs hp
    exact ⟨List.all_eq_true.mp hs row hrow, by simpa using List.all_eq_true.mp hp row hrow⟩
  · intro h
    have hs : rows.all (fun row => row.inputsJson.storable) = true :=
      List.all_eq_true.mpr fun row hrow => (h row hrow).1
    have hp : rows.all (fun row => decide (-2 ^ 63 ≤ row.rulePriority) &&
        decide (row.rulePriority < 2 ^ 63)) = true :=
      List.all_eq_true.mpr fun row hrow => by simpa using (h row hrow).2
    rw [flushEvaluations, hs, hp]
    rfl

/-- The audit rows of the six risk rules never fail their flush. -/
theorem Executor.auditRows_flush (x : Executor F) {p : ProposedOrder F}
    {ctx : ValidationContext F} {checks : List (RuleCheckResult F)}
    {pending : List (RuleEvaluationRow F)} (hc : runChecks p ctx x.riskRules = .ok checks)
    (h : flushEvaluations pending = .ok ()) :
    flushEvaluations (pending ++ auditRows x.sha256 p checks) = .ok () := by
  obtain ⟨hlen, hchecks⟩ := runChecks_ok hc
  have hsix : checks.length = 6 := hlen.trans rfl
  rw [flushEvaluations_ok_iff] at h ⊢
  intro row hrow
  rcases List.mem_append.mp hrow with hrow | hrow
  · exact h row hrow
  · obtain ⟨i, hi, rfl⟩ := List.mem_mapIdx.mp hrow
    obtain ⟨rule, hrule, hcheck⟩ := hchecks _ (List.getElem_mem hi)
    refine ⟨auditPayload_storable p (buildRiskManager_storable hrule hcheck), ?_, ?_⟩
    · show -2 ^ 63 ≤ (i : ℤ)
      omega
    · show (i : ℤ) < 2 ^ 63
      omega

/-- `session.commit()` at the end of an iteration. -/
def commitSession (e : Reading F) (w : World F) (session : Session F) :
    Control (World F) Exit :=
  match e.atCommit with
  | some a => .exit w (.aborted a)
  | none => .next { w with
      orders := w.orders ++ session.orders
      ruleEvaluations := w.ruleEvaluations ++ session.evaluations }

namespace RulePipeline

variable (r : RulePipeline F)

/-- The branch of an event with a proposal. -/
def submitMatched (e : Reading F) (w : World F) (pending : List (RuleEvaluationRow F))
    (proposed : ProposedOrder F) : Control (World F) Exit :=
  match buildValidationContext e.now none (PyFloat.ofInt 0) e.account
      (flushEvaluations pending) w.orders with
  | .error exc => .exit w (.aborted (.raised exc))
  | .ok ctx =>
    let out := r.submit e.toSubmitEnv proposed ctx w.orders ⟨pending, []⟩
    let w := { w with orders := w.orders ++ e.racingOrders, broker := w.broker ++ out.calls }
    match out.result with
    | .submitted _ _ _ => commitSession e { w with submitted := w.submitted + 1 } out.session
    | .rejected _ => commitSession e { w with rejected := w.rejected + 1 } out.session
    | .aborted a => .exit w (.aborted a)

/-- The session block for an event with a row. -/
def processEvent (e : Reading F) (w : World F) (eventId : String) (event : Event F) :
    Control (World F) Exit :=
  match evaluate r.sha256 e.rules.rules event with
  | .error exc => .exit w (.aborted (.raised exc))
  | .ok outcome =>
    let pending := evaluationRows eventId outcome
    let w := { w with evaluated := w.evaluated + 1 }
    match outcome.matched.bind RuleEvaluationRecord.proposedOrder with
    | some proposed => submitMatched r e { w with matched := w.matched + 1 } pending proposed
    | none => match flushEvaluations pending with
      | .error exc => .exit w (.aborted (.raised exc))
      | .ok () => commitSession e w ⟨pending, []⟩

/-- One iteration of `run_rule_pipeline`. -/
def iterate (e : Reading F) (w : World F) : Control (World F) Exit :=
  let w := { w with orders := w.orders ++ e.foreignOrders, queue := w.queue ++ e.arrivals }
  match e.atKillCheck with
  | some a => .exit w (.aborted a)
  | none =>
    let state := e.killBefore.state
    if state.active then
      .exit w (.returned (some ("kill_switch_active:" ++ state.source.text)))
    else match e.atPop with
      | some a => .exit w (.aborted a)
      | none => match w.queue with
        | [] => if r.drain then .exit w (.returned none) else .next w
        | raw :: queue =>
          let w := { w with queue := queue }
          match String.fromUTF8? raw with
          | none => .exit w (.aborted (.raised .unicodeDecodeError))
          | some eventId => match e.beforeSubmit with
            | some a => .exit w (.aborted a)
            | none => match e.events.find eventId with
              | none => .next w
              | some event => processEvent r e w eventId event

end RulePipeline

/-- The id that an iteration pops, if the queue has one that decodes. -/
def World.poppedId (w : World F) (e : Reading F) : Option String :=
  (w.queue ++ e.arrivals).head?.bind String.fromUTF8?

theorem World.exists_of_poppedId {w : World F} {e : Reading F} {eventId : String}
    (h : w.poppedId e = some eventId) : ∃ raw queue, w.queue ++ e.arrivals = raw :: queue ∧
      String.fromUTF8? raw = some eventId := by
  obtain ⟨raw, hhead, hid⟩ := Option.bind_eq_some_iff.mp h
  obtain ⟨queue, hqueue⟩ := List.head?_eq_some_iff.mp hhead
  exact ⟨raw, queue, hqueue, hid⟩

/-- The rows that the reads of an iteration see. -/
def World.visibleOrders (w : World F) (e : Reading F) : List (OrderRow F) :=
  w.orders ++ e.foreignOrders

namespace RulePipeline

variable (r : RulePipeline F)

/-- The iteration gets as far as `submit`, with this proposal and context. -/
structure Submits (e : Reading F) (w : World F) (p : ProposedOrder F)
    (ctx : ValidationContext F) : Prop where
  no_abort : e.atKillCheck = none ∧ e.atPop = none ∧ e.beforeSubmit = none
  kill_inactive : e.killBefore.state.active = false
  proposes : ∃ eventId event out, w.poppedId e = some eventId ∧
    e.events.find eventId = some event ∧ evaluate r.sha256 e.rules.rules event = .ok out ∧
    out.matched.bind RuleEvaluationRecord.proposedOrder = some p ∧
    buildValidationContext e.now none (PyFloat.ofInt 0) e.account
      (flushEvaluations (evaluationRows eventId out)) (w.visibleOrders e) = .ok ctx

/-- The iteration calls `place_order` for this proposal. -/
def Places (e : Reading F) (w : World F) (p : ProposedOrder F) : Prop :=
  ∃ ctx, r.Submits e w p ctx ∧ r.Passes e.kill p ctx

end RulePipeline

/-- What has to hold after the broker call for the row to be committed. -/
structure Persists (e : Reading F) (w : World F) (p : ProposedOrder F) : Prop where
  receipt : ∃ receipt, e.placeOrder (validatedOrder p) = .ok receipt
  no_abort : e.atFlush = none ∧ e.atCommit = none
  storable : Storable p
  key_unused : ∀ row ∈ w.visibleOrders e ++ e.racingOrders,
    row.idempotencyKey ≠ computeIdempotencyKey p.eventId p.strategyId

/-- The `orders` row of an iteration. -/
def World.newRow (w : World F) (e : Reading F) (p : ProposedOrder F) (receipt : OrderReceipt) :
    OrderRow F :=
  orderRow (w.visibleOrders e ++ e.racingOrders) p receipt e.createdAt

/-- What one iteration can do to the broker's log, the orders table and the counters. -/
inductive Effect (r : RulePipeline F) (e : Reading F) (w : World F) :
    Control (World F) Exit → Prop
  | quiet (c : Control (World F) Exit) (hnone : ∀ p, ¬ r.Places e w p)
      (hbroker : c.state.broker = w.broker)
      (horders : c.state.orders = w.visibleOrders e ∨
        c.state.orders = w.visibleOrders e ++ e.racingOrders)
      (hcount : (∃ t a, c = .exit t (.aborted a)) ∨ c.state.submitted = w.submitted ∧
        ∃ m n, m ≤ n ∧ c.state.rejected = w.rejected + m ∧ c.state.matched = w.matched + m ∧
          c.state.evaluated = w.evaluated + n) : Effect r e w c
  | persisted (p : ProposedOrder F) (receipt : OrderReceipt) (t : World F)
      (hplaces : r.Places e w p) (hreceipt : e.placeOrder (validatedOrder p) = .ok receipt)
      (hpersists : Persists e w p)
      (hbroker : t.broker = w.broker ++ [⟨p, .ok receipt⟩])
      (horders : t.orders = w.visibleOrders e ++ e.racingOrders ++ [w.newRow e p receipt])
      (hcount : t.submitted = w.submitted + 1 ∧ t.rejected = w.rejected ∧
        t.matched = w.matched + 1 ∧ t.evaluated = w.evaluated + 1) : Effect r e w (.next t)
  | lost (p : ProposedOrder F) (t : World F) (a : Abort) (hplaces : r.Places e w p)
      (hpersists : ¬ Persists e w p)
      (hbroker : t.broker = w.broker ++ [⟨p, e.placeOrder (validatedOrder p)⟩])
      (horders : t.orders = w.visibleOrders e ++ e.racingOrders) :
      Effect r e w (.exit t (.aborted a))

namespace RulePipeline

variable {r : RulePipeline F} {e : Reading F} {w : World F}

/-- What an iteration that has popped and evaluated an event goes on to submit. -/
theorem submits_iff {eventId : String} {event : Event F} {out : RuleEngineOutcome F}
    (habort : e.atKillCheck = none ∧ e.atPop = none ∧ e.beforeSubmit = none)
    (hkill : e.killBefore.state.active = false) (hpop : w.poppedId e = some eventId)
    (hfind : e.events.find eventId = some event)
    (heval : evaluate r.sha256 e.rules.rules event = .ok out) (p : ProposedOrder F)
    (ctx : ValidationContext F) :
    r.Submits e w p ctx ↔ out.matched.bind RuleEvaluationRecord.proposedOrder = some p ∧
      buildValidationContext e.now none (PyFloat.ofInt 0) e.account
        (flushEvaluations (evaluationRows eventId out)) (w.visibleOrders e) = .ok ctx := by
  constructor
  · rintro ⟨-, -, id', event', out', hpop', hfind', heval', hp, hctx⟩
    obtain rfl := Option.some.inj (hpop.symm.trans hpop')
    obtain rfl := Option.some.inj (hfind.symm.trans hfind')
    obtain rfl := Except.ok.inj (heval.symm.trans heval')
    exact ⟨hp, hctx⟩
  · rintro ⟨hp, hctx⟩
    exact ⟨habort, hkill, eventId, event, out, hpop, hfind, heval, hp, hctx⟩

theorem commitSession_none {session : Session F} (h : e.atCommit = none) (w : World F) :
    commitSession e w session = .next { w with
      orders := w.orders ++ session.orders
      ruleEvaluations := w.ruleEvaluations ++ session.evaluations } := by
  simp only [commitSession, h]

theorem commitSession_some {session : Session F} {a : Abort} (h : e.atCommit = some a)
    (w : World F) : commitSession e w session = .exit w (.aborted a) := by
  simp only [commitSession, h]

/-- A commit without order rows is quiet. -/
theorem effect_commit_quiet {session : Session F} (hs : session.orders = []) {t : World F}
    (hnone : ∀ p, ¬ r.Places e w p) (hbroker : t.broker = w.broker)
    (horders : t.orders = w.visibleOrders e ∨ t.orders = w.visibleOrders e ++ e.racingOrders)
    (hsub : t.submitted = w.submitted) {m n : ℕ} (hmn : m ≤ n)
    (hrej : t.rejected = w.rejected + m) (hmat : t.matched = w.matched + m)
    (hev : t.evaluated = w.evaluated + n) : Effect r e w (commitSession e t session) := by
  cases hc : e.atCommit with
  | some a =>
    rw [commitSession_some hc]
    exact .quiet _ hnone hbroker horders (Or.inl ⟨t, a, rfl⟩)
  | none =>
    rw [commitSession_none hc]
    refine .quiet _ hnone hbroker ?_ (Or.inr ⟨hsub, m, n, hmn, hrej, hmat, hev⟩)
    simpa [hs] using horders

theorem submitMatched_effect {pending : List (RuleEvaluationRow F)} {p : ProposedOrder F}
    {t : World F} (hsub : ∀ q ctx, r.Submits e w q ctx ↔ p = q ∧
      buildValidationContext e.now none (PyFloat.ofInt 0) e.account
        (flushEvaluations pending) (w.visibleOrders e) = .ok ctx)
    (hbroker : t.broker = w.broker) (horders : t.orders = w.visibleOrders e)
    (hcount : t.submitted = w.submitted ∧ t.rejected = w.rejected ∧
      t.matched = w.matched + 1 ∧ t.evaluated = w.evaluated + 1) :
    Effect r e w (submitMatched r e t pending p) := by
  obtain ⟨hs, hr, hm, hv⟩ := hcount
  unfold submitMatched
  rw [horders]
  cases hctx : buildValidationContext e.now none (PyFloat.ofInt 0) e.account
      (flushEvaluations pending) (w.visibleOrders e) with
  | error exc =>
    refine .quiet _ ?_ hbroker (Or.inl horders) (Or.inl ⟨_, _, rfl⟩)
    rintro q ⟨ctx, hq, -⟩
    simp [((hsub q ctx).mp hq).2] at hctx
  | ok ctx =>
    have hthis : r.Submits e w p ctx := (hsub p ctx).mpr ⟨rfl, hctx⟩
    have honly : ∀ q, r.Places e w q → q = p ∧ r.Passes e.kill p ctx := by
      rintro q ⟨ctx', hq, hpass⟩
      obtain ⟨rfl, hctx'⟩ := (hsub q ctx').mp hq
      obtain rfl := Except.ok.inj (hctx.symm.trans hctx')
      exact ⟨rfl, hpass⟩
    rcases r.submit_cases e.toSubmitEnv p ctx (w.visibleOrders e) ⟨pending, []⟩ with
      ⟨hnot, hcalls, hord, hres⟩ | ⟨hpass, s, hord, hcalls, hres⟩
    · have hnone : ∀ q, ¬ r.Places e w q := fun q hq => hnot (honly q hq).2
      rcases hres with ⟨exc, hexc⟩ | ⟨a, ha⟩
      · simp only [hexc, hcalls, List.append_nil]
        exact effect_commit_quiet hord hnone hbroker (Or.inr rfl) hs le_rfl
          (congrArg (· + 1) hr) hm hv
      · simp only [ha, hcalls, List.append_nil]
        exact .quiet _ hnone hbroker (Or.inr rfl) (Or.inl ⟨_, _, rfl⟩)
    · have hplaces : r.Places e w p := ⟨ctx, hthis, hpass⟩
      rcases hres with ⟨exc, hans, -, hexc⟩ | ⟨receipt, hans, hout⟩
      · simp only [hexc, hcalls]
        refine .lost p _ _ hplaces (fun h => ?_) (by rw [← hbroker]) rfl
        obtain ⟨receipt, hreceipt⟩ := h.receipt
        simp [hans] at hreceipt
      · rcases persistOrder_cases e.toSubmitEnv p (w.visibleOrders e) s receipt with
          ⟨hpo, hflush, hstore, hkey⟩ | ⟨a, hpo, hnot⟩
        · obtain ⟨hsession, hresult⟩ := Prod.mk.inj (hout.trans hpo)
          simp only [hresult, hsession, hcalls, hord, List.nil_append]
          cases hc : e.atCommit with
          | some a =>
            rw [commitSession_some hc]
            refine .lost p _ _ hplaces (fun h => ?_) (by rw [← hbroker]) rfl
            exact absurd h.no_abort.2 (by simp [hc])
          | none =>
            rw [commitSession_none hc]
            refine .persisted p receipt _ hplaces hans ⟨⟨receipt, hans⟩, ⟨hflush, hc⟩, hstore, hkey⟩
              (by rw [← hbroker, ← hans]) rfl ⟨congrArg (· + 1) hs, hr, hm, hv⟩
        · obtain ⟨-, hresult⟩ := Prod.mk.inj (hout.trans hpo)
          simp only [hresult, hcalls]
          refine .lost p _ _ hplaces (fun h => hnot ⟨h.no_abort.1, h.storable, h.key_unused⟩)
            (by rw [← hbroker]) rfl

theorem processEvent_effect {eventId : String} {event : Event F} {t : World F}
    (habort : e.atKillCheck = none ∧ e.atPop = none ∧ e.beforeSubmit = none)
    (hkill : e.killBefore.state.active = false) (hpop : w.poppedId e = some eventId)
    (hfind : e.events.find eventId = some event) (hbroker : t.broker = w.broker)
    (horders : t.orders = w.visibleOrders e)
    (hcount : t.submitted = w.submitted ∧ t.rejected = w.rejected ∧
      t.matched = w.matched ∧ t.evaluated = w.evaluated) :
    Effect r e w (processEvent r e t eventId event) := by
  obtain ⟨hs, hr, hm, hv⟩ := hcount
  unfold processEvent
  cases heval : evaluate r.sha256 e.rules.rules event with
  | error exc =>
    refine .quiet _ ?_ hbroker (Or.inl horders) (Or.inl ⟨_, _, rfl⟩)
    rintro p ⟨ctx, ⟨-, -, id', event', out', hpop', hfind', heval', -⟩, -⟩
    obtain rfl := Option.some.inj (hpop.symm.trans hpop')
    obtain rfl := Option.some.inj (hfind.symm.trans hfind')
    simp [heval] at heval'
  | ok out =>
    have hsub := fun p ctx => submits_iff habort hkill hpop hfind heval p ctx
    cases hp : out.matched.bind RuleEvaluationRecord.proposedOrder with
    | some p =>
      simp only [hp, Option.some.injEq] at hsub
      simp only [hp]
      exact submitMatched_effect hsub hbroker horders
        ⟨hs, hr, congrArg (· + 1) hm, congrArg (· + 1) hv⟩
    | none =>
      have hnone : ∀ p, ¬ r.Places e w p := by
        rintro p ⟨ctx, hq, -⟩
        exact absurd ((hsub p ctx).mp hq).1 (by simp [hp])
      simp only [hp]
      split
      · exact .quiet _ hnone hbroker (Or.inl horders) (Or.inl ⟨_, _, rfl⟩)
      · exact effect_commit_quiet rfl hnone hbroker (Or.inl horders) hs (Nat.zero_le 1)
          hr hm (congrArg (· + 1) hv)

/-- An iteration that ends before `submit` could be reached is quiet. -/
theorem effect_early {c : Control (World F) Exit} {queue : List ByteArray}
    (hnone : ∀ p ctx, ¬ r.Submits e w p ctx)
    (hstate : c.state = { w with orders := w.visibleOrders e, queue := queue }) :
    Effect r e w c := by
  refine .quiet _ ?_ (by rw [hstate]) (Or.inl (by rw [hstate])) (Or.inr ?_)
  · rintro p ⟨ctx, hp, -⟩
    exact hnone p ctx hp
  · rw [hstate]
    exact ⟨rfl, 0, 0, le_rfl, rfl, rfl, rfl⟩

/-- Every iteration has one of the three effects. -/
theorem iterate_effect (r : RulePipeline F) (e : Reading F) (w : World F) :
    Effect r e w (r.iterate e w) := by
  unfold iterate
  simp only []
  cases hcheck : e.atKillCheck with
  | some a => exact effect_early (fun p ctx h => absurd h.no_abort.1 (by simp [hcheck])) rfl
  | none =>
    cases hkill : e.killBefore.state.active with
    | true => exact effect_early (fun p ctx h => absurd h.kill_inactive (by simp [hkill])) rfl
    | false =>
      cases hatpop : e.atPop with
      | some a =>
        exact effect_early (fun p ctx h => absurd h.no_abort.2.1 (by simp [hatpop])) rfl
      | none =>
        cases hqueue : w.queue ++ e.arrivals with
        | nil =>
          have hpop : w.poppedId e = none := by simp [World.poppedId, hqueue]
          have hnone : ∀ p ctx, ¬ r.Submits e w p ctx := by
            rintro p ctx ⟨-, -, id, _, _, hid, -⟩
            simp [hpop] at hid
          cases r.drain
          · exact effect_early hnone rfl
          · exact effect_early hnone rfl
        | cons raw queue =>
          have hpop : w.poppedId e = String.fromUTF8? raw := by simp [World.poppedId, hqueue]
          cases hid : String.fromUTF8? raw with
          | none =>
            simp only [hid]
            refine effect_early ?_ rfl
            rintro p ctx ⟨-, -, id, _, _, hid', -⟩
            simp [hpop, hid] at hid'
          | some eventId =>
            rw [hid] at hpop
            simp only [hid]
            cases hsubmit : e.beforeSubmit with
            | some a =>
              exact effect_early (fun p ctx h => absurd h.no_abort.2.2 (by simp [hsubmit])) rfl
            | none =>
              cases hfind : e.events.find eventId with
              | none =>
                simp only []
                refine effect_early ?_ rfl
                rintro p ctx ⟨-, -, id, _, _, hid', hfind', -⟩
                obtain rfl := Option.some.inj (hpop.symm.trans hid')
                simp [hfind] at hfind'
              | some event =>
                simp only []
                exact processEvent_effect ⟨hcheck, hatpop, hsubmit⟩ hkill hpop hfind rfl rfl
                  ⟨rfl, rfl, rfl, rfl⟩

end RulePipeline

section Paper

/-- A bullish event buys ten shares at a reference price of 15 USD. -/
def paperRule (orderType : OrderType) (limitPrice : Option ℚ) : RuleSpec ℚ where
  id := "buy_bullish"
  priority := 1
  conditions := [⟨.intent, .eq, .str "bullish"⟩]
  action := {
    side := .buy
    orderType := orderType
    quantity := 10
    limitPrice := limitPrice
    referencePriceUsd := 15
    strategyId := "news"
    quantity_pos := by decide
    reference_pos := by decide +kernel
    strategyId_length := by decide }
  id_length := by decide
  conditions_nonempty := by simp

def paperRules (orderType : OrderType) (limitPrice : Option ℚ) : LoadedRules ℚ where
  rules := [paperRule orderType limitPrice]
  ids_nodup := List.nodup_singleton _
  sorted := List.pairwise_singleton _ _

/-- Two bullish events on different tickers of one tweet. -/
def paperEvents : EventTable ℚ where
  rows := [⟨"t1:AAPL", 1, 1, "AAPL", "bullish", 9 / 10, "swing"⟩,
    ⟨"t1:TSLA", 1, 1, "TSLA", "bullish", 9 / 10, "swing"⟩]
  eventIds_nodup := by decide

def inactiveStores : Stores := ⟨none, none, []⟩

/-- An iteration that pops one id at a given time, with nothing going wrong: an account of
1000 USD without positions, and a broker that takes every order. -/
def paperReading (eventId : String) (rules : LoadedRules ℚ) (at' : UtcDateTime) : Reading ℚ where
  kill := inactiveStores
  placeOrder order := .ok ⟨order.idempotencyKey, "ext-" ++ order.idempotencyKey⟩
  racingOrders := []
  createdAt := at'
  atFlush := none
  killBefore := inactiveStores
  arrivals := [eventId.toUTF8]
  foreignOrders := []
  events := paperEvents
  rules := rules
  account := ⟨.ok [("NetLiquidation", 1000)], .ok []⟩
  now := at'
  atKillCheck := none
  atPop := none
  beforeSubmit := none
  atCommit := none

/-- Both size limits at 20 % and trading around the clock. -/
def paperPipeline (maxTradesPerDay : ℤ) : RulePipeline ℚ where
  settings := {
    maxPositionPct := 20
    maxTradesPerDay := maxTradesPerDay
    allowAfterHours := true }
  calendar := fun _ => .ok true
  sha256 := fun _ => "0"
  drain := true

end Paper

end XSocialTrader
