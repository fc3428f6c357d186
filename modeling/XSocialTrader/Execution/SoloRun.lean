import XSocialTrader.Execution.Workers

/-! A caller that nobody interrupts. From its snapshot on it does what `submit` does, and from
its first read of the switch what one iteration of `run_rule_pipeline` does. -/
namespace XSocialTrader.Workers
open LabelledRun

variable {κ F : Type} [PyFloat F] {x : Executor F} {s : Shared κ F}

/-- A move of a caller while no other session holds a row. -/
def soloStep (x : Executor F) (st : Shared κ F × Phase F) (a : Action F) :
    Option (Shared κ F × Phase F) :=
  act x (fun _ => false) st.1 st.2 a

/-- Where `submit` leaves its caller. -/
def phaseAfter : SubmitResult F → Session F → Phase F
  | .aborted _, _ => .idle
  | _, session => .finishing session

/-- The stores as one read of the switch finds them. -/
def Shared.stores (s : Shared κ F) (env : Option String) : Stores :=
  ⟨env, s.kill.redisFlag, s.kill.rows⟩

/-- After the receipt: the flush of the orders row, or what strikes instead. -/
theorem solo_persistOrder {e : SubmitEnv F} (hrace : e.racingOrders = []) (p : ProposedOrder F)
    (receipt : OrderReceipt) (session : Session F) :
    let out := persistOrder e p s.orders session receipt
    Reaches (soloStep x) (s, .placed p receipt session) (s, phaseAfter out.2 out.1) := by
  intro out
  cases hflush : e.atFlush with
  | some a =>
    refine .single (a := .stop) ?_
    simp [soloStep, act, out, persistOrder, hflush, phaseAfter]
  | none =>
    refine .single (a := .insert e.createdAt) ?_
    cases hi : insertOrder s.orders (orderRow s.orders p receipt e.createdAt) with
    | error exc => simp [soloStep, act, out, persistOrder, hflush, hrace, hi, phaseAfter]
    | ok rows => simp [soloStep, act, out, persistOrder, hflush, hrace, hi, phaseAfter]

/-- A caller that is alone from its snapshot on does what `submit` does. -/
theorem solo_submit {e : SubmitEnv F} {env : Option String} (hkill : e.kill = s.stores env)
    (hrace : e.racingOrders = []) (p : ProposedOrder F) (ctx : ValidationContext F)
    {committed : List (OrderRow F)} (horders : s.orders = committed) (session : Session F) :
    let out := x.submit e p ctx committed session
    Reaches (soloStep x) (s, .ready p ctx session)
      ({ s with broker := s.broker ++ out.calls }, phaseAfter out.result out.session) := by
  subst horders
  intro out
  have hactive : e.kill.state.active = ((isActive env s.kill.redisFlag []).active ||
      (isActive none none s.kill.rows).active) := by
    rw [hkill]
    exact isActive_split env s.kill.redisFlag s.kill.rows
  cases hredis : (isActive env s.kill.redisFlag []).active with
  | true =>
    refine .single (a := .readRedis env) ?_
    simp [soloStep, act, out, Executor.submit, hactive, hredis, phaseAfter]
  | false =>
    have hfirst : soloStep x (s, .ready p ctx session) (.readRedis env) =
        some (s, .redisRead p ctx session) := by simp [soloStep, act, hredis]
    refine .head hfirst ?_
    cases hdb : (isActive none none s.kill.rows).active with
    | true =>
      refine .single (a := .readDb) ?_
      simp [soloStep, act, out, Executor.submit, hactive, hdb, phaseAfter]
    | false =>
      cases hpermits : x.permits p with
      | false =>
        refine .single (a := .readDb) ?_
        simp [soloStep, act, out, Executor.submit, hactive, hredis, hdb, hpermits, phaseAfter]
      | true =>
        have hsecond : soloStep x (s, .redisRead p ctx session) .readDb =
            some (s, .permitted p ctx session) := by simp [soloStep, act, hdb, hpermits]
        refine .head hsecond ?_
        cases hc : runChecks p ctx x.riskRules with
        | error exc =>
          refine .single (a := .validate) ?_
          simp [soloStep, act, out, Executor.submit, hactive, hredis, hdb, hpermits, hc, phaseAfter]
        | ok checks =>
          cases ha : allPassed checks with
          | false =>
            refine .single (a := .validate) ?_
            simp [soloStep, act, out, Executor.submit, hactive, hredis, hdb, hpermits, hc, ha,
              phaseAfter]
          | true =>
            have hthird : soloStep x (s, .permitted p ctx session) .validate =
                some (s, .validated p { session with
                  evaluations := session.evaluations ++ auditRows x.sha256 p checks }) := by
              simp [soloStep, act, hc, ha]
            refine .head hthird ?_
            cases hb : e.placeOrder (validatedOrder p) with
            | error exc =>
              refine .single (a := .place (.error exc)) ?_
              simp [soloStep, act, out, Executor.submit, hactive, hredis, hdb, hpermits, hc, ha,
                hb, phaseAfter]
            | ok receipt =>
              refine .head (a := .place (.ok receipt)) rfl ?_
              have hlast := solo_persistOrder (x := x) (s := { s with
                broker := s.broker ++ [⟨p, .ok receipt⟩] }) hrace p receipt { session with
                  evaluations := session.evaluations ++ auditRows x.sha256 p checks }
              simpa [out, Executor.submit, hactive, hredis, hdb, hpermits, hc, ha, hb] using hlast

/-- The big-step world and what the callers share hold the same rows, queue and calls. -/
structure Agrees (w : World F) (s : Shared κ F) : Prop where
  queue : s.queue = w.queue
  orders : s.orders = w.orders
  ruleEvaluations : s.ruleEvaluations = w.ruleEvaluations
  broker : s.broker = w.broker

/-- During this iteration nobody else writes, and both reads of the switch see its stores. -/
structure Alone (e : Reading F) (s : Shared κ F) : Prop where
  kill_before : ∃ env, e.killBefore = s.stores env
  kill : ∃ env, e.kill = s.stores env
  arrivals : e.arrivals = []
  foreignOrders : e.foreignOrders = []
  racingOrders : e.racingOrders = []

theorem solo_commit {e : Reading F} {w : World F} {session : Session F} (h : Agrees w s)
    (hflush : flushEvaluations session.evaluations = .ok ()) :
    ∃ s', Reaches (soloStep x) (s, .finishing session) (s', .idle) ∧
      Agrees (commitSession e w session).state s' := by
  cases hc : e.atCommit with
  | some a =>
    rw [RulePipeline.commitSession_some hc]
    exact ⟨s, .single (a := .stop) rfl, h⟩
  | none =>
    rw [RulePipeline.commitSession_none hc]
    refine ⟨{ s with
      orders := s.orders ++ session.orders
      ruleEvaluations := s.ruleEvaluations ++ session.evaluations }, ?_, ?_⟩
    · exact .single (a := .commit) (by simp [soloStep, act, hflush])
    · exact ⟨h.queue, by simp [h.orders], by simp [h.ruleEvaluations], h.broker⟩

variable {r : RulePipeline F} {e : Reading F} {w : World F}

theorem solo_submitMatched (h : Agrees w s) (ha : Alone e s) (p : ProposedOrder F)
    (pending : List (RuleEvaluationRow F)) :
    ∃ s', Reaches (soloStep r.toExecutor) (s, .proposed p ⟨pending, []⟩) (s', .idle) ∧
      Agrees (r.submitMatched e w pending p).state s' := by
  obtain ⟨env, hkill⟩ := ha.kill
  cases hctx : buildValidationContext e.now none (PyFloat.ofInt 0) e.account
      (flushEvaluations pending) w.orders with
  | error exc =>
    refine ⟨s, .single (a := .context e.now none (PyFloat.ofInt 0) e.account) ?_, ?_⟩
    · simp [soloStep, act, h.orders, hctx]
    · simpa [RulePipeline.submitMatched, hctx] using h
  | ok ctx =>
    obtain ⟨-, -, -, -, hflush, -⟩ := buildValidationContext_ok hctx
    have hstart : soloStep r.toExecutor (s, .proposed p ⟨pending, []⟩)
        (.context e.now none (PyFloat.ofInt 0) e.account) =
          some (s, .ready p ctx ⟨pending, []⟩) := by simp [soloStep, act, h.orders, hctx]
    have hsubmit := solo_submit (x := r.toExecutor) hkill ha.racingOrders p ctx h.orders
      ⟨pending, []⟩
    have hev := r.submit_evaluations e.toSubmitEnv p ctx w.orders ⟨pending, []⟩
    dsimp only at hsubmit hev
    simp only [RulePipeline.submitMatched, hctx]
    generalize r.submit e.toSubmitEnv p ctx w.orders ⟨pending, []⟩ = out at hsubmit hev ⊢
    have hflush' : flushEvaluations out.session.evaluations = .ok () := by
      rcases hev with hev | ⟨checks, hc, hev⟩
      · rw [hev]
        exact hflush
      · rw [hev]
        exact r.auditRows_flush hc hflush
    have hagree : ∀ v : World F, v.queue = w.queue → v.orders = w.orders ++ e.racingOrders →
        v.ruleEvaluations = w.ruleEvaluations → v.broker = w.broker ++ out.calls →
        Agrees v { s with broker := s.broker ++ out.calls } := by
      intro v hq ho hr hb
      refine ⟨h.queue.trans hq.symm, ?_, h.ruleEvaluations.trans hr.symm, ?_⟩
      · simpa [ha.racingOrders, h.orders] using ho.symm
      · rw [hb, h.broker]
    -- An answer that is not an abort ends in the commit of the session, whatever is counted.
    have hkept : ∀ v : World F, v.queue = w.queue → v.orders = w.orders ++ e.racingOrders →
        v.ruleEvaluations = w.ruleEvaluations → v.broker = w.broker ++ out.calls →
        phaseAfter out.result out.session = .finishing out.session →
        ∃ s', Reaches (soloStep r.toExecutor) (s, .proposed p ⟨pending, []⟩) (s', .idle) ∧
          Agrees (commitSession e v out.session).state s' := by
      intro v hq ho hr hb hphase
      rw [hphase] at hsubmit
      obtain ⟨s', hrun, hs'⟩ := solo_commit (x := r.toExecutor) (e := e)
        (hagree v hq ho hr hb) hflush'
      exact ⟨s', .head hstart (hsubmit.trans hrun), hs'⟩
    cases hres : out.result with
    | submitted receipt order id =>
      rw [hres] at hkept
      exact hkept _ rfl rfl rfl rfl rfl
    | rejected exc =>
      rw [hres] at hkept
      exact hkept _ rfl rfl rfl rfl rfl
    | aborted a =>
      rw [hres] at hsubmit
      exact ⟨_, .head hstart hsubmit, hagree { w with
        orders := w.orders ++ e.racingOrders
        broker := w.broker ++ out.calls } rfl rfl rfl rfl⟩

theorem solo_processEvent (h : Agrees w s) (ha : Alone e s) {eventId : String} {event : Event F}
    (hfind : e.events.find eventId = some event) :
    ∃ s', Reaches (soloStep r.toExecutor) (s, .popped eventId) (s', .idle) ∧
      Agrees (r.processEvent e w eventId event).state s' := by
  cases heval : evaluate r.sha256 e.rules.rules event with
  | error exc =>
    refine ⟨s, .single (a := .evaluate e.events e.rules) ?_, ?_⟩
    · simp [soloStep, act, hfind, heval]
    · simpa [RulePipeline.processEvent, heval] using h
  | ok out =>
    have hcount : ∀ m n, Agrees { w with evaluated := m, matched := n } s := fun m n =>
      ⟨h.queue, h.orders, h.ruleEvaluations, h.broker⟩
    cases hp : out.matched.bind RuleEvaluationRecord.proposedOrder with
    | some p =>
      have hstart : soloStep r.toExecutor (s, .popped eventId) (.evaluate e.events e.rules) =
          some (s, .proposed p ⟨evaluationRows eventId out, []⟩) := by
        simp [soloStep, act, hfind, heval, hp]
      obtain ⟨s', hrun, hs'⟩ := solo_submitMatched (r := r)
        (hcount (w.evaluated + 1) (w.matched + 1)) ha p (evaluationRows eventId out)
      refine ⟨s', .head hstart hrun, ?_⟩
      simpa [RulePipeline.processEvent, heval, hp] using hs'
    | none =>
      have hstart : soloStep r.toExecutor (s, .popped eventId) (.evaluate e.events e.rules) =
          some (s, .finishing ⟨evaluationRows eventId out, []⟩) := by
        simp [soloStep, act, hfind, heval, hp]
      cases hflush : flushEvaluations (evaluationRows eventId out) with
      | error exc =>
        refine ⟨s, .head hstart (.single (a := .commit) ?_), ?_⟩
        · simp [soloStep, act, hflush]
        · simpa [RulePipeline.processEvent, heval, hp, hflush] using
            hcount (w.evaluated + 1) w.matched
      | ok u =>
        let session : Session F := ⟨evaluationRows eventId out, []⟩
        have hsession : flushEvaluations session.evaluations = .ok () := hflush
        obtain ⟨s', hrun, hs'⟩ := solo_commit (x := r.toExecutor) (e := e)
          (hcount (w.evaluated + 1) w.matched) hsession
        refine ⟨s', .head hstart hrun, ?_⟩
        simpa [RulePipeline.processEvent, heval, hp, hflush] using hs'

/-- One iteration of the pipeline is a run of a caller that is alone, from idle to idle. -/
theorem solo_iterate (h : Agrees w s) (ha : Alone e s) :
    ∃ s', Reaches (soloStep r.toExecutor) (s, .idle) (s', .idle) ∧
      Agrees (r.iterate e w).state s' := by
  obtain ⟨env, hbefore⟩ := ha.kill_before
  have hactive : e.killBefore.state.active = ((isActive env s.kill.redisFlag []).active ||
      (isActive none none s.kill.rows).active) := by
    rw [hbefore]
    exact isActive_split env s.kill.redisFlag s.kill.rows
  unfold RulePipeline.iterate
  simp only [ha.foreignOrders, ha.arrivals, List.append_nil]
  cases e.atKillCheck with
  | some a => exact ⟨s, .refl, h⟩
  | none =>
    cases hkill : e.killBefore.state.active with
    | true => exact ⟨s, .refl, h⟩
    | false =>
      rw [hkill, eq_comm, Bool.or_eq_false_iff] at hactive
      cases e.atPop with
      | some a => exact ⟨s, .refl, h⟩
      | none =>
        have hchecked : Reaches (soloStep r.toExecutor) (s, .idle) (s, .preDb) := by
          refine .head (a := .preRedis env) (t := (s, .preRedis)) ?_ (.single (a := .preDb) ?_)
          · simp [soloStep, act, hactive.1]
          · simp [soloStep, act, hactive.2]
        cases hqueue : w.queue with
        | nil =>
          have hempty : s.queue = [] := h.queue.trans hqueue
          cases r.drain <;>
            exact ⟨s, .refl, ⟨hempty, h.orders, h.ruleEvaluations, h.broker⟩⟩
        | cons raw queue =>
          have hraw : s.queue = raw :: queue := h.queue.trans hqueue
          have hrest : Agrees { w with queue := queue } { s with queue := queue } :=
            ⟨rfl, h.orders, h.ruleEvaluations, h.broker⟩
          cases hid : String.fromUTF8? raw with
          | none =>
            simp only [hid]
            refine ⟨_, hchecked.trans (.single (a := .pop) ?_), hrest⟩
            simp [soloStep, act, hraw, hid]
          | some eventId =>
            have hpopped : Reaches (soloStep r.toExecutor) (s, .idle)
                ({ s with queue := queue }, .popped eventId) := by
              refine hchecked.trans (.single (a := .pop) ?_)
              simp [soloStep, act, hraw, hid]
            simp only [hid]
            cases e.beforeSubmit with
            | some a => exact ⟨_, hpopped.trans (.single (a := .stop) rfl), hrest⟩
            | none =>
              cases hfind : e.events.find eventId with
              | none =>
                refine ⟨_, hpopped.trans (.single (a := .evaluate e.events e.rules) ?_), hrest⟩
                simp [soloStep, act, hfind]
              | some event =>
                have ha' : Alone e { s with queue := queue } :=
                  ⟨ha.kill_before, ha.kill, ha.arrivals, ha.foreignOrders, ha.racingOrders⟩
                obtain ⟨s', hrun, hs'⟩ := solo_processEvent (r := r) hrest ha' hfind
                exact ⟨s', hpopped.trans hrun, hs'⟩

section System

variable {ι : Type} [DecidableEq ι] [Fintype ι] [DecidableEq κ] [Fintype κ] {t : Sys ι κ F} {c : ι}

/-- What a caller sees of the system: the stores, and where it stands. -/
def callerPart (c : ι) : Part (Sys ι κ F) (Shared κ F × Phase F) where
  view t := (t.toShared, t.phase c)
  put t out := { toShared := out.1, phase := Function.update t.phase c out.2 }
  view_put t out := by simp
  put_view t := by simp
  put_put t out out' := by simp

/-- A caller's moves alone are moves of the whole system while no other session holds a row. -/
theorem Reaches.of_solo {out : Shared κ F × Phase F}
    (hfree : ∀ d, d ≠ c → (t.phase d).flushedOrders = [])
    (h : Reaches (soloStep x) (t.toShared, t.phase c) out) :
    Reaches (step x) t { toShared := out.1, phase := Function.update t.phase c out.2 } := by
  refine Reaches.ofPart (callerPart c) (.worker c)
    (fun t => ∀ d, d ≠ c → (t.phase d).flushedOrders = []) ?_ hfree h
  rintro t a ⟨s', ph⟩ hfree hstep
  have hlocked : t.locked c = fun _ => false := by
    funext key
    simp only [Sys.locked, decide_eq_false_iff_not]
    rintro ⟨d, hd, row, hrow, -⟩
    simp [hfree d hd] at hrow
  constructor
  · simp only [step, hlocked]
    exact Option.map_eq_some_iff.mpr ⟨(s', ph), hstep, rfl⟩
  · intro d hd
    simpa [callerPart, Function.update_of_ne hd] using hfree d hd

/-- Every iteration of the pipeline that nobody interrupts is a run of the system. -/
theorem iterate_reaches (hidle : t.phase c = .idle)
    (hfree : ∀ d, d ≠ c → (t.phase d).flushedOrders = []) (h : Agrees w t.toShared)
    (ha : Alone e t.toShared) : ∃ u, Reaches (step r.toExecutor) t u ∧ u.phase = t.phase ∧
      Agrees (r.iterate e w).state u.toShared := by
  obtain ⟨s', hrun, hs'⟩ := solo_iterate (r := r) h ha
  rw [← hidle] at hrun
  refine ⟨_, Reaches.of_solo hfree hrun, ?_, hs'⟩
  simp

end System

end XSocialTrader.Workers
