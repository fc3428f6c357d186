import XSocialTrader.KillSwitch.Interleaving
import XSocialTrader.Services.RulePipeline

/-! Any number of callers of `submit` over the same stores: rule workers, and callers that
bring their own proposal. A caller moves from one await to the next, and between any two of
its moves the others, and the processes that operate the kill switch, may move. -/
namespace XSocialTrader.Workers
open LabelledRun

/-- Where a caller stands, with what it has read and what its session holds. -/
inductive Phase (F : Type) [PyFloat F] where
  | idle
  | preRedis
  | preDb
  | popped (eventId : String)
  | proposed (p : ProposedOrder F) (session : Session F)
  | ready (p : ProposedOrder F) (ctx : ValidationContext F) (session : Session F)
  | redisRead (p : ProposedOrder F) (ctx : ValidationContext F) (session : Session F)
  | permitted (p : ProposedOrder F) (ctx : ValidationContext F) (session : Session F)
  | validated (p : ProposedOrder F) (session : Session F)
  | placed (p : ProposedOrder F) (receipt : OrderReceipt) (session : Session F)
  | finishing (session : Session F)

/-- The moves of one caller, each with what it meets outside the modelled stores. -/
inductive Action (F : Type) [PyFloat F] where
  | start (p : ProposedOrder F)
  | preRedis (env : Option String)
  | preDb
  | pop
  | evaluate (events : EventTable F) (rules : LoadedRules F)
  | context (now : UtcDateTime) (dailyPeakUsd : Option F) (dailyPnlUsd : F)
      (account : BrokerReads F)
  | readRedis (env : Option String)
  | readDb
  | validate
  | place (answer : Except PyExc OrderReceipt)
  | insert (createdAt : UtcDateTime)
  | commit
  | stop

/-- What all callers share: committed rows, the queue, the kill switch, the broker's log. -/
structure Shared (κ F : Type) [PyFloat F] where
  kill : KillSwitch.Sys κ
  queue : List ByteArray
  orders : List (OrderRow F)
  ruleEvaluations : List (RuleEvaluationRow F)
  broker : List (BrokerCall F)

structure Sys (ι κ F : Type) [PyFloat F] extends Shared κ F where
  phase : ι → Phase F

inductive Label (ι κ F : Type) [PyFloat F] where
  | worker (c : ι) (a : Action F)
  | kill (k : KillSwitch.Label κ)
  | enqueue (raw : ByteArray)

section Act

variable {κ F : Type} [PyFloat F]

/-- The rows that a caller has flushed and not committed. -/
def Phase.flushedOrders : Phase F → List (OrderRow F)
  | .finishing session => session.orders
  | _ => []

/-- One move of a caller. An exception drops the session; a rejection leaves the session to
be committed with its audit rows. The flush of an orders row waits while another session
holds an uncommitted row with the same key. -/
def act (x : Executor F) (locked : String → Bool) (s : Shared κ F) :
    Phase F → Action F → Option (Shared κ F × Phase F)
  | .idle, .start p => some (s, .proposed p ⟨[], []⟩)
  | .idle, .preRedis env =>
    some (s, if (isActive env s.kill.redisFlag []).active then .idle else .preRedis)
  | .preRedis, .preDb =>
    some (s, if (isActive none none s.kill.rows).active then .idle else .preDb)
  | .preDb, .pop => match s.queue with
    | [] => some (s, .idle)
    | raw :: queue => some ({ s with queue := queue }, match String.fromUTF8? raw with
      | none => .idle
      | some eventId => .popped eventId)
  | .popped eventId, .evaluate events rules => some (s, match events.find eventId with
    | none => .idle
    | some event => match XSocialTrader.evaluate x.sha256 rules.rules event with
      | .error _ => .idle
      | .ok out => match out.matched.bind RuleEvaluationRecord.proposedOrder with
        | some p => .proposed p ⟨evaluationRows eventId out, []⟩
        | none => .finishing ⟨evaluationRows eventId out, []⟩)
  | .proposed p session, .context now dailyPeakUsd dailyPnlUsd account =>
    some (s, match buildValidationContext now dailyPeakUsd dailyPnlUsd account
        (flushEvaluations session.evaluations) s.orders with
      | .error _ => .idle
      | .ok ctx => .ready p ctx session)
  | .ready p ctx session, .readRedis env =>
    some (s, if (isActive env s.kill.redisFlag []).active then .finishing session
      else .redisRead p ctx session)
  | .redisRead p ctx session, .readDb =>
    some (s, if (isActive none none s.kill.rows).active then .finishing session
      else if x.permits p then .permitted p ctx session
      else .finishing session)
  | .permitted p ctx session, .validate =>
    some (s, match runChecks p ctx x.riskRules with
      | .error _ => .idle
      | .ok checks =>
        let session := { session with
          evaluations := session.evaluations ++ auditRows x.sha256 p checks }
        if allPassed checks then .validated p session else .finishing session)
  | .validated p session, .place answer =>
    some ({ s with broker := s.broker ++ [⟨p, answer⟩] }, match answer with
      | .error _ => .idle
      | .ok receipt => .placed p receipt session)
  | .placed p receipt session, .insert createdAt =>
    if locked (computeIdempotencyKey p.eventId p.strategyId) then none
    else
      let row := orderRow s.orders p receipt createdAt
      some (s, match insertOrder s.orders row with
        | .error _ => .idle
        | .ok _ => .finishing { session with orders := session.orders ++ [row] })
  | .finishing session, .commit => match flushEvaluations session.evaluations with
    | .error _ => some (s, .idle)
    | .ok () => some ({ s with
        orders := s.orders ++ session.orders
        ruleEvaluations := s.ruleEvaluations ++ session.evaluations }, .idle)
  | .idle, .stop => none
  | _, .stop => some (s, .idle)
  | _, _ => none

/-- The caller has read the switch as off in `submit` and has not called the broker. -/
def Phase.PastSwitch : Phase F → Prop
  | .permitted _ _ _ | .validated _ _ => True
  | _ => False

/-- The caller holds a snapshot for this event and has not called the broker. -/
def Phase.MayPlace (eventId : String) : Phase F → Prop
  | .ready p _ _ | .redisRead p _ _ | .permitted p _ _ | .validated p _ => p.eventId = eventId
  | _ => False

instance (eventId : String) (ph : Phase F) : Decidable (ph.MayPlace eventId) := by
  unfold Phase.MayPlace
  split <;> infer_instance

/-- The event for which the caller is about to take its snapshot. -/
def Phase.proposedEvent : Phase F → Option String
  | .proposed p _ => some p.eventId
  | _ => none

/-- Its snapshot does not show the event, so the idempotency rule lets it through. -/
def Phase.Unseen (eventId : String) : Phase F → Prop
  | .ready p ctx _ | .redisRead p ctx _ | .permitted p ctx _ =>
    p.eventId = eventId ∧ eventId ∉ ctx.seenEventIds
  | .validated p _ => p.eventId = eventId
  | _ => False

theorem Phase.Unseen.mayPlace {eventId : String} {ph : Phase F} (h : ph.Unseen eventId) :
    ph.MayPlace eventId := by
  cases ph with
  | ready p ctx session => exact h.1
  | redisRead p ctx session => exact h.1
  | permitted p ctx session => exact h.1
  | validated p session => exact h
  | _ => exact h

variable {x : Executor F} {locked : String → Bool} {s s' : Shared κ F} {ph ph' : Phase F}
  {a : Action F}

/-- A move that neither takes a snapshot, nor passes the switch, nor calls the broker. -/
structure Quiet (s s' : Shared κ F) (ph ph' : Phase F) : Prop where
  broker : s'.broker = s.broker
  unseen : ∀ eventId, ph'.Unseen eventId → ph.Unseen eventId
  pastSwitch : ph'.PastSwitch → ph.PastSwitch

/-- The caller is not between its snapshot and the broker call. -/
def Phase.inert : Phase F → Bool
  | .ready _ _ _ | .redisRead _ _ _ | .permitted _ _ _ | .validated _ _ => false
  | _ => true

theorem Phase.not_unseen_of_inert (h : ph.inert = true) (eventId : String) :
    ¬ ph.Unseen eventId := by
  cases ph <;> simp_all [Phase.inert, Phase.Unseen]

theorem Phase.not_pastSwitch_of_inert (h : ph.inert = true) : ¬ ph.PastSwitch := by
  cases ph <;> simp_all [Phase.inert, Phase.PastSwitch]

theorem Quiet.of_inert (hb : s'.broker = s.broker) (hi : ph'.inert = true) :
    Quiet s s' ph ph' :=
  ⟨hb, fun e h => absurd h (ph'.not_unseen_of_inert hi e),
    fun h => absurd h (ph'.not_pastSwitch_of_inert hi)⟩

/-- Passing `validate` means that the idempotency rule has held. -/
theorem unseen_of_allPassed {p : ProposedOrder F} {ctx : ValidationContext F}
    {checks : List (RuleCheckResult F)} (hc : runChecks p ctx x.riskRules = .ok checks)
    (ha : allPassed checks = true) : p.eventId ∉ ctx.seenEventIds :=
  (idempotencyRule_holds_iff.mp
    ((runChecks_accepts_iff p ctx _).mp ⟨checks, hc, ha⟩ _ x.idempotencyRule_mem)).1

/-- What one move of a caller can do. -/
theorem act_cases (h : act x locked s ph a = some (s', ph')) : s'.kill = s.kill ∧
    (Quiet s s' ph ph' ∨
    (∃ p session ctx, ph = .proposed p session ∧ ph' = .ready p ctx session ∧
      s'.broker = s.broker ∧ (∃ now peak pnl account, a = .context now peak pnl account) ∧
      ctx.seenEventIds = s.orders.map OrderRow.eventId) ∨
    (∃ p ctx session, a = .readDb ∧ ph = .redisRead p ctx session ∧
      ph' = .permitted p ctx session ∧ s' = s ∧
      (isActive none none s.kill.rows).active = false) ∨
    (∃ p session answer, a = .place answer ∧ ph = .validated p session ∧
      s'.broker = s.broker ++ [⟨p, answer⟩] ∧ ph'.inert = true)) := by
  have hinert : ∀ {t : Shared κ F} {q : Phase F}, some (t, q) = some (s', ph') →
      t.kill = s.kill → t.broker = s.broker → q.inert = true →
      s'.kill = s.kill ∧ Quiet s s' ph ph' := by
    rintro t q hq hk hb hi
    obtain ⟨rfl, rfl⟩ := Prod.mk.inj (Option.some.inj hq)
    exact ⟨hk, .of_inert hb hi⟩
  unfold act at h
  split at h
  case h_6 p session now peak pnl account =>
    cases hctx : buildValidationContext now peak pnl account
        (flushEvaluations session.evaluations) s.orders with
    | error e =>
      rw [hctx] at h
      exact (hinert h rfl rfl rfl).imp_right Or.inl
    | ok ctx =>
      rw [hctx] at h
      obtain ⟨rfl, rfl⟩ := Prod.mk.inj (Option.some.inj h)
      exact ⟨rfl, Or.inr (Or.inl ⟨p, session, ctx, rfl, rfl, rfl, ⟨now, peak, pnl, account, rfl⟩,
        (buildValidationContext_seen hctx).1⟩)⟩
  case h_7 p ctx session env =>
    split_ifs at h
    · exact (hinert h rfl rfl rfl).imp_right Or.inl
    · obtain ⟨rfl, rfl⟩ := Prod.mk.inj (Option.some.inj h)
      exact ⟨rfl, Or.inl ⟨rfl, fun _ hu => hu, fun hp => hp⟩⟩
  case h_8 p ctx session =>
    split_ifs at h with hactive hpermits
    · exact (hinert h rfl rfl rfl).imp_right Or.inl
    · obtain ⟨rfl, rfl⟩ := Prod.mk.inj (Option.some.inj h)
      exact ⟨rfl, Or.inr (Or.inr (Or.inl ⟨p, ctx, session, rfl, rfl, rfl, rfl,
        by simpa using hactive⟩))⟩
    · exact (hinert h rfl rfl rfl).imp_right Or.inl
  case h_9 p ctx session =>
    cases hc : runChecks p ctx x.riskRules with
    | error e =>
      rw [hc] at h
      exact (hinert h rfl rfl rfl).imp_right Or.inl
    | ok checks =>
      simp only [hc] at h
      cases ha : allPassed checks with
      | false =>
        simp only [ha] at h
        exact (hinert h rfl rfl rfl).imp_right Or.inl
      | true =>
        simp only [ha] at h
        obtain ⟨rfl, rfl⟩ := Prod.mk.inj (Option.some.inj h)
        have hunseen := unseen_of_allPassed hc ha
        exact ⟨rfl, Or.inl ⟨rfl, fun _ hu => ⟨hu, hu ▸ hunseen⟩, fun _ => trivial⟩⟩
  case h_10 p session answer =>
    obtain ⟨rfl, rfl⟩ := Prod.mk.inj (Option.some.inj h)
    exact ⟨rfl, Or.inr (Or.inr (Or.inr ⟨p, session, answer, rfl, rfl, rfl,
      by cases answer <;> rfl⟩))⟩
  all_goals refine And.imp_right Or.inl ?_
  case h_1 => exact hinert h rfl rfl rfl
  case h_2 => split_ifs at h <;> exact hinert h rfl rfl rfl
  case h_3 => split_ifs at h <;> exact hinert h rfl rfl rfl
  case h_4 =>
    split at h
    · exact hinert h rfl rfl rfl
    next raw queue _ =>
      refine hinert h rfl rfl ?_
      split <;> rfl
  case h_5 eventId events rules =>
    refine hinert h rfl rfl ?_
    split
    · rfl
    · split
      · rfl
      · split <;> rfl
  case h_11 p receipt session createdAt =>
    split_ifs at h
    refine hinert h rfl rfl ?_
    split <;> rfl
  case h_12 session => split at h <;> exact hinert h rfl rfl rfl
  case h_14 => exact hinert h rfl rfl rfl
  all_goals exact absurd h (by simp)

end Act

section System

variable {ι κ F : Type} [DecidableEq ι] [Fintype ι] [PyFloat F]

/-- Another caller has flushed and not committed a row with this key. -/
def Sys.locked (s : Sys ι κ F) (c : ι) (key : String) : Bool :=
  decide (∃ d, d ≠ c ∧ ∃ row ∈ (s.phase d).flushedOrders, row.idempotencyKey = key)

variable [DecidableEq κ] [Fintype κ]

/-- One move of a caller, of a process that operates the kill switch, or of a producer. -/
def step (x : Executor F) (s : Sys ι κ F) : Label ι κ F → Option (Sys ι κ F)
  | .worker c a => (act x (s.locked c) s.toShared (s.phase c) a).map fun out =>
      { toShared := out.1, phase := Function.update s.phase c out.2 }
  | .kill k => (KillSwitch.step s.kill k).map fun kill => { s with kill := kill }
  | .enqueue raw => some { s with queue := s.queue ++ [raw] }

variable {x : Executor F} {s t : Sys ι κ F}

theorem step_worker {c : ι} {a : Action F} (h : step x s (.worker c a) = some t) :
    act x (s.locked c) s.toShared (s.phase c) a = some (t.toShared, t.phase c) ∧
      ∀ d, d ≠ c → t.phase d = s.phase d := by
  obtain ⟨⟨s', ph'⟩, hact, rfl⟩ := Option.map_eq_some_iff.mp h
  refine ⟨?_, fun d hd => Function.update_of_ne hd _ _⟩
  simp only [hact, Function.update_self]

/-- Callers do not write to the kill switch. -/
theorem step_kill {l : Label ι κ F} (h : step x s l = some t) :
    t.kill = s.kill ∨ ∃ k, KillSwitch.step s.kill k = some t.kill := by
  cases l with
  | worker c a => exact Or.inl (act_cases (step_worker h).1).1
  | kill k =>
    obtain ⟨kill, hk, rfl⟩ := Option.map_eq_some_iff.mp h
    exact Or.inr ⟨k, hk⟩
  | enqueue raw =>
    obtain rfl := Option.some.inj h
    exact Or.inl rfl

theorem Reaches.kill_idsDistinct (h : Reaches (step x) s t)
    (hs : KillSwitch.IdsDistinct s.kill) : KillSwitch.IdsDistinct t.kill := by
  refine h.invariant (fun s => KillSwitch.IdsDistinct s.kill) (fun u l v hu hstep => ?_) hs
  rcases step_kill hstep with hk | ⟨k, hk⟩
  · exact hk ▸ hu
  · exact KillSwitch.step_idsDistinct hu hk

theorem Reaches.kill_rows_subset (h : Reaches (step x) s t) : s.kill.rows ⊆ t.kill.rows := by
  refine h.relates (fun s t => s.kill.rows ⊆ t.kill.rows) (fun _ => List.Subset.refl _)
    (fun _ _ _ => List.Subset.trans) fun u l v hstep => ?_
  rcases step_kill hstep with hk | ⟨k, hk⟩
  · rw [hk]
    exact List.Subset.refl _
  · exact KillSwitch.step_rows_subset hk

end System

section Paper

def paperProposal : ProposedOrder ℚ :=
  buildProposedOrder (paperRule .market none)
    ⟨"t1:TSLA", 1, 1, "TSLA", "bullish", 9 / 10, "swing"⟩

def paperStart (n : ℕ) : Sys (Fin n) (Fin 1) ℚ where
  kill := ⟨none, [], fun _ => none⟩
  queue := []
  orders := []
  ruleEvaluations := []
  broker := []
  phase := fun _ => .idle

/-- A caller with a proposal of its own takes its snapshot. -/
def paperSnapshot {n : ℕ} (c : Fin n) : List (Label (Fin n) (Fin 1) ℚ) :=
  [.worker c (.start paperProposal),
    .worker c (.context paperNoon none 0 ⟨.ok [("NetLiquidation", 1000)], .ok []⟩)]

/-- The gates of `submit`, up to the flush of the audit rows. -/
def paperGates {n : ℕ} (c : Fin n) : List (Label (Fin n) (Fin 1) ℚ) :=
  [.worker c (.readRedis none), .worker c .readDb, .worker c .validate]

/-- The broker call and the flush of the orders row. -/
def paperPlace {n : ℕ} (c : Fin n) : List (Label (Fin n) (Fin 1) ℚ) :=
  [.worker c (.place (.ok ⟨"t1:TSLA:news", "ext"⟩)), .worker c (.insert paperNoon)]

end Paper

end XSocialTrader.Workers
