import XSocialTrader.Services.LlmIteration
import XSocialTrader.Services.RulePipeline

/-! `run_llm_pipeline` as a worker loop over readings of the outside world: the way of one popped
id through its lookup, its analysis, its rows, the publishing and the charge, with every exit. -/
namespace XSocialTrader.Llm
open WorkerLoop LabelledRun

variable {F : Type} [PyFloat F]

/-- What a run writes: its tables, every id pushed onto the events queue, the daily counter, and
what an activation leaves in the table and in Redis. -/
structure Ledger (F : Type) where
  decisions : List (LlmDecisionRow F)
  events : List (Event F)
  published : List String
  spend : String → F
  activations : List KillSwitchEvent
  redisFlag : Option String

/-- One iteration's view of the outside. `others` is what the other processes have written since
the last iteration and `racingEvents` what they commit during it; an abort strikes at the await
that it is named after, `atPublish` after some of the pushes, and `atActivate` before or after
the flag is set. -/
structure LlmReading (F : Type) where
  killBefore : Stores
  arrivals : List ByteArray
  others : Ledger F → Ledger F
  racingEvents : List (Event F)
  tweets : List RawTweetRow
  aliases : List AliasRow
  firstReply : Reply F
  retryReply : Reply F
  now : UtcDateTime
  activationId : ℕ
  atKillCheck : Option Abort
  atPop : Option Abort
  atLoad : Option Abort
  atCommit : Option Abort
  atPublish : Option (ℕ × Abort)
  atCharge : Option Abort
  atActivate : Option (Bool × Abort)

/-- The queue of ids, the ledger and the report's counters. -/
structure LlmWorld (F : Type) extends Ledger F where
  queue : List ByteArray
  analyzed : ℕ
  invalidJson : ℕ
  eventsPublished : ℕ

/-- The arguments of `run_llm_pipeline`. -/
structure LlmPipeline (F : Type) where
  cfg : Config F
  provider : Provider F
  runtime : Runtime F
  drain : Bool

/-- The report's `stopped_reason`. -/
inductive LlmStop (F : Type) where
  | killSwitchActive (source : KillSwitchSource)
  | budgetBreached (spendUsd : F)

inductive LlmExit (F : Type) where
  | returned (stoppedReason : Option (LlmStop F))
  | aborted (a : Abort)

/-- Flush of the audit row: the driver binds its columns in their order, and the table refuses
the NULL that a NaN becomes. -/
def flushDecision (a : LlmAnalysis F) : Except PyExc Unit :=
  if (Json.string? a.rawResponse).isNone then .error .unicodeEncodeError
  else if a.latencyMs < -2 ^ 63 ∨ 2 ^ 63 ≤ a.latencyMs then .error .overflowError
  else if (bindFloat a.costUsd).isNone then .error (.integrityError "llm_decisions.cost_usd")
  else .ok ()

theorem flushDecision_ok_iff (a : LlmAnalysis F) : flushDecision a = .ok () ↔ a.Writable := by
  unfold flushDecision LlmAnalysis.Writable
  split_ifs with htext hlatency hcost
  · simp [Option.isNone_iff_eq_none.mp htext]
  · simp only [false_iff]
    omega
  · simp [Option.isNone_iff_eq_none.mp hcost]
  · rw [Bool.not_eq_true, Option.isNone_eq_false_iff] at htext hcost
    rw [not_or, not_lt, not_le] at hlatency
    exact ⟨fun _ => ⟨hlatency, htext, hcost⟩, fun _ => rfl⟩

namespace LlmPipeline

variable (p : LlmPipeline F)

/-- `trigger_from_llm_budget` and its commit. -/
def breach (e : LlmReading F) (w : LlmWorld F) (day : String) (spendUsd : F) :
    Control (LlmWorld F) (LlmExit F) :=
  let event : KillSwitchEvent :=
    { id := e.activationId, activated := true, trigger := .budgetLlm,
      actor := "llm_budget_tracker", reason := some (p.cfg.breachReason day spendUsd) }
  match e.atActivate with
  | some (flagged, a) =>
    .exit { w with redisFlag := if flagged then some "1" else w.redisFlag } (.aborted a)
  | none => .exit { w with
      redisFlag := some "1"
      activations := w.activations ++ [event] } (.returned (some (.budgetBreached spendUsd)))

/-- `budget.record_call`, and the check of the limit. -/
def charge (e : LlmReading F) (w : LlmWorld F) (costUsd : F) : Control (LlmWorld F) (LlmExit F) :=
  match e.atCharge with
  | some a => .exit w (.aborted a)
  | none =>
    if PyFloat.lt costUsd (PyFloat.ofInt 0) then .exit w (.aborted (.raised .valueError))
    else
      let day := String.ofList e.now.date.text
      let spendUsd := PyFloat.add (w.spend day) costUsd
      let w := { w with spend := Function.update w.spend day spendUsd }
      if PyFloat.le p.cfg.limitUsd spendUsd then p.breach e w day spendUsd else .next w

/-- The pushes onto the events queue. -/
def publish (e : LlmReading F) (w : LlmWorld F) (newEventIds : List String) (costUsd : F) :
    Control (LlmWorld F) (LlmExit F) :=
  match e.atPublish with
  | some (pushed, a) =>
    .exit { w with published := w.published ++ newEventIds.take pushed } (.aborted a)
  | none => p.charge e { w with
      published := w.published ++ newEventIds
      eventsPublished := w.eventsPublished + newEventIds.length } costUsd

/-- `session.commit()` of the audit row and its events. -/
def commitDecision (e : LlmReading F) (w : LlmWorld F) (decision : LlmDecisionRow F)
    (added : List (Event F)) : Control (LlmWorld F) (LlmExit F) :=
  match e.atCommit with
  | some a => .exit w (.aborted a)
  | none =>
    let seen := w.events ++ e.racingEvents
    if Flushable seen added then
      p.publish e { w with
        decisions := w.decisions ++ [decision]
        events := seen ++ added
        analyzed := w.analyzed + 1
        invalidJson := w.invalidJson + if decision.analysis.status = .invalidJson then 1 else 0 }
        (added.map Event.eventId) decision.analysis.costUsd
    else .exit { w with events := seen } (.aborted (.raised (.integrityError "ix_events_event_id")))

/-- The iteration from `provider.analyze` on. -/
def processTweet (e : LlmReading F) (w : LlmWorld F) (tweet : RawTweetRow) :
    Control (LlmWorld F) (LlmExit F) :=
  match (p.provider.analyze p.runtime tweet.toRawTweet e.firstReply e.retryReply).result with
  | .error exc => .exit w (.aborted (.raised exc))
  | .ok a => match flushDecision a with
    | .error exc => .exit w (.aborted (.raised exc))
    | .ok () => match tickersFor p.cfg e.aliases a with
      | none => .exit w (.aborted (.raised .unicodeEncodeError))
      | some tickers =>
        let decision : LlmDecisionRow F := ⟨nextDecisionId w.decisions, tweet.id, a⟩
        p.commitDecision e w decision (fanOut tweet decision w.events [] tickers)

/-- The session block: `session.get(DBRawTweet, db_id)` and what follows for a tweet found. -/
def processPopped (e : LlmReading F) (w : LlmWorld F) (dbId : ℤ) :
    Control (LlmWorld F) (LlmExit F) :=
  match e.atLoad with
  | some a => .exit w (.aborted a)
  | none =>
    -- the driver refuses to bind an integer beyond 64 bits
    if -2 ^ 63 ≤ dbId ∧ dbId < 2 ^ 63 then
      match e.tweets.find? fun tweet => tweet.id == dbId with
      | none => .next w
      | some tweet => p.processTweet e w tweet
    else .exit w (.aborted (.raised .overflowError))

/-- One iteration of `run_llm_pipeline`. -/
def iterate (e : LlmReading F) (w : LlmWorld F) : Control (LlmWorld F) (LlmExit F) :=
  let w := { w with toLedger := e.others w.toLedger, queue := w.queue ++ e.arrivals }
  match e.atKillCheck with
  | some a => .exit w (.aborted a)
  | none =>
    let state := e.killBefore.state
    if state.active then .exit w (.returned (some (.killSwitchActive state.source)))
    else match e.atPop with
      | some a => .exit w (.aborted a)
      | none => match w.queue with
        | [] => if p.drain then .exit w (.returned none) else .next w
        | raw :: queue =>
          let w := { w with queue := queue }
          match parsePopped p.cfg.text raw with
          | .raises => .exit w (.aborted (.raised .unicodeDecodeError))
          | .badPayload => .next w
          | .dbId n => p.processPopped e w n

end LlmPipeline

section Solo

variable {ω κ F : Type}

/-- The ledger of a run and the stores of the interleaved workers hold the same. -/
structure Agrees (w : LlmWorld F) (s : Shared ω κ F) : Prop where
  rawTweets : s.rawTweets = w.queue
  decisions : s.decisions = w.decisions
  events : s.events = w.events
  published : s.published = w.published
  spend : s.spend = w.spend

/-- During this iteration nobody else writes, and the check of the switch sees its stores. -/
structure Alone (e : LlmReading F) (s : Shared ω κ F) : Prop where
  kill_before : ∃ env, e.killBefore = ⟨env, s.kill.redisFlag, s.kill.rows⟩
  arrivals : e.arrivals = []
  others : e.others = id
  racingEvents : e.racingEvents = []
  tweets : e.tweets = s.tweets
  aliases : e.aliases = s.aliases

variable [DecidableEq ω] [Fintype ω] [DecidableEq κ] [Fintype κ] [PyFloat F]
  {p : LlmPipeline F} {worker : ω} {s : Shared ω κ F} {st st' : Shared ω κ F × Phase F}
  {e : LlmReading F} {w : LlmWorld F}

/-- A worker that is alone gets to the end of its iteration, or to the activation that a breach
asks for, with the stores as the ledger has them. -/
def Ends (cfg : Config F) (worker : ω) (st : Shared ω κ F × Phase F) (w : LlmWorld F) : Prop :=
  ∃ s' ph, Reaches (soloStep cfg worker) st (s', ph) ∧ Agrees w s' ∧
    (ph = .idle ∨ ∃ day spendUsd, ph = .breached day spendUsd)

theorem Ends.after (hrun : Reaches (soloStep p.cfg worker) st st')
    (h : Ends p.cfg worker st' w) : Ends p.cfg worker st w := by
  obtain ⟨s', ph, hrest, hagrees, hph⟩ := h
  exact ⟨s', ph, hrun.trans hrest, hagrees, hph⟩

theorem Ends.idle (h : Agrees w s) : Ends p.cfg worker (s, .idle) w :=
  ⟨s, .idle, .refl, h, Or.inl rfl⟩

theorem charge_ends (h : Agrees w s) (costUsd : F) :
    Ends p.cfg worker (s, .publishing [] costUsd) (p.charge e w costUsd).state := by
  unfold LlmPipeline.charge
  cases e.atCharge with
  | some a => exact .after (.single (a := .stop) rfl) (.idle h)
  | none =>
    have hcharge : soloStep p.cfg worker (s, .publishing [] costUsd) (.charge e.now) = _ :=
      solo_recordCall costUsd e.now
    refine .after (.single hcharge) ?_
    simp only [recordCall, ← h.spend]
    split_ifs with hneg hover
    · exact .idle h
    · refine ⟨_, _, .refl, ?_, Or.inr ⟨_, _, rfl⟩⟩
      unfold LlmPipeline.breach
      cases e.atActivate with
      | some fa =>
        dsimp only [Control.state_exit]
        exact ⟨h.rawTweets, h.decisions, h.events, h.published, rfl⟩
      | none =>
        dsimp only [Control.state_exit]
        exact ⟨h.rawTweets, h.decisions, h.events, h.published, rfl⟩
    · apply Ends.idle
      dsimp only [Control.state_next]
      exact ⟨h.rawTweets, h.decisions, h.events, h.published, rfl⟩

theorem publish_ends (h : Agrees w s) (newEventIds : List String) (costUsd : F) :
    Ends p.cfg worker (s, .publishing newEventIds costUsd)
      (p.publish e w newEventIds costUsd).state := by
  unfold LlmPipeline.publish
  cases e.atPublish with
  | some pa =>
    -- the pushes made stay, and the others are lost with the iteration
    have hpush : Reaches (soloStep p.cfg worker) (s, .publishing
        (newEventIds.take pa.1 ++ newEventIds.drop pa.1) costUsd) _ :=
      solo_push (newEventIds.take pa.1) (newEventIds.drop pa.1) costUsd
    rw [List.take_append_drop] at hpush
    let s' : Shared ω κ F := { s with published := s.published ++ newEventIds.take pa.1 }
    have hstop : soloStep p.cfg worker (s', .publishing (newEventIds.drop pa.1) costUsd) .stop =
        some (s', .idle) := by
      cases newEventIds.drop pa.1 <;> rfl
    refine .after (hpush.trans (.single hstop)) (.idle ?_)
    exact ⟨h.rawTweets, h.decisions, h.events, congrArg (· ++ _) h.published, h.spend⟩
  | none =>
    refine .after (solo_pushAll newEventIds costUsd) (charge_ends ?_ costUsd)
    exact ⟨h.rawTweets, h.decisions, h.events, congrArg (· ++ _) h.published, h.spend⟩

theorem commitDecision_ends (h : Agrees w s) (ha : Alone e s) (tweet : RawTweetRow)
    (decision : LlmDecisionRow F) {added : List (Event F)} (hadded : Flushable s.events added) :
    Ends p.cfg worker (s, .scanning tweet decision [] added)
      (p.commitDecision e w decision added).state := by
  unfold LlmPipeline.commitDecision
  cases e.atCommit with
  | some a => exact .after (.single (a := .stop) rfl) (.idle h)
  | none =>
    have hcommit : soloStep p.cfg worker (s, .scanning tweet decision [] added) .commit =
        some ({ s with decisions := s.decisions ++ [decision], events := s.events ++ added },
          .publishing (added.map Event.eventId) decision.analysis.costUsd) := by
      simp only [soloStep, act, if_pos hadded]
    simp only [ha.racingEvents, List.append_nil, ← h.events, if_pos hadded]
    refine .after (.single hcommit) (publish_ends ?_ _ _)
    exact ⟨h.rawTweets, congrArg (· ++ _) h.decisions, rfl, h.published, h.spend⟩

theorem processTweet_ends (h : Agrees w s) (ha : Alone e s) (tweet : RawTweetRow) :
    Ends p.cfg worker (s, .analyzing tweet) (p.processTweet e w tweet).state := by
  unfold LlmPipeline.processTweet
  cases (p.provider.analyze p.runtime tweet.toRawTweet e.firstReply e.retryReply).result with
  | error exc => exact .after (.single (a := .stop) rfl) (.idle h)
  | ok a =>
    refine .after (.single (a := .finishAnalyze a) rfl) ?_
    have hid := nextDecisionId_notMem s.decisions
    dsimp only
    cases hflush : flushDecision a with
    | error exc =>
      have hrefused : ¬ a.Writable := fun hwrite => by
        rw [(flushDecision_ok_iff a).mpr hwrite] at hflush
        cases hflush
      refine .after (.single (a := .flushDecision (nextDecisionId s.decisions)) ?_) (.idle h)
      simp only [soloStep, act, if_neg hid, if_neg hrefused]
    | ok u =>
      let decision : LlmDecisionRow F := ⟨nextDecisionId s.decisions, tweet.id, a⟩
      have hflushed : soloStep p.cfg worker (s, .analyzed tweet a)
          (.flushDecision (nextDecisionId s.decisions)) = some (s, .flushed tweet decision) := by
        simp only [soloStep, act, if_neg hid, if_pos ((flushDecision_ok_iff a).mp hflush), decision]
      refine .after (.single hflushed) ?_
      have hresolve := solo_resolve p.cfg worker s tweet decision
      dsimp only
      rw [ha.aliases]
      cases htickers : tickersFor p.cfg s.aliases a with
      | none =>
        rw [show tickersFor p.cfg s.aliases decision.analysis = none from htickers] at hresolve
        exact .after (.single hresolve) (.idle h)
      | some tickers =>
        rw [show tickersFor p.cfg s.aliases decision.analysis = some tickers from htickers]
          at hresolve
        obtain ⟨hscan, hflushable⟩ := solo_scan p.cfg worker s tweet decision tickers
          (.nil s.events)
        simp only [← h.decisions, ← h.events]
        exact .after ((Reaches.single hresolve).trans hscan)
          (commitDecision_ends h ha tweet decision hflushable)

theorem processPopped_ends (h : Agrees w s) (ha : Alone e s) (dbId : ℤ) :
    Ends p.cfg worker (s, .popped dbId) (p.processPopped e w dbId).state := by
  unfold LlmPipeline.processPopped
  cases e.atLoad with
  | some a => exact .after (.single (a := .stop) rfl) (.idle h)
  | none =>
    dsimp only
    by_cases hrange : -2 ^ 63 ≤ dbId ∧ dbId < 2 ^ 63
    · rw [if_pos hrange, ha.tweets]
      cases hfind : s.tweets.find? fun tweet => tweet.id == dbId with
      | none =>
        refine .after (.single (a := .load) ?_) (.idle h)
        simp only [soloStep, act, if_pos hrange, hfind]
      | some tweet =>
        have hload : soloStep p.cfg worker (s, .popped dbId) .load = some (s, .loaded tweet) := by
          simp only [soloStep, act, if_pos hrange, hfind]
        have hstart : soloStep p.cfg worker (s, .loaded tweet) .startAnalyze =
            some (s, .analyzing tweet) := rfl
        exact .after (.head hload (.single hstart)) (processTweet_ends h ha tweet)
    · rw [if_neg hrange]
      refine .after (.single (a := .load) ?_) (.idle h)
      simp only [soloStep, act, if_neg hrange]

/-- An iteration of the loop, whatever ends it, is a run of a worker that is alone. -/
theorem iterate_ends (h : Agrees w s) (ha : Alone e s) :
    Ends p.cfg worker (s, .idle) (p.iterate e w).state := by
  obtain ⟨env, hbefore⟩ := ha.kill_before
  have hactive : e.killBefore.state.active = ((isActive env s.kill.redisFlag []).active ||
      (isActive none none s.kill.rows).active) := by
    rw [hbefore]
    exact isActive_split env s.kill.redisFlag s.kill.rows
  unfold LlmPipeline.iterate
  simp only [ha.others, ha.arrivals, List.append_nil, id_eq]
  cases e.atKillCheck with
  | some a => exact .idle h
  | none =>
    cases hkill : e.killBefore.state.active with
    | true => exact .idle h
    | false =>
      rw [hkill, eq_comm, Bool.or_eq_false_iff] at hactive
      cases e.atPop with
      | some a => exact .idle h
      | none =>
        have hredis : soloStep p.cfg worker (s, .idle) (.readRedis env) = some (s, .redisRead) := by
          simp only [soloStep, act, hactive.1, Bool.false_eq_true, if_false]
        have hdb : soloStep p.cfg worker (s, .redisRead) .readDb = some (s, .checked) := by
          simp only [soloStep, act, hactive.2, Bool.false_eq_true, if_false]
        have hchecked := (Reaches.single hredis).trans (.single hdb)
        cases hqueue : w.queue with
        | nil =>
          have hempty : Agrees { w with queue := [] } s :=
            ⟨h.rawTweets.trans hqueue, h.decisions, h.events, h.published, h.spend⟩
          cases p.drain <;> exact .idle hempty
        | cons raw queue =>
          have hraw : s.rawTweets = raw :: queue := h.rawTweets.trans hqueue
          let s' : Shared ω κ F := { s with rawTweets := queue }
          have hrest : Agrees { w with queue := queue } s' :=
            ⟨rfl, h.decisions, h.events, h.published, h.spend⟩
          have ha' : Alone e s' :=
            ⟨⟨env, hbefore⟩, ha.arrivals, ha.others, ha.racingEvents, ha.tweets, ha.aliases⟩
          refine .after hchecked ?_
          dsimp only
          cases hid : parsePopped p.cfg.text raw with
          | raises =>
            refine .after (.single (a := .pop) ?_) (.idle hrest)
            simp only [soloStep, act, hraw, hid, s']
          | badPayload =>
            refine .after (.single (a := .pop) ?_) (.idle hrest)
            simp only [soloStep, act, hraw, hid, s']
          | dbId n =>
            have hpop : soloStep p.cfg worker (s, .checked) .pop = some (s', .popped n) := by
              simp only [soloStep, act, hraw, hid, s']
            exact .after (.single hpop) (processPopped_ends hrest ha' n)

section System

variable {t : Sys ω κ F}

/-- What a worker sees of the system: the stores, and where it stands. -/
def workerPart (worker : ω) : Part (Sys ω κ F) (Shared ω κ F × Phase F) where
  view t := (t.toShared, t.phase worker)
  put t out := { toShared := out.1, phase := Function.update t.phase worker out.2 }
  view_put t out := by simp
  put_view t := by simp
  put_put t out out' := by simp

/-- A worker's moves alone are moves of the whole system while no other session holds a row. -/
theorem Reaches.of_solo {cfg : Config F} {out : Shared ω κ F × Phase F}
    (hfree : ∀ d, d ≠ worker → (t.phase d).flushedId = none)
    (h : Reaches (soloStep cfg worker) (t.toShared, t.phase worker) out) :
    Reaches (step cfg) t { toShared := out.1, phase := Function.update t.phase worker out.2 } := by
  refine Reaches.ofPart (workerPart worker) (.worker worker)
    (fun t => ∀ d, d ≠ worker → (t.phase d).flushedId = none) ?_ hfree h
  rintro t a ⟨s', ph⟩ hfree hstep
  have hunheld : UnheldId t.phase a := by
    cases a with
    | flushDecision id =>
      intro d
      by_cases hd : d = worker
      · subst hd
        -- the worker flushes before its session holds a row
        cases hph : t.phase d with
        | analyzed tweet analysis => simp [Phase.flushedId]
        | _ => simp [workerPart, soloStep, act, hph] at hstep
      · simp [hfree d hd]
    | _ => trivial
  constructor
  · simp only [step, if_pos hunheld]
    exact Option.map_eq_some_iff.mpr ⟨(s', ph), hstep, rfl⟩
  · intro d hd
    simpa [workerPart, Function.update_of_ne hd] using hfree d hd

/-- Every iteration of the loop that nobody interrupts is a run of the system. -/
theorem iterate_reaches (hidle : t.phase worker = .idle)
    (hfree : ∀ d, d ≠ worker → (t.phase d).flushedId = none) (h : Agrees w t.toShared)
    (ha : Alone e t.toShared) :
    ∃ u, Reaches (step p.cfg) t u ∧ Agrees (p.iterate e w).state u.toShared := by
  obtain ⟨s', ph, hrun, hagrees, -⟩ := (iterate_ends h ha : Ends p.cfg worker _ _)
  rw [← hidle] at hrun
  exact ⟨_, Reaches.of_solo hfree hrun, hagrees⟩

end System

end Solo

end XSocialTrader.Llm
