import XSocialTrader.Lib.SharedLog
import XSocialTrader.Services.QueueEntries

/-! What the report of `run_llm_pipeline` says about the two tables and the events queue while
other processes append to them. -/
namespace XSocialTrader.Llm
open WorkerLoop SharedLog

variable {F : Type}

/-- The other processes only append: the two tables refuse anything else, and an id that has
been pushed stays so. -/
structure OthersAppend (e : LlmReading F) : Prop where
  decisions : ∀ l, l.decisions <+: (e.others l).decisions
  events : ∀ l, l.events <+: (e.others l).events
  published : ∀ l, l.published <+: (e.others l).published

/-- The first iteration of a run finds its counters at zero. -/
def LlmWorld.start (ledger : Ledger F) (queue : List ByteArray) : LlmWorld F :=
  { ledger with queue := queue, analyzed := 0, invalidJson := 0, eventsPublished := 0 }

/-- What the session of one tweet commits. -/
structure TweetCommit (F : Type) where
  decision : LlmDecisionRow F
  events : List (Event F)

namespace TweetCommit

def eventIds (c : TweetCommit F) : List String := c.events.map Event.eventId

def invalidJson (c : TweetCommit F) : Bool := c.decision.analysis.status = .invalidJson

/-- The events are those of the audit row. -/
def Linked (c : TweetCommit F) : Prop := ∀ event ∈ c.events,
  event.llmDecisionId = c.decision.id ∧ event.rawTweetId = c.decision.rawTweetId

end TweetCommit

/-- No other process writes around this iteration or during it. -/
def Unshared (e : LlmReading F) : Prop := e.others = id ∧ e.racingEvents = []

/-- A run has committed `own` and pushed `pushed`, among the writes of the others. -/
structure Wrote (alone : Prop) (start : Ledger F) (w : LlmWorld F) (own : List (TweetCommit F))
    (pushed : List String) : Prop where
  decisions : Grew alone (own.map TweetCommit.decision) start.decisions w.decisions
  events : Grew alone (own.flatMap TweetCommit.events) start.events w.events
  published : Grew alone pushed start.published w.published
  linked : ∀ c ∈ own, c.Linked

/-- The counters are those of `own`, all of whose event ids have been pushed. -/
structure Reported (alone : Prop) (start : Ledger F) (w : LlmWorld F)
    (own : List (TweetCommit F)) : Prop where
  wrote : Wrote alone start w own (own.flatMap TweetCommit.eventIds)
  analyzed : w.analyzed = own.length
  invalidJson : w.invalidJson = own.countP TweetCommit.invalidJson
  eventsPublished : w.eventsPublished = (own.flatMap TweetCommit.eventIds).length

/-- What one iteration can do to the tables, the events queue and the counters. -/
inductive LlmEffect (e : LlmReading F) (w : LlmWorld F) :
    Control (LlmWorld F) (LlmExit F) → Prop
  | quiet (c : Control (LlmWorld F) (LlmExit F))
      (hdecisions : c.state.decisions = (e.others w.toLedger).decisions)
      (hevents : (e.others w.toLedger).events <+: c.state.events ∧
        (e.racingEvents = [] → c.state.events = (e.others w.toLedger).events))
      (hpublished : c.state.published = (e.others w.toLedger).published)
      (hcount : c.state.analyzed = w.analyzed ∧ c.state.invalidJson = w.invalidJson ∧
        c.state.eventsPublished = w.eventsPublished) : LlmEffect e w c
  | committed (c : Control (LlmWorld F) (LlmExit F)) (own : TweetCommit F)
      (pushed : List String) (hlinked : own.Linked)
      (hdecisions : c.state.decisions = (e.others w.toLedger).decisions ++ [own.decision])
      (hevents : c.state.events =
        (e.others w.toLedger).events ++ e.racingEvents ++ own.events)
      (hpublished : c.state.published = (e.others w.toLedger).published ++ pushed)
      (hpushed : pushed <+: own.eventIds)
      (hcount : (∃ t a, c = .exit t (.aborted a)) ∨ pushed = own.eventIds ∧
        c.state.analyzed = w.analyzed + 1 ∧
        c.state.invalidJson = w.invalidJson + (if own.invalidJson then 1 else 0) ∧
        c.state.eventsPublished = w.eventsPublished + own.eventIds.length) : LlmEffect e w c

theorem fanOut_linked (tweet : RawTweetRow) (decision : LlmDecisionRow F)
    (events : List (Event F)) {added : List (Event F)} (todo : List String)
    (h : TweetCommit.Linked ⟨decision, added⟩) (htweet : decision.rawTweetId = tweet.id) :
    TweetCommit.Linked ⟨decision, fanOut tweet decision events added todo⟩ := by
  induction todo generalizing added with
  | nil => exact h
  | cons ticker todo ih =>
    simp only [fanOut]
    split
    · exact ih h
    · refine ih fun event hevent => ?_
      rcases List.mem_append.mp hevent with hevent | hevent
      · exact h event hevent
      · rw [List.mem_singleton.mp hevent]
        exact ⟨rfl, htweet.symm⟩

variable [PyFloat F] {p : LlmPipeline F} {e : LlmReading F} {w : LlmWorld F}

/-- The charge writes neither table and counts nothing. -/
theorem charge_records (p : LlmPipeline F) (e : LlmReading F) (w : LlmWorld F) (costUsd : F) :
    let t := (p.charge e w costUsd).state
    (t.decisions = w.decisions ∧ t.events = w.events ∧ t.published = w.published) ∧
      t.analyzed = w.analyzed ∧ t.invalidJson = w.invalidJson ∧
        t.eventsPublished = w.eventsPublished := by
  unfold LlmPipeline.charge LlmPipeline.breach
  cases e.atCharge with
  | some a => exact ⟨⟨rfl, rfl, rfl⟩, rfl, rfl, rfl⟩
  | none =>
    dsimp only
    split_ifs
    · simp only [Control.state_exit, and_self]
    · cases e.atActivate <;> simp only [Control.state_exit, and_self]
    · simp only [Control.state_next, and_self]

/-- The pushes are a prefix of the new ids, and all of them unless an exception ends the run. -/
theorem publish_records (p : LlmPipeline F) (e : LlmReading F) (w : LlmWorld F)
    (newEventIds : List String) (costUsd : F) :
    let c := p.publish e w newEventIds costUsd
    ∃ pushed, pushed <+: newEventIds ∧ c.state.published = w.published ++ pushed ∧
      c.state.decisions = w.decisions ∧ c.state.events = w.events ∧
      ((∃ t a, c = .exit t (.aborted a)) ∨ pushed = newEventIds ∧
        c.state.analyzed = w.analyzed ∧ c.state.invalidJson = w.invalidJson ∧
        c.state.eventsPublished = w.eventsPublished + newEventIds.length) := by
  unfold LlmPipeline.publish
  cases e.atPublish with
  | some pa =>
    exact ⟨newEventIds.take pa.1, List.take_prefix pa.1 newEventIds, rfl, rfl, rfl,
      Or.inl ⟨_, _, rfl⟩⟩
  | none =>
    obtain ⟨⟨hdecisions, hevents, hpublished⟩, hanalyzed, hinvalid, hcount⟩ :=
      charge_records p e { w with
        published := w.published ++ newEventIds
        eventsPublished := w.eventsPublished + newEventIds.length } costUsd
    exact ⟨newEventIds, List.prefix_refl _, hpublished, hdecisions, hevents,
      Or.inr ⟨rfl, hanalyzed, hinvalid, hcount⟩⟩

/-- The world as an iteration finds it, less what it has popped. -/
structure Found (e : LlmReading F) (w b : LlmWorld F) : Prop where
  ledger : b.toLedger = e.others w.toLedger
  analyzed : b.analyzed = w.analyzed
  invalidJson : b.invalidJson = w.invalidJson
  eventsPublished : b.eventsPublished = w.eventsPublished

omit [PyFloat F] in
/-- An iteration that ends with the world as it found it. -/
theorem Found.quiet {b : LlmWorld F} (h : Found e w b) {c : Control (LlmWorld F) (LlmExit F)}
    (hstate : c.state = b) : LlmEffect e w c := by
  subst hstate
  refine .quiet c ?_ ?_ ?_ ⟨h.analyzed, h.invalidJson, h.eventsPublished⟩
  · rw [h.ledger]
  · rw [h.ledger]
    exact ⟨List.prefix_refl _, fun _ => rfl⟩
  · rw [h.ledger]

theorem commitDecision_effect {b : LlmWorld F} (h : Found e w b) (own : TweetCommit F)
    (hlinked : own.Linked) : LlmEffect e w (p.commitDecision e b own.decision own.events) := by
  have hledger := h.ledger
  unfold LlmPipeline.commitDecision
  cases e.atCommit with
  | some a => exact h.quiet rfl
  | none =>
    dsimp only
    by_cases hflush : Flushable (b.events ++ e.racingEvents) own.events
    · rw [if_pos hflush]
      obtain ⟨pushed, hpushed, hpublished, hdecisions, hevents, hcount⟩ := publish_records p e
        { b with
          decisions := b.decisions ++ [own.decision]
          events := b.events ++ e.racingEvents ++ own.events
          analyzed := b.analyzed + 1
          invalidJson := b.invalidJson +
            if own.decision.analysis.status = .invalidJson then 1 else 0 }
        (own.events.map Event.eventId) own.decision.analysis.costUsd
      refine .committed _ own pushed hlinked ?_ ?_ ?_ hpushed (hcount.imp_right ?_)
      · rw [hdecisions, hledger]
      · rw [hevents, hledger]
      · rw [hpublished, hledger]
      · rintro ⟨hall, hanalyzed, hinvalid, heventsPublished⟩
        refine ⟨hall, ?_, ?_, ?_⟩
        · rw [hanalyzed, h.analyzed]
        · rw [hinvalid, h.invalidJson]
          simp [TweetCommit.invalidJson]
        · rw [heventsPublished, h.eventsPublished, TweetCommit.eventIds]
    · rw [if_neg hflush]
      refine .quiet _ ?_ ?_ ?_ ⟨h.analyzed, h.invalidJson, h.eventsPublished⟩
      · rw [← hledger]
        rfl
      · rw [← hledger]
        exact ⟨List.prefix_append _ _, fun hnone => by simp [hnone]⟩
      · rw [← hledger]
        rfl

theorem processPopped_effect {b : LlmWorld F} (h : Found e w b) (dbId : ℤ) :
    LlmEffect e w (p.processPopped e b dbId) := by
  unfold LlmPipeline.processPopped
  cases e.atLoad with
  | some a => exact h.quiet rfl
  | none =>
    dsimp only
    split_ifs
    · cases e.tweets.find? fun tweet => tweet.id == dbId with
      | none => exact h.quiet rfl
      | some tweet =>
        dsimp only
        unfold LlmPipeline.processTweet
        cases (p.provider.analyze p.runtime tweet.toRawTweet e.firstReply e.retryReply).result with
        | error exc => exact h.quiet rfl
        | ok a =>
          dsimp only
          cases flushDecision a with
          | error exc => exact h.quiet rfl
          | ok _ =>
            dsimp only
            cases tickersFor p.cfg e.aliases a with
            | none => exact h.quiet rfl
            | some tickers =>
              let decision : LlmDecisionRow F := ⟨nextDecisionId b.decisions, tweet.id, a⟩
              have hlinked : TweetCommit.Linked
                  ⟨decision, fanOut tweet decision b.events [] tickers⟩ :=
                fanOut_linked tweet decision b.events tickers
                  (fun event hevent => absurd hevent List.not_mem_nil) rfl
              exact commitDecision_effect h ⟨decision, _⟩ hlinked
    · exact h.quiet rfl

/-- Every iteration has one of the two effects. -/
theorem llmIterate_effect (p : LlmPipeline F) (e : LlmReading F) (w : LlmWorld F) :
    LlmEffect e w (p.iterate e w) := by
  have hfound (queue : List ByteArray) :
      Found e w { w with toLedger := e.others w.toLedger, queue := queue } :=
    ⟨rfl, rfl, rfl, rfl⟩
  unfold LlmPipeline.iterate
  dsimp only
  cases e.atKillCheck with
  | some a => exact (hfound _).quiet rfl
  | none =>
    cases e.killBefore.state.active with
    | true => exact (hfound _).quiet rfl
    | false =>
      cases e.atPop with
      | some a => exact (hfound _).quiet rfl
      | none =>
        cases hqueue : w.queue ++ e.arrivals with
        | nil => cases p.drain <;> exact (hfound []).quiet rfl
        | cons raw queue =>
          dsimp only
          cases parsePopped p.cfg.text raw with
          | raises => exact (hfound queue).quiet rfl
          | badPayload => exact (hfound queue).quiet rfl
          | dbId n => exact processPopped_effect (hfound queue) n

section Run

variable {alone : Prop} {start : Ledger F} {own : List (TweetCommit F)}
  {c : Control (LlmWorld F) (LlmExit F)}

omit [PyFloat F] in
/-- One iteration adds its own commit, if it has one, to what the run has written. -/
theorem Reported.step (h : Reported alone start w own) (he : OthersAppend e)
    (halone : alone → Unshared e) (heffect : LlmEffect e w c) :
    ((∃ t a, c = .exit t (.aborted a)) ∧ ∃ last pushed, last.length ≤ 1 ∧
        pushed <+: last.flatMap TweetCommit.eventIds ∧
        Wrote alone start c.state (own ++ last) (own.flatMap TweetCommit.eventIds ++ pushed)) ∨
      ∃ more, Reported alone start c.state (own ++ more) := by
  have hothers (ha : alone) : e.others w.toLedger = w.toLedger := by rw [(halone ha).1, id]
  have hdecisions := h.wrote.decisions.others (he.decisions w.toLedger)
    fun ha => by rw [hothers ha]
  have hevents := h.wrote.events.others (he.events w.toLedger) fun ha => by rw [hothers ha]
  have hpublished := h.wrote.published.others (he.published w.toLedger)
    fun ha => by rw [hothers ha]
  cases heffect with
  | quiet hd hev hp hcount =>
    refine Or.inr ⟨[], ?_⟩
    rw [List.append_nil]
    refine ⟨⟨hd ▸ hdecisions, hevents.others hev.1 fun ha => hev.2 (halone ha).2,
      hp ▸ hpublished, h.wrote.linked⟩, ?_, ?_, ?_⟩
    · rw [hcount.1, h.analyzed]
    · rw [hcount.2.1, h.invalidJson]
    · rw [hcount.2.2, h.eventsPublished]
  | committed mine pushed hlinked hd hev hp hpushed hcount =>
    have hwrote : Wrote alone start c.state (own ++ [mine])
        (own.flatMap TweetCommit.eventIds ++ pushed) := by
      refine ⟨?_, ?_, ?_, ?_⟩
      · rw [hd, List.map_append]
        exact hdecisions.write _
      · rw [hev, List.flatMap_append, List.flatMap_singleton]
        exact (hevents.others (List.prefix_append _ _) fun ha => by
          rw [(halone ha).2, List.append_nil]).write _
      · rw [hp]
        exact hpublished.write _
      · intro c hc
        rcases List.mem_append.mp hc with hc | hc
        · exact h.wrote.linked c hc
        · rw [List.mem_singleton.mp hc]
          exact hlinked
    rcases hcount with habort | ⟨rfl, hanalyzed, hinvalid, hpub⟩
    · refine Or.inl ⟨habort, [mine], pushed, le_rfl, ?_, hwrote⟩
      rwa [List.flatMap_singleton]
    · refine Or.inr ⟨[mine], ?_, ?_, ?_, ?_⟩
      · rwa [List.flatMap_append, List.flatMap_singleton]
      · rw [hanalyzed, h.analyzed, List.length_append, List.length_singleton]
      · rw [hinvalid, h.invalidJson, List.countP_append, List.countP_singleton]
      · rw [hpub, h.eventsPublished, List.flatMap_append, List.length_append,
          List.flatMap_singleton]

omit [PyFloat F] in
theorem Reported.initial (alone : Prop) (start : Ledger F) (queue : List ByteArray) :
    Reported alone start (.start start queue) [] where
  wrote := ⟨Grew.refl alone _, Grew.refl alone _, Grew.refl alone _,
    fun _ hc => absurd hc List.not_mem_nil⟩
  analyzed := rfl
  invalidJson := rfl
  eventsPublished := rfl

end Run

/-- While other processes only append, a run that goes on or has returned its report has
committed, in order, `analyzed` audit rows, `invalidJson` of them with that status, each with its
events, and has pushed the `eventsPublished` ids of these events, each once and in order of
commit. A run that an exception ends falls short by at most some last ids of its last commit.
A run with no other writer has added nothing else to the tables and to the queue. -/
theorem llm_report_accounts (p : LlmPipeline F) (start : Ledger F) (queue : List ByteArray)
    (es : List (LlmReading F)) (hothers : ∀ e ∈ es, OthersAppend e) :
    let out := loop p.iterate (.start start queue) es
    let alone := ∀ e ∈ es, Unshared e
    (∃ own, Reported alone start out.1 own) ∨
      ∃ a own last pushed, out.2 = some (.aborted a) ∧ last.length ≤ 1 ∧
        pushed <+: last.flatMap TweetCommit.eventIds ∧
        Wrote alone start out.1 (own ++ last) (own.flatMap TweetCommit.eventIds ++ pushed) := by
  intro out alone
  have hrun := loop_rule p.iterate (fun t => ∃ own, Reported alone start t own)
    (fun t x => (∃ own, Reported alone start t own) ∨ ∃ a own last pushed, x = .aborted a ∧
      last.length ≤ 1 ∧ pushed <+: last.flatMap TweetCommit.eventIds ∧
      Wrote alone start t (own ++ last) (own.flatMap TweetCommit.eventIds ++ pushed))
    (fun v => v.1 ∈ es) ?_ ?_ ⟨[], Reported.initial alone start queue⟩
    (fun v (hv : v ∈ visits p.iterate (.start start queue) es) => visits_reading_mem hv)
  · cases hx : out.2 with
    | none => exact Or.inl (hrun.1 hx)
    | some x => simpa only [Option.some.injEq] using hrun.2.1 x hx
  · rintro e w t ⟨own, hw⟩ he hb
    rcases hw.step (hothers e he) (fun ha => ha e he) (hb ▸ llmIterate_effect p e w) with
      ⟨⟨_, _, hbad⟩, -⟩ | ⟨more, hmore⟩
    · cases hbad
    · exact ⟨_, hmore⟩
  · rintro e w t x ⟨own, hw⟩ he hb
    rcases hw.step (hothers e he) (fun ha => ha e he) (hb ▸ llmIterate_effect p e w) with
      ⟨⟨_, a, hexit⟩, last, pushed, hlast⟩ | ⟨more, hmore⟩
    · exact Or.inr ⟨a, own, last, pushed, (Control.exit.inj hexit).2, hlast⟩
    · exact Or.inl ⟨_, hmore⟩

/-- A tweet that is analyzed and published, and an empty queue after it. -/
theorem llm_report_accounts_drained :
    let answer : Answer := ⟨Json.text ("\x7b\"tickers\": [\"TSLA\"], \"intent\": \"bullish\", " ++
      "\"confidence\": 1, \"time_horizon\": \"swing\"\x7d"), 100, 10, 20⟩
    let e := { (paperTweetPop "1".toUTF8).1 with
      arrivals := ["1".toUTF8]
      firstReply := okReply answer }
    let drained := (paperTweetPop "1".toUTF8).1
    let start : Ledger ℚ := ⟨[], [], [], fun _ => 0, [], none⟩
    let out := loop paperLlm.iterate (.start start []) [e, drained]
    out.1.published = ["t1:TSLA"] ∧
      ∃ own, Reported (∀ e' ∈ [e, drained], Unshared e') start out.1 own := by
  intro answer e drained start out
  have hothers : ∀ e' ∈ [e, drained], OthersAppend e' := by
    intro e' he'
    have hid : e'.others = id := by
      rcases List.mem_pair.mp he' with rfl | rfl <;> rfl
    constructor <;> intro l <;> rw [hid] <;> exact List.prefix_refl _
  have hreturned : out.2.any (fun x => match x with
      | .returned _ => true
      | .aborted _ => false) = true := by decide +kernel
  refine ⟨by decide +kernel, ?_⟩
  rcases llm_report_accounts paperLlm start [] [e, drained] hothers with hreported |
    ⟨a, _, _, _, habort, -⟩
  · exact hreported
  · rw [show out.2 = some (.aborted a) from habort] at hreturned
    cases hreturned

end XSocialTrader.Llm
