import XSocialTrader.KillSwitch.Interleaving
import XSocialTrader.Models.Decisions
import XSocialTrader.Services.Aliases
import Mathlib.Data.Fintype.Sum

/-! `run_llm_pipeline` run by any number of workers over one database and one Redis. A worker
moves from one await to the next; an exception or the end of its process takes it out of its
iteration at any point, and a new run starts from the kill-switch check. -/
namespace XSocialTrader.Llm
open LabelledRun

/-- Where a worker stands in its iteration. -/
inductive Phase (F : Type) where
  | idle
  | redisRead
  | checked
  | popped (dbId : ℤ)
  | loaded (tweet : RawTweetRow)
  | analyzing (tweet : RawTweetRow)
  | analyzed (tweet : RawTweetRow) (analysis : LlmAnalysis F)
  | flushed (tweet : RawTweetRow) (decision : LlmDecisionRow F)
  | scanning (tweet : RawTweetRow) (decision : LlmDecisionRow F) (todo : List String)
      (added : List (Event F))
  | publishing (newEventIds : List String) (costUsd : F)
  | breached (day : String) (spendUsd : F)
  | activating
  deriving DecidableEq

/-- The moves of one worker, each with what it meets outside the modelled stores. -/
inductive Action (F : Type) where
  | readRedis (env : Option String)
  | readDb
  | pop
  | load
  | startAnalyze
  | finishAnalyze (analysis : LlmAnalysis F)
  | flushDecision (id : ℤ)
  | resolve
  | scan
  | commit
  | push
  | charge (now : UtcDateTime)
  | activate (id : ℕ)
  | activateRedis
  | activatePublish
  | activateCommit
  | stop

/-- What the workers share. `published` is every id ever pushed onto the events queue, and
`spend` is the daily counter. -/
structure Shared (ω κ F : Type) where
  kill : KillSwitch.Sys (ω ⊕ κ)
  rawTweets : List ByteArray
  tweets : List RawTweetRow
  aliases : List AliasRow
  decisions : List (LlmDecisionRow F)
  events : List (Event F)
  published : List String
  spend : String → F

structure Sys (ω κ F : Type) extends Shared ω κ F where
  phase : ω → Phase F

inductive Label (ω κ F : Type) where
  | worker (w : ω) (a : Action F)
  | enqueue (raw : ByteArray)
  | ingest (tweet : RawTweetRow)
  | setAliases (aliases : List AliasRow)
  | operator (k : KillSwitch.Label κ)

/-- The worker's fixed arguments: the Unicode database, the daily limit, and the audit text
of a breach. -/
structure Config (F : Type) where
  text : UnicodeText
  limitUsd : F
  breachReason : String → F → String

/-- `UNIQUE(event_id)` at a flush: no committed row and no other row of the session has the
id of a flushed one. -/
def Flushable {F : Type} (events added : List (Event F)) : Prop :=
  (∀ event ∈ added, event.eventId ∉ events.map Event.eventId) ∧
    (added.map Event.eventId).Nodup

instance {F : Type} (events added : List (Event F)) : Decidable (Flushable events added) := by
  unfold Flushable
  infer_instance

/-- `int(raw_id)` on the popped text, if it decodes. -/
inductive Popped where
  | raises
  | badPayload
  | dbId (n : ℤ)
  deriving DecidableEq, Repr

def parsePopped (text : UnicodeText) (raw : ByteArray) : Popped :=
  match String.fromUTF8? raw with
  | none => .raises
  | some rawId => match pyInt text rawId with
    | none => .badPayload
    | some n => .dbId n

section Act

variable {ω κ F : Type} [DecidableEq ω] [Fintype ω] [DecidableEq κ] [Fintype κ] [PyFloat F]

/-- A step of the worker's own activation of the kill switch. -/
def killMove (s : Shared ω κ F) (k : KillSwitch.Label (ω ⊕ κ)) (next : Phase F) :
    Option (Shared ω κ F × Phase F) :=
  (KillSwitch.step s.kill k).map fun kill => ({ s with kill := kill }, next)

/-- One move of a worker. A worker that leaves its iteration, with or without an exception,
is idle. -/
def act (cfg : Config F) (w : ω) (s : Shared ω κ F) :
    Phase F → Action F → Option (Shared ω κ F × Phase F)
  | .idle, .readRedis env =>
    some (s, if (isActive env s.kill.redisFlag []).active then .idle else .redisRead)
  | .redisRead, .readDb =>
    some (s, if (isActive none none s.kill.rows).active then .idle else .checked)
  | .checked, .pop => match s.rawTweets with
    | [] => some (s, .idle)
    | raw :: rawTweets => some ({ s with rawTweets := rawTweets },
      match parsePopped cfg.text raw with
      | .raises | .badPayload => .idle
      | .dbId n => .popped n)
  | .popped dbId, .load =>
    -- The driver raises on an integer beyond 64 bits; an unknown id is skipped.
    some (s, if -2 ^ 63 ≤ dbId ∧ dbId < 2 ^ 63 then
        match s.tweets.find? fun tweet => tweet.id == dbId with
        | none => .idle
        | some tweet => .loaded tweet
      else .idle)
  | .loaded tweet, .startAnalyze => some (s, .analyzing tweet)
  | .analyzing tweet, .finishAnalyze analysis => some (s, .analyzed tweet analysis)
  | .analyzed tweet analysis, .flushDecision id =>
    if id ∈ s.decisions.map LlmDecisionRow.id then none
    else some (s, if analysis.Writable then .flushed tweet ⟨id, tweet.id, analysis⟩ else .idle)
  | .flushed tweet decision, .resolve =>
    some (s, if decision.analysis.intent = .noise then .scanning tweet decision [] []
      else match decision.analysis.tickers.mapM Json.string? with
        | none => .idle
        | some mentions =>
          .scanning tweet decision (resolveTickers cfg.text s.aliases mentions) [])
  | .scanning tweet decision (ticker :: todo) added, .scan =>
    -- The select flushes the rows added so far and sees them beside the committed ones.
    some (s, if Flushable s.events added then
        let event := eventRow tweet decision ticker
        if event.eventId ∈ (s.events ++ added).map Event.eventId then
          .scanning tweet decision todo added
        else .scanning tweet decision todo (added ++ [event])
      else .idle)
  | .scanning _ decision [] added, .commit =>
    if Flushable s.events added then
      some ({ s with
          decisions := s.decisions ++ [decision]
          events := s.events ++ added },
        .publishing (added.map Event.eventId) decision.analysis.costUsd)
    else some (s, .idle)
  | .publishing (eventId :: rest) costUsd, .push =>
    some ({ s with published := s.published ++ [eventId] }, .publishing rest costUsd)
  | .publishing [] costUsd, .charge now =>
    if PyFloat.lt costUsd (PyFloat.ofInt 0) then some (s, .idle)
    else
      let day := String.ofList now.date.text
      let spendUsd := PyFloat.add (s.spend day) costUsd
      some ({ s with spend := Function.update s.spend day spendUsd },
        if PyFloat.le cfg.limitUsd spendUsd then .breached day spendUsd else .idle)
  | .breached day spendUsd, .activate id => killMove s (.flush (.inl w) (.activate .budgetLlm
      "llm_budget_tracker" (some (cfg.breachReason day spendUsd))) id) .activating
  | .activating, .activateRedis => killMove s (.redis (.inl w)) .activating
  | .activating, .activatePublish => killMove s (.publish (.inl w)) .activating
  | .activating, .activateCommit => killMove s (.commit (.inl w)) .idle
  | .activating, .stop => killMove s (.stop (.inl w)) .idle
  | .idle, .stop => none
  | _, .stop => some (s, .idle)
  | _, _ => none

/-- The id of the decision row that the worker's open session has flushed. -/
def Phase.flushedId : Phase F → Option ℤ
  | .flushed _ decision => some decision.id
  | .scanning _ decision _ _ => some decision.id
  | _ => none

/-- The database gives a flushed row an id that no other open session holds. -/
def UnheldId (phase : ω → Phase F) : Action F → Prop
  | .flushDecision id => ∀ w, (phase w).flushedId ≠ some id
  | _ => True

instance (phase : ω → Phase F) (a : Action F) : Decidable (UnheldId phase a) := by
  unfold UnheldId
  split <;> infer_instance

def step (cfg : Config F) (s : Sys ω κ F) : Label ω κ F → Option (Sys ω κ F)
  | .worker w a =>
    if UnheldId s.phase a then
      (act cfg w s.toShared (s.phase w) a).map fun out =>
        { toShared := out.1, phase := Function.update s.phase w out.2 }
    else none
  | .enqueue raw => some { s with rawTweets := s.rawTweets ++ [raw] }
  | .ingest tweet =>
    if tweet.id ∈ s.tweets.map RawTweetRow.id ∨ tweet.tweetId ∈ s.tweets.map (·.tweetId) then none
    else some { s with tweets := s.tweets ++ [tweet] }
  | .setAliases aliases => some { s with aliases := aliases }
  | .operator k => (KillSwitch.step s.kill (KillSwitch.operatorLabel k)).map fun kill =>
      { s with kill := kill }

end Act

section Facts

variable {ω κ F : Type}

/-- Ids of committed rows that the worker has yet to push. -/
def Phase.unpublished : Phase F → List String
  | .publishing newEventIds _ => newEventIds
  | _ => []

/-- The worker's tweet is in the table, and its rows encode it. -/
def Phase.Sound (tweets : List RawTweetRow) : Phase F → Prop
  | .loaded tweet | .analyzing tweet | .analyzed tweet _ | .flushed tweet _ => tweet ∈ tweets
  | .scanning tweet _ _ added => tweet ∈ tweets ∧ ∀ event ∈ added, event.Encodes tweet
  | _ => True

theorem Phase.Sound.mono {tweets tweets' : List RawTweetRow} {ph : Phase F}
    (h : ph.Sound tweets) (hsub : tweets ⊆ tweets') : ph.Sound tweets' := by
  cases ph with
  | scanning tweet decision todo added => exact ⟨hsub h.1, h.2⟩
  | loaded tweet => exact hsub h
  | analyzing tweet => exact hsub h
  | analyzed tweet analysis => exact hsub h
  | flushed tweet decision => exact hsub h
  | _ => trivial

/-- The worker has a committed row to push or an activation to finish. -/
def Phase.owes : Phase F → Bool
  | .publishing (_ :: _) _ | .breached _ _ | .activating => true
  | _ => false

theorem Phase.unpublished_of_owes {ph : Phase F} (h : ph.owes = false) : ph.unpublished = [] := by
  cases ph with
  | publishing newEventIds costUsd =>
    cases newEventIds with
    | nil => rfl
    | cons eventId rest => cases h
  | _ => rfl

section Turns

variable [DecidableEq ω] [Fintype ω] [DecidableEq κ] [Fintype κ] [PyFloat F]

/-- The turns that `act` can take. At a check, an unusable value or an exception a worker leaves
its iteration, which it does only while it owes nothing; it is stopped from outside anywhere. -/
inductive Turn (cfg : Config F) (w : ω) (s : Shared ω κ F) :
    Phase F → Action F → Shared ω κ F → Phase F → Prop
  | leave {ph : Phase F} {a : Action F} (hfrom : ph.owes = false) : Turn cfg w s ph a s .idle
  | stop {ph : Phase F} : Turn cfg w s ph .stop s .idle
  | readRedis {env : Option String} : Turn cfg w s .idle (.readRedis env) s .redisRead
  | readDb (hactive : (isActive none none s.kill.rows).active = false) :
      Turn cfg w s .redisRead .readDb s .checked
  | discard (rawTweets : List ByteArray) :
      Turn cfg w s .checked .pop { s with rawTweets := rawTweets } .idle
  | pop (rawTweets : List ByteArray) (dbId : ℤ) :
      Turn cfg w s .checked .pop { s with rawTweets := rawTweets } (.popped dbId)
  | load {dbId : ℤ} {tweet : RawTweetRow} (hmem : tweet ∈ s.tweets) :
      Turn cfg w s (.popped dbId) .load s (.loaded tweet)
  | startAnalyze {tweet : RawTweetRow} :
      Turn cfg w s (.loaded tweet) .startAnalyze s (.analyzing tweet)
  | finishAnalyze {tweet : RawTweetRow} {analysis : LlmAnalysis F} :
      Turn cfg w s (.analyzing tweet) (.finishAnalyze analysis) s (.analyzed tweet analysis)
  | flushDecision {tweet : RawTweetRow} {analysis : LlmAnalysis F} {id : ℤ}
      (hid : id ∉ s.decisions.map LlmDecisionRow.id) :
      Turn cfg w s (.analyzed tweet analysis) (.flushDecision id) s
        (.flushed tweet ⟨id, tweet.id, analysis⟩)
  | resolve {tweet : RawTweetRow} {decision : LlmDecisionRow F} (tickers : List String) :
      Turn cfg w s (.flushed tweet decision) .resolve s (.scanning tweet decision tickers [])
  | scanKnown {tweet : RawTweetRow} {decision : LlmDecisionRow F} {ticker : String}
      {todo : List String} {added : List (Event F)} :
      Turn cfg w s (.scanning tweet decision (ticker :: todo) added) .scan s
        (.scanning tweet decision todo added)
  | scanNew {tweet : RawTweetRow} {decision : LlmDecisionRow F} {ticker : String}
      {todo : List String} {added : List (Event F)} :
      Turn cfg w s (.scanning tweet decision (ticker :: todo) added) .scan s
        (.scanning tweet decision todo (added ++ [eventRow tweet decision ticker]))
  | commit {tweet : RawTweetRow} {decision : LlmDecisionRow F} {added : List (Event F)}
      (hflush : Flushable s.events added) :
      Turn cfg w s (.scanning tweet decision [] added) .commit
        { s with decisions := s.decisions ++ [decision], events := s.events ++ added }
        (.publishing (added.map Event.eventId) decision.analysis.costUsd)
  | push {eventId : String} {rest : List String} {costUsd : F} :
      Turn cfg w s (.publishing (eventId :: rest) costUsd) .push
        { s with published := s.published ++ [eventId] } (.publishing rest costUsd)
  | charge {day : String} {costUsd spendUsd : F} {now : UtcDateTime}
      (hday : day = String.ofList now.date.text)
      (hspend : spendUsd = PyFloat.add (s.spend day) costUsd) :
      Turn cfg w s (.publishing [] costUsd) (.charge now)
        { s with spend := Function.update s.spend day spendUsd }
        (if PyFloat.le cfg.limitUsd spendUsd then .breached day spendUsd else .idle)
  | activate {day : String} {spendUsd : F} {id : ℕ} {kill : KillSwitch.Sys (ω ⊕ κ)}
      (hkill : KillSwitch.step s.kill (.flush (.inl w) (.activate .budgetLlm
        "llm_budget_tracker" (some (cfg.breachReason day spendUsd))) id) = some kill) :
      Turn cfg w s (.breached day spendUsd) (.activate id) { s with kill := kill } .activating
  | activateRedis {kill : KillSwitch.Sys (ω ⊕ κ)}
      (hkill : KillSwitch.step s.kill (.redis (.inl w)) = some kill) :
      Turn cfg w s .activating .activateRedis { s with kill := kill } .activating
  | activatePublish {kill : KillSwitch.Sys (ω ⊕ κ)}
      (hkill : KillSwitch.step s.kill (.publish (.inl w)) = some kill) :
      Turn cfg w s .activating .activatePublish { s with kill := kill } .activating
  | activateCommit {kill : KillSwitch.Sys (ω ⊕ κ)}
      (hkill : KillSwitch.step s.kill (.commit (.inl w)) = some kill) :
      Turn cfg w s .activating .activateCommit { s with kill := kill } .idle
  | activateStop {kill : KillSwitch.Sys (ω ⊕ κ)}
      (hkill : KillSwitch.step s.kill (.stop (.inl w)) = some kill) :
      Turn cfg w s .activating .stop { s with kill := kill } .idle

variable {cfg : Config F} {s s' : Shared ω κ F} {ph ph' : Phase F} {w : ω} {a : Action F}

theorem act_turn (h : act cfg w s ph a = some (s', ph')) : Turn cfg w s ph a s' ph' := by
  have hto : ∀ {t : Shared ω κ F} {q : Phase F}, some (t, q) = some (s', ph') →
      Turn cfg w s ph a t q → Turn cfg w s ph a s' ph' := by
    rintro t q hq hmove
    obtain ⟨rfl, rfl⟩ := Prod.mk.inj (Option.some.inj hq)
    exact hmove
  have hkill : ∀ {k : KillSwitch.Label (ω ⊕ κ)} {next : Phase F},
      killMove s k next = some (s', ph') →
      (∀ kill, KillSwitch.step s.kill k = some kill →
        Turn cfg w s ph a { s with kill := kill } next) → Turn cfg w s ph a s' ph' := by
    rintro k next hk hmove
    obtain ⟨kill, hstep, hout⟩ := Option.map_eq_some_iff.mp hk
    obtain ⟨rfl, rfl⟩ := Prod.mk.inj hout
    exact hmove kill hstep
  unfold act at h
  split at h
  case h_1 =>
    split_ifs at h
    · exact hto h (.leave rfl)
    · exact hto h .readRedis
  case h_2 =>
    split_ifs at h with hactive
    · exact hto h (.leave rfl)
    · exact hto h (.readDb (Bool.eq_false_iff.mpr hactive))
  case h_3 =>
    split at h
    · exact hto h (.leave rfl)
    next raw rawTweets _ =>
      cases hp : parsePopped cfg.text raw <;> simp only [hp] at h
      · exact hto h (.discard rawTweets)
      · exact hto h (.discard rawTweets)
      · exact hto h (.pop rawTweets _)
  case h_4 dbId =>
    split_ifs at h
    · cases hf : s.tweets.find? fun tweet => tweet.id == dbId <;> simp only [hf] at h
      · exact hto h (.leave rfl)
      · exact hto h (.load (List.mem_of_find?_eq_some hf))
    · exact hto h (.leave rfl)
  case h_5 => exact hto h .startAnalyze
  case h_6 => exact hto h .finishAnalyze
  case h_7 =>
    split_ifs at h with hid
    · exact hto h (.flushDecision hid)
    · exact hto h (.leave rfl)
  case h_8 =>
    split_ifs at h
    · exact hto h (.resolve [])
    · split at h
      · exact hto h (.leave rfl)
      · exact hto h (.resolve _)
  case h_9 =>
    dsimp only at h
    split_ifs at h
    · exact hto h .scanKnown
    · exact hto h .scanNew
    · exact hto h (.leave rfl)
  case h_10 =>
    split_ifs at h with hflush
    · exact hto h (.commit hflush)
    · exact hto h (.leave rfl)
  case h_11 => exact hto h .push
  case h_12 =>
    split_ifs at h with hneg
    · exact hto h (.leave rfl)
    · exact hto h (.charge rfl rfl)
  case h_13 => exact hkill h fun _ => .activate
  case h_14 => exact hkill h fun _ => .activateRedis
  case h_15 => exact hkill h fun _ => .activatePublish
  case h_16 => exact hkill h fun _ => .activateCommit
  case h_17 => exact hkill h fun _ => .activateStop
  case h_19 => exact hto h .stop
  all_goals cases h

end Turns

variable {s s' : Shared ω κ F} {ph ph' : Phase F}

/-- A move touches neither the events table nor the queue of events. -/
structure Quiet (s s' : Shared ω κ F) (ph ph' : Phase F) : Prop where
  tweets : s'.tweets = s.tweets
  events : s'.events = s.events
  published : s'.published = s.published
  sound : ph.Sound s.tweets → ph'.Sound s.tweets

theorem Quiet.of_sound (ht : s'.tweets = s.tweets) (he : s'.events = s.events)
    (hp : s'.published = s.published) (hs : ∀ tweets, ph'.Sound tweets) : Quiet s s' ph ph' :=
  ⟨ht, he, hp, fun _ => hs _⟩

variable [DecidableEq ω] [Fintype ω] [DecidableEq κ] [Fintype κ]

variable [PyFloat F] {cfg : Config F} {w : ω} {a : Action F}

/-- What one move of a worker can do to the events table and the queue of events. -/
theorem act_cases (h : act cfg w s ph a = some (s', ph')) :
    (Quiet s s' ph ph' ∧ ph'.unpublished = [] ∧ (ph.unpublished = [] ∨ a = .stop)) ∨
    (∃ tweet decision added, ph = .scanning tweet decision [] added ∧ a = .commit ∧
      Flushable s.events added ∧ s'.tweets = s.tweets ∧ s'.events = s.events ++ added ∧
      s'.published = s.published ∧ ph' = .publishing (added.map Event.eventId)
        decision.analysis.costUsd) ∨
    (∃ eventId rest costUsd, ph = .publishing (eventId :: rest) costUsd ∧ a = .push ∧
      s'.tweets = s.tweets ∧ s'.events = s.events ∧ s'.published = s.published ++ [eventId] ∧
      ph' = .publishing rest costUsd) := by
  cases act_turn h with
  | leave hfrom =>
    exact Or.inl ⟨.of_sound rfl rfl rfl fun _ => trivial, rfl,
      Or.inl (Phase.unpublished_of_owes hfrom)⟩
  | stop => exact Or.inl ⟨.of_sound rfl rfl rfl fun _ => trivial, rfl, Or.inr rfl⟩
  | load hmem => exact Or.inl ⟨⟨rfl, rfl, rfl, fun _ => hmem⟩, rfl, Or.inl rfl⟩
  | startAnalyze | finishAnalyze | flushDecision | scanKnown =>
    exact Or.inl ⟨⟨rfl, rfl, rfl, id⟩, rfl, Or.inl rfl⟩
  | resolve =>
    exact Or.inl ⟨⟨rfl, rfl, rfl, fun ht => ⟨ht, by simp⟩⟩, rfl, Or.inl rfl⟩
  | @scanNew tweet decision ticker todo added =>
    refine Or.inl ⟨⟨rfl, rfl, rfl, fun ht => ⟨ht.1, fun event he => ?_⟩⟩, rfl, Or.inl rfl⟩
    rcases List.mem_append.mp he with he | he
    · exact ht.2 event he
    · rw [List.mem_singleton.mp he]
      exact eventRow_encodes tweet decision ticker
  | commit hflush =>
    exact Or.inr (Or.inl ⟨_, _, _, rfl, rfl, hflush, rfl, rfl, rfl, rfl⟩)
  | push => exact Or.inr (Or.inr ⟨_, _, _, rfl, rfl, rfl, rfl, rfl, rfl⟩)
  | charge =>
    refine Or.inl ?_
    split_ifs <;> exact ⟨.of_sound rfl rfl rfl fun _ => trivial, rfl, Or.inl rfl⟩
  | readRedis | readDb | discard | pop | activate | activateRedis | activatePublish |
    activateCommit | activateStop =>
    exact Or.inl ⟨.of_sound rfl rfl rfl fun _ => trivial, rfl, Or.inl rfl⟩

/-- A worker's label moves that worker alone. -/
theorem step_worker {s t : Sys ω κ F} (h : step cfg s (.worker w a) = some t) :
    UnheldId s.phase a ∧ act cfg w s.toShared (s.phase w) a = some (t.toShared, t.phase w) ∧
      ∀ v, v ≠ w → t.phase v = s.phase v := by
  simp only [step] at h
  split_ifs at h with hid
  obtain ⟨⟨s', ph'⟩, hact, rfl⟩ := Option.map_eq_some_iff.mp h
  refine ⟨hid, ?_, fun v hv => Function.update_of_ne hv _ _⟩
  simp only [hact, Function.update_self]

end Facts

section Paper

def paperAnalysis : LlmAnalysis ℚ where
  tickers := [Json.text "TSLA"]
  intent := .bullish
  confidence := 9 / 10
  timeHorizon := .swing
  reasoning := Json.text "deliveries"
  model := "m"
  promptVersion := "v1"
  costUsd := 1 / 100
  latencyMs := 20
  prompt := "p"
  rawResponse := Json.text "r"
  status := .success
  provider := "openai"

def paperConfig : Config ℚ := ⟨asciiText, 10, fun _ _ => "budget"⟩

def paperStart : Sys (Fin 1) (Fin 1) ℚ where
  kill := ⟨none, [], fun _ => none⟩
  rawTweets := []
  tweets := []
  aliases := []
  decisions := []
  events := []
  published := []
  spend := fun _ => 0
  phase := fun _ => .idle

/-- The moves of an iteration up to its commit. -/
def throughCommit (w : Fin 1) (analysis : LlmAnalysis ℚ) (decisionId : ℤ) (tickers : ℕ) :
    List (Label (Fin 1) (Fin 1) ℚ) :=
  [.worker w (.readRedis none), .worker w .readDb, .worker w .pop, .worker w .load,
    .worker w .startAnalyze, .worker w (.finishAnalyze analysis),
    .worker w (.flushDecision decisionId), .worker w .resolve] ++
    List.replicate tickers (.worker w .scan) ++ [.worker w .commit]

/-- The pushes and the charge that end an iteration without failure. -/
def afterCommit (w : Fin 1) (newEvents : ℕ) (now : UtcDateTime) :
    List (Label (Fin 1) (Fin 1) ℚ) :=
  List.replicate newEvents (.worker w .push) ++ [.worker w (.charge now)]

def paperCapture : List (Label (Fin 1) (Fin 1) ℚ) :=
  [.ingest ⟨paperTweet, 1⟩, .enqueue "1".toUTF8]

end Paper

end XSocialTrader.Llm
