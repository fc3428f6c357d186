import XSocialTrader.Providers.OpenAiCompatible
import XSocialTrader.Services.LlmPipeline

/-! One iteration of `run_llm_pipeline` from the popped id to the charge, with nobody else at
work: what the calls for a tweet cost, and what of it is audited and charged. -/
namespace XSocialTrader.Llm
open LabelledRun

section Iteration

variable {ω κ F : Type} [PyFloat F]

omit [PyFloat F] in
/-- The rows that the loop over the tickers adds to the session. -/
def fanOut (tweet : RawTweetRow) (decision : LlmDecisionRow F) (events : List (Event F)) :
    List (Event F) → List String → List (Event F)
  | added, [] => added
  | added, ticker :: todo =>
    let event := eventRow tweet decision ticker
    if event.eventId ∈ (events ++ added).map Event.eventId then
      fanOut tweet decision events added todo
    else fanOut tweet decision events (added ++ [event]) todo

/-- The tickers that get an event; `none` where the select cannot be bound. -/
def tickersFor (cfg : Config F) (aliases : List AliasRow) (a : LlmAnalysis F) :
    Option (List String) :=
  if a.intent = .noise then some []
  else (a.tickers.mapM Json.string?).map (resolveTickers cfg.text aliases)

omit [PyFloat F] in
/-- The primary key of the next row. -/
def nextDecisionId (rows : List (LlmDecisionRow F)) : ℤ :=
  (rows.map LlmDecisionRow.id).foldr max 0 + 1

/-- The stores after an iteration, where it stands, and its increments of the counter. -/
structure Outcome (ω κ F : Type) where
  shared : Shared ω κ F
  phase : Phase F
  increments : List (String × F)

/-- `record_call` and the check of the limit. -/
def recordCall (cfg : Config F) (s : Shared ω κ F) (costUsd : F) (now : UtcDateTime) :
    Outcome ω κ F :=
  if PyFloat.lt costUsd (PyFloat.ofInt 0) then ⟨s, .idle, []⟩
  else
    let day := String.ofList now.date.text
    let spendUsd := PyFloat.add (s.spend day) costUsd
    ⟨{ s with spend := Function.update s.spend day spendUsd },
      if PyFloat.le cfg.limitUsd spendUsd then .breached day spendUsd else .idle,
      [(day, costUsd)]⟩

/-- The iteration from `provider.analyze` on. -/
def processTweet (cfg : Config F) (p : Provider F) (rt : Runtime F) (s : Shared ω κ F)
    (tweet : RawTweetRow) (firstReply retryReply : Reply F) (now : UtcDateTime) :
    Outcome ω κ F :=
  match (p.analyze rt tweet.toRawTweet firstReply retryReply).result with
  | .error _ => ⟨s, .idle, []⟩
  | .ok a =>
    if a.Writable then
      let decision : LlmDecisionRow F := ⟨nextDecisionId s.decisions, tweet.id, a⟩
      match tickersFor cfg s.aliases a with
      | none => ⟨s, .idle, []⟩
      | some tickers =>
        let added := fanOut tweet decision s.events [] tickers
        recordCall cfg { s with
          decisions := s.decisions ++ [decision]
          events := s.events ++ added
          published := s.published ++ added.map Event.eventId } a.costUsd now
    else ⟨s, .idle, []⟩

omit [PyFloat F] in
/-- `session.get(DBRawTweet, db_id)`; the driver raises on an integer beyond 64 bits. -/
def loadTweet (s : Shared ω κ F) (dbId : ℤ) : Option RawTweetRow :=
  if -2 ^ 63 ≤ dbId ∧ dbId < 2 ^ 63 then s.tweets.find? fun tweet => tweet.id == dbId else none

/-- The iteration from the popped id on. -/
def processPopped (cfg : Config F) (p : Provider F) (rt : Runtime F) (s : Shared ω κ F)
    (dbId : ℤ) (firstReply retryReply : Reply F) (now : UtcDateTime) : Outcome ω κ F :=
  match loadTweet s dbId with
  | none => ⟨s, .idle, []⟩
  | some tweet => processTweet cfg p rt s tweet firstReply retryReply now

omit [PyFloat F] in
theorem Flushable.append {events added : List (Event F)} {event : Event F}
    (h : Flushable events added)
    (hnew : event.eventId ∉ (events ++ added).map Event.eventId) :
    Flushable events (added ++ [event]) := by
  rw [List.map_append, List.mem_append, not_or] at hnew
  constructor
  · intro e he
    rcases List.mem_append.mp he with he | he
    · exact h.1 e he
    · rw [List.mem_singleton.mp he]
      exact hnew.1
  · rw [List.map_append, List.nodup_append]
    refine ⟨h.2, List.nodup_singleton _, ?_⟩
    intro id hid id' hid'
    rw [List.mem_singleton.mp hid']
    rintro rfl
    exact hnew.2 hid

omit [PyFloat F] in
theorem Flushable.nil (events : List (Event F)) : Flushable events [] :=
  ⟨fun _ h => absurd h List.not_mem_nil, List.nodup_nil⟩

omit [PyFloat F] in
theorem nextDecisionId_notMem (rows : List (LlmDecisionRow F)) :
    nextDecisionId rows ∉ rows.map LlmDecisionRow.id := by
  intro hmem
  have hle : nextDecisionId rows ≤ (rows.map LlmDecisionRow.id).foldr max 0 :=
    List.le_max_of_le' 0 hmem le_rfl
  unfold nextDecisionId at hle
  omega

end Iteration

section Solo

variable {ω κ F : Type} [DecidableEq ω] [Fintype ω] [DecidableEq κ] [Fintype κ] [PyFloat F]
  {cfg : Config F} {w : ω} {s : Shared ω κ F}

/-- A move of a worker while no other session is open. -/
def soloStep (cfg : Config F) (w : ω) (st : Shared ω κ F × Phase F) (a : Action F) :
    Option (Shared ω κ F × Phase F) :=
  act cfg w st.1 st.2 a

/-- The select before each row keeps the session free of duplicates, so its flushes succeed. -/
theorem solo_scan (cfg : Config F) (w : ω) (s : Shared ω κ F) (tweet : RawTweetRow)
    (decision : LlmDecisionRow F) (tickers : List String)
    {added : List (Event F)} (hadded : Flushable s.events added) :
    Reaches (soloStep cfg w) (s, .scanning tweet decision tickers added)
      (s, .scanning tweet decision [] (fanOut tweet decision s.events added tickers)) ∧
    Flushable s.events (fanOut tweet decision s.events added tickers) := by
  induction tickers generalizing added with
  | nil => exact ⟨.refl, hadded⟩
  | cons ticker todo ih =>
    simp only [fanOut]
    split_ifs with hmem
    · have hstep : soloStep cfg w (s, .scanning tweet decision (ticker :: todo) added) .scan =
          some (s, .scanning tweet decision todo added) := by
        simp only [soloStep, act, if_pos hadded, if_pos hmem]
      exact ⟨.head hstep (ih hadded).1, (ih hadded).2⟩
    · have hstep : soloStep cfg w (s, .scanning tweet decision (ticker :: todo) added) .scan =
          some (s, .scanning tweet decision todo (added ++ [eventRow tweet decision ticker])) := by
        simp only [soloStep, act, if_pos hadded, if_neg hmem]
      have hnext := hadded.append hmem
      exact ⟨.head hstep (ih hnext).1, (ih hnext).2⟩

/-- The lookup of the tickers, from the flushed decision on. -/
theorem solo_resolve (cfg : Config F) (w : ω) (s : Shared ω κ F) (tweet : RawTweetRow)
    (decision : LlmDecisionRow F) :
    soloStep cfg w (s, .flushed tweet decision) .resolve =
      some (s, (tickersFor cfg s.aliases decision.analysis).elim .idle fun tickers =>
        .scanning tweet decision tickers []) := by
  simp only [soloStep, act, tickersFor]
  split_ifs with hnoise
  · rfl
  · cases decision.analysis.tickers.mapM Json.string? <;> rfl

theorem solo_push (pushed rest : List String) (costUsd : F) :
    Reaches (soloStep cfg w) (s, .publishing (pushed ++ rest) costUsd)
      ({ s with published := s.published ++ pushed }, .publishing rest costUsd) := by
  induction pushed generalizing s with
  | nil => simpa using Reaches.refl
  | cons eventId pushed ih =>
    refine .head (a := .push) rfl ?_
    simpa using ih (s := { s with published := s.published ++ [eventId] })

theorem solo_pushAll (newEventIds : List String) (costUsd : F) :
    Reaches (soloStep cfg w) (s, .publishing newEventIds costUsd)
      ({ s with published := s.published ++ newEventIds }, .publishing [] costUsd) := by
  have hpush : Reaches (soloStep cfg w) (s, .publishing (newEventIds ++ []) costUsd) _ :=
    solo_push newEventIds [] costUsd
  rwa [List.append_nil] at hpush

theorem solo_recordCall (costUsd : F) (now : UtcDateTime) :
    soloStep cfg w (s, .publishing [] costUsd) (.charge now) =
      some ((recordCall cfg s costUsd now).shared, (recordCall cfg s costUsd now).phase) := by
  simp only [soloStep, act, recordCall]
  split_ifs <;> rfl

theorem solo_processTweet (p : Provider F) (rt : Runtime F) (tweet : RawTweetRow)
    (firstReply retryReply : Reply F) (now : UtcDateTime) :
    let out := processTweet cfg p rt s tweet firstReply retryReply now
    Reaches (soloStep cfg w) (s, .analyzing tweet) (out.shared, out.phase) := by
  intro out
  cases ha : (p.analyze rt tweet.toRawTweet firstReply retryReply).result with
  | error e =>
    simp only [out, processTweet, ha]
    exact .single (a := .stop) rfl
  | ok a =>
    refine .head (a := .finishAnalyze a) rfl ?_
    have hid := nextDecisionId_notMem s.decisions
    by_cases hwrite : a.Writable
    · let decision : LlmDecisionRow F := ⟨nextDecisionId s.decisions, tweet.id, a⟩
      have hflush : soloStep cfg w (s, .analyzed tweet a)
          (.flushDecision (nextDecisionId s.decisions)) = some (s, .flushed tweet decision) := by
        simp only [soloStep, act, if_neg hid, if_pos hwrite, decision]
      refine .head hflush ?_
      have hresolve : soloStep cfg w (s, .flushed tweet decision) .resolve = _ :=
        solo_resolve cfg w s tweet decision
      cases ht : tickersFor cfg s.aliases a with
      | none =>
        simp only [decision, ht, Option.elim_none] at hresolve
        simp only [out, processTweet, ha, if_pos hwrite, ht]
        exact .single hresolve
      | some tickers =>
        simp only [decision, ht, Option.elim_some] at hresolve
        obtain ⟨hscan, hflushable⟩ := solo_scan cfg w s tweet decision tickers (.nil s.events)
        refine .head hresolve (hscan.trans ?_)
        let added := fanOut tweet decision s.events [] tickers
        have hcommit : soloStep cfg w (s, .scanning tweet decision [] added) .commit =
            some ({ s with decisions := s.decisions ++ [decision], events := s.events ++ added },
              .publishing (added.map Event.eventId) a.costUsd) := by
          simp only [soloStep, act, if_pos hflushable, added, decision]
        refine .head hcommit ((solo_pushAll _ _).trans (.single (a := .charge now) ?_))
        simp only [out, processTweet, ha, if_pos hwrite, ht]
        exact solo_recordCall a.costUsd now
    · have hflush : soloStep cfg w (s, .analyzed tweet a)
          (.flushDecision (nextDecisionId s.decisions)) = some (s, .idle) := by
        simp only [soloStep, act, if_neg hid, if_neg hwrite]
      simp only [out, processTweet, ha, if_neg hwrite]
      exact .single hflush

/-- An iteration that nobody interrupts is a run of its worker from the pop to the charge. -/
theorem solo_processPopped (p : Provider F) (rt : Runtime F) (dbId : ℤ)
    (firstReply retryReply : Reply F) (now : UtcDateTime) :
    let out := processPopped cfg p rt s dbId firstReply retryReply now
    Reaches (soloStep cfg w) (s, .popped dbId) (out.shared, out.phase) := by
  intro out
  have hload : soloStep cfg w (s, .popped dbId) .load =
      some (s, (loadTweet s dbId).elim .idle .loaded) := by
    simp only [soloStep, act, loadTweet]
    split_ifs
    · cases s.tweets.find? fun tweet => tweet.id == dbId <;> rfl
    · rfl
  refine .head hload ?_
  cases hfind : loadTweet s dbId with
  | none =>
    simp only [out, processPopped, hfind]
    exact .refl
  | some tweet =>
    refine .head (a := .startAnalyze) rfl ?_
    simp only [out, processPopped, hfind]
    exact solo_processTweet p rt tweet firstReply retryReply now

end Solo

section Accounting

variable {ω κ F : Type} [PyFloat F] {cfg : Config F} {p : Provider F} {rt : Runtime F}
  {s : Shared ω κ F} {tweet : RawTweetRow} {firstReply retryReply : Reply F} {now : UtcDateTime}

/-- The costs of the completions among the replies received. -/
def paid (p : Provider F) (rt : Runtime F) (replies : List (Reply F)) : List F :=
  replies.filterMap fun reply => match p.receive rt reply with
    | .ok c => some c.costUsd
    | .error _ => none

/-- `x₀ + x₁ + ..` from the left. -/
def summed : List F → Option F
  | [] => none
  | x :: xs => some (xs.foldl PyFloat.add x)

/-- The replies that the analysis of a tweet receives: one for each request that goes out. -/
def received (p : Provider F) (rt : Runtime F) (tweet : RawTweet)
    (firstReply retryReply : Reply F) : List (Reply F) :=
  [firstReply, retryReply].take (p.analyze rt tweet firstReply retryReply).requests.length

/-- Exactly one audit row is committed for the tweet, and the counter grows once, by the
summed cost of the responses received for it. -/
structure Accounted (p : Provider F) (rt : Runtime F) (s : Shared ω κ F) (tweet : RawTweetRow)
    (firstReply retryReply : Reply F) (now : UtcDateTime) (out : Outcome ω κ F) : Prop where
  audited : ∃ row, out.shared.decisions = s.decisions ++ [row] ∧ row.rawTweetId = tweet.id
  charged : out.increments.map Prod.snd =
    (summed (paid p rt (received p rt tweet.toRawTweet firstReply retryReply))).toList
  day : ∀ increment ∈ out.increments, increment.1 = String.ofList now.date.text
  spend : out.shared.spend = out.increments.foldl (fun spend increment =>
    Function.update spend increment.1 (PyFloat.add (spend increment.1) increment.2)) s.spend

/-- What the stores need to take a decision: the row can be written, its tickers can be looked
up, and the counter takes its cost. -/
structure Recordable (d : LlmDecision F) (raw : Json.Text) : Prop where
  latency : -2 ^ 63 ≤ d.latencyMs ∧ d.latencyMs < 2 ^ 63
  text : (Json.string? raw).isSome = true
  cost : (bindFloat d.costUsd).isSome = true
  tickers : d.intent = .noise ∨ ∀ t ∈ d.tickers, (Json.string? t).isSome = true
  charge : PyFloat.lt d.costUsd (PyFloat.ofInt 0) = false

/-- Nothing raises between the first response and the charge. -/
def Auditable (p : Provider F) (rt : Runtime F) (firstReply retryReply : Reply F) : Prop :=
  ∃ d raw status costs, Analyzes p rt firstReply retryReply d raw status costs ∧
    Recordable d raw

omit [PyFloat F] in
theorem tickersFor_isSome_iff (cfg : Config F) (aliases : List AliasRow) (a : LlmAnalysis F) :
    (tickersFor cfg aliases a).isSome = true ↔
      a.intent = .noise ∨ ∀ t ∈ a.tickers, (Json.string? t).isSome = true := by
  have hmap : ∀ ts : List Json.Text, (ts.mapM Json.string?).isSome = true ↔
      ∀ t ∈ ts, (Json.string? t).isSome = true := by
    intro ts
    induction ts with
    | nil => simp
    | cons t ts ih =>
      rw [List.mapM_cons, List.forall_mem_cons, ← ih]
      cases Json.string? t <;> cases ts.mapM Json.string? <;> simp
  unfold tickersFor
  split_ifs with hnoise
  · simp [hnoise]
  · rw [Option.isSome_map, hmap]
    simp [hnoise]

/-- What the prices of the calls sum up to is the cost of the decision, and the replies
received are those that have been paid. -/
theorem analyzes_paid {d : LlmDecision F} {raw : Json.Text} {status : LlmDecisionStatus}
    {costs : List F} (h : Analyzes p rt firstReply retryReply d raw status costs)
    (tweet : RawTweet) :
    paid p rt (received p rt tweet firstReply retryReply) = costs ∧
      summed costs = some d.costUsd := by
  have hpaid {reply : Reply F} {a : Answer} (h : reply.Gives rt a) (fits : a.Fits F) :=
    (receive_ok_iff (p := p) h).mpr ⟨fits, rfl⟩
  have hrequests {a : Answer} (h : firstReply.Gives rt a) (fits : a.Fits F) :=
    analyze_requests p tweet retryReply h fits
  cases h with
  | first h fits parses text =>
    have hone := (hrequests h fits).1 (parses_of_some parses)
    simp [received, hone, paid, hpaid h fits, summed, (metadata_of_some parses).1]
  | second h fits h' fits' retries sendable parses text =>
    obtain ⟨hno, hescapes⟩ := retries_of_none retries
    have htwo := (hrequests h fits).2 hno hescapes sendable
    simp [received, htwo, paid, hpaid h fits, hpaid h' fits', summed,
      (metadata_of_some parses).1]
  | noise h fits h' fits' retries sendable fails text =>
    obtain ⟨hno, hescapes⟩ := retries_of_none retries
    have htwo := (hrequests h fits).2 hno hescapes sendable
    simp [received, htwo, paid, hpaid h fits, hpaid h' fits', summed, noiseDecision]

/-- The iteration ends before its commit, or it commits the row of a returned analysis and
goes on to the charge. -/
theorem processTweet_cases (cfg : Config F) (p : Provider F) (rt : Runtime F) (s : Shared ω κ F)
    (tweet : RawTweetRow) (firstReply retryReply : Reply F) (now : UtcDateTime) :
    let out := processTweet cfg p rt s tweet firstReply retryReply now
    (out = ⟨s, .idle, []⟩ ∧ ∀ a,
      (p.analyze rt tweet.toRawTweet firstReply retryReply).result = .ok a →
      ¬ (a.Writable ∧ (tickersFor cfg s.aliases a).isSome = true)) ∨
    ∃ a tickers, (p.analyze rt tweet.toRawTweet firstReply retryReply).result = .ok a ∧
      a.Writable ∧ tickersFor cfg s.aliases a = some tickers ∧
      ∃ s' : Shared ω κ F, s'.decisions = s.decisions ++
          [⟨nextDecisionId s.decisions, tweet.id, a⟩] ∧ s'.spend = s.spend ∧
        out = recordCall cfg s' a.costUsd now := by
  intro out
  cases ha : (p.analyze rt tweet.toRawTweet firstReply retryReply).result with
  | error e => exact Or.inl ⟨by simp only [out, processTweet, ha], fun _ h => by cases h⟩
  | ok a =>
    by_cases hwrite : a.Writable
    · cases ht : tickersFor cfg s.aliases a with
      | none =>
        refine Or.inl ⟨by simp only [out, processTweet, ha, if_pos hwrite, ht], ?_⟩
        rintro _ h ⟨-, hsome⟩
        obtain rfl := Except.ok.inj h
        simp [ht] at hsome
      | some tickers =>
        refine Or.inr ⟨a, tickers, rfl, hwrite, ht, ?_⟩
        simp only [out, processTweet, ha, if_pos hwrite, ht]
        let decision : LlmDecisionRow F := ⟨nextDecisionId s.decisions, tweet.id, a⟩
        let added := fanOut tweet decision s.events [] tickers
        exact ⟨{ s with
          decisions := s.decisions ++ [decision]
          events := s.events ++ added
          published := s.published ++ added.map Event.eventId }, rfl, rfl, rfl⟩
    · refine Or.inl ⟨by simp only [out, processTweet, ha, if_neg hwrite], ?_⟩
      rintro _ h ⟨hwrite', -⟩
      obtain rfl := Except.ok.inj h
      exact hwrite hwrite'

/-- An iteration accounts for its calls exactly if the replies are such that nothing raises
between the first response and the charge. -/
theorem processPopped_accounted_iff {dbId : ℤ} (hrow : loadTweet s dbId = some tweet)
    (hfirst : firstReply.Expected rt) (hretry : retryReply.Expected rt) :
    Accounted p rt s tweet firstReply retryReply now
      (processPopped cfg p rt s dbId firstReply retryReply now) ↔
      Auditable p rt firstReply retryReply := by
  simp only [processPopped, hrow]
  have hcases := processTweet_cases cfg p rt s tweet firstReply retryReply now
  constructor
  · intro h
    obtain ⟨hout, -⟩ | ⟨a, tickers, ha, hwrite, ht, s', hdecisions, -, hout⟩ := hcases
    · obtain ⟨row, hrow, -⟩ := h.audited
      simp [hout] at hrow
    obtain ⟨costs, hcosts⟩ := analyzes_of_returns hfirst hretry ha
    obtain ⟨hpaid, hsum⟩ := analyzes_paid hcosts tweet.toRawTweet
    refine ⟨_, _, _, _, hcosts, hwrite.1, hwrite.2.1, hwrite.2.2, ?_, ?_⟩
    · exact (tickersFor_isSome_iff cfg s.aliases a).mp (by rw [ht]; rfl)
    · -- A negative cost is committed and never charged.
      have hcharged := h.charged
      rw [hpaid, hsum, hout] at hcharged
      cases hneg : PyFloat.lt a.costUsd (PyFloat.ofInt 0) with
      | false => rfl
      | true => simp [recordCall, hneg] at hcharged
  · rintro ⟨d, raw, status, costs, hcosts, hrec⟩
    have hresult := hcosts.returns tweet.toRawTweet
    obtain ⟨hpaid, hsum⟩ := analyzes_paid hcosts tweet.toRawTweet
    obtain ⟨-, hno⟩ | ⟨a, tickers, ha, -, -, s', hdecisions, hspend, hout⟩ := hcases
    · exact absurd ⟨⟨hrec.latency, hrec.text, hrec.cost⟩,
        (tickersFor_isSome_iff cfg s.aliases _).mpr hrec.tickers⟩ (hno _ hresult)
    obtain rfl := Except.ok.inj (hresult.symm.trans ha)
    have hcharge : ¬ PyFloat.lt d.costUsd (PyFloat.ofInt 0) = true := by simp [hrec.charge]
    simp only [hout, recordCall, if_neg hcharge]
    refine ⟨⟨_, hdecisions, rfl⟩, ?_, by simp, ?_⟩
    · rw [hpaid, hsum]
      rfl
    · rw [← hspend]
      rfl

def paperShared : Shared (Fin 1) (Fin 1) ℚ :=
  { paperStart.toShared with tweets := [⟨paperTweet, 1⟩] }

theorem processPopped_accounted_iff_nonsense :
    let first : Reply ℚ := okReply ⟨Json.text "not-json-at-all", 100, 10, 20⟩
    let second : Reply ℚ := okReply ⟨Json.text "still nonsense", 50, 5, 30⟩
    Accounted paperProvider asciiRuntime paperShared ⟨paperTweet, 1⟩ first second paperNoon
      (processPopped paperConfig paperProvider asciiRuntime paperShared 1 first second paperNoon) ↔
      Auditable paperProvider asciiRuntime first second :=
  processPopped_accounted_iff (by decide) (.inr (.inr ⟨_, okReply_gives _ _⟩))
    (.inr (.inr ⟨_, okReply_gives _ _⟩))

/-- A paid first response that does not parse, and a corrective call that fails: the tweet is
neither audited nor charged. -/
theorem failed_retry_unaudited : ¬ ∀ (cfg : Config ℚ) (p : Provider ℚ) (rt : Runtime ℚ)
    (s : Shared (Fin 1) (Fin 1) ℚ) (tweet : RawTweetRow) (firstReply retryReply : Reply ℚ)
    (now : UtcDateTime) (dbId : ℤ), loadTweet s dbId = some tweet → firstReply.Expected rt →
      retryReply.Expected rt → Accounted p rt s tweet firstReply retryReply now
        (processPopped cfg p rt s dbId firstReply retryReply now) := by
  intro h
  let first : Reply ℚ := okReply ⟨Json.text "not-json-at-all", 100, 10, 20⟩
  have hfirst : first.Gives asciiRuntime ⟨Json.text "not-json-at-all", 100, 10, 20⟩ :=
    okReply_gives _ _
  obtain ⟨⟨row, hrow, -⟩, -⟩ := h paperConfig paperProvider asciiRuntime paperShared
    ⟨paperTweet, 1⟩ first (.requestError "ReadTimeout('')") paperNoon 1 (by decide)
    (.inr (.inr ⟨_, hfirst⟩)) (.inl ⟨_, rfl⟩)
  obtain ⟨hout, -⟩ | ⟨a, tickers, ha, -⟩ := processTweet_cases paperConfig paperProvider
    asciiRuntime paperShared ⟨paperTweet, 1⟩ first (.requestError "ReadTimeout('')") paperNoon
  · have hload : loadTweet paperShared 1 = some ⟨paperTweet, 1⟩ := by decide
    simp [processPopped, hload, hout] at hrow
  · obtain ⟨-, ⟨d, hd, -⟩ | ⟨-, hretry⟩⟩ := (analyze_ok_iff _ _ hfirst).mp ha
    · have hnone : (tryParseDecision asciiRuntime (Json.text "not-json-at-all") "m"
          (paperProvider.price ⟨Json.text "not-json-at-all", 100, 10, 20⟩) 20).toOption =
            some none := by decide +kernel
      simp [show paperProvider.model = "m" from rfl] at hd
      simp [hd, Except.toOption] at hnone
    · obtain ⟨c, hc⟩ := retry_ok_receive hretry
      cases hc

end Accounting

end XSocialTrader.Llm
