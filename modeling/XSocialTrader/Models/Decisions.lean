import XSocialTrader.Lib.Json
import XSocialTrader.Models.Tables

/-! What the LLM returns for a tweet, and the rows it leaves behind. -/
namespace XSocialTrader

inductive Intent where
  | bullish | bearish | neutral | noise
  deriving DecidableEq, Repr

inductive TimeHorizon where
  | intraday | swing | long
  deriving DecidableEq, Repr

inductive LlmDecisionStatus where
  | success | invalidJson | error
  deriving DecidableEq, Repr

def Intent.value : Intent → String
  | .bullish => "bullish"
  | .bearish => "bearish"
  | .neutral => "neutral"
  | .noise => "noise"

def TimeHorizon.value : TimeHorizon → String
  | .intraday => "intraday"
  | .swing => "swing"
  | .long => "long"

def LlmDecisionStatus.value : LlmDecisionStatus → String
  | .success => "success"
  | .invalidJson => "invalid_json"
  | .error => "error"

/-- A tweet as it arrives. `rawJson` is the text of its JSON column and `receivedAt` the
`isoformat()` of its time. -/
structure RawTweet where
  tweetId : String
  xUserId : String
  username : String
  content : String
  lang : Option String
  rawJson : String
  receivedAt : String
  deriving DecidableEq, Repr

/-- A captured tweet; both ids are unique in the table. -/
structure RawTweetRow extends RawTweet where
  id : ℤ
  deriving DecidableEq, Repr

/-- `LLMDecision`. What comes from the response may hold lone surrogates. -/
structure LlmDecision (F : Type) where
  tickers : List Json.Text
  intent : Intent
  confidence : F
  timeHorizon : TimeHorizon
  reasoning : Json.Text
  model : String
  promptVersion : String
  costUsd : F
  latencyMs : ℤ
  deriving DecidableEq

/-- `LLMAnalysisResult` with its decision. -/
structure LlmAnalysis (F : Type) extends LlmDecision F where
  prompt : String
  rawResponse : Json.Text
  status : LlmDecisionStatus
  provider : String
  deriving DecidableEq

/-- Audit row of one analysis. -/
structure LlmDecisionRow (F : Type) where
  id : ℤ
  rawTweetId : ℤ
  analysis : LlmAnalysis F
  deriving DecidableEq

/-- The flush writes the audit row: the driver takes neither an integer beyond 64 bits nor a
lone surrogate, and a NaN would be a NULL. -/
def LlmAnalysis.Writable {F : Type} [PyFloat F] (a : LlmAnalysis F) : Prop :=
  (-2 ^ 63 ≤ a.latencyMs ∧ a.latencyMs < 2 ^ 63) ∧ (Json.string? a.rawResponse).isSome ∧
    (bindFloat a.costUsd).isSome

instance {F : Type} [PyFloat F] (a : LlmAnalysis F) : Decidable a.Writable := by
  unfold LlmAnalysis.Writable
  infer_instance

/-- One event per tweet and ticker. -/
def buildEventId (tweetId ticker : String) : String := tweetId ++ ":" ++ ticker

/-- The `events` row of one resolved ticker. -/
def eventRow {F : Type} (tweet : RawTweetRow) (decision : LlmDecisionRow F) (ticker : String) :
    Event F where
  eventId := buildEventId tweet.tweetId ticker
  rawTweetId := tweet.id
  llmDecisionId := decision.id
  ticker := ticker
  intent := decision.analysis.intent.value
  confidence := decision.analysis.confidence
  timeHorizon := decision.analysis.timeHorizon.value

/-- The row's event id encodes the ticker and the tweet that it points to. -/
def Event.Encodes {F : Type} (event : Event F) (tweet : RawTweetRow) : Prop :=
  event.rawTweetId = tweet.id ∧ event.eventId = buildEventId tweet.tweetId event.ticker

theorem eventRow_encodes {F : Type} (tweet : RawTweetRow) (decision : LlmDecisionRow F)
    (ticker : String) : (eventRow tweet decision ticker).Encodes tweet := ⟨rfl, rfl⟩

def paperTweet : RawTweet where
  tweetId := "t1"
  xUserId := "u1"
  username := "alice"
  content := "hello $TSLA gigafactory news"
  lang := some "en"
  rawJson := "\x7b\x7d"
  receivedAt := "2026-04-24T14:00:00+00:00"

end XSocialTrader
