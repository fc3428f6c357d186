import XSocialTrader.Providers.Decision

/-! `OpenAICompatibleProvider.analyze`: one call, and one corrective call when the first
response does not parse. -/
namespace XSocialTrader
open Json (Value)
open Results

variable {F : Type} [PyFloat F]

/-- The provider's attributes and the prompt that its module has loaded. -/
structure Provider (F : Type) where
  model : String
  costIn : F
  costOut : F
  systemPrompt : String

structure Message where
  role : String
  content : Json.Text
  deriving DecidableEq

/-- What a POST meets: an error of the transport with its `repr`, or a response with its
status, its text, its decoded body and the measured latency. -/
inductive Reply (F : Type) where
  | requestError (repr : String)
  | response (status : ℕ) (text : String) (body : Except PyExc (Value F)) (latencyMs : ℤ)

/-- What `_call` returns. -/
structure Completion (F : Type) where
  content : Json.Text
  costUsd : F
  latencyMs : ℤ

section Call

def providerName : String := "openai_compatible"

def retryCorrection : String :=
  "Your previous response was not valid JSON or did not match the required " ++
  "schema. Respond again with ONLY a JSON object containing keys: tickers " ++
  "(list of uppercase strings), intent (one of bullish/bearish/neutral/" ++
  "noise), confidence (0.0-1.0), time_horizon (intraday/swing/long), " ++
  "reasoning (1-2 sentences). No markdown fences, no commentary."

/-- `tweet.lang or 'unknown'`. -/
def RawTweet.shownLang (tweet : RawTweet) : String :=
  match tweet.lang with
  | none | some "" => "unknown"
  | some lang => lang

def userMessage (tweet : RawTweet) : String :=
  "Tweet from @" ++ tweet.username ++ " (" ++ tweet.shownLang ++ ", posted " ++
    tweet.receivedAt ++ "):\n" ++ tweet.content

/-- `payload["choices"][0]["message"]["content"]` with the defaults of the code. -/
def contentOf (payload : Value F) : Except PyExc Json.Text := do
  match (← getField payload "choices").filter truthy with
  | none => .error (.openAiCompatibleError "LLM returned no choices")
  | some choices =>
    let choice ← firstItem choices
    let content ← match ← getField choice "message" with
      | none => .ok none
      | some message => getField message "content"
    match content with
    | some (.str s) => .ok s
    | _ => .error (.openAiCompatibleError "LLM returned non-string content")

/-- `int(usage.get(key, 0))`. -/
def tokensOf (rt : Runtime F) (usage : Option (Value F)) (key : String) : Except PyExc ℤ :=
  match usage with
  | none => .ok 0
  | some usage => do
    match ← getField usage key with
    | none => .ok 0
    | some v => jsonToInt rt v

/-- `tokens * rate`. -/
def tokenCost (tokens : ℤ) (rate : F) : Except PyExc F :=
  (floatOfInt tokens).map fun x => PyFloat.mul x rate

/-- `prompt_tokens * cost_in + completion_tokens * cost_out`. -/
def Provider.cost (p : Provider F) (promptTokens completionTokens : ℤ) : Except PyExc F := do
  let x ← tokenCost promptTokens p.costIn
  let y ← tokenCost completionTokens p.costOut
  return PyFloat.add x y

/-- What `_call` reads from a response. -/
def Provider.receive (p : Provider F) (rt : Runtime F) : Reply F → Except PyExc (Completion F)
  | .requestError exc => .error (.openAiCompatibleError ("LLM request failed: " ++ exc))
  | .response status text body latencyMs =>
    if 400 ≤ status then
      .error (.openAiCompatibleError
        ("LLM HTTP " ++ toString status ++ ": " ++ String.ofList (text.toList.take 200)))
    else do
      let payload ← body
      let content ← contentOf payload
      let usage := (← getField payload "usage").filter truthy
      let promptTokens ← tokensOf rt usage "prompt_tokens"
      let completionTokens ← tokensOf rt usage "completion_tokens"
      let costUsd ← p.cost promptTokens completionTokens
      return ⟨content, costUsd, latencyMs⟩

/-- The client writes the body in UTF-8, which has no lone surrogates. -/
def isSendable (messages : List Message) : Bool :=
  messages.all fun m => (Json.string? m.content).isSome

/-- `_call`; the requests that went out come with the result. -/
def Provider.call (p : Provider F) (rt : Runtime F) (messages : List Message)
    (reply : Reply F) : List (List Message) × Except PyExc (Completion F) :=
  if isSendable messages then ([messages], p.receive rt reply)
  else ([], .error .unicodeEncodeError)

/-- The text field of an `LLMAnalysisResult` that comes from the response. -/
def LlmAnalysis.check (rt : Runtime F) (a : LlmAnalysis F) : Except PyExc (LlmAnalysis F) :=
  if rt.acceptsText a.rawResponse then .ok a else .error .validationError

/-- `_noise_decision`. Its constants pass the field checks. -/
def noiseDecision (model : String) (latencyMs : ℤ) (costUsd : F) : LlmDecision F where
  tickers := []
  intent := .noise
  confidence := PyFloat.ofInt 0
  timeHorizon := .intraday
  reasoning := Json.text "LLM response could not be parsed as the required JSON schema."
  model := model
  promptVersion := promptVersion
  costUsd := costUsd
  latencyMs := latencyMs

/-- One analysis: the requests that went out, and the result. -/
structure Analysis (F : Type) where
  requests : List (List Message)
  result : Except PyExc (LlmAnalysis F)

/-- `analyze` from the second call on, with the first completion. -/
def Provider.retry (p : Provider F) (rt : Runtime F) (userMsg : String)
    (messages : List Message) (first : Completion F) (reply : Reply F) : Analysis F :=
  let retryMessages := messages ++
    [⟨"assistant", first.content⟩, ⟨"system", Json.text retryCorrection⟩]
  match p.call rt retryMessages reply with
  | (sent, .error e) => ⟨sent, .error e⟩
  | (sent, .ok second) =>
    let totalCost := PyFloat.add first.costUsd second.costUsd
    let totalLatency := first.latencyMs + second.latencyMs
    match tryParseDecision rt second.content p.model totalCost totalLatency with
    | .error e => ⟨sent, .error e⟩
    | .ok (some decision) => ⟨sent, LlmAnalysis.check rt
        ⟨decision, userMsg, second.content, .success, providerName⟩⟩
    | .ok none => ⟨sent, LlmAnalysis.check rt
        ⟨noiseDecision p.model totalLatency totalCost, userMsg, second.content, .invalidJson,
          providerName⟩⟩

/-- `analyze`, with the replies to its two calls. -/
def Provider.analyze (p : Provider F) (rt : Runtime F) (tweet : RawTweet)
    (firstReply retryReply : Reply F) : Analysis F :=
  let userMsg := userMessage tweet
  let messages := [⟨"system", Json.text p.systemPrompt⟩, ⟨"user", Json.text userMsg⟩]
  match p.call rt messages firstReply with
  | (sent, .error e) => ⟨sent, .error e⟩
  | (sent, .ok first) =>
    match tryParseDecision rt first.content p.model first.costUsd first.latencyMs with
    | .error e => ⟨sent, .error e⟩
    | .ok (some decision) => ⟨sent, LlmAnalysis.check rt
        ⟨decision, userMsg, first.content, .success, providerName⟩⟩
    | .ok none =>
      let rest := p.retry rt userMsg messages first retryReply
      ⟨sent ++ rest.requests, rest.result⟩

end Call

section Answers

/-- A response of the endpoint with status 200. -/
structure Answer where
  content : Json.Text
  promptTokens : ℤ
  completionTokens : ℤ
  latencyMs : ℤ

/-- The reply is a 200 response whose body has this content and this token usage. -/
def Reply.Gives (rt : Runtime F) (reply : Reply F) (a : Answer) : Prop :=
  ∃ text payload usage, reply = .response 200 text (.ok payload) a.latencyMs ∧
    contentOf payload = .ok a.content ∧ getField payload "usage" = .ok usage ∧
    tokensOf rt (usage.filter truthy) "prompt_tokens" = .ok a.promptTokens ∧
    tokensOf rt (usage.filter truthy) "completion_tokens" = .ok a.completionTokens

/-- A transport error, an HTTP error, or a 200 response with a content and a token usage. -/
def Reply.Expected (rt : Runtime F) (reply : Reply F) : Prop :=
  (∃ exc, reply = .requestError exc) ∨
  (∃ status text body latencyMs, reply = .response status text body latencyMs ∧ 400 ≤ status) ∨
  ∃ a, reply.Gives rt a

/-- `float` takes both token counts. -/
def Answer.Fits (F : Type) [PyFloat F] (a : Answer) : Prop :=
  PyFloat.fits F a.promptTokens = true ∧ PyFloat.fits F a.completionTokens = true

/-- The price of an answer whose token counts fit. -/
def Provider.price (p : Provider F) (a : Answer) : F :=
  PyFloat.add (PyFloat.mul (PyFloat.ofInt a.promptTokens) p.costIn)
    (PyFloat.mul (PyFloat.ofInt a.completionTokens) p.costOut)

variable {p : Provider F} {rt : Runtime F} {reply : Reply F} {a : Answer}

theorem cost_of_fits (h : a.Fits F) :
    p.cost a.promptTokens a.completionTokens = .ok (p.price a) := by
  simp [Provider.cost, tokenCost, floatOfInt, h.1, h.2, Except.map, Provider.price, bind,
    Except.bind, pure, Except.pure]

theorem cost_of_not_fits (h : ¬ a.Fits F) :
    p.cost a.promptTokens a.completionTokens = .error .overflowError := by
  simp only [Answer.Fits, not_and_or, Bool.not_eq_true] at h
  by_cases hp : PyFloat.fits F a.promptTokens = true
  · simp [Provider.cost, tokenCost, floatOfInt, hp, h.resolve_left (by simp [hp]), Except.map,
      bind, Except.bind]
  · simp [Provider.cost, tokenCost, floatOfInt, hp, Except.map, bind, Except.bind]

theorem receive_gives (h : reply.Gives rt a) : p.receive rt reply =
    (p.cost a.promptTokens a.completionTokens).map fun costUsd =>
      ⟨a.content, costUsd, a.latencyMs⟩ := by
  obtain ⟨text, payload, usage, rfl, hc, hu, hp, hk⟩ := h
  simp only [Provider.receive, hc, hu, hp, hk, bind, Except.bind]
  cases p.cost a.promptTokens a.completionTokens <;> rfl

theorem receive_ok_iff (h : reply.Gives rt a) {c : Completion F} :
    p.receive rt reply = .ok c ↔ a.Fits F ∧ c = ⟨a.content, p.price a, a.latencyMs⟩ := by
  rw [receive_gives h, map_ok_iff]
  by_cases hfits : a.Fits F
  · simp [cost_of_fits hfits, hfits, eq_comm]
  · simp [cost_of_not_fits hfits, hfits]

def usageObject (a : Answer) : Value F := .object
  [(Json.text "prompt_tokens", .int a.promptTokens),
    (Json.text "completion_tokens", .int a.completionTokens)]

theorem Reply.Expected.gives {c : Completion F} (h : reply.Expected rt)
    (hc : p.receive rt reply = .ok c) : ∃ a, reply.Gives rt a := by
  obtain ⟨exc, rfl⟩ | ⟨status, text, body, latencyMs, rfl, hstatus⟩ | hgives := h
  · cases hc
  · simp [Provider.receive, hstatus] at hc
  · exact hgives

/-- A 200 response as a chat-completions endpoint sends it. -/
def okReply (a : Answer) : Reply F :=
  let message : Value F := .object [(Json.text "content", .str a.content)]
  .response 200 "" (.ok (.object [
    (Json.text "choices", .list [.object [(Json.text "message", message)]]),
    (Json.text "usage", usageObject a)])) a.latencyMs

theorem okReply_gives (rt : Runtime F) (a : Answer) : (okReply a : Reply F).Gives rt a := by
  exact ⟨"", _, some (usageObject a), rfl, rfl, rfl, rfl, rfl⟩

end Answers

section NeverRaises

variable {p : Provider F} {rt : Runtime F} {tweet : RawTweet} {firstReply retryReply : Reply F}
  {first second : Answer}

/-- What the caller relies on: a result after one call or two, `SUCCESS` exactly if a content
parses, the noise decision otherwise, and the sums over the calls made. -/
structure Promised (p : Provider F) (rt : Runtime F) (first second : Answer)
    (out : Analysis F) (a : LlmAnalysis F) : Prop where
  returns : out.result = .ok a
  one_call : Parses rt first.content → out.requests.length = 1
  two_calls : ¬ Parses rt first.content → out.requests.length = 2
  success : a.status = .success ↔ Parses rt first.content ∨ Parses rt second.content
  fallback : ¬ Parses rt first.content → ¬ Parses rt second.content →
    a.status = .invalidJson ∧ a.intent = .noise ∧ a.tickers = [] ∧ a.rawResponse = second.content
  one_sum : Parses rt first.content → a.costUsd = p.price first ∧ a.latencyMs = first.latencyMs
  two_sum : ¬ Parses rt first.content →
    a.costUsd = PyFloat.add (p.price first) (p.price second) ∧
    a.latencyMs = first.latencyMs + second.latencyMs

/-- The contents and token counts at which no step of `analyze` raises. -/
structure Returnable (rt : Runtime F) (first second : Answer) : Prop where
  fits : first.Fits F
  parser : ¬ ParseEscapes rt first.content
  text : Parses rt first.content → rt.acceptsText first.content = true
  retry : ¬ Parses rt first.content → (Json.string? first.content).isSome = true ∧
    second.Fits F ∧ ¬ ParseEscapes rt second.content ∧ rt.acceptsText second.content = true

omit [PyFloat F] in
theorem analysis_check_ok_iff {a b : LlmAnalysis F} :
    a.check rt = .ok b ↔ rt.acceptsText a.rawResponse = true ∧ b = a := by
  unfold LlmAnalysis.check
  split_ifs with h <;> simp [h, eq_comm]

/-- The first request has no lone surrogate, so it goes out. -/
theorem call_first (p : Provider F) (rt : Runtime F) (s t : String) (reply : Reply F) :
    p.call rt [⟨"system", Json.text s⟩, ⟨"user", Json.text t⟩] reply =
      ([[⟨"system", Json.text s⟩, ⟨"user", Json.text t⟩]], p.receive rt reply) := by
  simp [Provider.call, isSendable]

/-- The corrective request repeats the first content. -/
theorem call_retry (p : Provider F) (rt : Runtime F) (s t : String) (content : Json.Text)
    (reply : Reply F) :
    let messages := [⟨"system", Json.text s⟩, ⟨"user", Json.text t⟩] ++
      [⟨"assistant", content⟩, ⟨"system", Json.text retryCorrection⟩]
    p.call rt messages reply =
      if (Json.string? content).isSome then ([messages], p.receive rt reply)
      else ([], .error .unicodeEncodeError) := by
  simp [Provider.call, isSendable]

/-- The messages of the first call. -/
def Provider.messages (p : Provider F) (tweet : RawTweet) : List Message :=
  [⟨"system", Json.text p.systemPrompt⟩, ⟨"user", Json.text (userMessage tweet)⟩]

/-- What the corrective call needs to return, and what it returns. -/
theorem retry_ok_iff (h : retryReply.Gives rt second) {c : Completion F} {a : LlmAnalysis F} :
    let out := p.retry rt (userMessage tweet) (p.messages tweet) c retryReply
    let costUsd := PyFloat.add c.costUsd (p.price second)
    let latencyMs := c.latencyMs + second.latencyMs
    out.result = .ok a ↔ (Json.string? c.content).isSome = true ∧ second.Fits F ∧
      rt.acceptsText second.content = true ∧
      ((∃ d, tryParseDecision rt second.content p.model costUsd latencyMs = .ok (some d) ∧
          a = ⟨d, userMessage tweet, second.content, .success, providerName⟩) ∨
        (tryParseDecision rt second.content p.model costUsd latencyMs = .ok none ∧
          a = ⟨noiseDecision p.model latencyMs costUsd, userMessage tweet, second.content,
            .invalidJson, providerName⟩)) := by
  intro out costUsd latencyMs
  simp only [out, Provider.retry, Provider.messages, call_retry]
  split_ifs with hsend
  · cases hreceive : p.receive rt retryReply with
    | error e =>
      have hfits : ¬ second.Fits F := fun hfits => by
        simp [(receive_ok_iff h).mpr ⟨hfits, rfl⟩] at hreceive
      simp [hfits]
    | ok c' =>
      obtain ⟨hfits, rfl⟩ := (receive_ok_iff h).mp hreceive
      cases ht : tryParseDecision rt second.content p.model costUsd latencyMs with
      | error e => simp [costUsd, latencyMs] at ht; simp [ht]
      | ok d =>
        cases d <;> simp only [costUsd, latencyMs] at ht <;>
          simp [ht, analysis_check_ok_iff, hsend, hfits, costUsd, latencyMs]
  · simp [hsend]

theorem retry_requests (p : Provider F) (rt : Runtime F) (tweet : RawTweet)
    (c : Completion F) (reply : Reply F)
    (h : (Json.string? c.content).isSome = true) :
    (p.retry rt (userMessage tweet) (p.messages tweet) c reply).requests.length = 1 := by
  simp only [Provider.retry, Provider.messages, call_retry, h, if_true]
  cases p.receive rt reply with
  | error e => rfl
  | ok c' =>
    dsimp only
    split <;> rfl

/-- What a whole analysis needs to return, and what it returns. -/
theorem analyze_ok_iff (tweet : RawTweet) (retryReply : Reply F)
    (h₁ : firstReply.Gives rt first) {a : LlmAnalysis F} :
    let c : Completion F := ⟨first.content, p.price first, first.latencyMs⟩
    let parsed := tryParseDecision rt first.content p.model c.costUsd c.latencyMs
    (p.analyze rt tweet firstReply retryReply).result = .ok a ↔ first.Fits F ∧
      ((∃ d, parsed = .ok (some d) ∧ rt.acceptsText first.content = true ∧
          a = ⟨d, userMessage tweet, first.content, .success, providerName⟩) ∨
        (parsed = .ok none ∧ (p.retry rt (userMessage tweet) (p.messages tweet) c
          retryReply).result = .ok a)) := by
  intro c parsed
  simp only [Provider.analyze, call_first]
  cases hreceive : p.receive rt firstReply with
  | error e =>
    have hfits : ¬ first.Fits F := fun hfits => by
      simp [(receive_ok_iff h₁).mpr ⟨hfits, rfl⟩] at hreceive
    simp [hfits]
  | ok c' =>
    obtain ⟨hfits, rfl⟩ := (receive_ok_iff h₁).mp hreceive
    cases ht : parsed with
    | error e => simp only [parsed, c] at ht; simp [ht]
    | ok d => cases d <;> simp only [parsed, c] at ht <;>
        simp [ht, analysis_check_ok_iff, hfits, Provider.messages, c]

/-- A result needs a completion of the first call. -/
theorem analyze_ok_receive {a : LlmAnalysis F}
    (h : (p.analyze rt tweet firstReply retryReply).result = .ok a) :
    ∃ c, p.receive rt firstReply = .ok c := by
  simp only [Provider.analyze, call_first] at h
  cases hreceive : p.receive rt firstReply with
  | error e => simp [hreceive] at h
  | ok c => exact ⟨c, rfl⟩

theorem retry_ok_receive {a : LlmAnalysis F} {c : Completion F}
    (h : (p.retry rt (userMessage tweet) (p.messages tweet) c retryReply).result = .ok a) :
    ∃ c', p.receive rt retryReply = .ok c' := by
  simp only [Provider.retry, Provider.messages, call_retry] at h
  split_ifs at h
  · cases hreceive : p.receive rt retryReply with
    | error e => simp [hreceive] at h
    | ok c' => exact ⟨c', rfl⟩

/-- How many requests go out. -/
theorem analyze_requests (p : Provider F) (tweet : RawTweet) (retryReply : Reply F)
    (h₁ : firstReply.Gives rt first) (hfits : first.Fits F) :
    (Parses rt first.content →
      (p.analyze rt tweet firstReply retryReply).requests.length = 1) ∧
    (¬ Parses rt first.content → ¬ ParseEscapes rt first.content →
      (Json.string? first.content).isSome = true →
      (p.analyze rt tweet firstReply retryReply).requests.length = 2) := by
  have hreceive := (receive_ok_iff (p := p) h₁).mpr ⟨hfits, rfl⟩
  have hcases := tryParseDecision_cases rt first.content p.model (p.price first) first.latencyMs
  constructor
  · intro hparses
    obtain ⟨-, hno, -⟩ | ⟨-, hno, -⟩ | ⟨-, -, d, ht, -⟩ := hcases
    · exact absurd hparses hno
    · exact absurd hparses hno
    · simp [Provider.analyze, call_first, hreceive, ht]
  · intro hno hescapes hsend
    obtain ⟨hbad, -⟩ | ⟨-, -, ht⟩ | ⟨-, hparses, -⟩ := hcases
    · exact absurd hbad hescapes
    · have hone := retry_requests p rt tweet
        ⟨first.content, p.price first, first.latencyMs⟩ retryReply hsend
      simp only [Provider.messages] at hone
      simp [Provider.analyze, call_first, hreceive, ht, hone]
    · exact absurd hparses hno

/-- The replies for which `analyze` returns, with the decision and the text that it keeps,
the status, and the prices of its calls. -/
inductive Analyzes (p : Provider F) (rt : Runtime F) (firstReply retryReply : Reply F) :
    LlmDecision F → Json.Text → LlmDecisionStatus → List F → Prop
  | first {a : Answer} {d : LlmDecision F} (h : firstReply.Gives rt a) (fits : a.Fits F)
      (parses : tryParseDecision rt a.content p.model (p.price a) a.latencyMs = .ok (some d))
      (text : rt.acceptsText a.content = true) :
      Analyzes p rt firstReply retryReply d a.content .success [p.price a]
  | second {a b : Answer} {d : LlmDecision F} (h : firstReply.Gives rt a) (fits : a.Fits F)
      (h' : retryReply.Gives rt b) (fits' : b.Fits F)
      (retries : tryParseDecision rt a.content p.model (p.price a) a.latencyMs = .ok none)
      (sendable : (Json.string? a.content).isSome = true)
      (parses : tryParseDecision rt b.content p.model (PyFloat.add (p.price a) (p.price b))
        (a.latencyMs + b.latencyMs) = .ok (some d))
      (text : rt.acceptsText b.content = true) :
      Analyzes p rt firstReply retryReply d b.content .success [p.price a, p.price b]
  | noise {a b : Answer} (h : firstReply.Gives rt a) (fits : a.Fits F)
      (h' : retryReply.Gives rt b) (fits' : b.Fits F)
      (retries : tryParseDecision rt a.content p.model (p.price a) a.latencyMs = .ok none)
      (sendable : (Json.string? a.content).isSome = true)
      (fails : tryParseDecision rt b.content p.model (PyFloat.add (p.price a) (p.price b))
        (a.latencyMs + b.latencyMs) = .ok none)
      (text : rt.acceptsText b.content = true) :
      Analyzes p rt firstReply retryReply
        (noiseDecision p.model (a.latencyMs + b.latencyMs) (PyFloat.add (p.price a) (p.price b)))
        b.content .invalidJson [p.price a, p.price b]

theorem Analyzes.returns {d : LlmDecision F} {raw : Json.Text} {status : LlmDecisionStatus}
    {costs : List F} (h : Analyzes p rt firstReply retryReply d raw status costs)
    (tweet : RawTweet) : (p.analyze rt tweet firstReply retryReply).result =
      .ok ⟨d, userMessage tweet, raw, status, providerName⟩ := by
  cases h with
  | first h fits parses text =>
    exact (analyze_ok_iff tweet retryReply h).mpr ⟨fits, Or.inl ⟨d, parses, text, rfl⟩⟩
  | second h fits h' fits' retries sendable parses text =>
    refine (analyze_ok_iff tweet retryReply h).mpr ⟨fits, Or.inr ⟨retries, ?_⟩⟩
    exact (retry_ok_iff h').mpr ⟨sendable, fits', text, Or.inl ⟨d, parses, rfl⟩⟩
  | noise h fits h' fits' retries sendable fails text =>
    refine (analyze_ok_iff tweet retryReply h).mpr ⟨fits, Or.inr ⟨retries, ?_⟩⟩
    exact (retry_ok_iff h').mpr ⟨sendable, fits', text, Or.inr ⟨fails, rfl⟩⟩

theorem analyzes_of_returns (h₁ : firstReply.Expected rt) (h₂ : retryReply.Expected rt)
    {x : LlmAnalysis F} (h : (p.analyze rt tweet firstReply retryReply).result = .ok x) :
    ∃ costs, Analyzes p rt firstReply retryReply x.toLlmDecision x.rawResponse x.status costs := by
  obtain ⟨c, hc⟩ := analyze_ok_receive h
  obtain ⟨a, ha⟩ := h₁.gives hc
  obtain ⟨fits, ⟨d, parses, text, rfl⟩ | ⟨retries, hretry⟩⟩ :=
    (analyze_ok_iff tweet retryReply ha).mp h
  · exact ⟨_, .first ha fits parses text⟩
  · obtain ⟨c', hc'⟩ := retry_ok_receive hretry
    obtain ⟨b, hb⟩ := h₂.gives hc'
    obtain ⟨sendable, fits', text, ⟨d, parses, rfl⟩ | ⟨fails, rfl⟩⟩ := (retry_ok_iff hb).mp hretry
    · exact ⟨_, .second ha fits hb fits' retries sendable parses text⟩
    · exact ⟨_, .noise ha fits hb fits' retries sendable fails text⟩

/-- `analyze` keeps its promise exactly at the contents and token counts where no step of it
raises. -/
theorem analyze_promised_iff (h₁ : firstReply.Gives rt first) (h₂ : retryReply.Gives rt second) :
    (∃ a, Promised p rt first second (p.analyze rt tweet firstReply retryReply) a) ↔
      Returnable rt first second := by
  constructor
  · rintro ⟨a, ha⟩
    obtain ⟨hfits, hrest⟩ := (analyze_ok_iff tweet retryReply h₁).mp ha.returns
    obtain ⟨hbad, -, e, he⟩ | ⟨hno, hparse, ht⟩ | ⟨hno, hparse, d, ht, -⟩ :=
      tryParseDecision_cases rt first.content p.model (p.price first) first.latencyMs
    · simp [he] at hrest
    · have hretry := ((hrest.resolve_left (by simp [ht]))).2
      obtain ⟨hsend, hfits', htext, hsecond⟩ := (retry_ok_iff h₂).mp hretry
      refine ⟨hfits, hno, fun h => absurd h hparse, fun _ => ⟨hsend, hfits', ?_, htext⟩⟩
      intro hbad
      obtain ⟨e, he⟩ := (tryParseDecision_raises_iff rt second.content p.model
        (PyFloat.add (p.price first) (p.price second))
        (first.latencyMs + second.latencyMs)).mpr hbad
      simp [he] at hsecond
    · obtain ⟨d', -, htext, -⟩ := hrest.resolve_right (by simp [ht])
      exact ⟨hfits, hno, fun _ => htext, fun h => absurd hparse h⟩
  · intro h
    have hrequests := analyze_requests p tweet retryReply h₁ h.fits
    obtain ⟨hbad, -⟩ | ⟨hno, hparse, ht⟩ | ⟨hno, hparse, d, ht, hcost, hlat⟩ :=
      tryParseDecision_cases rt first.content p.model (p.price first) first.latencyMs
    · exact absurd hbad h.parser
    · obtain ⟨hsend, hfits', hno', htext⟩ := h.retry hparse
      have htwo := hrequests.2 hparse h.parser hsend
      have hreturns {a : LlmAnalysis F} (ha : _) :=
        (analyze_ok_iff (p := p) (a := a) tweet retryReply h₁).mpr
          ⟨h.fits, Or.inr ⟨ht, (retry_ok_iff h₂).mpr ⟨hsend, hfits', htext, ha⟩⟩⟩
      obtain ⟨hbad, -⟩ | ⟨-, hparse', ht'⟩ | ⟨-, hparse', d, ht', hcost, hlat⟩ :=
        tryParseDecision_cases rt second.content p.model
          (PyFloat.add (p.price first) (p.price second)) (first.latencyMs + second.latencyMs)
      · exact absurd hbad hno'
      · exact ⟨_, hreturns (Or.inr ⟨ht', rfl⟩), fun h => absurd h hparse, fun _ => htwo,
          by simp [hparse, hparse'], fun _ _ => ⟨rfl, rfl, rfl, rfl⟩,
          fun h => absurd h hparse, fun _ => ⟨rfl, rfl⟩⟩
      · exact ⟨_, hreturns (Or.inl ⟨d, ht', rfl⟩), fun h => absurd h hparse, fun _ => htwo,
          by simp [hparse'], fun _ h => absurd hparse' h,
          fun h => absurd h hparse, fun _ => ⟨hcost, hlat⟩⟩
    · refine ⟨⟨d, userMessage tweet, first.content, .success, providerName⟩,
        ⟨(analyze_ok_iff tweet retryReply h₁).mpr ⟨h.fits, Or.inl ⟨d, ht, h.text hparse, rfl⟩⟩,
        hrequests.1, fun h => absurd hparse h, by simp [hparse], fun h => absurd hparse h,
        fun _ => ⟨hcost, hlat⟩, fun h => absurd hparse h⟩⟩

def paperProvider : Provider ℚ := ⟨"m", 1 / 1000000, 2 / 1000000, "system"⟩

/-- A first content that does not parse and a second one that says nothing. -/
theorem analyze_promised_iff_nonsense :
    let first : Answer := ⟨Json.text "not-json-at-all", 100, 10, 20⟩
    let second : Answer := ⟨Json.text "still nonsense", 50, 5, 30⟩
    (∃ a, Promised paperProvider asciiRuntime first second
      (paperProvider.analyze asciiRuntime paperTweet (okReply first) (okReply second)) a) ↔
      Returnable asciiRuntime first second :=
  analyze_promised_iff (okReply_gives _ _) (okReply_gives _ _)

/-- An object whose tickers are `null` makes `analyze` raise after a paid call. -/
theorem null_tickers_raise : ¬ ∀ (p : Provider ℚ) (rt : Runtime ℚ) (tweet : RawTweet)
    (firstReply retryReply : Reply ℚ) (first second : Answer),
      firstReply.Gives rt first → retryReply.Gives rt second →
      ∃ a, Promised p rt first second (p.analyze rt tweet firstReply retryReply) a := by
  intro h
  let null : Answer := ⟨Json.text "\x7b\"tickers\": null\x7d", 100, 10, 20⟩
  obtain ⟨a, ha⟩ := h paperProvider asciiRuntime paperTweet (okReply null) (okReply null) null null
    (okReply_gives _ _) (okReply_gives _ _)
  have hraises : (paperProvider.analyze asciiRuntime paperTweet (okReply null)
      (okReply null)).result.toOption = none := by decide +kernel
  simp [ha.returns, Except.toOption] at hraises

end NeverRaises

end XSocialTrader
