import XSocialTrader.Core.JsonValues
import XSocialTrader.Lib.Results
import XSocialTrader.Models.Decisions
import Mathlib.Data.Set.List

/-! `_try_parse_decision`: from the text of a response to an `LLMDecision`. The parser asks of
the tickers only that they can be iterated. -/
namespace XSocialTrader
open Json (Value)
open Results

variable {F : Type} [PyFloat F]

/-- `except (KeyError, ValueError, ValidationError)`, with the kinds of `ValueError`. -/
def parseCatches : PyExc → Bool
  | .keyError | .valueError | .validationError | .jsonDecodeError | .unicodeDecodeError
  | .unicodeEncodeError => true
  | _ => false

def promptVersion : String := "v1"

/-- The object that a response is expected to be. -/
abbrev Payload (F : Type) := List (Json.Text × Value F)

section Parse

/-- `payload.get(key)`. -/
def Payload.field? (payload : Payload F) (key : String) : Option (Value F) :=
  payload.lookup (Json.text key)

/-- `payload[key]`. -/
def Payload.require (payload : Payload F) (key : String) : Except PyExc (Value F) :=
  match payload.field? key with
  | some v => .ok v
  | none => .error .keyError

/-- An enum called with a value. Any value that is no member raises `ValueError`. -/
def enumOf {ε : Type} (value : ε → String) (members : List ε) : Value F → Except PyExc ε
  | .str s => match members.find? fun e => Json.text (value e) == s with
    | some e => .ok e
    | none => .error .valueError
  | _ => .error .valueError

def intentOf : Value F → Except PyExc Intent :=
  enumOf Intent.value [.bullish, .bearish, .neutral, .noise]

def timeHorizonOf : Value F → Except PyExc TimeHorizon :=
  enumOf TimeHorizon.value [.intraday, .swing, .long]

/-- `[str(t).upper() for t in payload.get("tickers", [])]`. -/
def tickersOf (rt : Runtime F) : Option (Value F) → Except PyExc (List Json.Text)
  | none => .ok []
  | some v => do
    let items ← iterate v
    items.mapM fun t => (pyStr rt t).map rt.upper

/-- `str(payload.get("reasoning", ""))`. -/
def reasoningOf (rt : Runtime F) : Option (Value F) → Except PyExc Json.Text
  | none => .ok []
  | some v => pyStr rt v

/-- `Field(ge=0.0, le=1.0)`. -/
def inUnit (x : F) : Bool := PyFloat.le (PyFloat.ofInt 0) x && PyFloat.le x (PyFloat.ofInt 1)

/-- The field checks of `LLMDecision`. -/
def LlmDecision.check (rt : Runtime F) (d : LlmDecision F) : Except PyExc (LlmDecision F) :=
  if d.tickers.all rt.acceptsText && rt.acceptsText d.reasoning && inUnit d.confidence then .ok d
  else .error .validationError

/-- The `LLMDecision` of a payload; its arguments are evaluated in this order. -/
def decisionOf (rt : Runtime F) (model : String) (costUsd : F) (latencyMs : ℤ)
    (payload : Payload F) : Except PyExc (LlmDecision F) := do
  let tickers ← tickersOf rt (payload.field? "tickers")
  let intent ← payload.require "intent" >>= intentOf
  let confidence ← payload.require "confidence" >>= jsonToFloat
  let timeHorizon ← payload.require "time_horizon" >>= timeHorizonOf
  let reasoning ← reasoningOf rt (payload.field? "reasoning")
  LlmDecision.check rt
    { tickers, intent, confidence, timeHorizon, reasoning, model, promptVersion, costUsd,
      latencyMs }

/-- `_try_parse_decision`; `none` asks for a retry. -/
def tryParseDecision (rt : Runtime F) (raw : Json.Text) (model : String) (costUsd : F)
    (latencyMs : ℤ) : Except PyExc (Option (LlmDecision F)) :=
  match jsonLoads rt raw with
  | .error .jsonDecodeError => .ok none
  | .error e => .error e
  | .ok (.object payload) => match decisionOf rt model costUsd latencyMs payload with
    | .ok d => .ok (some d)
    | .error e => if parseCatches e then .ok none else .error e
  | .ok _ => .ok none

end Parse

section Accepted

variable {rt : Runtime F} {raw : Json.Text} {model : String} {costUsd : F} {latencyMs : ℤ}
  {payload : Payload F} {d : LlmDecision F}

omit [PyFloat F] in
theorem Payload.require_ok_iff {key : String} {v : Value F} :
    payload.require key = .ok v ↔ payload.field? key = some v := by
  cases h : payload.field? key <;> simp [Payload.require, h]

/-- A decision is returned exactly if every argument of its constructor is. -/
theorem decisionOf_ok_iff : decisionOf rt model costUsd latencyMs payload = .ok d ↔
    tickersOf rt (payload.field? "tickers") = .ok d.tickers ∧
    (∃ v, payload.field? "intent" = some v ∧ intentOf v = .ok d.intent) ∧
    (∃ v, payload.field? "confidence" = some v ∧ jsonToFloat v = .ok d.confidence) ∧
    (∃ v, payload.field? "time_horizon" = some v ∧ timeHorizonOf v = .ok d.timeHorizon) ∧
    reasoningOf rt (payload.field? "reasoning") = .ok d.reasoning ∧
    (d.tickers.all rt.acceptsText = true ∧ rt.acceptsText d.reasoning = true ∧
      inUnit d.confidence = true) ∧
    d.model = model ∧ d.promptVersion = promptVersion ∧ d.costUsd = costUsd ∧
    d.latencyMs = latencyMs := by
  simp only [decisionOf, LlmDecision.check, bind_ok_iff, Payload.require_ok_iff]
  constructor
  · rintro ⟨tickers, ht, intent, hi, confidence, hc, horizon, hh, reasoning, hr, hd⟩
    split_ifs at hd with hcheck
    obtain rfl := Except.ok.inj hd
    simp only [Bool.and_eq_true] at hcheck
    exact ⟨ht, hi, hc, hh, hr, ⟨hcheck.1.1, hcheck.1.2, hcheck.2⟩, rfl, rfl, rfl, rfl⟩
  · rintro ⟨ht, hi, hc, hh, hr, ⟨hall, hreason, hunit⟩, rfl, hv, rfl, rfl⟩
    refine ⟨_, ht, _, hi, _, hc, _, hh, _, hr, ?_⟩
    rw [if_pos (by simp only [hall, hreason, hunit, Bool.and_self]), ← hv]

omit [PyFloat F] in
theorem enumOf_ok {ε : Type} {value : ε → String} {members : List ε} {v : Value F} {e : ε}
    (h : enumOf value members v = .ok e) : v = .str (Json.text (value e)) := by
  cases v with
  | str s =>
    simp only [enumOf] at h
    split at h
    · next e' hfind =>
      obtain rfl := Except.ok.inj h
      have hs := List.find?_some (p := fun e => Json.text (value e) == s) hfind
      rw [eq_of_beq hs]
    · cases h
  | _ => cases h

theorem tryParseDecision_some_iff : tryParseDecision rt raw model costUsd latencyMs =
    .ok (some d) ↔ ∃ payload, jsonLoads rt raw = .ok (.object payload) ∧
      decisionOf rt model costUsd latencyMs payload = .ok d := by
  constructor
  · intro h
    unfold tryParseDecision at h
    split at h
    · cases h
    · cases h
    · next payload hloads =>
      refine ⟨payload, hloads, ?_⟩
      split at h
      · next d' hd => rw [hd, Option.some.inj (Except.ok.inj h)]
      · split_ifs at h
        cases h
    · cases h
  · rintro ⟨payload, hloads, hd⟩
    simp only [tryParseDecision, hloads, hd]

end Accepted

section Schema

/-- The tickers value, when present, is a list of texts, and these in upper case are the
decision's tickers. -/
def ListsTickers (rt : Runtime F) (tickers : List Json.Text) : Option (Value F) → Prop
  | none => tickers = []
  | some v => ∃ texts : List Json.Text, v = .list (texts.map .str) ∧
      tickers = texts.map rt.upper

/-- The response matched the required schema and the decision says what it says. -/
def MatchesSchema (rt : Runtime F) (raw : Json.Text) (d : LlmDecision F) : Prop :=
  ∃ payload : Payload F, jsonLoads rt raw = .ok (.object payload) ∧
    ListsTickers rt d.tickers (payload.field? "tickers") ∧
    payload.field? "intent" = some (.str (Json.text d.intent.value)) ∧
    payload.field? "time_horizon" = some (.str (Json.text d.timeHorizon.value)) ∧
    (∃ v, payload.field? "confidence" = some v ∧ jsonToFloat v = .ok d.confidence) ∧
    inUnit d.confidence = true

def isText : Value F → Bool
  | .str _ => true
  | _ => false

/-- Values that can be iterated and are no list of texts. -/
def isCoerced : Value F → Bool
  | .str _ | .object _ => true
  | .list items => !items.all isText
  | _ => false

/-- A JSON object that passes every check of the parser, with a tickers value that is a bare
text, an object, or a list with an element that is no text. -/
def CoercesTickers (rt : Runtime F) (raw : Json.Text) : Prop :=
  ∃ (payload : Payload F) (v : Value F), jsonLoads rt raw = .ok (.object payload) ∧
    payload.field? "tickers" = some v ∧ isCoerced v = true ∧
    (∃ tickers, tickersOf rt (some v) = .ok tickers ∧ tickers.all rt.acceptsText = true) ∧
    (∃ w intent, payload.field? "intent" = some w ∧ intentOf w = .ok intent) ∧
    (∃ w x, payload.field? "confidence" = some w ∧ jsonToFloat w = .ok x ∧ inUnit x = true) ∧
    (∃ w horizon, payload.field? "time_horizon" = some w ∧ timeHorizonOf w = .ok horizon) ∧
    ∃ reasoning, reasoningOf rt (payload.field? "reasoning") = .ok reasoning ∧
      rt.acceptsText reasoning = true

variable {rt : Runtime F} {v : Value F} {tickers : List Json.Text}

/-- What the parser makes of a tickers value that is a list of texts. -/
theorem listsTickers_of_not_coerced (h : tickersOf rt (some v) = .ok tickers)
    (hv : isCoerced v = false) : ListsTickers rt tickers (some v) := by
  obtain ⟨items, hitems, hmap⟩ := bind_ok_iff.mp h
  cases v with
  | list items' =>
    obtain rfl := Except.ok.inj hitems
    have htexts : ∀ item ∈ items', ∃ s, item = .str s := by
      intro item hitem
      have htext : isText item = true := by
        simp only [isCoerced, Bool.not_eq_false', List.all_eq_true] at hv
        exact hv item hitem
      cases item with
      | str s => exact ⟨s, rfl⟩
      | _ => cases htext
    obtain ⟨texts, rfl⟩ : items' ∈ Set.range (List.map Value.str) := by
      rw [Set.range_list_map]
      exact fun item hitem => (htexts item hitem).imp fun s hs => hs.symm
    have hupper : List.Forall₂ (· = ·) (texts.map rt.upper) tickers := by
      apply List.forall₂_map_left_iff.mpr
      apply (List.forall₂_map_left_iff.mp (mapM_ok_iff.mp hmap)).imp
      intro t ticker ht
      exact Except.ok.inj ht
    exact ⟨texts, rfl, (List.forall₂_eq_eq_eq ▸ hupper).symm⟩
  | str s => cases hv
  | object fields => cases hv
  | _ => cases hitems

omit [PyFloat F] in
theorem not_coerced_of_listsTickers (h : ListsTickers rt tickers (some v)) :
    isCoerced v = false := by
  obtain ⟨texts, rfl, -⟩ := h
  simp [isCoerced, isText]

/-- Every decision that is returned for a text matches the schema exactly if the parser does
not coerce the text's tickers. -/
theorem decision_matches_schema_iff (rt : Runtime F) (raw : Json.Text) :
    (∀ model costUsd latencyMs d, tryParseDecision rt raw model costUsd latencyMs =
      .ok (some d) → MatchesSchema rt raw d) ↔ ¬ CoercesTickers rt raw := by
  constructor
  · rintro h ⟨payload, v, hloads, hget, hv, ⟨tickers, ht, htall⟩, ⟨wi, intent, hgi, hi⟩,
      ⟨wc, x, hgc, hx, hunit⟩, ⟨wh, horizon, hgh, hh⟩, reasoning, hr, hracc⟩
    let d : LlmDecision F := ⟨tickers, intent, x, horizon, reasoning, "", promptVersion, x, 0⟩
    have hd : decisionOf rt "" x 0 payload = .ok d :=
      decisionOf_ok_iff.mpr ⟨hget ▸ ht, ⟨wi, hgi, hi⟩, ⟨wc, hgc, hx⟩, ⟨wh, hgh, hh⟩, hr,
        ⟨htall, hracc, hunit⟩, rfl, rfl, rfl, rfl⟩
    obtain ⟨payload', hloads', hlists, -⟩ :=
      h "" x 0 d (tryParseDecision_some_iff.mpr ⟨payload, hloads, hd⟩)
    obtain rfl : payload = payload' := by simpa using hloads.symm.trans hloads'
    rw [hget] at hlists
    simp [not_coerced_of_listsTickers hlists] at hv
  · intro hno model costUsd latencyMs d hd
    obtain ⟨payload, hloads, hd⟩ := tryParseDecision_some_iff.mp hd
    obtain ⟨ht, ⟨wi, hgi, hi⟩, ⟨wc, hgc, hx⟩, ⟨wh, hgh, hh⟩, hr, ⟨htall, hracc, hunit⟩, -⟩ :=
      decisionOf_ok_iff.mp hd
    refine ⟨payload, hloads, ?_, enumOf_ok hi ▸ hgi, enumOf_ok hh ▸ hgh, ⟨wc, hgc, hx⟩, hunit⟩
    cases hget : Payload.field? payload "tickers" with
    | none =>
      rw [hget] at ht
      exact (Except.ok.inj ht).symm
    | some v =>
      rw [hget] at ht
      refine listsTickers_of_not_coerced ht (Bool.eq_false_iff.mpr fun hv => hno ?_)
      exact ⟨payload, v, hloads, hget, hv, ⟨_, ht, htall⟩, ⟨wi, _, hgi, hi⟩,
        ⟨wc, _, hgc, hx, hunit⟩, ⟨wh, _, hgh, hh⟩, _, hr, hracc⟩

/-- A bare string is taken apart into its letters. -/
theorem bare_string_becomes_tickers : ¬ ∀ (raw : Json.Text) (model : String) (costUsd : ℚ)
    (latencyMs : ℤ) (d : LlmDecision ℚ),
      tryParseDecision asciiRuntime raw model costUsd latencyMs = .ok (some d) →
      MatchesSchema asciiRuntime raw d := by
  intro h
  let raw := Json.text ("\x7b\"tickers\": \"TSLA\", \"intent\": \"bullish\", " ++
    "\"confidence\": 0.9, \"time_horizon\": \"swing\"\x7d")
  let letters := ["T", "S", "L", "A"].map Json.text
  let d : LlmDecision ℚ := ⟨letters, .bullish, 9 / 10, .swing, [], "m", "v1", 1, 20⟩
  have hparse : (tryParseDecision asciiRuntime raw "m" 1 20).toOption = some (some d) := by
    decide +kernel
  have hbare : ((jsonLoads asciiRuntime raw).toOption.bind fun v =>
      (getField v "tickers").toOption.join).any isCoerced = true := by decide +kernel
  cases hd : tryParseDecision asciiRuntime raw "m" 1 20 with
  | error e => simp [hd, Except.toOption] at hparse
  | ok out =>
    obtain rfl : out = some d := by simpa [hd, Except.toOption] using hparse
    obtain ⟨payload, hloads, hlists, -⟩ := h raw "m" 1 20 d hd
    have hfield : (Payload.field? payload "tickers").any isCoerced = true := by
      rw [hloads] at hbare
      exact hbare
    obtain ⟨v, hv, hcoerced⟩ := (Option.any_eq_true _ _).mp hfield
    rw [hv] at hlists
    simp [not_coerced_of_listsTickers hlists] at hcoerced

end Schema

section Raises

/-- A text parses when the parser returns a decision for it, whatever the call cost. -/
def Parses (rt : Runtime F) (raw : Json.Text) : Prop :=
  ∃ model costUsd latencyMs d, tryParseDecision rt raw model costUsd latencyMs = .ok (some d)

theorem parses_iff (rt : Runtime F) (raw : Json.Text) (model : String) (costUsd : F)
    (latencyMs : ℤ) : Parses rt raw ↔
      ∃ d, tryParseDecision rt raw model costUsd latencyMs = .ok (some d) := by
  constructor
  · rintro ⟨model', costUsd', latencyMs', d, hd⟩
    obtain ⟨payload, hloads, hd⟩ := tryParseDecision_some_iff.mp hd
    obtain ⟨ht, hi, hc, hh, hr, hchecks, -, hv, -⟩ := decisionOf_ok_iff.mp hd
    refine ⟨{ d with model, costUsd, latencyMs }, tryParseDecision_some_iff.mpr
      ⟨payload, hloads, decisionOf_ok_iff.mpr ⟨ht, hi, hc, hh, hr, hchecks, rfl, hv, rfl, rfl⟩⟩⟩
  · rintro ⟨d, hd⟩
    exact ⟨model, costUsd, latencyMs, d, hd⟩

/-- `float(v)` raises what the parser does not catch. -/
def FloatEscapes : Value F → Prop
  | .null | .list _ | .object _ => True
  | .int n => PyFloat.fits F n = false
  | _ => False

/-- The tickers value cannot be iterated, or one of its items nests too deep for `str`. -/
def TickersEscape (rt : Runtime F) (payload : Payload F) : Prop :=
  ∃ v, payload.field? "tickers" = some v ∧ match v with
    | .null | .bool _ | .int _ | .float _ => True
    | .list items => ∃ item ∈ items, pyStr rt item = .error .recursionError
    | .str _ | .object _ => False

/-- What in an object makes the parser raise, each check after the ones before it passed. -/
inductive Escapes (rt : Runtime F) (payload : Payload F) : Prop where
  | tickers (h : TickersEscape rt payload)
  | confidence (h : ¬ TickersEscape rt payload)
      (hi : ∃ v intent, payload.field? "intent" = some v ∧ intentOf v = .ok intent)
      (hc : ∃ v, payload.field? "confidence" = some v ∧ FloatEscapes v)
  | reasoning (h : ¬ TickersEscape rt payload)
      (hi : ∃ v intent, payload.field? "intent" = some v ∧ intentOf v = .ok intent)
      (hc : ∃ v x, payload.field? "confidence" = some v ∧ jsonToFloat v = .ok x)
      (ht : ∃ v horizon, payload.field? "time_horizon" = some v ∧
        timeHorizonOf v = .ok horizon)
      (hr : ∃ v, payload.field? "reasoning" = some v ∧ pyStr rt v = .error .recursionError)

/-- The texts at which the parser raises: an integer of more than 4300 digits, too deep a
nesting, or an object with a value whose conversion raises what is not caught. -/
def ParseEscapes (rt : Runtime F) (raw : Json.Text) : Prop :=
  jsonLoads rt raw = .error .valueError ∨ jsonLoads rt raw = .error .recursionError ∨
    ∃ payload, jsonLoads rt raw = .ok (.object payload) ∧ Escapes rt payload

variable {rt : Runtime F} {raw : Json.Text} {payload : Payload F} {model : String}
  {costUsd : F} {latencyMs : ℤ} {v : Value F} {e : PyExc}

mutual

theorem reprValue_error : ∀ (d : ℕ) (v : Value F), reprValue rt d v = .error e →
    e = .recursionError
  | 0, _, h => by simpa [reprValue] using h.symm
  | d + 1, .list items, h => by
    simp only [reprValue, map_error_iff] at h
    exact reprItems_error d items h
  | d + 1, .object fields, h => by
    simp only [reprValue, map_error_iff] at h
    exact reprFields_error d fields h
  | d + 1, .null, h | d + 1, .bool _, h | d + 1, .int _, h | d + 1, .float _, h
  | d + 1, .str _, h => by simp [reprValue] at h

theorem reprItems_error : ∀ (d : ℕ) (vs : List (Value F)), reprItems rt d vs = .error e →
    e = .recursionError
  | _, [], h => by simp [reprItems] at h
  | d, v :: vs, h => by
    simp only [reprItems, bind_error_iff] at h
    rcases h with h | ⟨t, -, h | ⟨ts, -, h⟩⟩
    · exact reprValue_error d v h
    · exact reprItems_error d vs h
    · cases h

theorem reprFields_error : ∀ (d : ℕ) (fields : List (Json.Text × Value F)),
    reprFields rt d fields = .error e → e = .recursionError
  | _, [], h => by simp [reprFields] at h
  | d, (key, v) :: fields, h => by
    simp only [reprFields, bind_error_iff] at h
    rcases h with h | ⟨t, -, h | ⟨ts, -, h⟩⟩
    · exact reprValue_error d v h
    · exact reprFields_error d fields h
    · cases h

end

theorem pyStr_error (h : pyStr rt v = .error e) : e = .recursionError := by
  cases v with
  | str s => cases h
  | _ => exact reprValue_error _ _ h

/-- Every error of the tickers argument is one that the parser does not catch. -/
theorem tickersOf_error (h : tickersOf rt (payload.field? "tickers") = .error e) :
    TickersEscape rt payload ∧ parseCatches e = false := by
  cases hget : Payload.field? payload "tickers" with
  | none => simp [hget, tickersOf] at h
  | some v =>
    simp only [hget, tickersOf, bind_error_iff] at h
    rcases h with h | ⟨items, hitems, h⟩
    · cases v <;> cases h <;> exact ⟨⟨_, hget, trivial⟩, rfl⟩
    · obtain ⟨item, hitem, herr⟩ := mapM_error h
      have hstr := map_error_iff.mp herr
      obtain rfl := pyStr_error hstr
      refine ⟨?_, rfl⟩
      cases v with
      | list items' =>
        obtain rfl := Except.ok.inj hitems
        exact ⟨_, hget, item, hitem, hstr⟩
      | str s =>
        obtain rfl := Except.ok.inj hitems
        obtain ⟨c, -, rfl⟩ := List.mem_map.mp hitem
        cases hstr
      | object fields =>
        obtain rfl := Except.ok.inj hitems
        obtain ⟨field, -, rfl⟩ := List.mem_map.mp hitem
        cases hstr
      | _ => cases hitems

theorem tickersOf_ok_iff : (∃ tickers, tickersOf rt (payload.field? "tickers") = .ok tickers) ↔
    ¬ TickersEscape rt payload := by
  constructor
  · rintro ⟨tickers, ht⟩ ⟨v, hget, hv⟩
    rw [hget] at ht
    obtain ⟨items, hitems, hmap⟩ := bind_ok_iff.mp ht
    cases v with
    | list items' =>
      obtain rfl := Except.ok.inj hitems
      obtain ⟨item, hitem, hstr⟩ := hv
      obtain ⟨ticker, hticker⟩ := mapM_ok_of_mem hmap hitem
      simp [hstr, Except.map] at hticker
    | str s => exact hv
    | object fields => exact hv
    | _ => cases hitems
  · intro h
    cases ht : tickersOf rt (Payload.field? payload "tickers") with
    | ok tickers => exact ⟨tickers, rfl⟩
    | error e => exact absurd (tickersOf_error ht).1 h

theorem jsonToFloat_escapes_iff :
    (∃ e, jsonToFloat v = .error e ∧ parseCatches e = false) ↔ FloatEscapes v := by
  cases v with
  | int n => cases h : PyFloat.fits F n <;> simp [jsonToFloat, floatOfInt, FloatEscapes, h,
      parseCatches]
  | str s => cases h : (floatOfText s : Option F) <;> simp [jsonToFloat, FloatEscapes, h,
      parseCatches]
  | _ => simp [jsonToFloat, FloatEscapes, parseCatches]

omit [PyFloat F] in
theorem enumOf_error {ε : Type} {value : ε → String} {members : List ε}
    (h : enumOf value members v = .error e) : e = .valueError := by
  cases v with
  | str s =>
    simp only [enumOf] at h
    split at h
    · cases h
    · exact (Except.error.inj h).symm
  | _ => exact (Except.error.inj h).symm

omit [PyFloat F] in
theorem require_error {key : String} (h : payload.require key = .error e) : e = .keyError := by
  cases hget : Payload.field? payload key with
  | none => simpa [Payload.require, hget] using h.symm
  | some v => simp [Payload.require, hget] at h

/-- The errors of the constructor call that are not caught. -/
theorem decisionOf_escapes_iff (model : String) (costUsd : F) (latencyMs : ℤ) :
    (∃ e, decisionOf rt model costUsd latencyMs payload = .error e ∧
      parseCatches e = false) ↔ Escapes rt payload := by
  simp only [decisionOf, bind_error_iff, Payload.require_ok_iff]
  constructor
  · rintro ⟨e, h, he⟩
    rcases h with h | ⟨tickers, ht, (h | ⟨wi, hgi, h⟩) | ⟨intent, hi, h⟩⟩
    · exact .tickers (tickersOf_error h).1
    · simp [require_error h, parseCatches] at he
    · simp [enumOf_error h, parseCatches] at he
    have hno := tickersOf_ok_iff.mp ⟨tickers, ht⟩
    obtain ⟨wi, hgi, hi⟩ := bind_ok_iff.mp hi
    have hintent : ∃ v intent, payload.field? "intent" = some v ∧ intentOf v = .ok intent :=
      ⟨wi, intent, Payload.require_ok_iff.mp hgi, hi⟩
    rcases h with (h | ⟨wc, hgc, h⟩) | ⟨x, hx, (h | ⟨wh, hgh, h⟩) | ⟨horizon, hh, h⟩⟩
    · simp [require_error h, parseCatches] at he
    · exact .confidence hno hintent ⟨wc, hgc, jsonToFloat_escapes_iff.mp ⟨e, h, he⟩⟩
    · simp [require_error h, parseCatches] at he
    · simp [enumOf_error h, parseCatches] at he
    obtain ⟨wc, hgc, hx⟩ := bind_ok_iff.mp hx
    obtain ⟨wh, hgh, hh⟩ := bind_ok_iff.mp hh
    rcases h with h | ⟨reasoning, -, h⟩
    · cases hgr : Payload.field? payload "reasoning" with
      | none => simp [hgr, reasoningOf] at h
      | some v =>
        rw [hgr] at h
        obtain rfl := pyStr_error h
        exact .reasoning hno hintent ⟨wc, x, Payload.require_ok_iff.mp hgc, hx⟩
          ⟨wh, horizon, Payload.require_ok_iff.mp hgh, hh⟩ ⟨v, hgr, h⟩
    · simp only [LlmDecision.check] at h
      split_ifs at h
      obtain rfl := Except.error.inj h
      exact absurd he (by decide)
  · intro h
    cases h with
    | tickers h =>
      cases ht : tickersOf rt (Payload.field? payload "tickers") with
      | ok tickers => exact absurd h (tickersOf_ok_iff.mp ⟨tickers, ht⟩)
      | error e => exact ⟨e, Or.inl rfl, (tickersOf_error ht).2⟩
    | confidence h hi hc =>
      obtain ⟨tickers, ht⟩ := tickersOf_ok_iff.mpr h
      obtain ⟨wi, intent, hgi, hi⟩ := hi
      obtain ⟨wc, hgc, hc⟩ := hc
      obtain ⟨e, hx, he⟩ := jsonToFloat_escapes_iff.mpr hc
      refine ⟨e, Or.inr ⟨tickers, ht, Or.inr ⟨intent, ?_, Or.inl (Or.inr ⟨wc, hgc, hx⟩)⟩⟩, he⟩
      exact bind_ok_iff.mpr ⟨wi, Payload.require_ok_iff.mpr hgi, hi⟩
    | reasoning h hi hc ht hr =>
      obtain ⟨tickers, htickers⟩ := tickersOf_ok_iff.mpr h
      obtain ⟨wi, intent, hgi, hi⟩ := hi
      obtain ⟨wc, x, hgc, hx⟩ := hc
      obtain ⟨wh, horizon, hgh, hh⟩ := ht
      obtain ⟨v, hgr, hr⟩ := hr
      refine ⟨.recursionError, Or.inr ⟨tickers, htickers, Or.inr ⟨intent, ?_, Or.inr ⟨x, ?_,
        Or.inr ⟨horizon, ?_, Or.inl (by rw [hgr]; exact hr)⟩⟩⟩⟩, rfl⟩
      · exact bind_ok_iff.mpr ⟨wi, Payload.require_ok_iff.mpr hgi, hi⟩
      · exact bind_ok_iff.mpr ⟨wc, Payload.require_ok_iff.mpr hgc, hx⟩
      · exact bind_ok_iff.mpr ⟨wh, Payload.require_ok_iff.mpr hgh, hh⟩

theorem tryParseDecision_raises_iff (rt : Runtime F) (raw : Json.Text) (model : String)
    (costUsd : F) (latencyMs : ℤ) :
    (∃ e, tryParseDecision rt raw model costUsd latencyMs = .error e) ↔ ParseEscapes rt raw := by
  have hload (e) (h : jsonLoads rt raw = .error e) :
      e = .jsonDecodeError ∨ e = .valueError ∨ e = .recursionError := by
    unfold jsonLoads at h
    split at h <;> cases h <;> simp
  unfold tryParseDecision
  cases hraw : jsonLoads rt raw with
  | error e => rcases hload e hraw with rfl | rfl | rfl <;> simp [ParseEscapes, hraw]
  | ok v =>
    cases v with
    | object payload =>
      simp only [ParseEscapes, hraw, reduceCtorEq, false_or, Except.ok.injEq,
        Value.object.injEq, exists_eq_left']
      rw [← decisionOf_escapes_iff model costUsd latencyMs]
      cases hd : decisionOf rt model costUsd latencyMs payload with
      | ok d => simp
      | error e => cases he : parseCatches e <;> simp [he]
    | _ => simp [ParseEscapes, hraw]

theorem metadata_of_some {d : LlmDecision F}
    (h : tryParseDecision rt raw model costUsd latencyMs = .ok (some d)) :
    d.costUsd = costUsd ∧ d.latencyMs = latencyMs := by
  obtain ⟨payload, -, hd⟩ := tryParseDecision_some_iff.mp h
  obtain ⟨-, -, -, -, -, -, -, -, hc, hl⟩ := decisionOf_ok_iff.mp hd
  exact ⟨hc, hl⟩

/-- What the parser does with a text: it raises, asks for a retry or returns a decision. -/
theorem tryParseDecision_cases (rt : Runtime F) (raw : Json.Text) (model : String) (costUsd : F)
    (latencyMs : ℤ) :
    (ParseEscapes rt raw ∧ ¬ Parses rt raw ∧
      ∃ e, tryParseDecision rt raw model costUsd latencyMs = .error e) ∨
    (¬ ParseEscapes rt raw ∧ ¬ Parses rt raw ∧
      tryParseDecision rt raw model costUsd latencyMs = .ok none) ∨
    (¬ ParseEscapes rt raw ∧ Parses rt raw ∧
      ∃ d, tryParseDecision rt raw model costUsd latencyMs = .ok (some d) ∧
        d.costUsd = costUsd ∧ d.latencyMs = latencyMs) := by
  have hraises := tryParseDecision_raises_iff rt raw model costUsd latencyMs
  have hparses := parses_iff rt raw model costUsd latencyMs
  cases h : tryParseDecision rt raw model costUsd latencyMs with
  | error e => exact Or.inl ⟨hraises.mp ⟨e, h⟩, by simp [hparses, h], e, rfl⟩
  | ok out =>
    have hno : ¬ ParseEscapes rt raw := by simp [← hraises, h]
    cases out with
    | none => exact Or.inr (Or.inl ⟨hno, by simp [hparses, h], rfl⟩)
    | some d => exact Or.inr (Or.inr ⟨hno, hparses.mpr ⟨d, h⟩, d, rfl, metadata_of_some h⟩)

theorem parses_of_some {d : LlmDecision F}
    (h : tryParseDecision rt raw model costUsd latencyMs = .ok (some d)) : Parses rt raw :=
  ⟨model, costUsd, latencyMs, d, h⟩

theorem retries_of_none (h : tryParseDecision rt raw model costUsd latencyMs = .ok none) :
    ¬ Parses rt raw ∧ ¬ ParseEscapes rt raw := by
  constructor
  · simp [parses_iff rt raw model costUsd latencyMs, h]
  · simp [← tryParseDecision_raises_iff rt raw model costUsd latencyMs, h]

end Raises

end XSocialTrader
