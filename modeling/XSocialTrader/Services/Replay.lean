import XSocialTrader.Core.JsonValues
import XSocialTrader.Services.AuditTrail

/-! Replay of the journal (RISK-02): the engine's decision from what `inputs_json` holds of it.
The column keeps JSON text, so what is replayed has been written and read back, with its keys
as text and its surrogate pairs joined. -/
namespace XSocialTrader
open Json (Value)

variable {F : Type}

section Scalars

/-- The value is a text in which a high surrogate has a low one right behind it. -/
def PyValue.isPaired : PyValue F → Bool
  | .text s => Json.hasPair s
  | _ => false

/-- The value or one of its items is such a text. -/
def PyValue.hasPair : PyValue F → Bool
  | .list items => items.any PyValue.isPaired
  | v => v.isPaired

variable [PyFloat F]

/-- Nothing that equals a text or a float is lost. -/
theorem eqScalar_roundTrip (actual : PyValue F) {v : PyValue F} (hstorable : v.storable = true)
    (hpair : v.isPaired = false) : actual.eqScalar v.roundTrip = actual.eqScalar v := by
  cases v with
  | none => rfl
  | bool b => rfl
  | int n => rfl
  | float x => rfl
  | text s =>
    show actual.eqScalar (.text (Json.joinPairs s)) = _
    rw [Json.joinPairs_eq_self hpair]
  | date s => simp [PyValue.storable] at hstorable
  | list items => cases actual <;> rfl
  | dict items => cases actual <;> rfl

theorem toFloat_roundTrip {v : PyValue F} (hstorable : v.storable = true)
    (hpair : v.isPaired = false) : v.roundTrip.toFloat = v.toFloat := by
  cases v with
  | none => rfl
  | bool b => rfl
  | int n => rfl
  | float x => rfl
  | text s =>
    show PyValue.toFloat (.text (Json.joinPairs s)) = _
    rw [Json.joinPairs_eq_self hpair]
  | date s => simp [PyValue.storable] at hstorable
  | list items => rfl
  | dict items => rfl

theorem any_eqScalar_roundTrip (actual : PyValue F) {items : List (PyValue F)}
    (hstorable : items.all PyValue.storable = true)
    (hpair : items.any PyValue.isPaired = false) :
    (items.map PyValue.roundTrip).any (fun item => actual.eqScalar item) =
      items.any fun item => actual.eqScalar item := by
  induction items with
  | nil => rfl
  | cons v vs ih =>
    rw [List.all_cons, Bool.and_eq_true] at hstorable
    rw [List.any_cons, Bool.or_eq_false_iff] at hpair
    rw [List.map_cons, List.any_cons, List.any_cons, ih hstorable.2 hpair.2,
      eqScalar_roundTrip actual hstorable.1 hpair.1]

omit [PyFloat F] in
theorem isPaired_of_hasPair {v : PyValue F} (h : v.hasPair = false) : v.isPaired = false := by
  cases v <;> first | exact h | rfl

end Scalars

section Conditions

variable [PyFloat F]

/-- The condition whose value has been written and read back. -/
def ConditionSpec.roundTrip (c : ConditionSpec F) : ConditionSpec F :=
  { c with value := c.value.roundTrip }

theorem compareFloats_roundTrip (rel : F → F → Bool) (actual : PyValue F) {v : PyValue F}
    (hstorable : v.storable = true) (hpair : v.isPaired = false) :
    compareFloats rel actual v.roundTrip = compareFloats rel actual v := by
  rw [compareFloats, compareFloats, toFloat_roundTrip hstorable hpair]

/-- A round trip of a value that can be stored changes no condition, unless the value holds a
pair of surrogates. -/
theorem checkCondition_roundTrip {c : ConditionSpec F} (hstorable : c.value.storable = true)
    (hpair : c.value.hasPair = false) (event : Event F) :
    checkCondition c.roundTrip event = checkCondition c event := by
  have hscalar := isPaired_of_hasPair hpair
  obtain ⟨field, op, value⟩ := c
  cases op with
  | eq =>
    simp only [checkCondition, ConditionSpec.roundTrip, eqScalar_roundTrip _ hstorable hscalar]
  | neq =>
    simp only [checkCondition, ConditionSpec.roundTrip, eqScalar_roundTrip _ hstorable hscalar]
  | gt => exact compareFloats_roundTrip _ _ hstorable hscalar
  | gte => exact compareFloats_roundTrip _ _ hstorable hscalar
  | lt => exact compareFloats_roundTrip _ _ hstorable hscalar
  | lte => exact compareFloats_roundTrip _ _ hstorable hscalar
  | isIn =>
    cases value with
    | list items =>
      simp only [checkCondition, ConditionSpec.roundTrip, roundTrip_list]
      rw [any_eqScalar_roundTrip _ (PyValue.storable_list items ▸ hstorable) hpair]
    | none => rfl
    | bool b => rfl
    | int n => rfl
    | float x => rfl
    | text s => rfl
    | date s => rfl
    | dict items => rfl

theorem checkAll_roundTrip {conditions : List (ConditionSpec F)} (event : Event F)
    (h : ∀ c ∈ conditions, c.value.storable = true ∧ c.value.hasPair = false) :
    checkAll event (conditions.map ConditionSpec.roundTrip) = checkAll event conditions := by
  induction conditions with
  | nil => rfl
  | cons c cs ih =>
    obtain ⟨hc, hcs⟩ := List.forall_mem_cons.mp h
    rw [List.map_cons, checkAll, checkAll, checkCondition_roundTrip hc.1 hc.2, ih hcs]

theorem checkAll_congr {event event' : Event F}
    (h : ∀ field, eventField event field = eventField event' field)
    (conditions : List (ConditionSpec F)) :
    checkAll event conditions = checkAll event' conditions := by
  induction conditions with
  | nil => rfl
  | cons c cs ih => simp only [checkAll, checkCondition, h, ih]

end Conditions

section Decode

/-- What the inputs of one engine row say of the event and of the rule. -/
structure RecordedInputs (F : Type) where
  intent : String
  ticker : String
  confidence : F
  timeHorizon : String
  conditions : List (ConditionSpec F)
  enabled : Bool

/-- An event with the recorded fields; no condition reads the others. -/
def RecordedInputs.event (inputs : RecordedInputs F) : Event F :=
  ⟨"", 0, 0, inputs.ticker, inputs.intent, inputs.confidence, inputs.timeHorizon⟩

/-- `v[key]` of a mapping. -/
def fieldOf (key : String) : Value F → Option (Value F)
  | .object fields => fields.lookup (Json.text key)
  | _ => none

def stringOf : Value F → Option String
  | .str s => Json.string? s
  | _ => none

def floatOf : Value F → Option F
  | .float x => some x
  | _ => none

def boolOf : Value F → Option Bool
  | .bool b => some b
  | _ => none

def itemsOf : Value F → Option (List (Value F))
  | .list items => some items
  | _ => none

def conditionFields : List ConditionField := [.intent, .ticker, .confidence, .timeHorizon]

def conditionOps : List ConditionOp := [.eq, .neq, .gt, .gte, .lt, .lte, .isIn]

def decodeCondition (v : Value F) : Option (ConditionSpec F) := do
  let field ← (fieldOf "field" v).bind stringOf
  let op ← (fieldOf "op" v).bind stringOf
  let value ← fieldOf "value" v
  let field ← conditionFields.find? fun f => f.value == field
  let op ← conditionOps.find? fun o => o.value == op
  return ⟨field, op, ofJson value⟩

def decodeInputs (v : Value F) : Option (RecordedInputs F) := do
  let intent ← (fieldOf "intent" v).bind stringOf
  let ticker ← (fieldOf "ticker" v).bind stringOf
  let confidence ← (fieldOf "confidence" v).bind floatOf
  let timeHorizon ← (fieldOf "time_horizon" v).bind stringOf
  let conditions ← (fieldOf "rule_conditions" v).bind itemsOf
  let conditions ← conditions.mapM decodeCondition
  let enabled ← (fieldOf "rule_enabled" v).bind boolOf
  return ⟨intent, ticker, confidence, timeHorizon, conditions, enabled⟩

variable [PyFloat F]

/-- What `json.loads` returns for the stored text of a value. -/
def stored (v : PyValue F) : Value F := Json.readBack (toJson v)

theorem lookup_readBackFields (fields : List (String × PyValue F))
    (done : List (Json.Text × Value F)) (key : String) (h : key ∉ fields.map Prod.fst) :
    (Json.readBackFields done
      (fields.map fun f => (Json.text f.1, toJson f.2))).lookup (Json.text key) =
      done.lookup (Json.text key) := by
  induction fields generalizing done with
  | nil => rfl
  | cons f fields ih =>
    rw [List.map_cons, List.mem_cons, not_or] at h
    rw [List.map_cons, Json.readBackFields, ih _ h.2, Json.joinPairs_text, Json.lookup_setField,
      if_neg (Json.text_inj.not.mpr h.1)]

/-- A key of a record is found again. -/
theorem fieldOf_record {fields : List (String × PyValue F)} (hn : (fields.map Prod.fst).Nodup)
    {key : String} {v : PyValue F} (h : (key, v) ∈ fields) :
    fieldOf key (stored (record fields)) = some (stored v) := by
  have hlookup : ∀ (fields : List (String × PyValue F)) (done : List (Json.Text × Value F)),
      (fields.map Prod.fst).Nodup → (key, v) ∈ fields →
      (Json.readBackFields done
        (fields.map fun f => (Json.text f.1, toJson f.2))).lookup (Json.text key) =
        some (stored v) := by
    intro fields
    induction fields with
    | nil => exact fun _ _ h => absurd h List.not_mem_nil
    | cons f fields ih =>
      intro done hn h
      obtain ⟨hf, hn⟩ := List.nodup_cons.mp hn
      rw [List.map_cons, Json.readBackFields]
      rcases List.mem_cons.mp h with rfl | h
      · rw [lookup_readBackFields _ _ _ hf, Json.joinPairs_text, Json.lookup_setField, if_pos rfl]
        rfl
      · exact ih _ hn h
  rw [stored, toJson_record, Json.readBack, fieldOf, hlookup fields [] hn h]

theorem stringOf_stored (s : String) : stringOf (stored (PyValue.str s : PyValue F)) = some s := by
  show Json.string? (Json.joinPairs (Json.text s)) = some s
  rw [Json.joinPairs_text, Json.string?_text]

theorem find_conditionField (field : ConditionField) :
    conditionFields.find? (fun f => f.value == field.value) = some field := by
  cases field <;> decide

theorem find_conditionOp (op : ConditionOp) :
    conditionOps.find? (fun o => o.value == op.value) = some op := by
  cases op <;> decide

theorem decodeCondition_stored (c : ConditionSpec F) :
    decodeCondition (stored c.dump) = some c.roundTrip := by
  have hn : (["field", "op", "value"] : List String).Nodup := by decide
  have hfield : fieldOf "field" (stored c.dump) = some (stored (.str c.field.value)) :=
    fieldOf_record (by exact hn) (by simp)
  have hop : fieldOf "op" (stored c.dump) = some (stored (.str c.op.value)) :=
    fieldOf_record (by exact hn) (by simp)
  have hvalue : fieldOf "value" (stored c.dump) = some (stored c.value) :=
    fieldOf_record (by exact hn) (by simp)
  simp only [decodeCondition, hfield, hop, hvalue, Option.bind_some, stringOf_stored,
    find_conditionField, find_conditionOp, Option.bind_eq_bind]
  rfl

theorem stored_list (items : List (PyValue F)) :
    stored (.list items) = .list (items.map stored) := by
  have hitems : Json.readBackItems (toJsonItems items) = items.map stored := by
    induction items with
    | nil => rfl
    | cons v vs ih => rw [toJsonItems, Json.readBackItems, ih]; rfl
  rw [stored, toJson, Json.readBack, hitems]

theorem decodeConditions_stored (conditions : List (ConditionSpec F)) :
    ((conditions.map ConditionSpec.dump).map stored).mapM decodeCondition =
      some (conditions.map ConditionSpec.roundTrip) := by
  induction conditions with
  | nil => rfl
  | cons c cs ih =>
    simp only [List.map_cons, List.mapM_cons, decodeCondition_stored, ih]
    rfl

/-- The inputs of an engine row come back with the condition values read back. -/
theorem decodeInputs_stored (rule : RuleSpec F) (event : Event F) :
    decodeInputs (stored (ruleInputs rule event)) = some ⟨event.intent, event.ticker,
      event.confidence, event.timeHorizon, rule.conditions.map ConditionSpec.roundTrip,
      rule.enabled⟩ := by
  have hn : (["intent", "ticker", "confidence", "time_horizon", "rule_conditions",
    "rule_enabled"] : List String).Nodup := by decide
  let v := stored (ruleInputs rule event)
  have hintent : fieldOf "intent" v = some (stored (.str event.intent)) :=
    fieldOf_record (by exact hn) (by simp)
  have hticker : fieldOf "ticker" v = some (stored (.str event.ticker)) :=
    fieldOf_record (by exact hn) (by simp)
  have hconfidence : fieldOf "confidence" v = some (.float event.confidence) :=
    fieldOf_record (v := .float event.confidence) (by exact hn) (by simp)
  have hhorizon : fieldOf "time_horizon" v = some (stored (.str event.timeHorizon)) :=
    fieldOf_record (by exact hn) (by simp)
  have hconditions : fieldOf "rule_conditions" v =
      some (stored (.list (rule.conditions.map ConditionSpec.dump))) :=
    fieldOf_record (by exact hn) (by simp)
  have henabled : fieldOf "rule_enabled" v = some (.bool rule.enabled) :=
    fieldOf_record (v := .bool rule.enabled) (by exact hn) (by simp)
  show decodeInputs v = _
  simp only [decodeInputs, hintent, hticker, hconfidence, hhorizon, hconditions, henabled,
    Option.bind_some, stringOf_stored, stored_list, Option.bind_eq_bind, floatOf, boolOf, itemsOf,
    decodeConditions_stored]
  rfl

end Decode

section Replay

variable [PyFloat F]

/-- `json.loads(inputs_json)` of a row, decoded. -/
def RuleEvaluationRow.recordedInputs (row : RuleEvaluationRow F) : Option (RecordedInputs F) :=
  decodeInputs (stored row.inputsJson)

/-- The text of an engine row can be read back when those of the confidence and of the condition
values can. -/
theorem ruleInputs_reloads {rt : Runtime F} {rule : RuleSpec F} {event : Event F}
    (hdepth : 3 ≤ rt.jsonDepth) (hconfidence : (PyValue.float event.confidence).Reloads rt 1)
    (hvalues : ∀ c ∈ rule.conditions, c.value.Reloads rt 3) :
    (ruleInputs rule event).Reloads rt 0 := by
  have hdump : ∀ c ∈ rule.conditions, c.dump.Reloads rt 2 := by
    intro c hc
    apply PyValue.reloads_record (by omega)
    simp only [List.forall_mem_cons, List.not_mem_nil, false_implies, implies_true, and_true]
    exact ⟨PyValue.reloads_str _ _ _, PyValue.reloads_str _ _ _, hvalues c hc⟩
  have hconditions : (PyValue.list (rule.conditions.map ConditionSpec.dump)).Reloads rt 1 :=
    PyValue.reloads_list (by omega) (List.forall_mem_map.mpr hdump)
  apply PyValue.reloads_record (by omega)
  simp only [List.forall_mem_cons, List.not_mem_nil, false_implies, implies_true, and_true]
  exact ⟨PyValue.reloads_str _ _ _, PyValue.reloads_str _ _ _, hconfidence,
    PyValue.reloads_str _ _ _, hconditions, trivial⟩

/-- The recorded inputs are decoded from what `json.loads` makes of the text of the column. -/
theorem recordedInputs_text {rt : Runtime F} {row : RuleEvaluationRow F}
    (h : row.inputsJson.Reloads rt 0) :
    (jsonLoads rt (jsonDumps row.inputsJson)).toOption.bind decodeInputs = row.recordedInputs := by
  rw [jsonLoads_jsonDumps h]
  rfl

/-- The outcome that the recorded inputs give, decided as `evaluate` decides it. -/
def RecordedInputs.outcome (inputs : RecordedInputs F) (alreadyMatched : Bool) :
    Except PyExc RuleOutcome :=
  if inputs.enabled then
    match checkAll inputs.event inputs.conditions with
    | .error .typeError | .error .valueError => .ok .failed
    | .error e => .error e
    | .ok met => .ok (if !alreadyMatched && met then .matched else .skipped)
  else .ok .skipped

/-- The outcomes of the rows in id order. -/
def replayRows : Bool → List (RuleEvaluationRow F) → Option (List RuleOutcome)
  | _, [] => some []
  | alreadyMatched, row :: rows => do
    let inputs ← row.recordedInputs
    let outcome ← (inputs.outcome alreadyMatched).toOption
    let outcomes ← replayRows (alreadyMatched || outcome == .matched) rows
    return outcome :: outcomes

/-- The decision that the rows record: an outcome for each rule and the rule that matches. -/
structure ReplayedDecision where
  outcomes : List RuleOutcome
  firstMatch : Option String
  deriving DecidableEq

def replay (rows : List (RuleEvaluationRow F)) : Option ReplayedDecision :=
  (replayRows false rows).map fun outcomes =>
    ⟨outcomes, ((rows.zip outcomes).find? fun x => x.2 == .matched).map fun x => x.1.ruleId⟩

/-- The decision of the engine. -/
def RuleEngineOutcome.decision (out : RuleEngineOutcome F) : ReplayedDecision :=
  ⟨out.evaluations.map RuleEvaluationRecord.outcome, out.matched.map RuleEvaluationRecord.ruleId⟩

/-- No condition of the rule changes with a round trip. -/
def RuleSpec.ReadsBack (rule : RuleSpec F) : Prop :=
  ∀ c ∈ rule.conditions, c.value.storable = true ∧ c.value.hasPair = false

theorem outcome_roundTrip {rule : RuleSpec F} (h : rule.ReadsBack) (event : Event F)
    (alreadyMatched : Bool) :
    RecordedInputs.outcome ⟨event.intent, event.ticker, event.confidence, event.timeHorizon,
      rule.conditions.map ConditionSpec.roundTrip, rule.enabled⟩ alreadyMatched =
      ruleOutcome event alreadyMatched rule := by
  have hfields : ∀ field, eventField (RecordedInputs.event ⟨event.intent, event.ticker,
      event.confidence, event.timeHorizon, rule.conditions.map ConditionSpec.roundTrip,
      rule.enabled⟩) field = eventField event field := by
    intro field
    cases field <;> rfl
  have hall := (checkAll_congr hfields (rule.conditions.map ConditionSpec.roundTrip)).trans
    (checkAll_roundTrip event h)
  unfold RecordedInputs.outcome ruleOutcome
  cases hc : checkAll event rule.conditions with
  | ok met => simp only [hall, hc]
  | error e => cases e <;> simp only [hall, hc]

/-- The row of a rule gives back its outcome. -/
theorem replayRows_cons {rule : RuleSpec F} (hrule : rule.ReadsBack) {event : Event F}
    {alreadyMatched : Bool} {outcome : RuleOutcome}
    (ho : ruleOutcome event alreadyMatched rule = .ok outcome) {row : RuleEvaluationRow F}
    (hrow : row.inputsJson = ruleInputs rule event) (rows : List (RuleEvaluationRow F)) :
    replayRows alreadyMatched (row :: rows) =
      (replayRows (alreadyMatched || outcome == .matched) rows).map fun outcomes =>
        outcome :: outcomes := by
  have hinputs : row.recordedInputs = some ⟨event.intent, event.ticker, event.confidence,
      event.timeHorizon, rule.conditions.map ConditionSpec.roundTrip, rule.enabled⟩ := by
    rw [RuleEvaluationRow.recordedInputs, hrow, decodeInputs_stored]
  simp only [replayRows, hinputs, Option.bind_eq_bind, Option.bind_some, outcome_roundTrip hrule,
    ho, Except.toOption]
  cases replayRows (alreadyMatched || outcome == .matched) rows <;> rfl

/-- The rows of one evaluation give back its outcomes. -/
theorem replayRows_evaluateRules {sha256 : PyValue F → String} {event : Event F}
    {m : Option (RuleEvaluationRecord F)} {rules : List (RuleSpec F)} {out : RuleEngineOutcome F}
    (h : evaluateRules sha256 event m rules = .ok out) (hrules : ∀ rule ∈ rules, rule.ReadsBack)
    (eventId : String) : replayRows m.isSome (evaluationRows eventId out) =
      some (out.evaluations.map RuleEvaluationRecord.outcome) := by
  induction rules generalizing m out with
  | nil =>
    obtain rfl := Except.ok.inj h
    rfl
  | cons rule rules ih =>
    obtain ⟨hrule, hrules⟩ := List.forall_mem_cons.mp hrules
    obtain ⟨hash, outcome, rest, -, ho, hrest, rfl⟩ := evaluateRules_cons h
    have hmatched : (m.isSome || outcome == .matched) =
        (if outcome = .matched then some (ruleRecord rule event hash outcome) else m).isSome := by
      by_cases hm : outcome = .matched <;> simp [hm]
    rw [evaluationRows, List.map_cons, replayRows_cons hrule ho rfl, hmatched, ← evaluationRows,
      ih hrest hrules]
    rfl

/-- Replaying the rows of an evaluation gives its decision. -/
theorem replay_evaluationRows {sha256 : PyValue F → String} {event : Event F}
    {rules : List (RuleSpec F)} {out : RuleEngineOutcome F}
    (h : evaluate sha256 rules event = .ok out) (hrules : ∀ rule ∈ rules, rule.ReadsBack)
    (eventId : String) : replay (evaluationRows eventId out) = some out.decision := by
  have hsorted : ∀ rule ∈ rules.insertionSort ruleLe, rule.ReadsBack := fun rule hrule =>
    hrules rule ((List.mem_insertionSort ruleLe).mp hrule)
  have hrows : replayRows false (evaluationRows eventId out) =
      some (out.evaluations.map RuleEvaluationRecord.outcome) :=
    replayRows_evaluateRules h hsorted eventId
  rw [replay, hrows, Option.map_some,
    RuleEngineOutcome.decision, evaluateRules_matched_eq h, Option.none_or, evaluationRows,
    List.zip_map', List.find?_map, Option.map_map, Function.comp_def, Function.comp_def]

/-- Inputs that can be stored hold condition values that can. -/
theorem storable_of_ruleInputs {rule : RuleSpec F} {event : Event F}
    (h : (ruleInputs rule event).storable = true) :
    ∀ c ∈ rule.conditions, c.value.storable = true := by
  intro c hc
  rw [ruleInputs, PyValue.storable_record, List.all_eq_true] at h
  have hlist : (PyValue.list (rule.conditions.map ConditionSpec.dump)).storable = true :=
    h ("rule_conditions", _) (by simp)
  rw [PyValue.storable_list, List.all_eq_true] at hlist
  have hdump := hlist c.dump (List.mem_map_of_mem hc)
  rw [ConditionSpec.dump, PyValue.storable_record, List.all_eq_true] at hdump
  exact hdump ("value", c.value) (by simp)

end Replay

namespace RulePipeline

variable [PyFloat F] {r : RulePipeline F} {e : Reading F} {w : World F}

/-- An iteration that pops no event with a row writes no evaluation. -/
theorem iterate_unpopped (h : ∀ eventId event, ¬ Pops e w eventId event) :
    (r.iterate e w).state.ruleEvaluations = w.ruleEvaluations := by
  unfold iterate
  simp only []
  cases hcheck : e.atKillCheck with
  | some a => rfl
  | none =>
    cases hkill : e.killBefore.state.active with
    | true => rfl
    | false =>
      cases hpop : e.atPop with
      | some a => rfl
      | none =>
        cases hqueue : w.queue ++ e.arrivals with
        | nil => cases r.drain <;> rfl
        | cons raw queue =>
          cases hid : String.fromUTF8? raw with
          | none => simp only [hid]; rfl
          | some eventId =>
            simp only [hid]
            cases hbefore : e.beforeSubmit with
            | some a => rfl
            | none =>
              cases hfind : e.events.find eventId with
              | none => rfl
              | some event =>
                refine absurd ⟨⟨hcheck, hpop⟩, hkill, ?_, hfind⟩ (h eventId event)
                simp [World.poppedId, hqueue, hid]

/-- Every iteration leaves the table alone or adds the rows of one evaluation, then those of the
risk manager. -/
theorem iterate_ruleEvaluations (r : RulePipeline F) (e : Reading F) (w : World F) :
    (r.iterate e w).state.ruleEvaluations = w.ruleEvaluations ∨
      ∃ eventId event out riskRows, Pops e w eventId event ∧
        flushEvaluations (evaluationRows eventId out) = .ok () ∧
        r.Audited e w eventId event out riskRows := by
  by_cases hpops : ∃ eventId event, Pops e w eventId event
  · obtain ⟨eventId, event, hpops⟩ := hpops
    by_cases hkept : r.Kept e w eventId event
    · obtain ⟨out, riskRows, haudited⟩ := iterate_kept hpops hkept
      obtain ⟨out', heval, hflush, -⟩ := hkept.engine
      obtain rfl := Except.ok.inj (haudited.evaluated.symm.trans heval)
      exact Or.inr ⟨eventId, event, out, riskRows, hpops, hflush, haudited⟩
    · exact Or.inl (iterate_unkept hpops hkept)
  · simp only [not_exists] at hpops
    exact Or.inl (iterate_unpopped hpops)

/-- Unless a text among the condition values holds a pair of surrogates, the journal keeps what
every condition answers, and replaying the engine's rows of a committed iteration gives its
outcomes and its first match. -/
theorem replay_reproduces (r : RulePipeline F) (e : Reading F) (w : World F)
    (hpair : ∀ rule ∈ e.rules.rules, ∀ c ∈ rule.conditions, c.value.hasPair = false) :
    (∀ rule ∈ e.rules.rules, ∀ c ∈ rule.conditions, c.value.storable = true →
      ∀ event, checkCondition c.roundTrip event = checkCondition c event) ∧
    ((r.iterate e w).state.ruleEvaluations = w.ruleEvaluations ∨
      ∃ eventId event out riskRows, Pops e w eventId event ∧
        r.Audited e w eventId event out riskRows ∧
        replay (evaluationRows eventId out) = some out.decision) := by
  refine ⟨fun rule hrule c hc hstorable event =>
    checkCondition_roundTrip hstorable (hpair rule hrule c hc) event, ?_⟩
  rcases iterate_ruleEvaluations r e w with
    hsame | ⟨eventId, event, out, riskRows, hpops, hflush, haudited⟩
  · exact Or.inl hsame
  · refine Or.inr ⟨eventId, event, out, riskRows, hpops, haudited, ?_⟩
    apply replay_evaluationRows haudited.evaluated
    intro rule hrule c hc
    refine ⟨?_, hpair rule hrule c hc⟩
    have hinputs := evaluateRules_inputs haudited.evaluated
    have hmem : ruleInputs rule event ∈ out.evaluations.map RuleEvaluationRecord.inputs := by
      rw [hinputs]
      exact List.mem_map_of_mem ((List.mem_insertionSort ruleLe).mpr hrule)
    obtain ⟨record, hrecord, heq⟩ := List.mem_map.mp hmem
    have hrow := (flushEvaluations_ok_iff _).mp hflush _ (List.mem_map_of_mem hrecord)
    apply storable_of_ruleInputs (heq ▸ hrow.1)
    exact hc

section Paper

/-- U+1F600, a single code point, as a ticker. -/
def faceTicker : String := String.ofList [Char.ofNat 0x1f600]

/-- A rule for the ticker that a YAML file spells `"\ud83d\ude00"`: two code points. -/
def faceRule : RuleSpec ℚ :=
  { paperRule .market none with
    conditions := [⟨.ticker, .eq, .text [0xd83d, 0xde00]⟩]
    conditions_nonempty := by simp }

def faceIteration : Reading ℚ :=
  { paperIteration with
    arrivals := [("t1:" ++ faceTicker).toUTF8]
    events := ⟨[⟨"t1:" ++ faceTicker, 1, 1, faceTicker, "bullish", 9 / 10, "swing"⟩],
      List.nodup_singleton _⟩
    rules := ⟨[faceRule], List.nodup_singleton _, List.pairwise_singleton _ _⟩ }

def faceRows : List (RuleEvaluationRow ℚ) :=
  ((paperPipeline 5).iterate faceIteration (World.start [] [] [])).state.ruleEvaluations

/-- The rule does not match the event, and its replayed condition does: the two escapes come
back as one code point. -/
theorem surrogate_pair_replays_matched : ¬ ∀ (r : RulePipeline ℚ) (e : Reading ℚ) (w : World ℚ),
    (r.iterate e w).state.ruleEvaluations = w.ruleEvaluations ∨
      ∃ eventId event out riskRows, Pops e w eventId event ∧
        r.Audited e w eventId event out riskRows ∧
        replay (evaluationRows eventId out) = some out.decision := by
  intro h
  have hlength : faceRows.length = 1 := by decide +kernel
  have hrecorded : faceRows.map RuleEvaluationRow.outcome = ["skipped"] := by decide +kernel
  have hreplayed : replay faceRows = some ⟨[.matched], some "buy_bullish"⟩ := by decide +kernel
  rcases h (paperPipeline 5) faceIteration (World.start [] [] []) with
    hsame | ⟨eventId, event, out, riskRows, -, haudited, hreplay⟩
  · have hnone : faceRows = [] := hsame
    simp [hnone] at hlength
  · have hcommitted : faceRows = evaluationRows eventId out ++ riskRows := haudited.committed
    have hone := congrArg List.length (evaluateRules_ruleIds haudited.evaluated)
    have hrule : (faceIteration.rules.rules.insertionSort ruleLe).length = 1 := rfl
    have hlengths := congrArg List.length hcommitted
    simp only [List.length_append, evaluationRows, List.length_map] at hlengths hone
    have hrisk : riskRows = [] := List.eq_nil_of_length_eq_zero (by omega)
    rw [hrisk, List.append_nil] at hcommitted
    rw [hcommitted] at hrecorded hreplayed
    have hdecision := Option.some.inj (hreplay.symm.trans hreplayed)
    have houtcomes : out.evaluations.map RuleEvaluationRecord.outcome = [.matched] :=
      congrArg ReplayedDecision.outcomes hdecision
    have hvalues : (out.evaluations.map RuleEvaluationRecord.outcome).map RuleOutcome.value =
        ["skipped"] := by
      rw [List.map_map]
      simpa [evaluationRows] using hrecorded
    rw [houtcomes] at hvalues
    exact absurd hvalues (by decide)

/-- The one text among the values of the paper rule is `bullish`. -/
theorem replay_reproduces_paper :
    (∀ rule ∈ paperIteration.rules.rules, ∀ c ∈ rule.conditions, c.value.storable = true →
      ∀ event, checkCondition c.roundTrip event = checkCondition c event) ∧
    (((paperPipeline 5).iterate paperIteration
        (World.start [] [] [])).state.ruleEvaluations = [] ∨
      ∃ eventId event out riskRows, Pops paperIteration (World.start [] [] []) eventId event ∧
        (paperPipeline 5).Audited paperIteration (World.start [] [] []) eventId event out riskRows ∧
        replay (evaluationRows eventId out) = some out.decision) :=
  replay_reproduces (paperPipeline 5) paperIteration (World.start [] [] []) (by
    intro rule hrule c hc
    obtain rfl := List.mem_singleton.mp hrule
    obtain rfl := List.mem_singleton.mp hc
    decide)

end Paper

end RulePipeline

end XSocialTrader
