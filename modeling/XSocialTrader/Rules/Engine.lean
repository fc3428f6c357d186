import XSocialTrader.Rules.Models

/-! The rule engine: priority order, first match wins, one record for each rule. A type or
value error in a condition fails that rule only; any other exception leaves `evaluate`. -/
namespace XSocialTrader

variable {F : Type} [PyFloat F]

/-- `getattr(event, name)`. -/
def eventField (event : Event F) : ConditionField → PyValue F
  | .intent => .str event.intent
  | .ticker => .str event.ticker
  | .confidence => .float event.confidence
  | .timeHorizon => .str event.timeHorizon

/-- Both sides are converted, the event's side first. -/
def compareFloats (rel : F → F → Bool) (actual value : PyValue F) : Except PyExc Bool :=
  match actual.toFloat with
  | .error e => .error e
  | .ok x => match value.toFloat with
    | .error e => .error e
    | .ok y => .ok (rel x y)

/-- `_check`. -/
def checkCondition (c : ConditionSpec F) (event : Event F) : Except PyExc Bool :=
  let actual := eventField event c.field
  match c.op with
  | .eq => .ok (actual.eqScalar c.value)
  | .neq => .ok (!actual.eqScalar c.value)
  | .gt => compareFloats (fun x y => PyFloat.lt y x) actual c.value
  | .gte => compareFloats (fun x y => PyFloat.le y x) actual c.value
  | .lt => compareFloats PyFloat.lt actual c.value
  | .lte => compareFloats PyFloat.le actual c.value
  | .isIn => match c.value with
    | .list items => .ok (items.any fun item => actual.eqScalar item)
    | _ => .error .typeError

/-- `all(_check(c, event) for c in conditions)`. -/
def checkAll (event : Event F) : List (ConditionSpec F) → Except PyExc Bool
  | [] => .ok true
  | c :: cs => match checkCondition c event with
    | .error e => .error e
    | .ok false => .ok false
    | .ok true => checkAll event cs

/-- The rule is enabled and all its conditions are true, with none raising before that. -/
def RuleSpec.matchesEvent (rule : RuleSpec F) (event : Event F) : Bool :=
  rule.enabled && match checkAll event rule.conditions with
    | .ok met => met
    | .error _ => false

structure RuleEvaluationRecord (F : Type) [PyFloat F] where
  ruleId : String
  rulePriority : ℤ
  inputs : PyValue F
  inputsHash : String
  outcome : RuleOutcome
  proposedOrder : Option (ProposedOrder F)

structure RuleEngineOutcome (F : Type) [PyFloat F] where
  matched : Option (RuleEvaluationRecord F)
  evaluations : List (RuleEvaluationRecord F)

/-- `ConditionSpec.model_dump()`. -/
def ConditionSpec.dump (c : ConditionSpec F) : PyValue F :=
  record [("field", .str c.field.value), ("op", .str c.op.value), ("value", c.value)]

/-- The `inputs` dictionary of one record. -/
def ruleInputs (rule : RuleSpec F) (event : Event F) : PyValue F :=
  record [("intent", .str event.intent), ("ticker", .str event.ticker),
    ("confidence", .float event.confidence), ("time_horizon", .str event.timeHorizon),
    ("rule_conditions", .list (rule.conditions.map ConditionSpec.dump)),
    ("rule_enabled", .bool rule.enabled)]

/-- `_hash_inputs`; `sha256` stands for the digest of the dumped text. Inputs that cannot be
dumped for both reasons are taken to raise the type error. -/
def hashInputs (sha256 : PyValue F → String) (inputs : PyValue F) : Except PyExc String :=
  if !inputs.dumpable then .error .typeError
  else if !inputs.digitsFit then .error .valueError
  else .ok (sha256 inputs)

omit [PyFloat F] in
theorem hashInputs_ok_iff (sha256 : PyValue F → String) (inputs : PyValue F) :
    (∃ hash, hashInputs sha256 inputs = .ok hash) ↔
      inputs.dumpable = true ∧ inputs.digitsFit = true := by
  unfold hashInputs
  cases inputs.dumpable <;> cases inputs.digitsFit <;> simp

def buildProposedOrder (rule : RuleSpec F) (event : Event F) : ProposedOrder F where
  eventId := event.eventId
  strategyId := rule.action.strategyId
  tradingMode := rule.action.tradingMode
  side := rule.action.side
  orderType := rule.action.orderType
  symbol := event.ticker
  quantity := rule.action.quantity
  limitPrice := rule.action.limitPrice
  referencePriceUsd := rule.action.referencePriceUsd
  quantity_pos := rule.action.quantity_pos
  reference_pos := rule.action.reference_pos

@[simp] theorem buildProposedOrder_eventId (rule : RuleSpec F) (event : Event F) :
    (buildProposedOrder rule event).eventId = event.eventId := rfl

/-- The record of a rule; only a matched one carries an order. -/
def ruleRecord (rule : RuleSpec F) (event : Event F) (hash : String) (outcome : RuleOutcome) :
    RuleEvaluationRecord F where
  ruleId := rule.id
  rulePriority := rule.priority
  inputs := ruleInputs rule event
  inputsHash := hash
  outcome := outcome
  proposedOrder := match outcome with
    | .matched => some (buildProposedOrder rule event)
    | _ => none

/-- The outcome of one rule, given whether an earlier rule has matched. -/
def ruleOutcome (event : Event F) (alreadyMatched : Bool) (rule : RuleSpec F) :
    Except PyExc RuleOutcome :=
  if rule.enabled then
    match checkAll event rule.conditions with
    | .error .typeError | .error .valueError => .ok .failed
    | .error e => .error e
    | .ok met => .ok (if !alreadyMatched && met then .matched else .skipped)
  else .ok .skipped

/-- The loop of `evaluate` over the sorted rules. -/
def evaluateRules (sha256 : PyValue F → String) (event : Event F) :
    Option (RuleEvaluationRecord F) → List (RuleSpec F) → Except PyExc (RuleEngineOutcome F)
  | matched, [] => .ok ⟨matched, []⟩
  | matched, rule :: rules =>
    match hashInputs sha256 (ruleInputs rule event) with
    | .error e => .error e
    | .ok hash => match ruleOutcome event matched.isSome rule with
      | .error e => .error e
      | .ok outcome =>
        let rec' := ruleRecord rule event hash outcome
        let matched' := if outcome = .matched then some rec' else matched
        match evaluateRules sha256 event matched' rules with
        | .error e => .error e
        | .ok out => .ok ⟨out.matched, rec' :: out.evaluations⟩

/-- `RuleEngine(rules).evaluate(event)`. -/
def evaluate (sha256 : PyValue F → String) (rules : List (RuleSpec F)) (event : Event F) :
    Except PyExc (RuleEngineOutcome F) :=
  evaluateRules sha256 event none (rules.insertionSort ruleLe)

/-- The rule is enabled, matches, and comes first among those in `(-priority, id)` order. -/
def FirstMatch (rules : List (RuleSpec F)) (event : Event F) (rule : RuleSpec F) : Prop :=
  rule ∈ rules ∧ rule.matchesEvent event = true ∧
    ∀ r ∈ rules, r.matchesEvent event = true → ruleLe rule r

/-- A rule is skipped, fails because a condition raises, or has its conditions to the end. -/
theorem ruleOutcome_cases {event : Event F} {b : Bool} {rule : RuleSpec F} {outcome : RuleOutcome}
    (h : ruleOutcome event b rule = .ok outcome) :
    (rule.enabled = false ∧ outcome = .skipped) ∨
    (rule.enabled = true ∧ outcome = .failed ∧ ∃ e, checkAll event rule.conditions = .error e) ∨
    (rule.enabled = true ∧ ∃ met, checkAll event rule.conditions = .ok met ∧
      outcome = if !b && met then .matched else .skipped) := by
  unfold ruleOutcome at h
  cases he : rule.enabled with
  | false =>
    simp only [he, Bool.false_eq_true, ↓reduceIte, Except.ok.injEq] at h
    exact Or.inl ⟨rfl, h.symm⟩
  | true =>
    simp only [he, ↓reduceIte] at h
    cases hc : checkAll event rule.conditions with
    | error e =>
      have hf : outcome = .failed := by
        cases e <;> simp only [hc, Except.ok.injEq, reduceCtorEq] at h <;> exact h.symm
      exact Or.inr (Or.inl ⟨rfl, hf, e, rfl⟩)
    | ok met =>
      simp only [hc, Except.ok.injEq] at h
      exact Or.inr (Or.inr ⟨rfl, met, rfl, h.symm⟩)

theorem ruleOutcome_matched_iff {event : Event F} {b : Bool} {rule : RuleSpec F}
    {outcome : RuleOutcome} (h : ruleOutcome event b rule = .ok outcome) :
    outcome = .matched ↔ b = false ∧ rule.matchesEvent event = true := by
  unfold RuleSpec.matchesEvent
  rcases ruleOutcome_cases h with ⟨he, rfl⟩ | ⟨-, rfl, e, hc⟩ | ⟨he, met, hc, rfl⟩
  · simp [he]
  · simp [hc]
  · simp only [he, hc]
    cases b <;> cases met <;> simp

/-- What the loop does with one rule, if it comes to its end. -/
theorem evaluateRules_cons {sha256 : PyValue F → String} {event : Event F}
    {m : Option (RuleEvaluationRecord F)} {rule : RuleSpec F} {rules : List (RuleSpec F)}
    {out : RuleEngineOutcome F} (h : evaluateRules sha256 event m (rule :: rules) = .ok out) :
    ∃ hash outcome rest, hashInputs sha256 (ruleInputs rule event) = .ok hash ∧
      ruleOutcome event m.isSome rule = .ok outcome ∧
      evaluateRules sha256 event (if outcome = .matched then
        some (ruleRecord rule event hash outcome) else m) rules = .ok rest ∧
      out = ⟨rest.matched, ruleRecord rule event hash outcome :: rest.evaluations⟩ := by
  simp only [evaluateRules] at h
  split at h
  · cases h
  next hash hhash =>
    split at h
    · cases h
    next outcome ho =>
      split at h
      · cases h
      next rest hrest => exact ⟨hash, outcome, rest, hhash, ho, hrest, (Except.ok.inj h).symm⟩

/-- One record for each rule, in the rules' order. -/
theorem evaluateRules_map {α : Type} {f : RuleEvaluationRecord F → α} {g : RuleSpec F → α}
    {sha256 : PyValue F → String} {event : Event F}
    (hfg : ∀ rule hash outcome, f (ruleRecord rule event hash outcome) = g rule)
    {m : Option (RuleEvaluationRecord F)} {rules : List (RuleSpec F)} {out : RuleEngineOutcome F}
    (h : evaluateRules sha256 event m rules = .ok out) :
    out.evaluations.map f = rules.map g := by
  induction rules generalizing m out with
  | nil =>
    simp only [evaluateRules, Except.ok.injEq] at h
    simp [← h]
  | cons rule rules ih =>
    obtain ⟨hash, outcome, rest, -, -, hrest, rfl⟩ := evaluateRules_cons h
    rw [List.map_cons, List.map_cons, ih hrest, hfg]

theorem evaluateRules_ruleIds {sha256 : PyValue F → String} {event : Event F}
    {m : Option (RuleEvaluationRecord F)} {rules : List (RuleSpec F)} {out : RuleEngineOutcome F}
    (h : evaluateRules sha256 event m rules = .ok out) :
    out.evaluations.map RuleEvaluationRecord.ruleId = rules.map RuleSpec.id :=
  evaluateRules_map (fun _ _ _ => rfl) h

theorem evaluateRules_inputs {sha256 : PyValue F → String} {event : Event F}
    {m : Option (RuleEvaluationRecord F)} {rules : List (RuleSpec F)} {out : RuleEngineOutcome F}
    (h : evaluateRules sha256 event m rules = .ok out) :
    out.evaluations.map RuleEvaluationRecord.inputs = rules.map fun rule => ruleInputs rule event :=
  evaluateRules_map (fun _ _ _ => rfl) h

/-- Once a rule has matched, no later one replaces it. -/
theorem evaluateRules_matched_some {sha256 : PyValue F → String} {event : Event F}
    {m : RuleEvaluationRecord F} {rules : List (RuleSpec F)} {out : RuleEngineOutcome F}
    (h : evaluateRules sha256 event (some m) rules = .ok out) : out.matched = some m := by
  induction rules generalizing out with
  | nil =>
    simp only [evaluateRules, Except.ok.injEq] at h
    simp [← h]
  | cons rule rules ih =>
    obtain ⟨hash, outcome, rest, -, ho, hrest, rfl⟩ := evaluateRules_cons h
    have hne : outcome ≠ .matched := fun hm => by
      simp [(ruleOutcome_matched_iff ho)] at hm
    rw [if_neg hne] at hrest
    have hm : rest.matched = some m := ih hrest
    exact hm

/-- The matched record is the first one with that outcome. -/
theorem evaluateRules_matched_eq {sha256 : PyValue F → String} {event : Event F}
    {m : Option (RuleEvaluationRecord F)} {rules : List (RuleSpec F)} {out : RuleEngineOutcome F}
    (h : evaluateRules sha256 event m rules = .ok out) :
    out.matched = m.or (out.evaluations.find? fun record => record.outcome == .matched) := by
  induction rules generalizing m out with
  | nil =>
    obtain rfl := Except.ok.inj h
    cases m <;> rfl
  | cons rule rules ih =>
    obtain ⟨hash, outcome, rest, -, ho, hrest, rfl⟩ := evaluateRules_cons h
    show rest.matched = _
    rw [ih hrest]
    by_cases hm : outcome = .matched
    · have hnone : m = none := by
        have hfirst := ((ruleOutcome_matched_iff ho).mp hm).1
        simpa using hfirst
      simp [hm, hnone, ruleRecord]
    · simp [hm, ruleRecord]

/-- The loop's matched record is that of the first rule that matches, if there is one. -/
theorem evaluateRules_matched {sha256 : PyValue F → String} {event : Event F}
    {rules : List (RuleSpec F)} {out : RuleEngineOutcome F}
    (h : evaluateRules sha256 event none rules = .ok out) :
    out.matched.map RuleEvaluationRecord.proposedOrder =
      (rules.find? fun r => r.matchesEvent event).map
        fun r => some (buildProposedOrder r event) := by
  induction rules generalizing out with
  | nil =>
    simp only [evaluateRules, Except.ok.injEq] at h
    simp [← h]
  | cons rule rules ih =>
    obtain ⟨hash, outcome, rest, -, ho, hrest, rfl⟩ := evaluateRules_cons h
    by_cases hm : outcome = .matched
    · have hr := ((ruleOutcome_matched_iff ho).mp hm).2
      rw [if_pos hm] at hrest
      rw [List.find?_cons_of_pos (p := fun r : RuleSpec F => r.matchesEvent event) hr,
        evaluateRules_matched_some hrest, hm]
      rfl
    · have hr : ¬ rule.matchesEvent event = true := fun hr =>
        hm ((ruleOutcome_matched_iff ho).mpr ⟨rfl, hr⟩)
      rw [if_neg hm] at hrest
      have hlater := ih hrest
      rw [List.find?_cons_of_neg (p := fun r : RuleSpec F => r.matchesEvent event) hr]
      exact hlater

theorem firstMatch_of_find {rules : List (RuleSpec F)} (hs : rules.Pairwise ruleLe)
    {event : Event F} {rule : RuleSpec F}
    (h : rules.find? (fun r => r.matchesEvent event) = some rule) :
    FirstMatch rules event rule := by
  refine ⟨List.mem_of_find?_eq_some h,
    List.find?_some (p := fun r : RuleSpec F => r.matchesEvent event) h, fun r hr hm => ?_⟩
  obtain ⟨_, before, after, rfl, hbefore⟩ := List.find?_eq_some_iff_append.mp h
  rcases List.mem_append.mp hr with hr | hr
  · exact absurd hm (by simpa using hbefore r hr)
  · rcases List.mem_cons.mp hr with rfl | hr
    · exact (ruleLe_total r r).elim id id
    · exact (List.pairwise_cons.mp (List.pairwise_append.mp hs).2.1).1 r hr

/-- Distinct ids leave one first match. -/
theorem FirstMatch.unique {rules : List (RuleSpec F)} {event : Event F} {r s : RuleSpec F}
    (hn : (rules.map RuleSpec.id).Nodup) (hr : FirstMatch rules event r)
    (hs : FirstMatch rules event s) : r = s := by
  have hid := ruleLe_antisymm_id (hr.2.2 s hs.1 hs.2.1) (hs.2.2 r hr.1 hr.2.1)
  exact List.inj_on_of_nodup_map hn hr.1 hs.1 hid

/-- The sort of a loaded rule set changes nothing. -/
theorem LoadedRules.insertionSort_eq (l : LoadedRules F) :
    l.rules.insertionSort ruleLe = l.rules :=
  l.sorted.insertionSort_eq

/-- On a loaded rule set `evaluate` proposes the order of the first match and no other. -/
theorem evaluate_proposes_iff {sha256 : PyValue F → String} {l : LoadedRules F}
    {event : Event F} {out : RuleEngineOutcome F} (h : evaluate sha256 l.rules event = .ok out)
    (p : ProposedOrder F) :
    (∃ m, out.matched = some m ∧ m.proposedOrder = some p) ↔
      ∃ rule, FirstMatch l.rules event rule ∧ p = buildProposedOrder rule event := by
  unfold evaluate at h
  rw [l.insertionSort_eq] at h
  have hmap := evaluateRules_matched h
  constructor
  · rintro ⟨m, hm, hp⟩
    rw [hm, Option.map_some, hp] at hmap
    obtain ⟨rule, hrule, he⟩ := Option.map_eq_some_iff.mp hmap.symm
    exact ⟨rule, firstMatch_of_find l.sorted hrule, (Option.some.inj he).symm⟩
  · rintro ⟨rule, hrule, rfl⟩
    cases hf : l.rules.find? fun r => r.matchesEvent event with
    | none => exact absurd hrule.2.1 (by simpa using List.find?_eq_none.mp hf rule hrule.1)
    | some r =>
      obtain rfl := (firstMatch_of_find l.sorted hf).unique l.ids_nodup hrule
      rw [hf, Option.map_some] at hmap
      exact Option.map_eq_some_iff.mp hmap

end XSocialTrader
