import XSocialTrader.Risk.Rules

/-! The risk manager: it runs every rule, without an early return on a failing one, and
writes one audit row for each. -/
namespace XSocialTrader

variable {F : Type} [PyFloat F]

/-- `tuple(rule.check(order, context) for rule in rules)`. -/
def runChecks (order : ProposedOrder F) (ctx : ValidationContext F) :
    List (RiskRule F) → Except PyExc (List (RuleCheckResult F))
  | [] => .ok []
  | rule :: rules => match rule.check order ctx with
    | .error e => .error e
    | .ok r => match runChecks order ctx rules with
      | .error e => .error e
      | .ok rs => .ok (r :: rs)

omit [PyFloat F] in
/-- `ValidationResult.ok`. -/
def allPassed (checks : List (RuleCheckResult F)) : Bool := checks.all RuleCheckResult.passed

omit [PyFloat F] in
/-- `"; ".join(f"\x7bf.rule_name\x7d: \x7bf.reason\x7d" for f in validation.failures)`. -/
def failureReasons (checks : List (RuleCheckResult F)) : String :=
  "; ".intercalate
    ((checks.filter fun c => !c.passed).map fun c => c.ruleName ++ ": " ++ c.reason)

omit [PyFloat F] in
/-- One key of a `dict` display: a repeated key keeps its place and takes the new value. -/
def setKey (fields : List (String × PyValue F)) (kv : String × PyValue F) :
    List (String × PyValue F) :=
  if fields.any fun f => f.1 == kv.1 then
    fields.map fun f => if f.1 == kv.1 then kv else f
  else fields ++ [kv]

/-- The payload of a risk rule's audit row. -/
def auditPayload (order : ProposedOrder F) (check : RuleCheckResult F) : PyValue F :=
  record (check.inputs.foldl setKey
    [("reason", .str check.reason), ("order_symbol", .str order.symbol),
      ("order_quantity", .int order.quantity)])

/-- The rows that `_audit` adds. -/
def auditRows (sha256 : PyValue F → String) (order : ProposedOrder F)
    (checks : List (RuleCheckResult F)) : List (RuleEvaluationRow F) :=
  checks.mapIdx fun idx check => {
    eventId := order.eventId
    ruleId := "risk." ++ check.ruleName
    rulePriority := idx
    inputsHash := sha256 (auditPayload order check)
    inputsJson := auditPayload order check
    outcome := (if check.passed then RuleOutcome.matched else RuleOutcome.failed).value
    proposedOrderJson := none }

/-- `validate` accepts exactly when every rule holds. -/
theorem runChecks_accepts_iff (order : ProposedOrder F) (ctx : ValidationContext F)
    (rules : List (RiskRule F)) :
    (∃ checks, runChecks order ctx rules = .ok checks ∧ allPassed checks = true) ↔
      ∀ rule ∈ rules, rule.Holds order ctx := by
  induction rules with
  | nil => simp [runChecks, allPassed]
  | cons rule rules ih =>
    rw [List.forall_mem_cons, ← ih]
    cases hr : rule.check order ctx with
    | error e => simp [runChecks, RiskRule.Holds, hr]
    | ok r =>
      cases hs : runChecks order ctx rules with
      | error e => simp [runChecks, hr, hs]
      | ok rs => simp [runChecks, RiskRule.Holds, allPassed, hr, hs]

omit [PyFloat F] in
theorem setKey_storable {fields : List (String × PyValue F)} {kv : String × PyValue F}
    (h : ∀ f ∈ fields, f.2.storable = true) (hkv : kv.2.storable = true) :
    ∀ f ∈ setKey fields kv, f.2.storable = true := by
  intro f hf
  unfold setKey at hf
  split_ifs at hf
  · obtain ⟨g, hg, rfl⟩ := List.mem_map.mp hf
    split_ifs
    · exact hkv
    · exact h g hg
  · rcases List.mem_append.mp hf with hf | hf
    · exact h f hf
    · exact List.mem_singleton.mp hf ▸ hkv

/-- The audit row of a check can be written when the inputs of the check can. -/
theorem auditPayload_storable (order : ProposedOrder F) {check : RuleCheckResult F}
    (h : ∀ f ∈ check.inputs, f.2.storable = true) :
    (auditPayload order check).storable = true := by
  have hfold : ∀ inputs fields : List (String × PyValue F),
      (∀ f ∈ inputs, f.2.storable = true) → (∀ f ∈ fields, f.2.storable = true) →
      ∀ f ∈ inputs.foldl setKey fields, f.2.storable = true := by
    intro inputs
    induction inputs with
    | nil => exact fun fields _ hfields => hfields
    | cons kv inputs ih =>
      intro fields hinputs hfields
      exact ih (setKey fields kv) (fun f hf => hinputs f (List.mem_cons_of_mem _ hf))
        (setKey_storable hfields (hinputs kv List.mem_cons_self))
  rw [auditPayload, PyValue.storable_record, List.all_eq_true]
  exact hfold check.inputs _ h (by simp [PyValue.storable])

/-- One check for each rule, each what its rule returned. -/
theorem runChecks_ok {order : ProposedOrder F} {ctx : ValidationContext F}
    {rules : List (RiskRule F)} {checks : List (RuleCheckResult F)}
    (h : runChecks order ctx rules = .ok checks) : checks.length = rules.length ∧
      ∀ r ∈ checks, ∃ rule ∈ rules, rule.check order ctx = .ok r := by
  induction rules generalizing checks with
  | nil =>
    obtain rfl := Except.ok.inj h
    exact ⟨rfl, fun _ hr => absurd hr List.not_mem_nil⟩
  | cons rule rules ih =>
    simp only [runChecks] at h
    split at h
    · exact absurd h (by simp)
    next r hr =>
      split at h
      · exact absurd h (by simp)
      next rs hrs =>
        obtain rfl := Except.ok.inj h
        obtain ⟨hlen, hmem⟩ := ih hrs
        refine ⟨congrArg (· + 1) hlen, fun r' hr' => ?_⟩
        rcases List.mem_cons.mp hr' with rfl | hr'
        · exact ⟨rule, List.mem_cons_self, hr⟩
        · obtain ⟨rule', hrule', hcheck⟩ := hmem r' hr'
          exact ⟨rule', List.mem_cons_of_mem _ hrule', hcheck⟩

end XSocialTrader
