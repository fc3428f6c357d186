import XSocialTrader.Core.FloatValues
import XSocialTrader.Rules.Engine

/-! What an evaluation returns, rule by rule, and when it returns at all. Inside the engine
only `OverflowError` passes the handler that turns a raising condition into a failed rule. -/
namespace XSocialTrader

variable {F : Type} [PyFloat F] {event : Event F} {rule : RuleSpec F}

section Scan

def ConditionOp.isComparison : ConditionOp → Bool
  | .gt | .gte | .lt | .lte => true
  | .eq | .neq | .isIn => false

/-- The scan from the left gets to `c`: every condition before it is true. -/
def RuleSpec.Reaches (rule : RuleSpec F) (event : Event F) (c : ConditionSpec F) : Prop :=
  ∃ before after, rule.conditions = before ++ c :: after ∧
    ∀ b ∈ before, checkCondition b event = .ok true

/-- The scan meets a raising condition before a false one. -/
def RuleSpec.Raises (rule : RuleSpec F) (event : Event F) : Prop :=
  ∃ c e, rule.Reaches event c ∧ checkCondition c event = .error e

/-- A comparison with an integer that no `float` holds, of an event field that is a number. -/
def ConditionSpec.Overflows (c : ConditionSpec F) (event : Event F) : Prop :=
  c.op.isComparison = true ∧ (∃ x, (eventField event c.field).toFloat = .ok x) ∧
    ∃ n, c.value = .int n ∧ PyFloat.fits F n = false

/-- The rule is enabled and its scan gets to a comparison that overflows. -/
def RuleSpec.Overflows (rule : RuleSpec F) (event : Event F) : Prop :=
  rule.enabled = true ∧ ∃ c, rule.Reaches event c ∧ c.Overflows event

theorem toFloat_overflow_iff (v : PyValue F) :
    v.toFloat = .error .overflowError ↔ ∃ n, v = .int n ∧ PyFloat.fits F n = false := by
  cases v with
  | int n => simp [PyValue.toFloat, floatOfInt]
  | text s => cases h : floatOfText (F := F) s <;> simp [PyValue.toFloat, h]
  | none | bool b | float x | date s | list items | dict items => simp [PyValue.toFloat]

theorem toFloat_error {v : PyValue F} {e : PyExc} (h : v.toFloat = .error e) :
    e = .typeError ∨ e = .valueError ∨ e = .overflowError := by
  cases v with
  | int n =>
    simp only [PyValue.toFloat, floatOfInt] at h
    split_ifs at h
    exact Or.inr (Or.inr (Except.error.inj h).symm)
  | text s =>
    cases hs : floatOfText (F := F) s with
    | none => simp only [PyValue.toFloat, hs, Except.error.injEq] at h; exact Or.inr (Or.inl h.symm)
    | some x => simp [PyValue.toFloat, hs] at h
  | bool b | float x => cases h
  | none | date s | list items | dict items => exact Or.inl (Except.error.inj h).symm

theorem eventField_toFloat_ne_overflow (event : Event F) (field : ConditionField) :
    (eventField event field).toFloat ≠ .error .overflowError := by
  rw [Ne, toFloat_overflow_iff]
  cases field <;> simp [eventField, PyValue.str]

theorem compareFloats_overflow_iff (rel : F → F → Bool) {actual value : PyValue F}
    (h : actual.toFloat ≠ .error .overflowError) :
    compareFloats rel actual value = .error .overflowError ↔
      (∃ x, actual.toFloat = .ok x) ∧ ∃ n, value = .int n ∧ PyFloat.fits F n = false := by
  rw [← toFloat_overflow_iff]
  unfold compareFloats
  cases ha : actual.toFloat with
  | error e =>
    have hne : e ≠ .overflowError := fun he => h (he ▸ ha)
    simp [hne]
  | ok x => cases hv : value.toFloat <;> simp

/-- A condition overflows exactly where its check raises `OverflowError`. -/
theorem checkCondition_overflow_iff (c : ConditionSpec F) (event : Event F) :
    checkCondition c event = .error .overflowError ↔ c.Overflows event := by
  have hfield := eventField_toFloat_ne_overflow event c.field
  unfold checkCondition ConditionSpec.Overflows
  cases hop : c.op with
  | eq | neq => simp [ConditionOp.isComparison]
  | gt | gte | lt | lte =>
    simpa [ConditionOp.isComparison] using compareFloats_overflow_iff _ hfield
  | isIn => cases hv : c.value <;> simp [ConditionOp.isComparison]

theorem checkCondition_error {c : ConditionSpec F} {e : PyExc}
    (h : checkCondition c event = .error e) :
    e = .typeError ∨ e = .valueError ∨ e = .overflowError := by
  have hcompare (rel : F → F → Bool)
      (h : compareFloats rel (eventField event c.field) c.value = .error e) :
      e = .typeError ∨ e = .valueError ∨ e = .overflowError := by
    unfold compareFloats at h
    split at h
    next e' he' => exact Except.error.inj h ▸ toFloat_error he'
    · split at h
      next e' he' => exact Except.error.inj h ▸ toFloat_error he'
      · cases h
  unfold checkCondition at h
  cases hop : c.op with
  | eq | neq => simp [hop] at h
  | gt | gte | lt | lte => simp only [hop] at h; exact hcompare _ h
  | isIn =>
    simp only [hop] at h
    split at h
    · cases h
    · exact Or.inl (Except.error.inj h).symm

/-- The scan is true exactly if every condition is. -/
theorem checkAll_true_iff (conditions : List (ConditionSpec F)) :
    checkAll event conditions = .ok true ↔ ∀ c ∈ conditions, checkCondition c event = .ok true := by
  induction conditions with
  | nil => simp [checkAll]
  | cons c cs ih =>
    rw [List.forall_mem_cons, ← ih, checkAll]
    cases hc : checkCondition c event with
    | error e => simp
    | ok met => cases met <;> simp

/-- The scan raises what the first condition raises that is not true. -/
theorem checkAll_error_iff (conditions : List (ConditionSpec F)) (e : PyExc) :
    checkAll event conditions = .error e ↔ ∃ before c after, conditions = before ++ c :: after ∧
      (∀ b ∈ before, checkCondition b event = .ok true) ∧ checkCondition c event = .error e := by
  induction conditions with
  | nil => simp [checkAll]
  | cons c cs ih =>
    have hhead : (∃ before c' after, c :: cs = before ++ c' :: after ∧
          (∀ b ∈ before, checkCondition b event = .ok true) ∧
          checkCondition c' event = .error e) ↔
        checkCondition c event = .error e ∨ checkCondition c event = .ok true ∧
          checkAll event cs = .error e := by
      rw [ih]
      constructor
      · rintro ⟨before, c', after, heq, hbefore, hc'⟩
        cases before with
        | nil =>
          obtain ⟨rfl, -⟩ := List.cons.inj heq
          exact Or.inl hc'
        | cons b before =>
          obtain ⟨rfl, hcs⟩ := List.cons.inj heq
          rw [List.forall_mem_cons] at hbefore
          exact Or.inr ⟨hbefore.1, before, c', after, hcs, hbefore.2, hc'⟩
      · rintro (hc | ⟨hc, before, c', after, rfl, hbefore, hc'⟩)
        · exact ⟨[], c, cs, rfl, by simp, hc⟩
        · exact ⟨c :: before, c', after, rfl, List.forall_mem_cons.mpr ⟨hc, hbefore⟩, hc'⟩
    rw [hhead, checkAll]
    cases hc : checkCondition c event with
    | error e' => simp
    | ok met => cases met <;> simp

theorem RuleSpec.matchesEvent_iff (rule : RuleSpec F) (event : Event F) :
    rule.matchesEvent event = true ↔
      rule.enabled = true ∧ ∀ c ∈ rule.conditions, checkCondition c event = .ok true := by
  rw [← checkAll_true_iff, RuleSpec.matchesEvent, Bool.and_eq_true]
  cases checkAll event rule.conditions <;> simp

theorem RuleSpec.raises_iff (rule : RuleSpec F) (event : Event F) :
    rule.Raises event ↔ ∃ e, checkAll event rule.conditions = .error e := by
  simp only [checkAll_error_iff]
  constructor
  · rintro ⟨c, e, ⟨before, after, heq, hbefore⟩, hc⟩
    exact ⟨e, before, c, after, heq, hbefore, hc⟩
  · rintro ⟨e, before, c, after, heq, hbefore, hc⟩
    exact ⟨c, e, ⟨before, after, heq, hbefore⟩, hc⟩

theorem RuleSpec.overflows_iff (rule : RuleSpec F) (event : Event F) :
    rule.Overflows event ↔
      rule.enabled = true ∧ checkAll event rule.conditions = .error .overflowError := by
  rw [checkAll_error_iff]
  apply and_congr_right'
  constructor
  · rintro ⟨c, ⟨before, after, heq, hbefore⟩, hc⟩
    exact ⟨before, c, after, heq, hbefore, (checkCondition_overflow_iff c event).mpr hc⟩
  · rintro ⟨before, c, after, heq, hbefore, hc⟩
    exact ⟨c, ⟨before, after, heq, hbefore⟩, (checkCondition_overflow_iff c event).mp hc⟩

end Scan

section Outcomes

variable {sha256 : PyValue F → String}

/-- A rule has no outcome exactly if it overflows. -/
theorem ruleOutcome_ok_iff (event : Event F) (b : Bool) (rule : RuleSpec F) :
    (∃ outcome, ruleOutcome event b rule = .ok outcome) ↔ ¬ rule.Overflows event := by
  rw [RuleSpec.overflows_iff]
  unfold ruleOutcome
  cases he : rule.enabled
  · simp
  · cases hc : checkAll event rule.conditions with
    | ok met => simp
    | error e =>
      obtain ⟨before, c, after, -, -, hcheck⟩ := (checkAll_error_iff _ _).mp hc
      rcases checkCondition_error hcheck with rfl | rfl | rfl <;> simp

theorem ruleOutcome_failed_iff {b : Bool} {outcome : RuleOutcome}
    (h : ruleOutcome event b rule = .ok outcome) :
    outcome = .failed ↔ rule.enabled = true ∧ rule.Raises event := by
  rw [RuleSpec.raises_iff]
  rcases ruleOutcome_cases h with ⟨he, rfl⟩ | ⟨he, rfl, e, hc⟩ | ⟨-, met, hc, rfl⟩
  · simp [he]
  · simp [he, hc]
  · simp only [hc, reduceCtorEq]
    split_ifs <;> simp

/-- The loop ends exactly if every rule's inputs can be hashed and none overflows. -/
theorem evaluateRules_ok_iff (sha256 : PyValue F → String) (event : Event F)
    (m : Option (RuleEvaluationRecord F)) (rules : List (RuleSpec F)) :
    (∃ out, evaluateRules sha256 event m rules = .ok out) ↔
      ∀ rule ∈ rules, (∃ hash, hashInputs sha256 (ruleInputs rule event) = .ok hash) ∧
        ¬ rule.Overflows event := by
  induction rules generalizing m with
  | nil => simp [evaluateRules]
  | cons rule rules ih =>
    rw [List.forall_mem_cons, ← ruleOutcome_ok_iff event m.isSome rule]
    simp only [evaluateRules]
    cases hh : hashInputs sha256 (ruleInputs rule event) with
    | error e => simp
    | ok hash =>
      cases ho : ruleOutcome event m.isSome rule with
      | error e => simp
      | ok outcome =>
        simp only [Except.ok.injEq, exists_eq', and_self, true_and]
        rw [← ih (if outcome = .matched then some (ruleRecord rule event hash outcome) else m)]
        cases evaluateRules sha256 event
            (if outcome = .matched then some (ruleRecord rule event hash outcome) else m) rules with
        | error e => simp
        | ok out => simp

/-- The first of a sorted list matches first if it matches. -/
theorem firstMatch_head_iff {rules : List (RuleSpec F)} (hs : (rule :: rules).Pairwise ruleLe) :
    FirstMatch (rule :: rules) event rule ↔ rule.matchesEvent event = true := by
  constructor
  · exact fun h => h.2.1
  · intro h
    refine ⟨List.mem_cons_self, h, fun r hr _ => ?_⟩
    rcases List.mem_cons.mp hr with rfl | hr
    · exact (ruleLe_total r r).elim id id
    · exact (List.pairwise_cons.mp hs).1 r hr

/-- A later one matches first if it does so among the rest and the head does not match. -/
theorem firstMatch_tail_iff {rules : List (RuleSpec F)} {r : RuleSpec F}
    (hs : (rule :: rules).Pairwise ruleLe) (hn : ((rule :: rules).map RuleSpec.id).Nodup)
    (hr : r ∈ rules) : FirstMatch (rule :: rules) event r ↔
      rule.matchesEvent event = false ∧ FirstMatch rules event r := by
  constructor
  · rintro ⟨hmem, hmatch, hfirst⟩
    refine ⟨?_, hr, hmatch, fun s hs => hfirst s (List.mem_cons_of_mem _ hs)⟩
    by_contra hhead
    rw [Bool.not_eq_false] at hhead
    have hle : ruleLe rule r := (List.pairwise_cons.mp hs).1 r hr
    have hid := ruleLe_antisymm_id hle (hfirst rule List.mem_cons_self hhead)
    rw [List.map_cons, List.nodup_cons] at hn
    exact hn.1 (hid ▸ List.mem_map_of_mem hr)
  · rintro ⟨hhead, -, hmatch, hfirst⟩
    refine ⟨List.mem_cons_of_mem _ hr, hmatch, fun s hs hmatches => ?_⟩
    rcases List.mem_cons.mp hs with rfl | hs
    · rw [hhead] at hmatches
      cases hmatches
    · exact hfirst s hs hmatches

/-- Every rule of a sorted list has its record: failed if the scan raises, matched if it is the
first match and none was found before. -/
theorem evaluateRules_record {m : Option (RuleEvaluationRecord F)} {rules : List (RuleSpec F)}
    {out : RuleEngineOutcome F} (h : evaluateRules sha256 event m rules = .ok out)
    (hs : rules.Pairwise ruleLe) (hn : (rules.map RuleSpec.id).Nodup) :
    ∀ rule ∈ rules, ∃ hash outcome, hashInputs sha256 (ruleInputs rule event) = .ok hash ∧
      ruleRecord rule event hash outcome ∈ out.evaluations ∧
      (outcome = .failed ↔ rule.enabled = true ∧ rule.Raises event) ∧
      (outcome = .matched ↔ m = none ∧ FirstMatch rules event rule) := by
  induction rules generalizing m out with
  | nil => exact fun rule hrule => absurd hrule List.not_mem_nil
  | cons rule rules ih =>
    have htail := (List.pairwise_cons.mp hs).2
    have hntail : (rules.map RuleSpec.id).Nodup := (List.nodup_cons.mp hn).2
    obtain ⟨hash, outcome, rest, hhash, ho, hrest, rfl⟩ := evaluateRules_cons h
    have hmatched := ruleOutcome_matched_iff ho
    rw [Option.isSome_eq_false_iff, Option.isNone_iff_eq_none] at hmatched
    rw [List.forall_mem_cons]
    constructor
    · refine ⟨hash, outcome, hhash, List.mem_cons_self, ruleOutcome_failed_iff ho, ?_⟩
      rw [hmatched, firstMatch_head_iff hs]
    · intro r hr
      obtain ⟨hash', outcome', hhash', hmem, hfailed, hfirst⟩ := ih hrest htail hntail r hr
      refine ⟨hash', outcome', hhash', List.mem_cons_of_mem _ hmem, hfailed, ?_⟩
      -- the flag that the rest of the loop runs with is `none` iff the head has not matched
      rw [hfirst, firstMatch_tail_iff hs hn hr]
      by_cases hm : outcome = .matched
      · simp [hm, (hmatched.mp hm).2]
      · rw [if_neg hm]
        constructor
        · rintro ⟨rfl, hlater⟩
          exact ⟨rfl, by simpa [hm] using hmatched, hlater⟩
        · exact fun ⟨hnone, _, hlater⟩ => ⟨hnone, hlater⟩

/-- Distinct ids leave one sorted order. -/
theorem insertionSort_eq_of_perm {rules rules' : List (RuleSpec F)} (h : rules'.Perm rules)
    (hn : (rules.map RuleSpec.id).Nodup) :
    rules'.insertionSort ruleLe = rules.insertionSort ruleLe := by
  have hperm := List.perm_insertionSort ruleLe rules
  have hperm' := (List.perm_insertionSort ruleLe rules').trans h
  apply (hperm'.trans hperm.symm).eq_of_pairwise
  · intro r s hr hs hle hle'
    exact List.inj_on_of_nodup_map hn (hperm'.mem_iff.mp hr) (hperm.mem_iff.mp hs)
      (ruleLe_antisymm_id hle hle')
  · exact List.pairwise_insertionSort ruleLe rules'
  · exact List.pairwise_insertionSort ruleLe rules

theorem firstMatch_congr {rules rules' : List (RuleSpec F)} (h : ∀ r, r ∈ rules ↔ r ∈ rules') :
    FirstMatch rules event rule ↔ FirstMatch rules' event rule := by
  simp only [FirstMatch, h]

end Outcomes

section Determined

variable {sha256 : PyValue F → String}

/-- The result of `evaluate`, whatever order the rules come in. A record that is neither failed
nor matched is skipped. -/
structure Determined (sha256 : PyValue F → String) (rules : List (RuleSpec F)) (event : Event F)
    (out : RuleEngineOutcome F) : Prop where
  any_order : ∀ rules' : List (RuleSpec F), rules'.Perm rules →
    evaluate sha256 rules' event = .ok out
  one_each : (out.evaluations.map RuleEvaluationRecord.ruleId).Perm (rules.map RuleSpec.id)
  ordered : out.evaluations.Pairwise fun a b => b.rulePriority < a.rulePriority ∨
    a.rulePriority = b.rulePriority ∧ a.ruleId < b.ruleId
  outcomes : ∀ rule ∈ rules, ∃ hash outcome,
    hashInputs sha256 (ruleInputs rule event) = .ok hash ∧
    ruleRecord rule event hash outcome ∈ out.evaluations ∧
    (rule.enabled = false → outcome = .skipped) ∧
    (rule.enabled = true → (outcome = .failed ↔ rule.Raises event)) ∧
    (outcome = .matched ↔ FirstMatch rules event rule)
  matched : ∀ m, out.matched = some m ↔ m ∈ out.evaluations ∧ m.outcome = .matched
  order : ∀ m, out.matched = some m → ∃ rule, FirstMatch rules event rule ∧
    m.ruleId = rule.id ∧ m.proposedOrder = some (buildProposedOrder rule event)

theorem ordered_of_map {records : List (RuleEvaluationRecord F)} {rules : List (RuleSpec F)}
    (h : (records.map fun r => (r.rulePriority, r.ruleId)) =
      rules.map fun r => (r.priority, r.id))
    (hs : rules.Pairwise ruleLe) (hn : (rules.map RuleSpec.id).Nodup) :
    records.Pairwise fun a b => b.rulePriority < a.rulePriority ∨
      a.rulePriority = b.rulePriority ∧ a.ruleId < b.ruleId := by
  let before (a b : ℤ × String) : Prop := b.1 < a.1 ∨ a.1 = b.1 ∧ a.2 < b.2
  have hstrict : rules.Pairwise fun r s => before (r.priority, r.id) (s.priority, s.id) := by
    apply (hs.and (List.pairwise_map.mp hn)).imp
    rintro r s ⟨hlt | ⟨heq, hle⟩, hne⟩
    · exact Or.inl hlt
    · exact Or.inr ⟨heq, lt_of_le_of_ne hle hne⟩
  have hmap := List.pairwise_map (R := before).mpr hstrict
  rw [← h] at hmap
  exact List.pairwise_map.mp hmap

/-- The records of a sorted list of rules and the record that counts as matched. -/
theorem evaluateRules_matched_iff {rules : List (RuleSpec F)} {out : RuleEngineOutcome F}
    (h : evaluateRules sha256 event none rules = .ok out) (hs : rules.Pairwise ruleLe)
    (hn : (rules.map RuleSpec.id).Nodup) (m : RuleEvaluationRecord F) :
    (out.matched = some m ↔ m ∈ out.evaluations ∧ m.outcome = .matched) ∧
      (out.matched = some m → ∃ rule, FirstMatch rules event rule ∧ m.ruleId = rule.id ∧
        m.proposedOrder = some (buildProposedOrder rule event)) := by
  have hids := evaluateRules_ruleIds h
  have hfind := evaluateRules_matched_eq h
  rw [Option.none_or] at hfind
  -- a matched record is that of the rule with its id, which is then the first match
  have hrule : ∀ r ∈ out.evaluations, r.outcome = .matched → ∃ rule hash,
      FirstMatch rules event rule ∧ r = ruleRecord rule event hash .matched := by
    intro r hr hout
    obtain ⟨rule, hrule, hid⟩ := List.mem_map.mp (hids ▸ List.mem_map_of_mem hr)
    obtain ⟨hash, outcome, -, hmem, -, hmatched⟩ := evaluateRules_record h hs hn rule hrule
    have heq : ruleRecord rule event hash outcome = r :=
      List.inj_on_of_nodup_map (hids ▸ hn) hmem hr hid
    have houtcome : outcome = .matched := (congrArg RuleEvaluationRecord.outcome heq).trans hout
    exact ⟨rule, hash, (hmatched.mp houtcome).2, houtcome ▸ heq.symm⟩
  have hforward : out.matched = some m → m ∈ out.evaluations ∧ m.outcome = .matched := by
    intro hm
    rw [hfind] at hm
    exact ⟨List.mem_of_find?_eq_some hm, by simpa using List.find?_some hm⟩
  refine ⟨⟨hforward, ?_⟩, ?_⟩
  · rintro ⟨hmem, hout⟩
    rw [hfind]
    cases hf : out.evaluations.find? fun record => record.outcome == .matched with
    | none => exact absurd hout (by simpa using List.find?_eq_none.mp hf m hmem)
    | some found =>
      have hfound := List.mem_of_find?_eq_some hf
      obtain ⟨r, _, hr, hmr⟩ := hrule m hmem hout
      obtain ⟨s, _, hs', hfs⟩ := hrule found hfound (by simpa using List.find?_some hf)
      obtain rfl := hr.unique hn hs'
      exact congrArg some (List.inj_on_of_nodup_map (hids ▸ hn) hfound hmem (by rw [hmr, hfs]; rfl))
  · intro hm
    obtain ⟨hmem, hout⟩ := hforward hm
    obtain ⟨rule, hash, hfirst, heq⟩ := hrule m hmem hout
    exact ⟨rule, hfirst, by rw [heq]; rfl, by rw [heq]; rfl⟩

/-- On rules with distinct ids and inputs that can be hashed the result is determined exactly if
no enabled rule's scan gets to a comparison with an integer that no `float` holds. -/
theorem evaluate_determined_iff (sha256 : PyValue F → String) (rules : List (RuleSpec F))
    (event : Event F) (hn : (rules.map RuleSpec.id).Nodup)
    (hhash : ∀ rule ∈ rules, ∃ hash, hashInputs sha256 (ruleInputs rule event) = .ok hash) :
    (∃ out, Determined sha256 rules event out) ↔ ∀ rule ∈ rules, ¬ rule.Overflows event := by
  have hperm := List.perm_insertionSort ruleLe rules
  have hs := List.pairwise_insertionSort ruleLe rules
  have hn' : ((rules.insertionSort ruleLe).map RuleSpec.id).Nodup :=
    (hperm.map RuleSpec.id).nodup_iff.mpr hn
  have hok := evaluateRules_ok_iff sha256 event none (rules.insertionSort ruleLe)
  constructor
  · rintro ⟨out, hout⟩ rule hrule
    exact (hok.mp ⟨out, hout.any_order rules (List.Perm.refl rules)⟩ rule
      (hperm.mem_iff.mpr hrule)).2
  · intro hno
    obtain ⟨out, h⟩ := hok.mpr fun rule hrule =>
      ⟨hhash rule (hperm.mem_iff.mp hrule), hno rule (hperm.mem_iff.mp hrule)⟩
    have hmatched := evaluateRules_matched_iff h hs hn'
    refine ⟨out, ?_, ?_, ?_, ?_, fun m => (hmatched m).1, fun m hm => ?_⟩
    · intro rules' hrules'
      rw [evaluate, insertionSort_eq_of_perm hrules' hn, h]
    · rw [evaluateRules_ruleIds h]
      exact hperm.map RuleSpec.id
    · exact ordered_of_map (evaluateRules_map (fun _ _ _ => rfl) h) hs hn'
    · intro rule hrule
      obtain ⟨hash, outcome, hh, hmem, hfailed, hfirst⟩ :=
        evaluateRules_record h hs hn' rule (hperm.mem_iff.mpr hrule)
      rw [firstMatch_congr fun r => hperm.mem_iff] at hfirst
      refine ⟨hash, outcome, hh, hmem, fun hoff => ?_, fun hon => ?_, ?_⟩
      · cases outcome with
        | skipped => rfl
        | failed => simp [(hfailed.mp rfl).1] at hoff
        | matched =>
          have hon := ((rule.matchesEvent_iff event).mp (hfirst.mp rfl).2.2.1).1
          simp [hon] at hoff
      · rw [hfailed]
        simp [hon]
      · rw [hfirst]
        simp
    · obtain ⟨rule, hfirst, hid, horder⟩ := (hmatched m).2 hm
      exact ⟨rule, (firstMatch_congr fun r => hperm.mem_iff).mp hfirst, hid, horder⟩

/-- A rule whose only condition compares the confidence with a value. -/
def thresholdRule (value : PyValue (Extended ℚ)) : RuleSpec (Extended ℚ) where
  id := "threshold"
  priority := 1
  conditions := [⟨.confidence, .gt, value⟩]
  action := {
    side := .buy
    orderType := .market
    quantity := 20
    referencePriceUsd := .fin 15
    strategyId := "confident"
    quantity_pos := by decide
    reference_pos := by decide +kernel
    strategyId_length := by decide }
  id_length := by decide
  conditions_nonempty := by simp

/-- A bullish event with nine tenths of confidence. -/
def bullishEvent : Event (Extended ℚ) :=
  ⟨"t1:AAPL", 1, 1, "AAPL", "bullish", .fin (9 / 10), "swing"⟩

/-- A threshold of one half is compared, and the rule matches. -/
theorem evaluate_determined_half :
    ∃ out, Determined (fun _ => "0") [thresholdRule (.float (.fin (1 / 2)))] bullishEvent out := by
  let half := thresholdRule (.float (.fin (1 / 2)))
  have hhash : ∀ rule ∈ [half], ∃ hash,
      hashInputs (fun _ => "0") (ruleInputs rule bullishEvent) = .ok hash := by
    intro rule hrule
    rw [List.mem_singleton.mp hrule]
    exact ⟨"0", by decide +kernel⟩
  apply (evaluate_determined_iff _ [half] _ (List.nodup_singleton _) hhash).mpr
  intro rule hrule
  rw [List.mem_singleton.mp hrule, RuleSpec.overflows_iff]
  decide +kernel

/-- `float(10 ** 400)` raises `OverflowError`, and `evaluate` with it. -/
theorem evaluate_not_determined : ¬ ∀ (sha256 : PyValue (Extended ℚ) → String)
    (rules : List (RuleSpec (Extended ℚ))) (event : Event (Extended ℚ)),
      (rules.map RuleSpec.id).Nodup →
      (∀ rule ∈ rules, ∃ hash, hashInputs sha256 (ruleInputs rule event) = .ok hash) →
      ∃ out, Determined sha256 rules event out := by
  intro h
  obtain ⟨out, hout⟩ := h (fun _ => "0") [thresholdRule (.int (10 ^ 400))] bullishEvent
    (List.nodup_singleton _) (by
      intro rule hrule
      rw [List.mem_singleton.mp hrule]
      exact ⟨"0", by decide +kernel⟩)
  have hraise : evaluate (fun _ => "0") [thresholdRule (.int (10 ^ 400))] bullishEvent =
      .error .overflowError := by
    rw [evaluate, List.insertionSort_cons, List.insertionSort_nil, List.orderedInsert_nil,
      evaluateRules]
    have hhash : hashInputs (fun _ => "0")
        (ruleInputs (thresholdRule (.int (10 ^ 400))) bullishEvent) = .ok "0" := by
      decide +kernel
    have houtcome : ruleOutcome bullishEvent false (thresholdRule (.int (10 ^ 400))) =
        .error .overflowError := by
      decide +kernel
    rw [hhash]
    simp only [Option.isSome_none, houtcome]
  rw [hout.any_order _ (List.Perm.refl _)] at hraise
  cases hraise

end Determined

end XSocialTrader
