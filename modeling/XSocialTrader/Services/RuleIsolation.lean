import XSocialTrader.Rules.Evaluation
import XSocialTrader.Services.RulePipeline

/-! Which rule sets the engine and the journal get through. The hash, the journal's JSON column
and its integer column each refuse values that the schema of a rule admits, and none of them
is inside the handler for a failing rule. -/
namespace XSocialTrader

variable {F : Type}

namespace PyValue

mutual

/-- A value that JSON has: no date, no integer beyond 4300 digits, and mappings whose keys JSON
can write and `sorted` can compare. -/
def plain : PyValue F → Bool
  | .date _ => false
  | .int n => intDigitsFit n
  | .list items => plainList items
  | .dict items => keysSortable (items.map Prod.fst) && plainItems items
  | _ => true

def plainList : List (PyValue F) → Bool
  | [] => true
  | v :: vs => plain v && plainList vs

def plainItems : List (PyValue F × PyValue F) → Bool
  | [] => true
  | (k, v) :: items => isJsonKey k && digitsFit k && plain v && plainItems items

end

mutual

/-- Plain values are those that pass the hash and the JSON column. -/
theorem plain_eq (v : PyValue F) : v.plain = (v.dumpable && v.storable && v.digitsFit) := by
  cases v with
  | none | bool b | float x | text s => rfl
  | int n => simp [plain, dumpable, storable, digitsFit]
  | date s => simp [plain, storable]
  | list items =>
    simpa only [plain, dumpable, storable, digitsFit] using plainList_eq items
  | dict items =>
    rw [plain, dumpable, storable, digitsFit, plainItems_eq items]
    simp only [Bool.and_assoc]

theorem plainList_eq (items : List (PyValue F)) :
    plainList items = (dumpableList items && storableList items && digitsFitList items) := by
  cases items with
  | nil => simp [plainList, dumpableList, storableList, digitsFitList]
  | cons v vs =>
    rw [plainList, dumpableList, storableList, digitsFitList, plain_eq v, plainList_eq vs]
    grind

theorem plainItems_eq (items : List (PyValue F × PyValue F)) :
    plainItems items = (dumpableItems items && storableItems items && digitsFitItems items) := by
  cases items with
  | nil => simp [plainItems, dumpableItems, storableItems, digitsFitItems]
  | cons item items =>
    obtain ⟨k, v⟩ := item
    rw [plainItems, dumpableItems, storableItems, digitsFitItems, plain_eq v,
      plainItems_eq items]
    grind

end

end PyValue

variable [PyFloat F] {event : Event F}

section Inputs

/-- What holds of a list or a dictionary literal if it holds of its items holds of a rule's
inputs if it holds of its condition values. -/
theorem ruleInputs_all {p : PyValue F → Bool} (hlist : ∀ items, p (.list items) = items.all p)
    (hrecord : ∀ fields, p (record fields) = fields.all fun f => p f.2)
    (hstr : ∀ s, p (.str s) = true) (hfloat : ∀ x, p (.float x) = true)
    (hbool : ∀ b, p (.bool b) = true) (rule : RuleSpec F) (event : Event F) :
    p (ruleInputs rule event) = rule.conditions.all fun c => p c.value := by
  have hdump : ∀ c : ConditionSpec F, p c.dump = p c.value := by
    intro c
    simp [ConditionSpec.dump, hrecord, hstr]
  simp [ruleInputs, hrecord, hstr, hfloat, hbool, hlist, Function.comp_def, hdump]

/-- The inputs of a rule pass the hash and the JSON column exactly if its values are plain. -/
theorem ruleInputs_plain_iff (sha256 : PyValue F → String) (rule : RuleSpec F)
    (event : Event F) :
    ((∃ hash, hashInputs sha256 (ruleInputs rule event) = .ok hash) ∧
      (ruleInputs rule event).storable = true) ↔ ∀ c ∈ rule.conditions, c.value.plain = true := by
  have hdumpable := ruleInputs_all (p := PyValue.dumpable) PyValue.dumpable_list
    PyValue.dumpable_record (fun _ => rfl) (fun _ => rfl) (fun _ => rfl) rule event
  have hstorable := ruleInputs_all (p := PyValue.storable) PyValue.storable_list
    PyValue.storable_record (fun _ => rfl) (fun _ => rfl) (fun _ => rfl) rule event
  have hdigits := ruleInputs_all (p := PyValue.digitsFit) PyValue.digitsFit_list
    PyValue.digitsFit_record (fun _ => rfl) (fun _ => rfl) (fun _ => rfl) rule event
  rw [hashInputs_ok_iff, hdumpable, hstorable, hdigits]
  simp only [List.all_eq_true, PyValue.plain_eq, Bool.and_eq_true]
  constructor
  · rintro ⟨⟨hd, hi⟩, hs⟩ c hc
    exact ⟨⟨hd c hc, hs c hc⟩, hi c hc⟩
  · intro h
    exact ⟨⟨fun c hc => (h c hc).1.1, fun c hc => (h c hc).2⟩, fun c hc => (h c hc).1.2⟩

end Inputs

section Isolated

variable {sha256 : PyValue F → String}

/-- Leaving out rules that do not match leaves out their records and nothing else. -/
theorem evaluateRules_filter (keep : String → Bool) {m : Option (RuleEvaluationRecord F)}
    {rules : List (RuleSpec F)} {out : RuleEngineOutcome F}
    (h : evaluateRules sha256 event m rules = .ok out)
    (hdrop : ∀ r ∈ rules, keep r.id = false → r.matchesEvent event = false) :
    evaluateRules sha256 event m (rules.filter fun r => keep r.id) =
      .ok ⟨out.matched, out.evaluations.filter fun r => keep r.ruleId⟩ := by
  induction rules generalizing m out with
  | nil =>
    obtain rfl := Except.ok.inj h
    rfl
  | cons rule rules ih =>
    rw [List.forall_mem_cons] at hdrop
    obtain ⟨hash, outcome, rest, hhash, ho, hrest, rfl⟩ := evaluateRules_cons h
    have hkept := ih hrest hdrop.2
    have hid : (ruleRecord rule event hash outcome).ruleId = rule.id := rfl
    cases hkeep : keep rule.id with
    | true => simp [evaluateRules, hkeep, hhash, ho, hkept, hid]
    | false =>
      have hm : outcome ≠ .matched := fun hm => by
        have hmatch := ((ruleOutcome_matched_iff ho).mp hm).2
        rw [hdrop.1 hkeep] at hmatch
        cases hmatch
      rw [if_neg hm] at hkept
      simp [hkeep, hkept, hid]

/-- A rule whose conditions cannot be evaluated gets its failed record, no other record depends
on it, and the records can be written. -/
structure Isolated (sha256 : PyValue F → String) (l : LoadedRules F) (event : Event F)
    (out : RuleEngineOutcome F) : Prop where
  returns : evaluate sha256 l.rules event = .ok out
  one_each : out.evaluations.map RuleEvaluationRecord.ruleId = l.rules.map RuleSpec.id
  failed : ∀ rule ∈ l.rules, rule.enabled = true → rule.Raises event →
    (∃ record ∈ out.evaluations, record.ruleId = rule.id ∧ record.outcome = .failed) ∧
    evaluate sha256 (l.rules.filter fun r => r.id != rule.id) event =
      .ok ⟨out.matched, out.evaluations.filter fun r => r.ruleId != rule.id⟩
  storable : ∀ record ∈ out.evaluations,
    record.inputs.storable = true ∧ record.inputs.digitsFit = true
  flushed : flushEvaluations (evaluationRows event.eventId out) = .ok ()

/-- The journal takes the records of an evaluation if it takes each rule's inputs and priority. -/
theorem flush_evaluated_iff {rules : List (RuleSpec F)} {out : RuleEngineOutcome F}
    (h : evaluateRules sha256 event none rules = .ok out) :
    flushEvaluations (evaluationRows event.eventId out) = .ok () ↔
      ∀ rule ∈ rules, (ruleInputs rule event).storable = true ∧
        -2 ^ 63 ≤ rule.priority ∧ rule.priority < 2 ^ 63 := by
  have hmap : out.evaluations.map (fun r => (r.inputs, r.rulePriority)) =
      rules.map fun r => (ruleInputs r event, r.priority) := evaluateRules_map (fun _ _ _ => rfl) h
  have hrows (q : PyValue F × ℤ → Prop) :
      (∀ r ∈ out.evaluations, q (r.inputs, r.rulePriority)) ↔
        ∀ rule ∈ rules, q (ruleInputs rule event, rule.priority) := by
    have hcongr : (∀ v ∈ out.evaluations.map fun r => (r.inputs, r.rulePriority), q v) ↔
        ∀ v ∈ rules.map fun r => (ruleInputs r event, r.priority), q v := by
      rw [hmap]
    rwa [List.forall_mem_map, List.forall_mem_map] at hcongr
  rw [flushEvaluations_ok_iff, evaluationRows, List.forall_mem_map]
  exact hrows fun v => v.1.storable = true ∧ -2 ^ 63 ≤ v.2 ∧ v.2 < 2 ^ 63

/-- Without a rule that raises, the evaluation of the others stays as it is. -/
theorem evaluate_without_raising {l : LoadedRules F} {out : RuleEngineOutcome F}
    (h : evaluateRules sha256 event none l.rules = .ok out) {rule : RuleSpec F}
    (hrule : rule ∈ l.rules) (hon : rule.enabled = true) (hraise : rule.Raises event) :
    evaluate sha256 (l.rules.filter fun r => r.id != rule.id) event =
      .ok ⟨out.matched, out.evaluations.filter fun r => r.ruleId != rule.id⟩ := by
  have hsorted : (l.rules.filter fun r => r.id != rule.id).insertionSort ruleLe =
      l.rules.filter fun r => r.id != rule.id :=
    (l.sorted.filter _).insertionSort_eq
  rw [evaluate, hsorted]
  apply evaluateRules_filter (fun id => id != rule.id) h
  intro r hr hid
  have hsame : r = rule := List.inj_on_of_nodup_map l.ids_nodup hr hrule (by simpa using hid)
  obtain ⟨e, he⟩ := (rule.raises_iff event).mp hraise
  rw [hsame, RuleSpec.matchesEvent, he, hon]
  rfl

/-- A bad rule stays on its own exactly if what the schema leaves open is tame: every condition
value is plain, no enabled rule's scan gets to a comparison that overflows, and the priorities
have 64 bits. -/
theorem evaluate_isolated_iff (sha256 : PyValue F → String) (l : LoadedRules F)
    (event : Event F) : (∃ out, Isolated sha256 l event out) ↔
      ∀ rule ∈ l.rules, (∀ c ∈ rule.conditions, c.value.plain = true) ∧
        ¬ rule.Overflows event ∧ -2 ^ 63 ≤ rule.priority ∧ rule.priority < 2 ^ 63 := by
  have hok := evaluateRules_ok_iff sha256 event none l.rules
  constructor
  · rintro ⟨out, hout⟩ rule hrule
    have h := hout.returns
    rw [evaluate, l.insertionSort_eq] at h
    obtain ⟨hhash, hover⟩ := hok.mp ⟨out, h⟩ rule hrule
    obtain ⟨hstore, hpriority⟩ := (flush_evaluated_iff h).mp hout.flushed rule hrule
    exact ⟨(ruleInputs_plain_iff sha256 rule event).mp ⟨hhash, hstore⟩, hover, hpriority⟩
  · intro hall
    have hplain := fun rule hrule =>
      (ruleInputs_plain_iff sha256 rule event).mpr (hall rule hrule).1
    obtain ⟨out, h⟩ := hok.mpr fun rule hrule => ⟨(hplain rule hrule).1, (hall rule hrule).2.1⟩
    have hreturns : evaluate sha256 l.rules event = .ok out := by
      rw [evaluate, l.insertionSort_eq, h]
    have hflushed := (flush_evaluated_iff h).mpr fun rule hrule =>
      ⟨(hplain rule hrule).2, (hall rule hrule).2.2⟩
    refine ⟨out, hreturns, evaluateRules_ruleIds h, fun rule hrule hon hraise => ⟨?_, ?_⟩, ?_,
      hflushed⟩
    · obtain ⟨hash, outcome, -, hmem, hfailed, -⟩ :=
        evaluateRules_record h l.sorted l.ids_nodup rule hrule
      exact ⟨_, hmem, rfl, hfailed.mpr ⟨hon, hraise⟩⟩
    · exact evaluate_without_raising h hrule hon hraise
    · intro record hrecord
      have hinputs := List.mem_map_of_mem (f := RuleEvaluationRecord.inputs) hrecord
      rw [evaluateRules_inputs h] at hinputs
      obtain ⟨rule, hrule, heq⟩ := List.mem_map.mp hinputs
      obtain ⟨hhash, hstore⟩ := hplain rule hrule
      rw [← heq]
      exact ⟨hstore, ((hashInputs_ok_iff sha256 _).mp hhash).2⟩

/-- A mapping with a number and a text as keys: `sorted` raises before any condition is
looked at. -/
theorem evaluate_not_isolated : ¬ ∀ (sha256 : PyValue (Extended ℚ) → String)
    (l : LoadedRules (Extended ℚ)) (event : Event (Extended ℚ)),
      ∃ out, Isolated sha256 l event out := by
  intro h
  let mixed : PyValue (Extended ℚ) := .dict [(.int 1, .str "a"), (.str "b", .none)]
  let l : LoadedRules (Extended ℚ) := {
    rules := [thresholdRule mixed]
    ids_nodup := List.nodup_singleton _
    sorted := List.pairwise_singleton _ _ }
  obtain ⟨out, hout⟩ := h (fun _ => "0") l bullishEvent
  have hhash : hashInputs (fun _ => "0") (ruleInputs (thresholdRule mixed) bullishEvent) =
      .error .typeError := by
    decide +kernel
  have hraise : evaluate (fun _ => "0") l.rules bullishEvent = .error .typeError := by
    rw [evaluate, l.insertionSort_eq, evaluateRules, hhash]
  rw [hout.returns] at hraise
  cases hraise

end Isolated

end XSocialTrader
