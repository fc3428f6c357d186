import XSocialTrader.Rules.Models
import Mathlib.Data.List.Forall2

/-! `load_rules_from_dir`: the files of a directory, one by one, each read, parsed and validated.
Two exceptions of these stages are turned into `RuleLoadError`; any other one leaves the loader as
it is. -/
namespace XSocialTrader

/-- An exception on its way through the loader, with its text where the loader repeats it. -/
inductive RuleExc (ε : Type) where
  | ruleLoadError (message : String)
  | yamlError (text : String)
  | validationError (text : String)
  | other (e : ε)
  deriving DecidableEq

/-- The top-level node of a YAML document. -/
inductive YamlNode (δ : Type) where
  | mapping (data : δ)
  | other

/-- An entry of the directory, with what opening, decoding and `yaml.safe_load` give this time. -/
structure RuleFile (ε δ : Type) where
  name : String
  read : Except (RuleExc ε) (YamlNode δ)

variable {F ε δ : Type} [PyFloat F]

/-- PyYAML on the bytes of a file and pydantic on a mapping. -/
structure RuleRuntime (F ε δ : Type) [PyFloat F] where
  safeLoad : List UInt8 → Except (RuleExc ε) (YamlNode δ)
  modelValidate : δ → Except (RuleExc ε) (RuleSpec F)

namespace RuleFile

/-- `p.suffix in {".yaml", ".yml"}`; a name that is only a suffix has none. -/
def isYaml (f : RuleFile ε δ) : Bool :=
  (f.name.endsWith ".yaml" && decide (5 < f.name.length)) ||
    (f.name.endsWith ".yml" && decide (4 < f.name.length))

/-- `path.name.startswith("_")`. -/
def isDraft (f : RuleFile ε δ) : Bool := f.name.startsWith "_"

/-- The path as the messages spell it. -/
def path (directory : String) (f : RuleFile ε δ) : String := directory ++ "/" ++ f.name

end RuleFile

variable (validate : δ → Except (RuleExc ε) (RuleSpec F)) (directory : String)

/-- `_parse_one`. -/
def parseOne (f : RuleFile ε δ) : Except (RuleExc ε) (RuleSpec F) :=
  match f.read with
  | .error (.yamlError text) =>
    .error (.ruleLoadError ("YAML parse error in " ++ f.path directory ++ ": " ++ text))
  | .error e => .error e
  | .ok .other =>
    .error (.ruleLoadError (f.path directory ++ ": top-level YAML node must be a mapping"))
  | .ok (.mapping data) => match validate data with
    | .error (.validationError text) =>
      .error (.ruleLoadError (f.path directory ++ ": schema validation failed: " ++ text))
    | .error e => .error e
    | .ok rule => .ok rule

def duplicateMessage (rule : RuleSpec F) (f : RuleFile ε δ) : String :=
  "duplicate rule id '" ++ rule.id ++ "' (in " ++ f.path directory ++ ")"

/-- The loop of `load_rules_from_dir` over the sorted paths. -/
def collectRules : List (RuleFile ε δ) → List (RuleSpec F) →
    Except (RuleExc ε) (List (RuleSpec F))
  | [], rules => .ok rules
  | f :: files, rules =>
    if f.isDraft then collectRules files rules
    else match parseOne validate directory f with
      | .error e => .error e
      | .ok rule =>
        if rule.id ∈ rules.map RuleSpec.id then
          .error (.ruleLoadError (duplicateMessage directory rule f))
        else collectRules files (rules ++ [rule])

/-- A file that gives a rule. -/
def RuleFile.Yields (f : RuleFile ε δ) (rule : RuleSpec F) : Prop :=
  parseOne validate directory f = .ok rule

variable {validate directory} {files : List (RuleFile ε δ)} {rules out : List (RuleSpec F)}

theorem collectRules_nodup (h : collectRules validate directory files rules = .ok out)
    (hn : (rules.map RuleSpec.id).Nodup) : (out.map RuleSpec.id).Nodup := by
  induction files generalizing rules with
  | nil => exact Except.ok.inj h ▸ hn
  | cons f files ih =>
    unfold collectRules at h
    split_ifs at h with hu
    · exact ih h hn
    · split at h
      · exact absurd h (by simp)
      next rule _ =>
        split_ifs at h with hd
        refine ih h ?_
        rw [List.map_append, List.nodup_append]
        refine ⟨hn, by simp, fun a ha b hb hab => ?_⟩
        rw [List.map_singleton, List.mem_singleton] at hb
        exact hd (hb ▸ hab ▸ ha)

variable (validate directory)

/-- `load_rules_from_dir`; `none` is a path that is no directory. -/
def loadRulesFromDir (entries : Option (List (RuleFile ε δ))) :
    Except (RuleExc ε) (LoadedRules F) :=
  match entries with
  | none => .error (.ruleLoadError ("rules directory not found: " ++ directory))
  | some files =>
    let paths := (files.filter RuleFile.isYaml).insertionSort fun f g => f.name ≤ g.name
    match h : collectRules validate directory paths [] with
    | .error e => .error e
    | .ok rules => .ok {
        rules := rules.insertionSort ruleLe
        ids_nodup := ((List.perm_insertionSort ruleLe rules).map RuleSpec.id).nodup_iff.mpr
          (collectRules_nodup h List.nodup_nil)
        sorted := List.pairwise_insertionSort ruleLe rules }

/-- The files that the loader parses, in the order in which it does. -/
def considered (files : List (RuleFile ε δ)) : List (RuleFile ε δ) :=
  ((files.filter RuleFile.isYaml).insertionSort fun f g => f.name ≤ g.name).filter
    fun f => !f.isDraft

section Collect

theorem collectRules_drafts (files : List (RuleFile ε δ)) (rules : List (RuleSpec F)) :
    collectRules validate directory files rules =
      collectRules validate directory (files.filter fun f => !f.isDraft) rules := by
  induction files generalizing rules with
  | nil => rfl
  | cons f files ih =>
    cases hd : f.isDraft with
    | true => rw [collectRules, if_pos hd, List.filter_cons_of_neg (by simp [hd]), ih]
    | false =>
      rw [List.filter_cons_of_pos (by simp [hd])]
      unfold collectRules
      simp only [hd, Bool.false_eq_true, if_false, ih]

theorem considered_not_draft {files : List (RuleFile ε δ)} {f : RuleFile ε δ}
    (h : f ∈ considered files) : f.isDraft = false := by
  simpa using (List.mem_filter.mp h).2

theorem collectRules_considered (files : List (RuleFile ε δ)) :
    collectRules validate directory
        ((files.filter RuleFile.isYaml).insertionSort fun f g => f.name ≤ g.name) [] =
      collectRules validate directory (considered files) [] :=
  collectRules_drafts validate directory _ _

variable {validate directory}

/-- The loop returns exactly if every file gives a rule and no id is there twice. -/
theorem collectRules_ok_iff (hfiles : ∀ f ∈ files, f.isDraft = false)
    (hn : (rules.map RuleSpec.id).Nodup) :
    collectRules validate directory files rules = .ok out ↔
      ∃ new, out = rules ++ new ∧
        List.Forall₂ (RuleFile.Yields validate directory) files new ∧
        ((rules ++ new).map RuleSpec.id).Nodup := by
  induction files generalizing rules with
  | nil =>
    rw [collectRules]
    constructor
    · intro h
      exact ⟨[], by rw [List.append_nil, Except.ok.inj h], .nil, by rwa [List.append_nil]⟩
    · rintro ⟨new, rfl, hnew, -⟩
      rw [List.forall₂_nil_left_iff.mp hnew, List.append_nil]
  | cons f files ih =>
    have hf : f.isDraft = false := hfiles f List.mem_cons_self
    have hrest : ∀ g ∈ files, g.isDraft = false := fun g hg =>
      hfiles g (List.mem_cons_of_mem f hg)
    unfold collectRules
    simp only [hf, Bool.false_eq_true, if_false, List.forall₂_cons_left_iff]
    cases hparse : parseOne validate directory f with
    | error e =>
      refine iff_of_false (by simp) ?_
      rintro ⟨new, -, ⟨rule, rest, hy, -⟩, -⟩
      rw [RuleFile.Yields, hparse] at hy
      exact absurd hy (by simp)
    | ok rule =>
      have hassoc (rest : List (RuleSpec F)) : rules ++ rule :: rest = rules ++ [rule] ++ rest := by
        rw [List.append_assoc, List.singleton_append]
      dsimp only
      split_ifs with hdup
      · refine iff_of_false (by simp) ?_
        rintro ⟨new, -, ⟨rule', rest, hy, -, rfl⟩, hnodup⟩
        obtain rfl := Except.ok.inj (hparse.symm.trans hy)
        rw [List.map_append, List.map_cons, List.nodup_append] at hnodup
        exact hnodup.2.2 _ hdup _ List.mem_cons_self rfl
      · have hn' : ((rules ++ [rule]).map RuleSpec.id).Nodup := by
          rw [List.map_append, List.map_singleton, ← List.concat_eq_append]
          exact hn.concat hdup
        rw [ih hrest hn']
        constructor
        · rintro ⟨rest, rfl, hrules, hnodup⟩
          exact ⟨rule :: rest, (hassoc rest).symm, ⟨rule, rest, hparse, hrules, rfl⟩,
            hassoc rest ▸ hnodup⟩
        · rintro ⟨new, rfl, ⟨rule', rest, hy, hrules, rfl⟩, hnodup⟩
          obtain rfl := Except.ok.inj (hparse.symm.trans hy)
          exact ⟨rest, hassoc rest, hrules, hassoc rest ▸ hnodup⟩

/-- Not a `RuleLoadError`. -/
def RuleExc.escapes : RuleExc ε → Bool
  | .ruleLoadError _ => false
  | _ => true

theorem collectRules_cons (f : RuleFile ε δ) (files : List (RuleFile ε δ))
    (rules : List (RuleSpec F)) :
    collectRules validate directory (f :: files) rules =
      collectRules validate directory [f] rules >>= collectRules validate directory files := by
  simp only [collectRules]
  split_ifs
  · rfl
  · split
    · rfl
    · split_ifs <;> rfl

theorem collectRules_append {before after : List (RuleFile ε δ)} :
    collectRules validate directory (before ++ after) rules =
      collectRules validate directory before rules >>= collectRules validate directory after := by
  induction before generalizing rules with
  | nil => rfl
  | cons f before ih =>
    rw [List.cons_append, collectRules_cons, collectRules_cons f before]
    cases collectRules validate directory [f] rules with
    | error e => rfl
    | ok mid => exact ih

/-- An error of the loop is the error of one file, behind files that the loop has taken. -/
theorem collectRules_error_split {e : RuleExc ε}
    (h : collectRules validate directory files rules = .error e) :
    ∃ before f after mid, files = before ++ f :: after ∧
      collectRules validate directory before rules = .ok mid ∧
      collectRules validate directory [f] mid = .error e := by
  induction files generalizing rules with
  | nil => exact absurd h (by simp [collectRules])
  | cons f files ih =>
    rw [collectRules_cons] at h
    cases hf : collectRules validate directory [f] rules with
    | error e' =>
      rw [hf] at h
      obtain rfl := Except.error.inj h
      exact ⟨[], f, files, rules, rfl, rfl, hf⟩
    | ok mid =>
      rw [hf] at h
      obtain ⟨before, g, after, mid', rfl, hbefore, hg⟩ := ih h
      refine ⟨f :: before, g, after, mid', rfl, ?_, hg⟩
      rw [collectRules_cons, hf]
      exact hbefore

theorem collectRules_single_error {f : RuleFile ε δ} (hf : f.isDraft = false) {e : RuleExc ε}
    (he : e.escapes = true) :
    collectRules validate directory [f] rules = .error e ↔
      parseOne validate directory f = .error e := by
  simp only [collectRules, hf, Bool.false_eq_true, if_false]
  cases parseOne validate directory f with
  | error e' => simp
  | ok rule =>
    dsimp only
    split_ifs with hdup
    · refine iff_of_false (fun h => ?_) (by simp)
      rw [← Except.error.inj h] at he
      exact absurd he (by simp [RuleExc.escapes])
    · simp

/-- What leaves the loop other than a `RuleLoadError` comes from a file that follows files with
rules of distinct ids only. -/
theorem collectRules_error_iff (hfiles : ∀ f ∈ files, f.isDraft = false)
    (hn : (rules.map RuleSpec.id).Nodup) {e : RuleExc ε} (he : e.escapes = true) :
    collectRules validate directory files rules = .error e ↔
      ∃ before f after new, files = before ++ f :: after ∧
        List.Forall₂ (RuleFile.Yields validate directory) before new ∧
        ((rules ++ new).map RuleSpec.id).Nodup ∧ parseOne validate directory f = .error e := by
  constructor
  · intro h
    obtain ⟨before, f, after, mid, rfl, hbefore, hf⟩ := collectRules_error_split h
    have hdraft : f.isDraft = false := hfiles f (by simp)
    have hbefores : ∀ g ∈ before, g.isDraft = false := fun g hg =>
      hfiles g (List.mem_append_left _ hg)
    obtain ⟨new, -, hyields, hnodup⟩ := (collectRules_ok_iff hbefores hn).mp hbefore
    exact ⟨before, f, after, new, rfl, hyields, hnodup, (collectRules_single_error hdraft he).mp hf⟩
  · rintro ⟨before, f, after, new, rfl, hyields, hnodup, hf⟩
    have hdraft : f.isDraft = false := hfiles f (by simp)
    have hbefores : ∀ g ∈ before, g.isDraft = false := fun g hg =>
      hfiles g (List.mem_append_left _ hg)
    rw [collectRules_append, (collectRules_ok_iff hbefores hn).mpr ⟨new, rfl, hyields, hnodup⟩]
    show collectRules validate directory (f :: after) (rules ++ new) = .error e
    rw [collectRules_cons, (collectRules_single_error hdraft he).mpr hf]
    rfl

end Collect

section Escapes

/-- `except yaml.YAMLError` lets it through. -/
def RuleExc.passesYaml : RuleExc ε → Bool
  | .yamlError _ | .ruleLoadError _ => false
  | .validationError _ | .other _ => true

/-- `except ValidationError` lets it through. -/
def RuleExc.passesSchema : RuleExc ε → Bool
  | .validationError _ | .ruleLoadError _ => false
  | .yamlError _ | .other _ => true

/-- Reading, parsing or validating the file raises an exception that no handler translates. -/
def RuleFile.Escapes (f : RuleFile ε δ) : Prop :=
  (∃ e, f.read = .error e ∧ e.passesYaml = true) ∨
    ∃ data e, f.read = .ok (.mapping data) ∧ validate data = .error e ∧ e.passesSchema = true

variable {validate directory} in
theorem escapes_iff {f : RuleFile ε δ} : f.Escapes validate ↔
    ∃ e, e.escapes = true ∧ parseOne validate directory f = .error e := by
  unfold RuleFile.Escapes parseOne
  cases f.read with
  | error e => cases e <;> simp [RuleExc.passesYaml, RuleExc.escapes]
  | ok node =>
    cases node with
    | other => simp [RuleExc.escapes]
    | mapping data =>
      cases hv : validate data with
      | ok rule => simp [hv]
      | error e => cases e <;> simp [hv, RuleExc.passesSchema, RuleExc.escapes]

end Escapes

section Load

variable {validate directory}

theorem ids_nodup_nil : (([] : List (RuleSpec F)).map RuleSpec.id).Nodup := List.nodup_nil

/-- What a load that returns has read: one rule for each considered file, no id twice, in the
order that the engine relies on. -/
theorem loadRulesFromDir_ok {entries : Option (List (RuleFile ε δ))} {loaded : LoadedRules F}
    (h : loadRulesFromDir validate directory entries = .ok loaded) :
    ∃ files new, entries = some files ∧
      List.Forall₂ (RuleFile.Yields validate directory) (considered files) new ∧
      loaded.rules.Perm new := by
  cases entries with
  | none => exact absurd h (by simp [loadRulesFromDir])
  | some files =>
    unfold loadRulesFromDir at h
    dsimp only at h
    split at h
    · exact absurd h (by simp)
    next rules hrules =>
      rw [collectRules_considered, collectRules_ok_iff (fun f hf => considered_not_draft hf)
        ids_nodup_nil] at hrules
      obtain ⟨new, hnew, hyields, -⟩ := hrules
      rw [List.nil_append] at hnew
      obtain rfl := Except.ok.inj h
      exact ⟨files, rules, rfl, hnew ▸ hyields, List.perm_insertionSort ruleLe rules⟩

/-- What a load raises other than a `RuleLoadError`. -/
theorem loadRulesFromDir_error_iff {files : List (RuleFile ε δ)} {e : RuleExc ε}
    (he : e.escapes = true) :
    loadRulesFromDir validate directory (some files) = .error e ↔
      ∃ before f after new, considered files = before ++ f :: after ∧
        List.Forall₂ (RuleFile.Yields validate directory) before new ∧
        (new.map RuleSpec.id).Nodup ∧ parseOne validate directory f = .error e := by
  have hcollect : collectRules validate directory (considered files) [] = .error e ↔ _ :=
    collectRules_error_iff (fun f hf => considered_not_draft hf) ids_nodup_nil he
  simp only [List.nil_append] at hcollect
  rw [← hcollect, ← collectRules_considered]
  unfold loadRulesFromDir
  dsimp only
  split
  next e' h =>
    rw [h]
    simp
  next rules h =>
    refine iff_of_false (by simp) fun herror => ?_
    exact absurd (h.symm.trans herror) (by simp)

end Load

end XSocialTrader
