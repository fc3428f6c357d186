import XSocialTrader.Rules.Loader
import XSocialTrader.Core.Values

/-! `RuleStore`: the rules in memory, swapped as a whole by a reload that succeeds, and its two
callers, the start of the application and the reload endpoint. -/
namespace XSocialTrader

variable {F ε δ : Type} [PyFloat F]

/-- The rules in memory. -/
structure RuleStore (F : Type) [PyFloat F] where
  rules : List (RuleSpec F)

namespace RuleStore

def empty : RuleStore F := ⟨[]⟩

def getRules (s : RuleStore F) : List (RuleSpec F) := s.rules

variable (validate : δ → Except (RuleExc ε) (RuleSpec F)) (directory : String)

/-- `reload`: the number of rules, or the exception that left the loader. -/
def reload (s : RuleStore F) (entries : Option (List (RuleFile ε δ))) :
    RuleStore F × Except (RuleExc ε) ℕ :=
  match loadRulesFromDir validate directory entries with
  | .error e => (s, .error e)
  | .ok loaded => ({ s with rules := loaded.rules }, .ok loaded.rules.length)

/-- One reload after another; each entry of the list is the directory as that reload finds it. -/
def afterReloads (s : RuleStore F) (loads : List (Option (List (RuleFile ε δ)))) : RuleStore F :=
  loads.foldl (fun s entries => (s.reload validate directory entries).1) s

variable {validate directory} {s : RuleStore F} {entries : Option (List (RuleFile ε δ))}

theorem reload_error {e : RuleExc ε} (h : (s.reload validate directory entries).2 = .error e) :
    (s.reload validate directory entries).1 = s := by
  unfold reload at h ⊢
  cases hl : loadRulesFromDir validate directory entries with
  | error _ => rfl
  | ok loaded =>
    rw [hl] at h
    exact absurd h (by simp)

/-- After any reload the rules are those just loaded, or those that were there. -/
theorem reload_rules : (s.reload validate directory entries).1.rules =
    match loadRulesFromDir validate directory entries with
    | .error _ => s.rules
    | .ok loaded => loaded.rules := by
  unfold reload
  cases loadRulesFromDir validate directory entries <;> rfl

end RuleStore

variable (validate : δ → Except (RuleExc ε) (RuleSpec F)) (directory : String)

/-- The result of the last load that succeeded. -/
def lastLoaded (loads : List (Option (List (RuleFile ε δ)))) : Option (LoadedRules F) :=
  (loads.filterMap fun entries => (loadRulesFromDir validate directory entries).toOption).getLast?

theorem afterReloads_rules (loads : List (Option (List (RuleFile ε δ)))) (s : RuleStore F) :
    (s.afterReloads validate directory loads).rules =
      ((lastLoaded validate directory loads).map LoadedRules.rules).getD s.rules := by
  induction loads using List.reverseRecOn with
  | nil => rfl
  | append_singleton loads entries ih =>
    rw [RuleStore.afterReloads, List.foldl_append, List.foldl_cons, List.foldl_nil,
      RuleStore.reload_rules, lastLoaded, List.filterMap_append]
    simp only [List.filterMap_cons, List.filterMap_nil]
    cases loadRulesFromDir validate directory entries with
    | error e =>
      rw [Except.toOption, List.append_nil]
      exact ih
    | ok loaded =>
      rw [Except.toOption, List.getLast?_concat]
      rfl

/-- Whatever the directory holds at each reload and whichever file fails, the rules served are the
whole result of the last reload that succeeded: one rule for each `.yaml` or `.yml` file that is no
draft, ids distinct, in the engine's order. A reload that raises changes nothing. -/
theorem reloads_serve_last_success (loads : List (Option (List (RuleFile ε δ)))) :
    (RuleStore.empty.afterReloads validate directory loads).getRules =
      ((lastLoaded validate directory loads).map LoadedRules.rules).getD [] ∧
    (∀ loaded, lastLoaded validate directory loads = some loaded →
      ∃ entries ∈ loads, ∃ files new, entries = some files ∧
        List.Forall₂ (fun f rule => parseOne validate directory f = .ok rule)
          (considered files) new ∧
        loaded.rules.Perm new ∧ (loaded.rules.map RuleSpec.id).Nodup ∧
        loaded.rules.Pairwise ruleLe) ∧
    ∀ (s : RuleStore F) entries e, (s.reload validate directory entries).2 = .error e →
      (s.reload validate directory entries).1.getRules = s.getRules := by
  refine ⟨afterReloads_rules validate directory loads RuleStore.empty, fun loaded h => ?_,
    fun s entries e h => by rw [RuleStore.reload_error h]⟩
  obtain ⟨entries, hmem, hok⟩ := List.mem_filterMap.mp (List.mem_of_getLast? h)
  have hload : loadRulesFromDir validate directory entries = .ok loaded := by
    cases hl : loadRulesFromDir validate directory entries with
    | error e =>
      rw [hl] at hok
      exact absurd hok (by simp [Except.toOption])
    | ok loaded' =>
      rw [hl] at hok
      rw [Option.some.inj hok]
  obtain ⟨files, new, hfiles, hyields, hperm⟩ := loadRulesFromDir_ok hload
  exact ⟨entries, hmem, files, new, hfiles, hyields, hperm, loaded.ids_nodup, loaded.sorted⟩

section Callers

/-- `lifespan` up to `app.state.rule_store`: the store, or the exception that ends the start. -/
def lifespanStart (entries : Option (List (RuleFile ε δ))) : Except (RuleExc ε) (RuleStore F) :=
  let (store, result) := RuleStore.empty.reload validate directory entries
  match result with
  | .ok _ => .ok store
  | .error (.ruleLoadError _) => .ok store
  | .error e => .error e

inductive ReloadResponse where
  | loaded (count : ℕ) (directory : String)
  | badRequest (detail : String)
  | internalServerError

def ReloadResponse.status : ReloadResponse → ℕ
  | .loaded _ _ => 200
  | .badRequest _ => 400
  | .internalServerError => 500

/-- `POST /admin/rules/reload`; an exception that the endpoint does not translate is answered by
the server. -/
def reloadRules (s : RuleStore F) (entries : Option (List (RuleFile ε δ))) :
    RuleStore F × ReloadResponse :=
  let (store, result) := s.reload validate directory entries
  match result with
  | .ok count => (store, .loaded count directory)
  | .error (.ruleLoadError message) => (store, .badRequest message)
  | .error _ => (store, .internalServerError)

/-- The directory entry of a file with the given bytes. -/
def RuleRuntime.openFile (rt : RuleRuntime F ε δ) (file : String × List UInt8) : RuleFile ε δ where
  name := file.1
  read := rt.safeLoad file.2

/-- A load returns or raises `RuleLoadError`. -/
def LoadsCleanly (entries : Option (List (RuleFile ε δ))) : Prop :=
  (∃ loaded, loadRulesFromDir validate directory entries = .ok loaded) ∨
    ∃ message, loadRulesFromDir validate directory entries = .error (.ruleLoadError message)

variable {validate directory} {entries : Option (List (RuleFile ε δ))}

theorem loadsCleanly_iff : LoadsCleanly validate directory entries ↔
    ∀ e, e.escapes = true → loadRulesFromDir validate directory entries ≠ .error e := by
  unfold LoadsCleanly
  cases loadRulesFromDir validate directory entries with
  | ok loaded => simp
  | error e =>
    constructor
    · rintro (⟨loaded, h⟩ | ⟨message, h⟩) e' he herror
      · exact absurd h (by simp)
      · rw [← Except.error.inj herror, Except.error.inj h] at he
        exact absurd he (by simp [RuleExc.escapes])
    · intro h
      cases e with
      | ruleLoadError message => exact Or.inr ⟨message, rfl⟩
      | yamlError text => exact absurd rfl (h _ rfl)
      | validationError text => exact absurd rfl (h _ rfl)
      | other e => exact absurd rfl (h _ rfl)

theorem LoadsCleanly.starts (h : LoadsCleanly validate directory entries) :
    ∃ store, lifespanStart validate directory entries = .ok store := by
  unfold lifespanStart RuleStore.reload
  rcases h with ⟨loaded, h⟩ | ⟨message, h⟩ <;> rw [h] <;> exact ⟨_, rfl⟩

theorem LoadsCleanly.answered (h : LoadsCleanly validate directory entries) (s : RuleStore F) :
    (reloadRules validate directory s entries).2.status = 200 ∨
      (reloadRules validate directory s entries).2.status = 400 := by
  unfold reloadRules RuleStore.reload
  rcases h with ⟨loaded, h⟩ | ⟨message, h⟩
  · rw [h]
    exact Or.inl rfl
  · rw [h]
    exact Or.inr rfl

/-- A directory of arbitrary files loads or is refused with `RuleLoadError`, so that the
application starts and a reload is answered 200 or 400, exactly if no file whose reading or
validation raises an untranslated exception is reached: in path order something before it is
refused or repeats an id. -/
theorem loads_cleanly_iff (rt : RuleRuntime F ε δ) (directory : String)
    (files : List (String × List UInt8)) :
    let entries := files.map rt.openFile
    (LoadsCleanly rt.modelValidate directory (some entries) ∧
      (∃ store, lifespanStart rt.modelValidate directory (some entries) = .ok store) ∧
      ∀ s, (reloadRules rt.modelValidate directory s (some entries)).2.status = 200 ∨
        (reloadRules rt.modelValidate directory s (some entries)).2.status = 400) ↔
    ∀ before f after rules, considered entries = before ++ f :: after →
      List.Forall₂ (RuleFile.Yields rt.modelValidate directory) before rules →
      (rules.map RuleSpec.id).Nodup → ¬ f.Escapes rt.modelValidate := by
  intro entries
  have hclean : LoadsCleanly rt.modelValidate directory (some entries) ↔
      ∀ before f after rules, considered entries = before ++ f :: after →
        List.Forall₂ (RuleFile.Yields rt.modelValidate directory) before rules →
        (rules.map RuleSpec.id).Nodup → ¬ f.Escapes rt.modelValidate := by
    rw [loadsCleanly_iff]
    constructor
    · intro h before f after rules hsplit hyields hnodup hf
      obtain ⟨e, he, hparse⟩ := escapes_iff.mp hf
      exact h e he ((loadRulesFromDir_error_iff he).mpr
        ⟨before, f, after, rules, hsplit, hyields, hnodup, hparse⟩)
    · intro h e he herror
      obtain ⟨before, f, after, rules, hsplit, hyields, hnodup, hparse⟩ :=
        (loadRulesFromDir_error_iff he).mp herror
      exact h before f after rules hsplit hyields hnodup (escapes_iff.mpr ⟨e, he, hparse⟩)
  constructor
  · rintro ⟨h, -, -⟩
    exact hclean.mp h
  · intro h
    exact ⟨hclean.mpr h, (hclean.mpr h).starts, (hclean.mpr h).answered⟩

/-- PyYAML and pydantic on documents without a mapping: bytes that are not UTF-8 raise. -/
def scalarRuntime : RuleRuntime ℚ PyExc Unit where
  safeLoad bytes :=
    if bytes.all (· < 128) then .ok .other else .error (.other .unicodeDecodeError)
  modelValidate _ := .error (.validationError "")

/-- A rule file of the one byte 0xff stops the start of the application. -/
theorem undecodable_rule_file_stops_start :
    let entries := [("bad.yaml", [0xff])].map scalarRuntime.openFile
    ¬ (LoadsCleanly scalarRuntime.modelValidate "rules" (some entries) ∧
      (∃ store, lifespanStart scalarRuntime.modelValidate "rules" (some entries) = .ok store) ∧
      ∀ s, (reloadRules scalarRuntime.modelValidate "rules" s (some entries)).2.status = 200 ∨
        (reloadRules scalarRuntime.modelValidate "rules" s (some entries)).2.status = 400) := by
  rintro entries ⟨h, -, -⟩
  have hread : parseOne scalarRuntime.modelValidate "rules"
      (scalarRuntime.openFile ("bad.yaml", [0xff])) = .error (.other .unicodeDecodeError) := rfl
  have hyaml : (scalarRuntime.openFile ("bad.yaml", [0xff])).isYaml = true := by decide +kernel
  have hdraft : (scalarRuntime.openFile ("bad.yaml", [0xff])).isDraft = false := by decide +kernel
  have hconsidered : considered entries = [scalarRuntime.openFile ("bad.yaml", [0xff])] := by
    simp [considered, entries, hyaml, hdraft]
  refine loadsCleanly_iff.mp h (.other .unicodeDecodeError) rfl
    ((loadRulesFromDir_error_iff rfl).mpr ⟨[], _, [], [], hconsidered, .nil, ids_nodup_nil, hread⟩)

end Callers

end XSocialTrader
