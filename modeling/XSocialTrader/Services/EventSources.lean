import XSocialTrader.Services.EventPublishing

/-! Events and the decisions that they come from. A worker commits the decision together with
the events that point to it, and no two sessions hold the same new decision id. -/
namespace XSocialTrader.Llm
open LabelledRun

variable {ω κ F : Type}

/-- The event comes from this decision, and the decision is on the tweet of the event. -/
def FromDecision (event : Event F) (decision : LlmDecisionRow F) : Prop :=
  event.llmDecisionId = decision.id ∧ decision.rawTweetId = event.rawTweetId

/-- What the worker's open session adds belongs together. -/
def Phase.Sourced : Phase F → Prop
  | .flushed tweet decision => decision.rawTweetId = tweet.id
  | .scanning tweet decision _ added =>
    decision.rawTweetId = tweet.id ∧ ∀ event ∈ added, FromDecision event decision
  | _ => True

/-- Every event has its decision, and the ids of decisions are unique across the table and the
open sessions. -/
structure Sourced (s : Sys ω κ F) : Prop where
  ids : (s.decisions.map LlmDecisionRow.id).Nodup
  fresh : ∀ w id, (s.phase w).flushedId = some id → id ∉ s.decisions.map LlmDecisionRow.id
  distinct : ∀ v w id, (s.phase v).flushedId = some id → (s.phase w).flushedId = some id → v = w
  phases : ∀ w, (s.phase w).Sourced
  events : ∀ event ∈ s.events, ∃ decision ∈ s.decisions, FromDecision event decision

theorem Initial.sourced {s : Sys ω κ F} (h : Initial s) (hd : s.decisions = []) : Sourced s where
  ids := by simp [hd]
  fresh w id hid := by simp [h.idle w, Phase.flushedId] at hid
  distinct v w id hv := by simp [h.idle v, Phase.flushedId] at hv
  phases w := by
    rw [h.idle w]
    trivial
  events event he := by simp [h.events] at he

variable [DecidableEq ω] [Fintype ω] [DecidableEq κ] [Fintype κ] [PyFloat F]
  {cfg : Config F} {w : ω} {s s' : Shared ω κ F} {ph ph' : Phase F} {a : Action F}

/-- A move leaves decisions and events alone, and holds the id that it held, a new one or none. -/
structure Keeps (s s' : Shared ω κ F) (ph ph' : Phase F) (a : Action F) : Prop where
  decisions : s'.decisions = s.decisions
  events : s'.events = s.events
  sourced : ph.Sourced → ph'.Sourced
  flushedId : ph'.flushedId = none ∨ ph'.flushedId = ph.flushedId ∨
    ∃ id, a = .flushDecision id ∧ id ∉ s.decisions.map LlmDecisionRow.id ∧
      ph'.flushedId = some id

/-- What one move of a worker can do to the decisions: nothing, or the commit of its own. -/
theorem act_decisions (h : act cfg w s ph a = some (s', ph')) :
    Keeps s s' ph ph' a ∨
    ∃ tweet decision added, ph = .scanning tweet decision [] added ∧
      s'.decisions = s.decisions ++ [decision] ∧ s'.events = s.events ++ added ∧
      ph'.flushedId = none ∧ ph'.Sourced := by
  cases act_turn h with
  | flushDecision hid =>
    exact Or.inl ⟨rfl, rfl, fun _ => rfl, Or.inr (Or.inr ⟨_, rfl, hid, rfl⟩)⟩
  | resolve => exact Or.inl ⟨rfl, rfl, fun hs => ⟨hs, by simp⟩, Or.inr (Or.inl rfl)⟩
  | scanKnown => exact Or.inl ⟨rfl, rfl, id, Or.inr (Or.inl rfl)⟩
  | scanNew =>
    refine Or.inl ⟨rfl, rfl, fun hs => ⟨hs.1, fun event he => ?_⟩, Or.inr (Or.inl rfl)⟩
    rcases List.mem_append.mp he with he | he
    · exact hs.2 event he
    · rw [List.mem_singleton.mp he]
      exact ⟨rfl, hs.1⟩
  | commit => exact Or.inr ⟨_, _, _, rfl, rfl, rfl, rfl, trivial⟩
  | charge =>
    refine Or.inl ?_
    split_ifs <;> exact ⟨rfl, rfl, fun _ => trivial, Or.inl rfl⟩
  | leave | stop | readRedis | readDb | discard | pop | load | startAnalyze | finishAnalyze | push |
    activate | activateRedis | activatePublish | activateCommit | activateStop =>
    exact Or.inl ⟨rfl, rfl, fun _ => trivial, Or.inl rfl⟩

/-- A label of nobody's iteration adds no decision. -/
theorem step_outside_decisions {s t : Sys ω κ F} {l : Label ω κ F} (h : step cfg s l = some t)
    (hl : ∀ w a, l ≠ .worker w a) : t.decisions = s.decisions := by
  cases l with
  | worker w a => exact absurd rfl (hl w a)
  | enqueue raw =>
    obtain rfl := Option.some.inj h
    rfl
  | ingest tweet =>
    simp only [step] at h
    split_ifs at h
    obtain rfl := Option.some.inj h
    rfl
  | setAliases aliases =>
    obtain rfl := Option.some.inj h
    rfl
  | operator k =>
    obtain ⟨kill, -, rfl⟩ := Option.map_eq_some_iff.mp h
    rfl

section Moved

variable {s t : Sys ω κ F}

omit [DecidableEq ω] [Fintype ω] [DecidableEq κ] [Fintype κ] [PyFloat F] in
theorem Sourced.phases_moved (hs : Sourced s) (hother : ∀ v, v ≠ w → t.phase v = s.phase v)
    (hw : (t.phase w).Sourced) (v : ω) : (t.phase v).Sourced := by
  by_cases hv : v = w
  · exact hv ▸ hw
  · exact hother v hv ▸ hs.phases v

omit [DecidableEq ω] [Fintype ω] [DecidableEq κ] [Fintype κ] [PyFloat F] in
/-- The id that a moved worker holds is its old one or held by nobody before. -/
theorem Sourced.keeps (hs : Sourced s) (hunheld : UnheldId s.phase a)
    (hkeeps : Keeps s.toShared t.toShared (s.phase w) (t.phase w) a)
    (hother : ∀ v, v ≠ w → t.phase v = s.phase v) : Sourced t := by
  have hheld : ∀ id, (t.phase w).flushedId = some id →
      id ∉ s.decisions.map LlmDecisionRow.id ∧ ∀ v, v ≠ w → (s.phase v).flushedId ≠ some id := by
    intro id hw
    rcases hkeeps.flushedId with hnone | hsame | ⟨id', rfl, hnew, hsome⟩
    · simp [hnone] at hw
    · rw [hsame] at hw
      exact ⟨hs.fresh w id hw, fun v hv hv' => hv (hs.distinct v w id hv' hw)⟩
    · obtain rfl := Option.some.inj (hsome.symm.trans hw)
      exact ⟨hnew, fun v _ => hunheld v⟩
  refine ⟨hkeeps.decisions ▸ hs.ids, fun v id hv => ?_, fun v u id hv hu => ?_,
    hs.phases_moved hother (hkeeps.sourced (hs.phases w)), ?_⟩
  · rw [hkeeps.decisions]
    by_cases hvw : v = w
    · exact (hheld id (hvw ▸ hv)).1
    · exact hs.fresh v id (hother v hvw ▸ hv)
  · by_cases hvw : v = w
    · by_cases huw : u = w
      · exact hvw.trans huw.symm
      · exact absurd (hother u huw ▸ hu) ((hheld id (hvw ▸ hv)).2 u huw)
    · by_cases huw : u = w
      · exact absurd (hother v hvw ▸ hv) ((hheld id (huw ▸ hu)).2 v hvw)
      · exact hs.distinct v u id (hother v hvw ▸ hv) (hother u huw ▸ hu)
  · rw [hkeeps.events, hkeeps.decisions]
    exact hs.events

omit [DecidableEq ω] [Fintype ω] [DecidableEq κ] [Fintype κ] [PyFloat F] in
/-- A commit lets go of the id, and the other workers hold different ones. -/
theorem Sourced.commit (hs : Sourced s) {tweet : RawTweetRow} {decision : LlmDecisionRow F}
    {added : List (Event F)} (hph : s.phase w = .scanning tweet decision [] added)
    (hd : t.decisions = s.decisions ++ [decision]) (he : t.events = s.events ++ added)
    (hid : (t.phase w).flushedId = none) (hsourced : (t.phase w).Sourced)
    (hother : ∀ v, v ≠ w → t.phase v = s.phase v) : Sourced t := by
  have hflushed : (s.phase w).flushedId = some decision.id := by
    rw [hph]
    rfl
  have hfresh := hs.fresh w decision.id hflushed
  have hsession := hs.phases w
  rw [hph] at hsession
  have hheld : ∀ v id, (t.phase v).flushedId = some id →
      v ≠ w ∧ (s.phase v).flushedId = some id := by
    intro v id hv
    have hvw : v ≠ w := by
      rintro rfl
      simp [hid] at hv
    exact ⟨hvw, hother v hvw ▸ hv⟩
  refine ⟨?_, fun v id hv => ?_, fun v u id hv hu => ?_, hs.phases_moved hother hsourced, ?_⟩
  · rw [hd, List.map_append, List.map_singleton]
    refine List.nodup_append.mpr ⟨hs.ids, List.nodup_singleton _, ?_⟩
    rintro id hmem _ hid' rfl
    rw [List.mem_singleton.mp hid'] at hmem
    exact hfresh hmem
  · obtain ⟨hvw, hv⟩ := hheld v id hv
    rw [hd, List.map_append, List.map_singleton, List.mem_append, List.mem_singleton, not_or]
    refine ⟨hs.fresh v id hv, ?_⟩
    rintro rfl
    exact hvw (hs.distinct v w _ hv hflushed)
  · exact hs.distinct v u id (hheld v id hv).2 (hheld u id hu).2
  · intro event hevent
    rw [he] at hevent
    rw [hd]
    rcases List.mem_append.mp hevent with hevent | hevent
    · obtain ⟨d, hmem, hfrom⟩ := hs.events event hevent
      exact ⟨d, List.mem_append_left _ hmem, hfrom⟩
    · exact ⟨decision, List.mem_append_right _ List.mem_cons_self, hsession.2 event hevent⟩

theorem step_sourced {l : Label ω κ F} (hs : Sourced s) (h : step cfg s l = some t) :
    Sourced t := by
  by_cases hl : ∀ w a, l ≠ .worker w a
  · obtain ⟨-, he, -, hph⟩ := step_outside h hl
    have hd := step_outside_decisions h hl
    refine ⟨hd ▸ hs.ids, ?_, ?_, ?_, ?_⟩
    · rw [hph, hd]
      exact hs.fresh
    · rw [hph]
      exact hs.distinct
    · rw [hph]
      exact hs.phases
    · rw [he, hd]
      exact hs.events
  · push Not at hl
    obtain ⟨w, a, rfl⟩ := hl
    obtain ⟨hunheld, hact, hother⟩ := step_worker h
    rcases act_decisions hact with hkeeps | ⟨tweet, decision, added, hph, hd, he, hid, hsourced⟩
    · exact hs.keeps hunheld hkeeps hother
    · exact hs.commit hph hd he hid hsourced hother

end Moved

end XSocialTrader.Llm
