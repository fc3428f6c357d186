import XSocialTrader.Lib.Outbox
import XSocialTrader.Services.LlmPipeline

/-! Events from commit to queue. The workers refine an outbox: a commit adds rows with new
ids, a push moves one id from a worker's memory to the queue, and whatever ends a worker
drops the ids it has not pushed. -/
namespace XSocialTrader.Llm
open LabelledRun

variable {ω κ F : Type}

/-- The outbox that the workers share. -/
def Sys.outbox (s : Sys ω κ F) : Outbox.State ω String where
  rows := s.events.map Event.eventId
  pushed := s.published
  held w := (s.phase w).unpublished

/-- All workers are before their first iteration and nothing has been written yet. -/
structure Initial (s : Sys ω κ F) : Prop where
  idle : ∀ w, s.phase w = .idle
  events : s.events = []
  published : s.published = []

theorem Initial.outbox_inv {s : Sys ω κ F} (h : Initial s) : Outbox.Inv s.outbox :=
  .empty (by simp [Sys.outbox, h.events]) h.published fun w => by
    simp [Sys.outbox, h.idle w, Phase.unpublished]

/-- Every row, committed or in a session, encodes a tweet of the table. -/
structure Encoded (s : Sys ω κ F) : Prop where
  phases : ∀ w, (s.phase w).Sound s.tweets
  events : ∀ event ∈ s.events, ∃ tweet ∈ s.tweets, event.Encodes tweet

theorem Initial.encoded {s : Sys ω κ F} (h : Initial s) : Encoded s where
  phases w := by
    rw [h.idle w]
    trivial
  events event he := by
    rw [h.events] at he
    exact absurd he List.not_mem_nil

theorem held_update [DecidableEq ω] {s t : Sys ω κ F} {w : ω}
    (hother : ∀ v, v ≠ w → t.phase v = s.phase v) :
    t.outbox.held = Function.update s.outbox.held w (t.phase w).unpublished := by
  funext v
  by_cases hv : v = w
  · subst hv
    rw [Function.update_self]
    rfl
  · rw [Function.update_of_ne hv]
    exact congrArg Phase.unpublished (hother v hv)

/-- The outbox after a move, from its three parts. -/
theorem outbox_eq {t : Sys ω κ F} {o : Outbox.State ω String}
    (hr : t.events.map Event.eventId = o.rows) (hp : t.published = o.pushed)
    (hh : t.outbox.held = o.held) : t.outbox = o :=
  Outbox.State.ext hr hp hh

variable [DecidableEq ω] [Fintype ω] [DecidableEq κ] [Fintype κ] [PyFloat F]
  {cfg : Config F} {s t : Sys ω κ F} {l : Label ω κ F} {w : ω}

/-- A label of nobody's iteration leaves events, queue and phases alone. -/
theorem step_outside (h : step cfg s l = some t) (hl : ∀ w a, l ≠ .worker w a) :
    s.tweets ⊆ t.tweets ∧ t.events = s.events ∧ t.published = s.published ∧
      t.phase = s.phase := by
  cases l with
  | worker w a => exact absurd rfl (hl w a)
  | enqueue raw =>
    obtain rfl := Option.some.inj h
    exact ⟨List.Subset.refl _, rfl, rfl, rfl⟩
  | ingest tweet =>
    simp only [step] at h
    split_ifs at h
    obtain rfl := Option.some.inj h
    exact ⟨List.subset_append_left _ _, rfl, rfl, rfl⟩
  | setAliases aliases =>
    obtain rfl := Option.some.inj h
    exact ⟨List.Subset.refl _, rfl, rfl, rfl⟩
  | operator k =>
    obtain ⟨kill, -, rfl⟩ := Option.map_eq_some_iff.mp h
    exact ⟨List.Subset.refl _, rfl, rfl, rfl⟩

/-- A worker that stops drops what it holds. -/
theorem stop_refines (h : step cfg s (.worker w .stop) = some t) :
    Outbox.step s.outbox (.drop w) = some t.outbox := by
  obtain ⟨-, hact, hother⟩ := step_worker h
  rcases act_cases hact with ⟨hq, hun, -⟩ | ⟨_, _, _, _, hbad, _⟩ | ⟨_, _, _, _, hbad, _⟩
  · refine congrArg some (outbox_eq ?_ hq.published ?_).symm
    · rw [hq.events]
      rfl
    · rw [held_update hother, hun]
  · exact absurd hbad (by simp)
  · exact absurd hbad (by simp)

/-- Every step of the workers is a step of the outbox, and only a stop drops anything. -/
theorem step_refines (h : step cfg s l = some t) : ∃ a, Outbox.step s.outbox a = some t.outbox ∧
    ∀ w, a = .drop w → l = .worker w .stop := by
  by_cases hl : ∀ w a, l ≠ .worker w a
  · obtain ⟨-, he, hp, hph⟩ := step_outside h hl
    refine ⟨.other, congrArg some (outbox_eq ?_ hp ?_).symm, fun _ hbad => absurd hbad (by simp)⟩
    · rw [he]
      rfl
    · rw [Sys.outbox, hph]
      rfl
  · push Not at hl
    obtain ⟨w, a, rfl⟩ := hl
    by_cases hstop : a = .stop
    · subst hstop
      exact ⟨.drop w, stop_refines h, fun v hv => by rw [Outbox.Act.drop.inj hv]⟩
    · obtain ⟨-, hact, hother⟩ := step_worker h
      have hheld := held_update hother
      rcases act_cases hact with ⟨hq, hun, hnone⟩ |
        ⟨tweet, decision, added, hph, -, hf, ht, he, hp, hph'⟩ |
        ⟨eventId, rest, costUsd, hph, -, ht, he, hp, hph'⟩
      · refine ⟨.other, congrArg some (outbox_eq ?_ hq.published ?_).symm,
          fun _ hbad => absurd hbad (by simp)⟩
        · rw [hq.events]
          rfl
        · rw [hheld, hun, ← hnone.resolve_right hstop]
          exact Function.update_eq_self w s.outbox.held
      · refine ⟨.commit w (added.map Event.eventId), ?_, fun _ hbad => absurd hbad (by simp)⟩
        have hcond : s.outbox.held w = [] ∧
            (∀ k ∈ added.map Event.eventId, k ∉ s.outbox.rows) ∧
            (added.map Event.eventId).Nodup := by
          refine ⟨by simp [Sys.outbox, hph, Phase.unpublished], fun k hk => ?_, hf.2⟩
          obtain ⟨event, hmem, rfl⟩ := List.mem_map.mp hk
          exact hf.1 event hmem
        rw [Outbox.step, if_pos hcond]
        refine congrArg some (outbox_eq ?_ hp ?_).symm
        · rw [he, List.map_append]
          rfl
        · rw [hheld, hph']
          rfl
      · refine ⟨.push w, ?_, fun _ hbad => absurd hbad (by simp)⟩
        have hw : s.outbox.held w = eventId :: rest := by
          simp [Sys.outbox, hph, Phase.unpublished]
        simp only [Outbox.step, hw]
        refine congrArg some (outbox_eq ?_ hp ?_).symm
        · rw [he]
          rfl
        · rw [hheld, hph']
          rfl

theorem step_outbox_inv (h : Outbox.Inv s.outbox) (hstep : step cfg s l = some t) :
    Outbox.Inv t.outbox := by
  obtain ⟨a, ha, -⟩ := step_refines hstep
  exact Outbox.step_inv h ha

theorem step_encoded (h : Encoded s) (hstep : step cfg s l = some t) : Encoded t := by
  by_cases hl : ∀ w a, l ≠ .worker w a
  · obtain ⟨hsub, he, -, hph⟩ := step_outside hstep hl
    refine ⟨fun w => hph ▸ (h.phases w).mono hsub, fun event hev => ?_⟩
    obtain ⟨tweet, ht, henc⟩ := h.events event (he ▸ hev)
    exact ⟨tweet, hsub ht, henc⟩
  · push Not at hl
    obtain ⟨w, a, rfl⟩ := hl
    obtain ⟨-, hact, hother⟩ := step_worker hstep
    have hphases : t.tweets = s.tweets → (t.phase w).Sound s.tweets →
        ∀ v, (t.phase v).Sound t.tweets := by
      intro ht hw v
      rw [ht]
      by_cases hv : v = w
      · exact hv ▸ hw
      · exact hother v hv ▸ h.phases v
    rcases act_cases hact with ⟨hq, -, -⟩ |
      ⟨tweet, decision, added, hph, -, hf, ht, he, hp, hph'⟩ |
      ⟨eventId, rest, costUsd, hph, -, ht, he, hp, hph'⟩
    · refine ⟨hphases hq.tweets (hq.sound (h.phases w)), fun event hev => ?_⟩
      rw [hq.tweets]
      exact h.events event (hq.events ▸ hev)
    · refine ⟨hphases ht (by rw [hph']; trivial), fun event hev => ?_⟩
      rw [ht]
      rw [he] at hev
      rcases List.mem_append.mp hev with hev | hev
      · exact h.events event hev
      · have hsound : (s.phase w).Sound s.tweets := h.phases w
        rw [hph] at hsound
        exact ⟨tweet, hsound.1, hsound.2 event hev⟩
    · refine ⟨hphases ht (by rw [hph']; trivial), fun event hev => ?_⟩
      rw [ht]
      exact h.events event (he ▸ hev)

/-- In every reachable state no id has been pushed twice, and every id in the queue, also one
that the next step pushes, belongs to one row committed before, which encodes it. -/
theorem published_once_after_commit {s₀ : Sys ω κ F} (h₀ : Initial s₀)
    (hs : Reaches (step cfg) s₀ s) :
    s.published.Nodup ∧ (s.events.map Event.eventId).Nodup ∧
      ∀ l t, step cfg s l = some t → ∀ eventId ∈ t.published, ∃ event ∈ s.events,
        event.eventId = eventId ∧ ∃ tweet ∈ s.tweets, event.Encodes tweet := by
  have hinv : Outbox.Inv s.outbox :=
    hs.invariant (fun s => Outbox.Inv s.outbox) (fun _ _ _ => step_outbox_inv) h₀.outbox_inv
  have henc : Encoded s := hs.invariant Encoded (fun _ _ _ => step_encoded) h₀.encoded
  refine ⟨hinv.pushed_nodup, hinv.rows_nodup, fun l t hstep eventId hid => ?_⟩
  obtain ⟨a, ha, -⟩ := step_refines hstep
  obtain ⟨event, hevent, rfl⟩ :=
    List.mem_map.mp (Outbox.step_pushed_committed hinv ha eventId hid)
  exact ⟨event, hevent, rfl, henc.events event hevent⟩

/-- A worker ends while it still has this id to push. -/
def Drops (eventId : String) (s : Sys ω κ F) (l : Label ω κ F) : Prop :=
  ∃ w, l = .worker w .stop ∧ eventId ∈ (s.phase w).unpublished

/-- A committed id that no worker holds is in the queue unless a worker has dropped it. -/
theorem published_iff_not_dropped {s₀ : Sys ω κ F} {as : List (Label ω κ F)} (h₀ : Initial s₀)
    (h : exec (step cfg) s₀ as = some t) {eventId : String}
    (hrow : eventId ∈ t.events.map Event.eventId)
    (hdone : ∀ w, eventId ∉ (t.phase w).unpublished) :
    eventId ∈ t.published ↔ ¬ Occurs (step cfg) (Drops eventId) s₀ as := by
  constructor
  · intro hpub hdrop
    have hlost : Outbox.Lost eventId t.outbox := by
      refine occurs_persists (fun s => Outbox.Inv s.outbox) (fun s => Outbox.Lost eventId s.outbox)
        (fun _ _ _ => step_outbox_inv) ?_ ?_ h₀.outbox_inv hdrop h
      · rintro s l t hinv ⟨w, rfl, hheld⟩ hstep
        exact Outbox.drop_lost hinv hheld (stop_refines hstep)
      · intro s l t _ hlost hstep
        obtain ⟨a, ha, -⟩ := step_refines hstep
        exact hlost.step ha
    exact hlost.unpushed hpub
  · intro hkept
    have hguard := (guarded_or_occurs (Drops eventId) h).resolve_right hkept
    have hacc := guarded_invariant
      (fun s : Sys ω κ F => eventId ∈ s.outbox.rows → Outbox.Accounted eventId s.outbox) ?_
      (fun hr => absurd hr (by simp [Sys.outbox, h₀.events])) hguard h hrow
    · rcases hacc with hp | ⟨w, hw⟩
      · exact hp
      · exact absurd hw (hdone w)
    · intro s l t hacc hnot hstep hrow
      obtain ⟨a, ha, hdrop⟩ := step_refines hstep
      exact Outbox.accounted_step hacc ha
        (fun w hw hheld => hnot ⟨w, hdrop w hw, hheld⟩) hrow

/-- In every run, once no worker holds ids of a tweet any more, all its committed rows have
been pushed exactly if no worker has ended while it held one of them: a later replay of the
tweet does not push what an earlier worker dropped. -/
theorem tweet_events_published_iff {s₀ : Sys ω κ F} {as : List (Label ω κ F)} (h₀ : Initial s₀)
    (h : exec (step cfg) s₀ as = some t) (rawTweetId : ℤ)
    (hdone : ∀ event ∈ t.events, event.rawTweetId = rawTweetId →
      ∀ w, event.eventId ∉ (t.phase w).unpublished) :
    (∀ event ∈ t.events, event.rawTweetId = rawTweetId → event.eventId ∈ t.published) ↔
      ∀ event ∈ t.events, event.rawTweetId = rawTweetId →
        ¬ Occurs (step cfg) (Drops event.eventId) s₀ as := by
  refine forall₃_congr fun event hevent hid => ?_
  exact published_iff_not_dropped h₀ h (List.mem_map_of_mem hevent) (hdone event hevent hid)

section Paper

/-- A worker dies between its commit and its push. The replay finds the row, takes its id for
published, and pushes nothing. -/
theorem replay_after_crash_pushes_nothing : ¬ ∀ (cfg : Config ℚ)
    (s₀ s t : Sys (Fin 1) (Fin 1) ℚ) (as : List (Label (Fin 1) (Fin 1) ℚ))
    (raw : ByteArray) (rawTweetId : ℤ) (w : Fin 1) (analysis : LlmAnalysis ℚ)
    (decisionId : ℤ) (tickers newEvents : ℕ) (now : UtcDateTime),
      Initial s₀ → exec (step cfg) s₀ as = some s → (∀ w, s.phase w = .idle) →
      s.rawTweets = [] → parsePopped cfg.text raw = .dbId rawTweetId →
      exec (step cfg) s (.enqueue raw :: throughCommit w analysis decisionId tickers ++
        afterCommit w newEvents now) = some t →
      (∀ decision ∈ t.decisions, decision.rawTweetId = rawTweetId →
        decision.analysis = analysis) →
      ∀ event ∈ t.events, event.rawTweetId = rawTweetId → event.eventId ∈ t.published := by
  intro h
  let crash := paperCapture ++ throughCommit 0 paperAnalysis 1 1 ++ [.worker 0 .stop]
  let replay := .enqueue "1".toUTF8 :: throughCommit 0 paperAnalysis 2 1 ++
    afterCommit 0 0 paperNoon
  let event : Event ℚ := ⟨"t1:TSLA", 1, 1, "TSLA", "bullish", 9 / 10, "swing"⟩
  have hcrash : (exec (step paperConfig) paperStart crash).map
      (fun s => (s.phase 0, s.rawTweets)) = some (.idle, []) := by decide +kernel
  have hreplay : ((exec (step paperConfig) paperStart crash).bind fun s =>
      exec (step paperConfig) s replay).map (fun t => (t.decisions, t.events, t.published)) =
        some ([⟨1, 1, paperAnalysis⟩, ⟨2, 1, paperAnalysis⟩], [event], []) := by decide +kernel
  obtain ⟨s, hs, hstart⟩ := Option.map_eq_some_iff.mp hcrash
  obtain ⟨hidle, hqueue⟩ := Prod.mk.inj hstart
  rw [hs, Option.bind_some] at hreplay
  obtain ⟨t, ht, hend⟩ := Option.map_eq_some_iff.mp hreplay
  obtain ⟨hdecisions, hevents, hpublished⟩ := by simpa using hend
  have hpushed := h paperConfig paperStart s t crash "1".toUTF8 1 0 paperAnalysis 2 1 0 paperNoon
    ⟨fun _ => rfl, rfl, rfl⟩ hs (fun w => (Subsingleton.elim w 0) ▸ hidle) hqueue
    (by decide +kernel) ht (by simp [hdecisions]) event (by simp [hevents]) rfl
  simp [hpublished] at hpushed

/-- One tweet, one worker, no failure: the event reaches the queue. -/
theorem tweet_events_published_iff_captured :
    let as := paperCapture ++ throughCommit 0 paperAnalysis 1 1 ++ afterCommit 0 1 paperNoon
    ∃ t, exec (step paperConfig) paperStart as = some t ∧
      ((∀ event ∈ t.events, event.rawTweetId = 1 → event.eventId ∈ t.published) ↔
        ∀ event ∈ t.events, event.rawTweetId = 1 →
          ¬ Occurs (step paperConfig) (Drops event.eventId) paperStart as) := by
  intro as
  have hrun : (exec (step paperConfig) paperStart as).map (fun t => t.phase 0) = some .idle := by
    decide +kernel
  obtain ⟨t, ht, hidle⟩ := Option.map_eq_some_iff.mp hrun
  refine ⟨t, ht, tweet_events_published_iff ⟨fun _ => rfl, rfl, rfl⟩ ht 1 fun event _ _ w => ?_⟩
  rw [Subsingleton.elim w 0, hidle]
  exact List.not_mem_nil

theorem published_once_after_commit_captured :
    let as := paperCapture ++ throughCommit 0 paperAnalysis 1 1 ++ afterCommit 0 1 paperNoon
    ∃ t, exec (step paperConfig) paperStart as = some t ∧ t.published = ["t1:TSLA"] ∧
      t.published.Nodup ∧ ∃ event ∈ t.events, event.eventId = "t1:TSLA" ∧
        ∃ tweet ∈ t.tweets, event.Encodes tweet := by
  intro as
  have hrun : (exec (step paperConfig) paperStart as).map (fun t => t.published) =
      some ["t1:TSLA"] := by decide +kernel
  obtain ⟨t, ht, hpub⟩ := Option.map_eq_some_iff.mp hrun
  obtain ⟨hnodup, -, hrow⟩ := published_once_after_commit ⟨fun _ => rfl, rfl, rfl⟩ ⟨as, ht⟩
  refine ⟨t, ht, hpub, hnodup, ?_⟩
  exact hrow (.enqueue "1".toUTF8) _ rfl "t1:TSLA" (by simp [hpub])

end Paper

end XSocialTrader.Llm
