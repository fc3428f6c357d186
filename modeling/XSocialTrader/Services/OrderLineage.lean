import XSocialTrader.Services.JournalRuns

/-! Where an order comes from: the rule that asked for it, the event that the rule matched, the
decision that the event was fanned out from, and the tweet that was decided on. -/
namespace XSocialTrader.Llm
open LabelledRun

variable {ω κ F : Type}

/-- The analysis names the ticker, or an alias of it in this table. -/
def Resolves (text : UnicodeText) (aliases : List AliasRow) (analysis : LlmAnalysis F)
    (ticker : String) : Prop :=
  analysis.intent ≠ .noise ∧ ∃ mentions, analysis.tickers.mapM Json.string? = some mentions ∧
    ticker ∈ resolveTickers text aliases mentions

/-- The event is the row that the decision leads to for one of its tickers. -/
def FansOut (text : UnicodeText) (aliases : List AliasRow) (event : Event F) (tweet : RawTweetRow)
    (decision : LlmDecisionRow F) : Prop :=
  event = eventRow tweet decision event.ticker ∧
    Resolves text aliases decision.analysis event.ticker

/-- What is left to scan and what the session has added are tickers of its decision, under the
aliases that were there when it resolved them. -/
def Phase.Resolved (text : UnicodeText)
    (resolved : RawTweetRow → LlmDecisionRow F → List AliasRow → Prop) : Phase F → Prop
  | .scanning tweet decision todo added => ∃ aliases, resolved tweet decision aliases ∧
    (∀ ticker ∈ todo, Resolves text aliases decision.analysis ticker) ∧
      ∀ event ∈ added, FansOut text aliases event tweet decision
  | _ => True

/-- Every event of the table is fanned out from a decision and a tweet of the tables, under the
aliases with which a worker has resolved the tickers of that decision. -/
structure Derived (text : UnicodeText)
    (resolved : RawTweetRow → LlmDecisionRow F → List AliasRow → Prop) (s : Sys ω κ F) :
    Prop where
  phases : ∀ w, (s.phase w).Resolved text resolved
  events : ∀ event ∈ s.events, ∃ tweet ∈ s.tweets, ∃ decision ∈ s.decisions, ∃ aliases,
    decision.rawTweetId = tweet.id ∧ resolved tweet decision aliases ∧
      FansOut text aliases event tweet decision

theorem Initial.derived {s : Sys ω κ F} (h : Initial s) (text : UnicodeText)
    (resolved : RawTweetRow → LlmDecisionRow F → List AliasRow → Prop) :
    Derived text resolved s where
  phases w := by
    rw [h.idle w]
    trivial
  events event he := by simp [h.events] at he

section Step

variable [DecidableEq ω] [Fintype ω] [DecidableEq κ] [Fintype κ] [PyFloat F]
  {cfg : Config F} {w : ω} {s s' : Shared ω κ F} {ph ph' : Phase F} {a : Action F}
  {resolved : RawTweetRow → LlmDecisionRow F → List AliasRow → Prop}

theorem act_resolved
    (ha : a = .resolve → ∀ tweet decision, ph = .flushed tweet decision →
      resolved tweet decision s.aliases)
    (h : act cfg w s ph a = some (s', ph')) (hph : ph.Resolved cfg.text resolved) :
    ph'.Resolved cfg.text resolved := by
  cases act_turn h with
  | resolve tickers =>
    rename_i tweet decision
    refine ⟨s.aliases, ha rfl tweet decision rfl, fun ticker hticker => ?_, by simp⟩
    -- Only the branch of tickers that decode, of an intent that is not noise, resolves any.
    simp only [act, Option.some.injEq, Prod.mk.injEq, true_and] at h
    split_ifs at h with hnoise
    · obtain ⟨-, -, rfl, -⟩ := Phase.scanning.inj h
      cases hticker
    · cases hm : decision.analysis.tickers.mapM Json.string? with
      | none => simp [hm] at h
      | some mentions =>
        rw [hm] at h
        obtain ⟨-, -, rfl, -⟩ := Phase.scanning.inj h
        exact ⟨hnoise, mentions, hm, hticker⟩
  | scanKnown =>
    obtain ⟨aliases, hheld, htodo, hadded⟩ := hph
    exact ⟨aliases, hheld, fun t ht => htodo t (List.mem_cons_of_mem _ ht), hadded⟩
  | scanNew =>
    obtain ⟨aliases, hheld, htodo, hadded⟩ := hph
    refine ⟨aliases, hheld, fun t ht => htodo t (List.mem_cons_of_mem _ ht), fun event he => ?_⟩
    rcases List.mem_append.mp he with he | he
    · exact hadded event he
    · rw [List.mem_singleton.mp he]
      exact ⟨rfl, htodo _ List.mem_cons_self⟩
  | charge => split_ifs <;> trivial
  | leave | stop | readRedis | readDb | discard | pop | load | startAnalyze | finishAnalyze |
    flushDecision | commit | push | activate | activateRedis | activatePublish | activateCommit |
    activateStop => trivial

/-- The commit of a session adds its decision and the events fanned out from it. -/
theorem step_derived {s t : Sys ω κ F} {l : Label ω κ F}
    (hl : ∀ w, l = .worker w .resolve → ∀ tweet decision, s.phase w = .flushed tweet decision →
      resolved tweet decision s.aliases)
    (h : Derived cfg.text resolved s) (henc : Encoded s) (hsrc : Sourced s)
    (hstep : step cfg s l = some t) : Derived cfg.text resolved t := by
  by_cases hworker : ∀ w a, l ≠ .worker w a
  · obtain ⟨hsub, he, -, hph⟩ := step_outside hstep hworker
    have hd := step_outside_decisions hstep hworker
    refine ⟨fun w => hph ▸ h.phases w, fun event hevent => ?_⟩
    obtain ⟨tweet, ht, hfrom⟩ := h.events event (he ▸ hevent)
    exact ⟨tweet, hsub ht, hd ▸ hfrom⟩
  · push Not at hworker
    obtain ⟨w, a, rfl⟩ := hworker
    obtain ⟨-, hact, hother⟩ := step_worker hstep
    have htweets : t.tweets = s.tweets := (Pipeline.llm_frame (by simp) hstep).1
    refine ⟨fun v => ?_, fun event hevent => ?_⟩
    · by_cases hv : v = w
      · subst hv
        exact act_resolved (fun ha => hl v (by rw [ha])) hact (h.phases v)
      · exact hother v hv ▸ h.phases v
    · rw [htweets]
      rcases act_decisions hact with hkeeps | ⟨tweet, decision, added, hph, hd, he, -, -⟩
      · obtain ⟨tweet, ht, hfrom⟩ := h.events event (hkeeps.events ▸ hevent)
        exact ⟨tweet, ht, hkeeps.decisions ▸ hfrom⟩
      · rw [he] at hevent
        rw [hd]
        rcases List.mem_append.mp hevent with hevent | hevent
        · obtain ⟨tweet', ht', decision', hd', hfrom⟩ := h.events event hevent
          exact ⟨tweet', ht', decision', List.mem_append_left _ hd', hfrom⟩
        · have hsound := hph ▸ henc.phases w
          have hsource := hph ▸ hsrc.phases w
          obtain ⟨aliases, hheld, -, hadded⟩ := hph ▸ h.phases w
          exact ⟨tweet, hsound.1, decision, List.mem_append_right _ List.mem_cons_self, aliases,
            hsource.1, hheld, hadded event hevent⟩

end Step

end XSocialTrader.Llm

namespace XSocialTrader.Pipeline
open LabelledRun

variable {ω κ F : Type} [PyFloat F]

/-- The row is the one of the order that the rule proposes for the event. -/
def Records (order : OrderRow F) (rule : RuleSpec F) (event : Event F) : Prop :=
  ∃ rows receipt createdAt,
    order = orderRow rows (buildProposedOrder rule event) receipt createdAt

/-- Every order comes from an event of the table, and its key is its own. -/
structure OrdersTraced (ordered : OrderRow F → Event F → Prop) (s : Sys ω κ F) : Prop where
  orders : ∀ order ∈ s.rules.orders, ∃ event ∈ s.llm.events, ordered order event
  keys : (s.rules.orders.map OrderRow.idempotencyKey).Nodup

variable [DecidableEq ω] [Fintype ω] [DecidableEq κ] [Fintype κ] {cfg : Config F}
  {s t : Sys ω κ F} {l : Label ω κ F} {ordered : OrderRow F → Event F → Prop}
  {resolved : RawTweetRow → LlmDecisionRow F → List AliasRow → Prop}

theorem step_ordersTraced
    (hl : ∀ r e i j, l = .rules r e i j → ∀ order event, OrderedBy s r e i j order event →
      ordered order event)
    (h : OrdersTraced ordered s) (hstep : step cfg s l = some t) : OrdersTraced ordered t := by
  cases step_stage hstep with
  | ingestion _ => exact ⟨h.orders, h.keys⟩
  | llm hother hu =>
    have hevents := (llm_frame hother hu).2
    exact ⟨fun order horder => (h.orders order horder).imp fun _ he => ⟨hevents he.1, he.2⟩,
      h.keys⟩
  | rules r e seenEvents seenOrders hn =>
    rcases iterate_appends s r ⟨_, hn⟩ e seenEvents seenOrders rfl with hsame |
      ⟨row, hadd, -, hnew, event, hevent, ho⟩
    · exact ⟨fun order horder => h.orders order (hsame ▸ horder), hsame.symm ▸ h.keys⟩
    · refine ⟨fun order horder => ?_, ?_⟩
      · rcases List.mem_append.mp (hadd ▸ horder) with horder | horder
        · exact h.orders order horder
        · rw [List.mem_singleton.mp horder]
          exact ⟨event, hevent, hl r e seenEvents seenOrders rfl row event ho⟩
      · rw [hadd, List.map_append]
        exact List.concat_eq_append ▸ h.keys.concat hnew
  | refused => exact h
  | fill _ _ => exact ⟨h.orders, h.keys⟩

theorem step_derived
    (hl : ∀ w, l = .llm (.worker w .resolve) → ∀ tweet decision,
      s.llm.phase w = .flushed tweet decision → resolved tweet decision s.llm.aliases)
    (h : Inv s) (hd : Llm.Derived cfg.llm.text resolved s.llm)
    (hstep : step cfg s l = some t) : Llm.Derived cfg.llm.text resolved t.llm := by
  cases step_stage hstep with
  | @ingestion _ u hu =>
    have hsub : s.llm.tweets ⊆ u.tweets := by
      rw [h.shared]
      exact ingestion_tweets_subset hu
    exact ⟨hd.phases, fun event he => (hd.events event he).imp fun _ ht => ⟨hsub ht.1, ht.2⟩⟩
  | llm _ hu =>
    exact Llm.step_derived (fun w hw => hl w (congrArg Label.llm hw)) hd h.encoded h.sourced hu
  | rules | refused | fill => exact hd

/-- In every run of all stages from empty tables, every order goes back to an iteration of the
run that has ordered it for an event of the table, and that event to a worker of the run that
has resolved the tickers of a decision on its tweet. No two orders have one tweet, one ticker
and one strategy. -/
theorem orders_traced {s₀ : Sys ω κ F} {as : List (Label ω κ F)} (h₀ : Initial s₀)
    (h : exec (step cfg) s₀ as = some s) :
    (∀ order ∈ s.rules.orders, ∃ tweet ∈ s.ingestion.tweets, ∃ decision ∈ s.llm.decisions,
      ∃ event ∈ s.llm.events, decision.rawTweetId = tweet.id ∧
        (∃ w u, Takes (step cfg) s₀ as u (.llm (.worker w .resolve)) ∧
          u.llm.phase w = .flushed tweet decision ∧
          Llm.FansOut cfg.llm.text u.llm.aliases event tweet decision) ∧
        ∃ r e i j u, Takes (step cfg) s₀ as u (.rules r e i j) ∧
          OrderedBy u r e i j order event) ∧
      (s.rules.orders.map OrderRow.idempotencyKey).Nodup := by
  let resolved : RawTweetRow → LlmDecisionRow F → List AliasRow → Prop :=
    fun tweet decision aliases => ∃ w u, Takes (step cfg) s₀ as u (.llm (.worker w .resolve)) ∧
      u.llm.phase w = .flushed tweet decision ∧ u.llm.aliases = aliases
  let ordered : OrderRow F → Event F → Prop := fun order event =>
    ∃ r e i j u, Takes (step cfg) s₀ as u (.rules r e i j) ∧ OrderedBy u r e i j order event
  let I : Sys ω κ F → Prop := fun s =>
    Inv s ∧ Llm.Derived cfg.llm.text resolved s.llm ∧ OrdersTraced ordered s
  have hstart : I s₀ := ⟨h₀.inv, h₀.llm.derived _ _, by simp [h₀.orders], by simp [h₀.orders]⟩
  have hend : I s := by
    refine guarded_invariant I ?_ hstart (guarded_takes s₀ as) h
    rintro u l t ⟨hu, hd, ho⟩ htakes hstep
    refine ⟨step_inv hu hstep, step_derived ?_ hu hd hstep, step_ordersTraced ?_ ho hstep⟩
    · rintro w rfl tweet decision hphase
      exact ⟨w, u, htakes, hphase, rfl⟩
    · rintro r e i j rfl order event hordered
      exact ⟨r, e, i, j, u, htakes, hordered⟩
  obtain ⟨hinv, hderived, htraced⟩ := hend
  refine ⟨fun order horder => ?_, htraced.keys⟩
  obtain ⟨event, hevent, hordered⟩ := htraced.orders order horder
  obtain ⟨tweet, htweet, decision, hdecision, aliases, hid, ⟨w, u, htakes, hphase, rfl⟩, hfans⟩ :=
    hderived.events event hevent
  rw [hinv.shared] at htweet
  exact ⟨tweet, htweet, decision, hdecision, event, hevent, hid, ⟨w, u, htakes, hphase, hfans⟩,
    hordered⟩

/-- The order of the golden path goes back to its tweet. -/
theorem orders_traced_golden : ∃ t, exec (step goldenConfig) goldenStart (goldenPath 0) = some t ∧
    t.rules.orders.length = 1 ∧
    ∀ order ∈ t.rules.orders, ∃ tweet ∈ t.ingestion.tweets, ∃ decision ∈ t.llm.decisions,
      ∃ event ∈ t.llm.events, decision.rawTweetId = tweet.id ∧
        (∃ w u, Takes (step goldenConfig) goldenStart (goldenPath 0) u
            (.llm (.worker w .resolve)) ∧ u.llm.phase w = .flushed tweet decision ∧
          Llm.FansOut goldenConfig.llm.text u.llm.aliases event tweet decision) ∧
        ∃ r e i j u, Takes (step goldenConfig) goldenStart (goldenPath 0) u (.rules r e i j) ∧
          OrderedBy u r e i j order event := by
  have hrun : (exec (step goldenConfig) goldenStart (goldenPath 0)).map (fun t =>
      t.rules.orders.length) = some 1 := by decide +kernel
  obtain ⟨t, ht, hlen⟩ := Option.map_eq_some_iff.mp hrun
  exact ⟨t, ht, hlen, (orders_traced goldenStart_initial ht).1⟩

end XSocialTrader.Pipeline
