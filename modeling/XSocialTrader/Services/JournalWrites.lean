import XSocialTrader.Services.OrderLineage
import Mathlib.Logic.Relation

/-! What the stages do to the tables, without the stages: a journal in which every row is written
once, under keys of its own, beside the rows that it comes from. The run of all stages refines
it. -/
namespace XSocialTrader
open LabelledRun Pipeline

variable {F : Type} [PyFloat F]

namespace Database

/-- One write of the journal. -/
inductive Writes (text : UnicodeText) (db : Database F) : Database F → Prop
  | capture (tweet : RawTweetRow) (hid : tweet.id ∉ db.tweets.map RawTweetRow.id)
      (hnew : tweet.tweetId ∉ db.tweets.map (·.tweetId)) :
      Writes text db { db with tweets := db.tweets ++ [tweet] }
  | decide (tweet : RawTweetRow) (decision : LlmDecisionRow F) (added : List (Event F))
      (aliases : List AliasRow) (htweet : tweet ∈ db.tweets) (hon : decision.rawTweetId = tweet.id)
      (hid : decision.id ∉ db.decisions.map LlmDecisionRow.id)
      (hadded : ∀ event ∈ added, Llm.FansOut text aliases event tweet decision)
      (hnew : ((db.events ++ added).map Event.eventId).Nodup) :
      Writes text db { db with
        decisions := db.decisions ++ [decision]
        events := db.events ++ added }
  | order (event : Event F) (rule : RuleSpec F) (row : OrderRow F) (hevent : event ∈ db.events)
      (hmatches : rule.matchesEvent event = true) (hrow : Records row rule event)
      (hid : row.id ∉ db.orders.map OrderRow.id)
      (hkey : row.idempotencyKey ∉ db.orders.map OrderRow.idempotencyKey) :
      Writes text db { db with orders := db.orders ++ [row] }
  | fill (order : OrderRow F) (row : FillRow F) (horder : order ∈ db.orders)
      (hon : row.orderId = order.id) (hid : row.id ∉ db.fills.map FillRow.id)
      (hnew : row.externalFillId ∉ db.fills.map FillRow.externalFillId) :
      Writes text db { db with fills := db.fills ++ [row] }

/-- Every row of the one database stands in its place in the other. -/
structure Extends (db db' : Database F) : Prop where
  tweets : db.tweets <+: db'.tweets
  decisions : db.decisions <+: db'.decisions
  events : db.events <+: db'.events
  orders : db.orders <+: db'.orders
  fills : db.fills <+: db'.fills

omit [PyFloat F] in
theorem Extends.refl (db : Database F) : db.Extends db :=
  ⟨List.prefix_refl _, List.prefix_refl _, List.prefix_refl _, List.prefix_refl _,
    List.prefix_refl _⟩

omit [PyFloat F] in
theorem Extends.trans {a b c : Database F} (h : a.Extends b) (h' : b.Extends c) : a.Extends c :=
  ⟨h.tweets.trans h'.tweets, h.decisions.trans h'.decisions, h.events.trans h'.events,
    h.orders.trans h'.orders, h.fills.trans h'.fills⟩

variable {text : UnicodeText} {db db' : Database F}

theorem Writes.extends (h : Writes text db db') : db.Extends db' := by
  have hsame := Extends.refl db
  cases h with
  | capture tweet => exact { hsame with tweets := List.prefix_append _ _ }
  | decide tweet decision added =>
    exact { hsame with
      decisions := List.prefix_append _ _
      events := List.prefix_append _ _ }
  | order event rule row => exact { hsame with orders := List.prefix_append _ _ }
  | fill order row => exact { hsame with fills := List.prefix_append _ _ }

/-- A journal only ever grows. -/
theorem extends_of_writes (h : Relation.ReflTransGen (Writes text) db db') : db.Extends db' := by
  induction h with
  | refl => exact Extends.refl db
  | tail _ hwrite ih => exact ih.trans hwrite.extends

end Database

theorem notMem_of_nodup_append {α β : Type} {f : α → β} {xs : List α} {x : α}
    (h : ((xs ++ [x]).map f).Nodup) : f x ∉ xs.map f := by
  rw [List.map_append, List.map_singleton] at h
  exact fun hmem => List.disjoint_of_nodup_append h hmem List.mem_cons_self

/-- A fill that is persisted has a new external id. -/
theorem persistFill_external {brokerFill : BrokerFill F} {dbOrder : OrderRow F}
    {fills : List (FillRow F)} {row : FillRow F}
    (h : persistFill brokerFill dbOrder fills = .ok row) :
    row.externalFillId ∉ fills.map FillRow.externalFillId := by
  simp only [persistFill] at h
  split_ifs at h with hquantity
  cases hv : (fillRow fills brokerFill dbOrder).violation fills with
  | some constraint => simp [hv] at h
  | none =>
    simp only [hv] at h
    obtain rfl := Except.ok.inj h
    unfold FillRow.violation at hv
    split at hv
    · cases hv
    · simpa using hv

namespace Pipeline

open Database

variable {ω κ : Type} [DecidableEq ω] [Fintype ω] [DecidableEq κ] [Fintype κ] {cfg : Config F}
  {s t : Sys ω κ F} {l : Label ω κ F}
  {resolved : RawTweetRow → LlmDecisionRow F → List AliasRow → Prop}

theorem ingestion_writes (h : Inv s) {l : Ingestion.Label (ω ⊕ κ)}
    {u : Ingestion.Sys (ω ⊕ κ) F} (hu : Ingestion.step cfg.ingestion s.ingestion l = some u) :
    (s.afterIngestion u).database = s.database ∨
      Writes cfg.llm.text s.database (s.afterIngestion u).database := by
  have hinv := ingestion_inv h hu
  have hsame (htweets : u.tweets = s.ingestion.tweets) :
      (s.afterIngestion u).database = s.database := by
    simp only [Sys.database, Sys.afterIngestion, htweets]
  cases Ingestion.step_move hu with
  | quiet _ htweets => exact Or.inl (hsame htweets)
  | finish _ _ htweets => exact Or.inl (hsame htweets)
  | commit row _ ht =>
    right
    subst ht
    exact .capture row (notMem_of_nodup_append hinv.tweetIds.rows_nodup)
      (notMem_of_nodup_append hinv.captured.tweetIds)
  | push row _ ht =>
    subst ht
    exact Or.inl rfl
  | stop htweets => exact Or.inl (hsame htweets)
  | operator _ htweets => exact Or.inl (hsame htweets)

theorem llm_writes (h : Inv s) (hd : Llm.Derived cfg.llm.text resolved s.llm)
    {l : Llm.Label ω (Unit ⊕ κ) F} (hl : ∀ tweet, l ≠ .ingest tweet)
    {u : Llm.Sys ω (Unit ⊕ κ) F} (hu : Llm.step cfg.llm s.llm l = some u) :
    (s.afterLlm u).database = s.database ∨
      Writes cfg.llm.text s.database (s.afterLlm u).database := by
  have hinv := llm_inv h hl hu
  have hsame (hdecisions : u.decisions = s.llm.decisions) (hevents : u.events = s.llm.events) :
      (s.afterLlm u).database = s.database := by
    simp only [Sys.database, Sys.afterLlm, hdecisions, hevents]
  by_cases hworker : ∀ w a, l ≠ .worker w a
  · exact Or.inl (hsame (Llm.step_outside_decisions hu hworker) (Llm.step_outside hu hworker).2.1)
  · push Not at hworker
    obtain ⟨w, a, rfl⟩ := hworker
    obtain ⟨-, hact, -⟩ := Llm.step_worker hu
    rcases Llm.act_decisions hact with hkeeps | ⟨tweet, decision, added, hph, hdec, hev, -, -⟩
    · exact Or.inl (hsame hkeeps.decisions hkeeps.events)
    · right
      have htweet := hph ▸ h.encoded.phases w
      have hon := hph ▸ h.sourced.phases w
      obtain ⟨aliases, -, -, hadded⟩ := hph ▸ hd.phases w
      have hids : (u.decisions.map LlmDecisionRow.id).Nodup := hinv.sourced.ids
      have hnew : (u.events.map Event.eventId).Nodup := hinv.eventIds.rows_nodup
      rw [hdec] at hids
      rw [hev] at hnew
      have hdb : (s.afterLlm u).database = { s.database with
          decisions := s.database.decisions ++ [decision]
          events := s.database.events ++ added } := by
        simp only [Sys.database, Sys.afterLlm, hdec, hev]
      rw [hdb]
      have hmem : tweet ∈ s.ingestion.tweets := h.shared ▸ htweet.1
      exact .decide tweet decision added aliases hmem hon.1 (notMem_of_nodup_append hids) hadded
        hnew

/-- A step of any stage writes once to the journal, or not at all. -/
theorem step_writes (h : Inv s) (hd : Llm.Derived cfg.llm.text resolved s.llm)
    (hstep : step cfg s l = some t) :
    t.database = s.database ∨ Writes cfg.llm.text s.database t.database := by
  cases step_stage hstep with
  | ingestion hu => exact ingestion_writes h hu
  | llm hl hu => exact llm_writes h hd hl hu
  | rules r e seenEvents seenOrders hn =>
    rcases iterate_appends s r ⟨_, hn⟩ e seenEvents seenOrders rfl with hsame |
      ⟨row, hadd, hid, hkey, event, hevent, _, -, -, -, rule, receipt, hfirst, -, -, rfl⟩
    · left
      simp only [Sys.database, hsame]
    · right
      simp only [Sys.database, hadd]
      exact .order event rule _ hevent hfirst.2.1 ⟨_, receipt, e.createdAt, rfl⟩ hid hkey
  | refused => exact Or.inl rfl
  | fill horder hrow =>
    right
    obtain ⟨hon, hid⟩ := persistFill_ok hrow
    exact .fill _ _ horder hon hid (persistFill_external hrow)

/-- However the stages interleave, stop and start again, what they do to the tables between two
states of a run is a sequence of writes of the journal, and so every row that is in a table at
one time stands in its place, unchanged, at any later time. -/
theorem run_refines_journal {s₀ : Sys ω κ F} (h₀ : Initial s₀) (hs : Reaches (step cfg) s₀ s)
    (ht : Reaches (step cfg) s t) :
    Relation.ReflTransGen (Writes cfg.llm.text) s.database t.database ∧
      s.database.Extends t.database := by
  -- The journal does not show which aliases were there, so any will do.
  let I : Sys ω κ F → Prop := fun s => Inv s ∧ Llm.Derived cfg.llm.text (fun _ _ _ => True) s.llm
  have hI : I s := hs.invariant I
    (fun _ _ _ hs hstep =>
      ⟨step_inv hs.1 hstep, step_derived (fun _ _ _ _ _ => trivial) hs.1 hs.2 hstep⟩)
    ⟨h₀.inv, h₀.llm.derived _ _⟩
  have hwrites : I t ∧ Relation.ReflTransGen (Writes cfg.llm.text) s.database t.database := by
    refine ht.invariant (fun t => I t ∧
      Relation.ReflTransGen (Writes cfg.llm.text) s.database t.database) ?_ ⟨hI, .refl⟩
    rintro u l v ⟨hu, hsu⟩ hstep
    refine ⟨⟨step_inv hu.1 hstep, step_derived (fun _ _ _ _ _ => trivial) hu.1 hu.2 hstep⟩, ?_⟩
    rcases step_writes hu.1 hu.2 hstep with hsame | hwrite
    · exact hsame ▸ hsu
    · exact hsu.tail hwrite
  exact ⟨hwrites.2, extends_of_writes hwrites.2⟩

/-- The golden path, from its order to the fill. -/
theorem run_refines_journal_golden : ∃ s t : Sys (Fin 1) (Fin 1) ℚ,
    s.fills.length = 0 ∧ t.fills.length = 1 ∧
      Relation.ReflTransGen (Writes goldenConfig.llm.text) s.database t.database := by
  have hrun : ((exec (step goldenConfig) goldenStart (goldenPath 0).dropLast).bind fun s =>
      (exec (step goldenConfig) s [.fill goldenFill 1]).map fun t =>
        (s.fills.length, t.fills.length)) = some (0, 1) := by decide +kernel
  obtain ⟨s, hs, hrest⟩ := Option.bind_eq_some_iff.mp hrun
  obtain ⟨t, ht, hlen⟩ := Option.map_eq_some_iff.mp hrest
  obtain ⟨hs₀, ht₁⟩ := Prod.mk.inj hlen
  exact ⟨s, t, hs₀, ht₁, (run_refines_journal goldenStart_initial ⟨_, hs⟩ ⟨_, ht⟩).1⟩

end Pipeline

end XSocialTrader
