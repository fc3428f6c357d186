import XSocialTrader.Models.TradeJournal
import XSocialTrader.Services.EventSources
import XSocialTrader.Services.Ingestion
import XSocialTrader.Services.OrderDelivery

/-! All workers over one database, and the journal that it shows in every state they reach. The
workers of the first two stages move from await to await; an iteration of the rule pipeline
enters where it commits, with the rows that were there when it read. -/
namespace XSocialTrader.Pipeline
open LabelledRun

/-- `ingestion` holds the raw_tweets table, `llm` reads it and holds llm_decisions and events,
and `rules` holds orders. Each stage keeps its own view of the kill switch, to which the moves
of everybody else come as labels. -/
structure Sys (ω κ F : Type) [PyFloat F] where
  ingestion : Ingestion.Sys (ω ⊕ κ) F
  llm : Llm.Sys ω (Unit ⊕ κ) F
  rules : World F
  fills : List (FillRow F)

inductive Label (ω κ F : Type) [PyFloat F] where
  | ingestion (l : Ingestion.Label (ω ⊕ κ))
  | llm (l : Llm.Label ω (Unit ⊕ κ) F)
  | rules (r : RulePipeline F) (e : Reading F) (seenEvents seenOrders : ℕ)
  | fill (brokerFill : BrokerFill F) (orderId : ℕ)

structure Config (F : Type) where
  ingestion : Ingestion.Config F
  llm : Llm.Config F

variable {ω κ F : Type} [PyFloat F]

def Sys.database (s : Sys ω κ F) : Database F where
  tweets := s.ingestion.tweets
  decisions := s.llm.decisions
  events := s.llm.events
  orders := s.rules.orders
  fills := s.fills

section Step

/-- What the ingestion run has written: the rows are there for the next stage, and the ids that
it has pushed stand in the queue. -/
def Sys.afterIngestion (s : Sys ω κ F) (t : Ingestion.Sys (ω ⊕ κ) F) : Sys ω κ F :=
  { s with
    ingestion := t
    llm := { s.llm with
      tweets := t.tweets
      rawTweets := s.llm.rawTweets ++
        (t.published.drop s.ingestion.published.length).map fun id => (toString id).toUTF8 } }

def Sys.afterLlm (s : Sys ω κ F) (t : Llm.Sys ω (Unit ⊕ κ) F) : Sys ω κ F :=
  { s with
    llm := t
    rules := { s.rules with
      queue := s.rules.queue ++ (t.published.drop s.llm.published.length).map String.toUTF8 } }

/-- The iteration reads the events and orders that were there when it began, and the orders that
came since race with it. -/
def Sys.reading (s : Sys ω κ F) (events : EventTable F) (e : Reading F) (seenOrders : ℕ) :
    Reading F :=
  { e with
    events := events
    foreignOrders := []
    racingOrders := s.rules.orders.drop seenOrders }

/-- The iteration from the orders that it has seen. What it adds comes after all others. -/
def Sys.iterate (s : Sys ω κ F) (r : RulePipeline F) (e : Reading F) (seenOrders : ℕ) : World F :=
  let t := (r.iterate e { s.rules with orders := s.rules.orders.take seenOrders }).state
  { t with orders := s.rules.orders ++ t.orders.drop s.rules.orders.length }

variable [DecidableEq ω] [Fintype ω] [DecidableEq κ] [Fintype κ]

def step (cfg : Config F) (s : Sys ω κ F) : Label ω κ F → Option (Sys ω κ F)
  | .ingestion l => (Ingestion.step cfg.ingestion s.ingestion l).map s.afterIngestion
  | .llm (.ingest _) => none
  | .llm l => (Llm.step cfg.llm s.llm l).map s.afterLlm
  | .rules r e seenEvents seenOrders =>
    if h : ((s.llm.events.take seenEvents).map Event.eventId).Nodup then
      some { s with rules := s.iterate r (s.reading ⟨_, h⟩ e seenOrders) seenOrders }
    else none
  | .fill brokerFill orderId =>
    (s.rules.orders.find? fun dbOrder => dbOrder.id == orderId).map fun dbOrder =>
      match persistFill brokerFill dbOrder s.fills with
      | .error _ => s
      | .ok row => { s with fills := s.fills ++ [row] }

end Step

/-- Nothing has been written yet. -/
structure Initial (s : Sys ω κ F) : Prop where
  ingestion : Ingestion.Initial s.ingestion
  llm : Llm.Initial s.llm
  tweets : s.llm.tweets = []
  decisions : s.llm.decisions = []
  orders : s.rules.orders = []
  fills : s.fills = []

/-- What every stage keeps of its tables, and that references lead from stage to stage. -/
structure Inv (s : Sys ω κ F) : Prop where
  captured : Ingestion.Captured s.ingestion
  tweetIds : Outbox.Inv s.ingestion.outbox
  shared : s.llm.tweets = s.ingestion.tweets
  encoded : Llm.Encoded s.llm
  eventIds : Outbox.Inv s.llm.outbox
  sourced : Llm.Sourced s.llm
  orderIds : (s.rules.orders.map OrderRow.id).Nodup
  orders : ∀ order ∈ s.rules.orders, ∃ event ∈ s.llm.events, order.eventId = event.eventId
  fillIds : (s.fills.map FillRow.id).Nodup
  fills : ∀ fill ∈ s.fills, ∃ order ∈ s.rules.orders, fill.orderId = order.id

theorem Initial.inv {s : Sys ω κ F} (h : Initial s) : Inv s where
  captured := h.ingestion.captured
  tweetIds := h.ingestion.outbox_inv
  shared := h.tweets.trans h.ingestion.tweets.symm
  encoded := h.llm.encoded
  eventIds := h.llm.outbox_inv
  sourced := h.llm.sourced h.decisions
  orderIds := by simp [h.orders]
  orders order horder := by simp [h.orders] at horder
  fillIds := by simp [h.fills]
  fills fill hfill := by simp [h.fills] at hfill

theorem Inv.linked {s : Sys ω κ F} (h : Inv s) : s.database.Linked where
  tweetIds := h.tweetIds.rows_nodup
  decisionIds := h.sourced.ids
  eventIds := h.eventIds.rows_nodup
  orderIds := h.orderIds
  fillIds := h.fillIds
  tweets event hevent := by
    obtain ⟨tweet, htweet, hencodes⟩ := h.encoded.events event hevent
    rw [h.shared] at htweet
    exact ⟨tweet, htweet, hencodes.1⟩
  decisions := h.sourced.events
  orders := h.orders
  fills := h.fills

section Stages

/-- What the iteration finds besides what it reads: the orders that it has seen. -/
def Sys.seen (s : Sys ω κ F) (seenOrders : ℕ) : World F :=
  { s.rules with orders := s.rules.orders.take seenOrders }

/-- The order of an iteration that starts in this state. It pops the id of the event and reads
its row, and the rule is the first match among the rules that it has read, a live one only with
both opt-ins; the broker is called with what the rule proposes, and the row is that of the
answer. -/
def OrderedBy (s : Sys ω κ F) (r : RulePipeline F) (e : Reading F) (seenEvents seenOrders : ℕ)
    (order : OrderRow F) (event : Event F) : Prop :=
  ∃ events : EventTable F, events.rows = s.llm.events.take seenEvents ∧
    let read := s.reading events e seenOrders
    (s.seen seenOrders).poppedId read = some event.eventId ∧ event ∈ events.rows ∧
      ∃ rule receipt, FirstMatch e.rules.rules event rule ∧
        (rule.action.tradingMode = .live → r.settings.isLiveTrading = true) ∧
        let proposed := buildProposedOrder rule event
        (s.iterate r read seenOrders).broker = s.rules.broker ++ [⟨proposed, .ok receipt⟩] ∧
          order = (s.seen seenOrders).newRow read proposed receipt

theorem OrderedBy.eventId {s : Sys ω κ F} {r : RulePipeline F} {e : Reading F}
    {seenEvents seenOrders : ℕ} {order : OrderRow F} {event : Event F}
    (h : OrderedBy s r e seenEvents seenOrders order event) : order.eventId = event.eventId := by
  obtain ⟨_, -, -, -, rule, receipt, -, -, -, rfl⟩ := h
  rfl

/-- What an iteration appends to the orders is its own order, under new keys. -/
theorem iterate_appends (s : Sys ω κ F) (r : RulePipeline F) (events : EventTable F)
    (e : Reading F) (seenEvents seenOrders : ℕ)
    (hevents : events.rows = s.llm.events.take seenEvents) :
    let orders := (s.iterate r (s.reading events e seenOrders) seenOrders).orders
    orders = s.rules.orders ∨ ∃ row, orders = s.rules.orders ++ [row] ∧
      row.id ∉ s.rules.orders.map OrderRow.id ∧
      row.idempotencyKey ∉ s.rules.orders.map OrderRow.idempotencyKey ∧
      ∃ event ∈ s.llm.events, OrderedBy s r e seenEvents seenOrders row event := by
  intro orders
  let w := s.seen seenOrders
  let e' := s.reading events e seenOrders
  have hvisible : w.visibleOrders e' = s.rules.orders.take seenOrders := List.append_nil _
  have hall : w.visibleOrders e' ++ e'.racingOrders = s.rules.orders := by
    rw [hvisible]
    exact List.take_append_drop seenOrders s.rules.orders
  have hadds : orders = s.rules.orders ++
      (r.iterate e' w).state.orders.drop s.rules.orders.length := rfl
  have hcalls : (s.iterate r e' seenOrders).broker = (r.iterate e' w).state.broker := rfl
  have heffect := RulePipeline.iterate_effect r e' w
  rw [hadds]
  generalize r.iterate e' w = c at heffect hcalls
  cases heffect with
  | quiet _ _ _ horders _ =>
    left
    have hlen : c.state.orders.length ≤ s.rules.orders.length := by
      rcases horders with horders | horders
      · rw [horders, hvisible]
        exact List.length_take_le' _ _
      · rw [horders, hall]
    rw [List.drop_eq_nil_of_le hlen, List.append_nil]
  | persisted p receipt t hplaces _ hpersists hbroker horders _ =>
    right
    have hspecified := hplaces.specified
    obtain ⟨_, event, rule, hpop, hevent, rfl, hfirst, rfl⟩ := hspecified.first_match
    have hid : (w.newRow e' (buildProposedOrder rule event) receipt).id =
        nextOrderId s.rules.orders := congrArg nextOrderId hall
    have hmem : event ∈ s.llm.events := List.take_subset _ _ (hevents ▸ hevent)
    refine ⟨w.newRow e' (buildProposedOrder rule event) receipt, ?_, ?_, ?_, event, hmem, events,
      hevents, hpop, hevent, rule, receipt, hfirst, hspecified.not_live, ?_, rfl⟩
    · rw [WorkerLoop.Control.state_next, horders, hall, List.drop_left]
    · rw [hid]
      exact nextOrderId_notMem s.rules.orders
    · have hunused := hpersists.key_unused
      rw [hall] at hunused
      simp only [List.mem_map, not_exists, not_and]
      exact hunused
    · rw [hcalls, WorkerLoop.Control.state_next, hbroker]
      rfl
  | lost p t a _ _ _ horders =>
    left
    rw [WorkerLoop.Control.state_exit, horders, hall, List.drop_length, List.append_nil]

theorem rules_inv {s : Sys ω κ F} (h : Inv s) (r : RulePipeline F) (e : Reading F)
    (seenEvents seenOrders : ℕ)
    (hn : ((s.llm.events.take seenEvents).map Event.eventId).Nodup) :
    Inv { s with rules := s.iterate r (s.reading ⟨_, hn⟩ e seenOrders) seenOrders } := by
  have hkeep : ∀ rules : World F, (rules.orders.map OrderRow.id).Nodup →
      (∀ order ∈ rules.orders, ∃ event ∈ s.llm.events, order.eventId = event.eventId) →
      s.rules.orders ⊆ rules.orders → Inv { s with rules := rules } := by
    intro rules hids horders hsub
    exact ⟨h.captured, h.tweetIds, h.shared, h.encoded, h.eventIds, h.sourced, hids, horders,
      h.fillIds, fun fill hfill =>
        (h.fills fill hfill).imp fun _ horder => ⟨hsub horder.1, horder.2⟩⟩
  apply hkeep
  all_goals
    rcases iterate_appends s r ⟨_, hn⟩ e seenEvents seenOrders rfl with
      hsame | ⟨row, hadd, hnew, -, event, hevent, hordered⟩
  · rw [hsame]
    exact h.orderIds
  · rw [hadd]
    rw [List.map_append]
    exact List.concat_eq_append ▸ h.orderIds.concat hnew
  · rw [hsame]
    exact h.orders
  · rw [hadd]
    intro order horder
    rcases List.mem_append.mp horder with horder | horder
    · exact h.orders order horder
    · rw [List.mem_singleton.mp horder]
      exact ⟨event, hevent, hordered.eventId⟩
  · rw [hsame]
    exact List.Subset.refl _
  · rw [hadd]
    exact List.subset_append_left _ _

theorem fill_inv {s : Sys ω κ F} (h : Inv s) {brokerFill : BrokerFill F} {dbOrder : OrderRow F}
    (horder : dbOrder ∈ s.rules.orders) {row : FillRow F}
    (hrow : persistFill brokerFill dbOrder s.fills = .ok row) :
    Inv { s with fills := s.fills ++ [row] } := by
  obtain ⟨hid, hnew⟩ := persistFill_ok hrow
  refine ⟨h.captured, h.tweetIds, h.shared, h.encoded, h.eventIds, h.sourced, h.orderIds, h.orders,
    ?_, fun fill hfill => ?_⟩
  · rw [List.map_append]
    exact List.concat_eq_append ▸ h.fillIds.concat hnew
  rcases List.mem_append.mp hfill with hfill | hfill
  · exact h.fills fill hfill
  · rw [List.mem_singleton.mp hfill]
    exact ⟨dbOrder, horder, hid⟩

variable [DecidableEq ω] [Fintype ω] [DecidableEq κ] [Fintype κ] {cfg : Config F}

/-- The ingestion run takes no tweet out of the table. -/
theorem ingestion_tweets_subset {cfg : Ingestion.Config F} {s t : Ingestion.Sys κ F}
    {l : Ingestion.Label κ} (h : Ingestion.step cfg s l = some t) : s.tweets ⊆ t.tweets := by
  cases Ingestion.step_move h with
  | quiet _ htweets => exact htweets ▸ List.Subset.refl _
  | finish _ _ htweets => exact htweets ▸ List.Subset.refl _
  | commit row _ ht =>
    subst ht
    exact List.subset_append_left _ _
  | push row _ ht =>
    subst ht
    exact List.Subset.refl _
  | stop htweets => exact htweets ▸ List.Subset.refl _
  | operator _ htweets => exact htweets ▸ List.Subset.refl _

/-- The LLM workers take no event out of the table, and leave the tweets alone. -/
theorem llm_frame {cfg : Llm.Config F} {s t : Llm.Sys ω κ F} {l : Llm.Label ω κ F}
    (hl : ∀ tweet, l ≠ .ingest tweet) (h : Llm.step cfg s l = some t) :
    t.tweets = s.tweets ∧ s.events ⊆ t.events := by
  cases l with
  | ingest tweet => exact absurd rfl (hl tweet)
  | enqueue raw =>
    obtain rfl := Option.some.inj h
    exact ⟨rfl, List.Subset.refl _⟩
  | setAliases aliases =>
    obtain rfl := Option.some.inj h
    exact ⟨rfl, List.Subset.refl _⟩
  | operator k =>
    obtain ⟨kill, -, rfl⟩ := Option.map_eq_some_iff.mp h
    exact ⟨rfl, List.Subset.refl _⟩
  | worker w a =>
    obtain ⟨-, hact, -⟩ := Llm.step_worker h
    rcases Llm.act_cases hact with ⟨hq, -, -⟩ | ⟨_, _, _, -, -, -, ht, he, -⟩ |
      ⟨_, _, _, -, -, ht, he, -⟩
    · exact ⟨hq.tweets, hq.events ▸ List.Subset.refl _⟩
    · exact ⟨ht, he ▸ List.subset_append_left _ _⟩
    · exact ⟨ht, he ▸ List.Subset.refl _⟩

end Stages

section Runs

variable [DecidableEq ω] [Fintype ω] [DecidableEq κ] [Fintype κ] {cfg : Config F}
  {s t : Sys ω κ F} {l : Label ω κ F}

theorem ingestion_inv (h : Inv s) {l : Ingestion.Label (ω ⊕ κ)} {u : Ingestion.Sys (ω ⊕ κ) F}
    (hu : Ingestion.step cfg.ingestion s.ingestion l = some u) : Inv (s.afterIngestion u) := by
  obtain ⟨a, ha, -⟩ := Ingestion.step_refines h.captured hu
  have hsub : s.llm.tweets ⊆ u.tweets := by
    rw [h.shared]
    exact ingestion_tweets_subset hu
  exact {
    captured := Ingestion.step_captured h.captured hu
    tweetIds := Outbox.step_inv h.tweetIds ha
    shared := rfl
    encoded := ⟨fun w => (h.encoded.phases w).mono hsub, fun event hevent =>
      (h.encoded.events event hevent).imp fun _ htweet => ⟨hsub htweet.1, htweet.2⟩⟩
    eventIds := h.eventIds
    sourced := ⟨h.sourced.ids, h.sourced.fresh, h.sourced.distinct, h.sourced.phases,
      h.sourced.events⟩
    orderIds := h.orderIds
    orders := h.orders
    fillIds := h.fillIds
    fills := h.fills }

theorem llm_inv (h : Inv s) {l : Llm.Label ω (Unit ⊕ κ) F} (hl : ∀ tweet, l ≠ .ingest tweet)
    {u : Llm.Sys ω (Unit ⊕ κ) F} (hu : Llm.step cfg.llm s.llm l = some u) :
    Inv (s.afterLlm u) := by
  obtain ⟨htweets, hevents⟩ := llm_frame hl hu
  exact {
    captured := h.captured
    tweetIds := h.tweetIds
    shared := htweets.trans h.shared
    encoded := Llm.step_encoded h.encoded hu
    eventIds := Llm.step_outbox_inv h.eventIds hu
    sourced := Llm.step_sourced h.sourced hu
    orderIds := h.orderIds
    orders := fun order horder =>
      (h.orders order horder).imp fun _ hevent => ⟨hevents hevent.1, hevent.2⟩
    fillIds := h.fillIds
    fills := h.fills }

/-- What a step of one stage leaves behind. -/
inductive StageStep (cfg : Config F) (s : Sys ω κ F) : Label ω κ F → Sys ω κ F → Prop
  | ingestion {l : Ingestion.Label (ω ⊕ κ)} {u : Ingestion.Sys (ω ⊕ κ) F}
      (hu : Ingestion.step cfg.ingestion s.ingestion l = some u) :
      StageStep cfg s (.ingestion l) (s.afterIngestion u)
  | llm {l : Llm.Label ω (Unit ⊕ κ) F} {u : Llm.Sys ω (Unit ⊕ κ) F}
      (hl : ∀ tweet, l ≠ .ingest tweet) (hu : Llm.step cfg.llm s.llm l = some u) :
      StageStep cfg s (.llm l) (s.afterLlm u)
  | rules (r : RulePipeline F) (e : Reading F) (seenEvents seenOrders : ℕ)
      (hn : ((s.llm.events.take seenEvents).map Event.eventId).Nodup) :
      StageStep cfg s (.rules r e seenEvents seenOrders)
        { s with rules := s.iterate r (s.reading ⟨_, hn⟩ e seenOrders) seenOrders }
  | refused (brokerFill : BrokerFill F) (orderId : ℕ) :
      StageStep cfg s (.fill brokerFill orderId) s
  | fill {brokerFill : BrokerFill F} {orderId : ℕ} {dbOrder : OrderRow F} {row : FillRow F}
      (horder : dbOrder ∈ s.rules.orders)
      (hrow : persistFill brokerFill dbOrder s.fills = .ok row) :
      StageStep cfg s (.fill brokerFill orderId) { s with fills := s.fills ++ [row] }

theorem step_stage (hstep : step cfg s l = some t) : StageStep cfg s l t := by
  cases l with
  | ingestion l =>
    obtain ⟨u, hu, rfl⟩ := Option.map_eq_some_iff.mp hstep
    exact .ingestion hu
  | llm l =>
    have hl : ∀ tweet, l ≠ .ingest tweet := by
      rintro tweet rfl
      cases hstep
    have hmap : (Llm.step cfg.llm s.llm l).map s.afterLlm = some t := by
      cases l with
      | ingest tweet => exact absurd rfl (hl tweet)
      | _ => exact hstep
    obtain ⟨u, hu, rfl⟩ := Option.map_eq_some_iff.mp hmap
    exact .llm hl hu
  | rules r e seenEvents seenOrders =>
    simp only [step] at hstep
    split_ifs at hstep with hn
    obtain rfl := Option.some.inj hstep
    exact .rules r e seenEvents seenOrders hn
  | fill brokerFill orderId =>
    obtain ⟨dbOrder, hfind, rfl⟩ := Option.map_eq_some_iff.mp hstep
    cases hrow : persistFill brokerFill dbOrder s.fills with
    | error exc => exact .refused brokerFill orderId
    | ok row => exact .fill (List.mem_of_find?_eq_some hfind) hrow

theorem step_inv (h : Inv s) (hstep : step cfg s l = some t) : Inv t := by
  cases step_stage hstep with
  | ingestion hu => exact ingestion_inv h hu
  | llm hl hu => exact llm_inv h hl hu
  | rules r e seenEvents seenOrders hn => exact rules_inv h r e seenEvents seenOrders hn
  | refused => exact h
  | fill horder hrow => exact fill_inv h horder hrow

/-- The event ids that an iteration has seen are unique, so it is never held up. -/
theorem rules_enabled (h : Inv s) (r : RulePipeline F) (e : Reading F)
    (seenEvents seenOrders : ℕ) :
    ∃ t, step cfg s (.rules r e seenEvents seenOrders) = some t := by
  have hn : ((s.llm.events.take seenEvents).map Event.eventId).Nodup :=
    h.eventIds.rows_nodup.sublist ((List.take_sublist _ _).map _)
  exact ⟨_, dif_pos hn⟩

/-- In every state that the workers reach from empty tables, the journal shows every fill in one
row, beside its own order, event, decision and tweet, every order without fills in one row, and
every event without orders in one row. -/
theorem trade_journal_exact {s₀ : Sys ω κ F} (h₀ : Initial s₀) (hs : Reaches (step cfg) s₀ s) :
    s.database.JournalExact :=
  (hs.invariant Inv (fun _ _ _ => step_inv) h₀.inv).linked.journalExact

end Runs

section Paper

def goldenConfig : Config ℚ := ⟨Ingestion.paperIngestion, Llm.paperConfig⟩

def goldenStart : Sys (Fin 1) (Fin 1) ℚ where
  ingestion := ⟨⟨none, [], fun _ => none⟩, [], [], fun _ => 0, .waiting, []⟩
  llm := ⟨⟨⟨none, [], fun _ => none⟩, [], [], [], [], [], [], fun _ => 0⟩, fun _ => .idle⟩
  rules := .start [] [] []
  fills := []

theorem goldenStart_initial : Initial goldenStart where
  ingestion := ⟨rfl, rfl, rfl, rfl⟩
  llm := ⟨fun _ => rfl, rfl, rfl⟩
  tweets := rfl
  decisions := rfl
  orders := rfl
  fills := rfl

def goldenFill : BrokerFill ℚ where
  externalFillId := "fill-1"
  symbol := "TSLA"
  quantity := 4
  price := 101
  commissionUsd := 1 / 2
  filledAt := "2026-04-24T14:00:01"
  quantity_pos := by decide
  price_pos := by decide +kernel

/-- From the tweet to the fill of the order that it leads to. -/
def goldenPath (w : Fin 1) : List (Label (Fin 1) (Fin 1) ℚ) :=
  [.deliver paperTweet, .readRedis none, .readDb, .flush 1, .commit, .push,
    .recordTweet paperNoon].map (fun a => .ingestion (.ingest a)) ++
  [.readRedis none, .readDb, .pop, .load, .startAnalyze, .finishAnalyze Llm.paperAnalysis,
    .flushDecision 1, .resolve, .scan, .commit, .push,
    .charge paperNoon].map (fun a => .llm (.worker w a)) ++
  [.rules (paperPipeline 5)
      { paperReading "t1:TSLA" (paperRules .market none) paperNoon with arrivals := [] } 1 0,
    .fill goldenFill 1]

def goldenRow : TradeJournalRow ℚ where
  eventId := "t1:TSLA"
  ticker := "TSLA"
  intent := "bullish"
  confidence := 9 / 10
  timeHorizon := "swing"
  tweetId := some "t1"
  username := some "alice"
  tweetReceivedAt := some "2026-04-24T14:00:00+00:00"
  llmDecisionId := some 1
  llmModel := some "m"
  llmPromptVersion := some "v1"
  llmCostUsd := some (1 / 100)
  orderId := some 1
  idempotencyKey := some "t1:TSLA:news"
  orderExternalId := some "ext-t1:TSLA:news"
  tradingMode := some "paper"
  orderSide := some "buy"
  orderType := some "market"
  orderSymbol := some "TSLA"
  orderQuantity := some 10
  orderCreatedAt := some paperNoon.currentTimestamp
  fillId := some 1
  externalFillId := some "fill-1"
  fillPrice := some 101
  fillCommissionUsd := some (1 / 2)
  filledAt := some "2026-04-24T14:00:01"

/-- The fill is joined to all that led to it. -/
theorem trade_journal_exact_golden :
    ∃ t, exec (step goldenConfig) goldenStart (goldenPath 0) = some t ∧
      t.database.tradeJournal = [goldenRow] ∧ t.database.JournalExact := by
  have hrun : (exec (step goldenConfig) goldenStart (goldenPath 0)).map (fun t =>
      t.database.tradeJournal) = some [goldenRow] := by decide +kernel
  obtain ⟨t, ht, hrows⟩ := Option.map_eq_some_iff.mp hrun
  exact ⟨t, ht, hrows, trade_journal_exact goldenStart_initial ⟨goldenPath 0, ht⟩⟩

end Paper

end XSocialTrader.Pipeline
