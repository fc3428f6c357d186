import XSocialTrader.Execution.Fills
import XSocialTrader.Lib.LeftJoin
import XSocialTrader.Models.Decisions

/-! The `trade_journal` view: every event with its tweet and its decision, with its orders and
their fills. The database does not enforce the references that the view follows. -/
namespace XSocialTrader
open LeftJoin

/-- The tables that the view reads. -/
structure Database (F : Type) where
  tweets : List RawTweetRow
  decisions : List (LlmDecisionRow F)
  events : List (Event F)
  orders : List (OrderRow F)
  fills : List (FillRow F)

/-- The columns of the view. -/
structure TradeJournalRow (F : Type) where
  eventId : String
  ticker : String
  intent : String
  confidence : F
  timeHorizon : String
  tweetId : Option String
  username : Option String
  tweetReceivedAt : Option String
  llmDecisionId : Option ℤ
  llmModel : Option String
  llmPromptVersion : Option String
  llmCostUsd : Option F
  orderId : Option ℕ
  idempotencyKey : Option String
  orderExternalId : Option String
  tradingMode : Option String
  orderSide : Option String
  orderType : Option String
  orderSymbol : Option String
  orderQuantity : Option ℤ
  orderCreatedAt : Option String
  fillId : Option ℕ
  externalFillId : Option String
  fillPrice : Option F
  fillCommissionUsd : Option F
  filledAt : Option String
  deriving DecidableEq

variable {F : Type}

/-- The SELECT list over one joined row. -/
def selectColumns (e : Event F) (rt : Option RawTweetRow) (ld : Option (LlmDecisionRow F))
    (o : Option (OrderRow F)) (f : Option (FillRow F)) : TradeJournalRow F where
  eventId := e.eventId
  ticker := e.ticker
  intent := e.intent
  confidence := e.confidence
  timeHorizon := e.timeHorizon
  tweetId := rt.map (·.tweetId)
  username := rt.map (·.username)
  tweetReceivedAt := rt.map (·.receivedAt)
  llmDecisionId := ld.map (·.id)
  llmModel := ld.map (·.analysis.model)
  llmPromptVersion := ld.map (·.analysis.promptVersion)
  llmCostUsd := ld.map (·.analysis.costUsd)
  orderId := o.map (·.id)
  idempotencyKey := o.map (·.idempotencyKey)
  orderExternalId := o.bind (·.externalId)
  tradingMode := o.map (·.tradingMode)
  orderSide := o.map (·.side)
  orderType := o.map (·.orderType)
  orderSymbol := o.map (·.symbol)
  orderQuantity := o.map (·.quantity)
  orderCreatedAt := o.map (·.createdAt)
  fillId := f.map (·.id)
  externalFillId := f.map (·.externalFillId)
  fillPrice := f.map (·.price)
  fillCommissionUsd := f.map (·.commissionUsd)
  filledAt := f.map (·.filledAt)

namespace Database

/-- `events e LEFT JOIN raw_tweets rt .. LEFT JOIN llm_decisions ld ..`. -/
def sources (db : Database F) :
    List ((Event F × Option RawTweetRow) × Option (LlmDecisionRow F)) :=
  leftJoin (fun x => some x.1.llmDecisionId) LlmDecisionRow.id
    (leftJoin (fun e => some e.rawTweetId) RawTweetRow.id db.events db.tweets) db.decisions

/-- `.. LEFT JOIN orders o .. LEFT JOIN fills f ..`. -/
def joined (db : Database F) :
    List ((((Event F × Option RawTweetRow) × Option (LlmDecisionRow F)) ×
      Option (OrderRow F)) × Option (FillRow F)) :=
  leftJoin (fun x => x.2.map OrderRow.id) FillRow.orderId
    (leftJoin (fun x => some x.1.1.eventId) OrderRow.eventId db.sources db.orders) db.fills

/-- `SELECT * FROM trade_journal`. -/
def tradeJournal (db : Database F) : List (TradeJournalRow F) :=
  db.joined.map fun x => selectColumns x.1.1.1.1 x.1.1.1.2 x.1.1.2 x.1.2 x.2

/-- Keys that are unique, and references that lead to a row. -/
structure Linked (db : Database F) : Prop where
  tweetIds : (db.tweets.map RawTweetRow.id).Nodup
  decisionIds : (db.decisions.map LlmDecisionRow.id).Nodup
  eventIds : (db.events.map Event.eventId).Nodup
  orderIds : (db.orders.map OrderRow.id).Nodup
  fillIds : (db.fills.map FillRow.id).Nodup
  tweets : ∀ event ∈ db.events, ∃ tweet ∈ db.tweets, event.rawTweetId = tweet.id
  decisions : ∀ event ∈ db.events, ∃ decision ∈ db.decisions,
    event.llmDecisionId = decision.id ∧ decision.rawTweetId = event.rawTweetId
  orders : ∀ order ∈ db.orders, ∃ event ∈ db.events, order.eventId = event.eventId
  fills : ∀ fill ∈ db.fills, ∃ order ∈ db.orders, fill.orderId = order.id

/-- An event, the tweet it comes from, and the decision on that tweet. -/
structure Source (db : Database F) (event : Event F) (tweet : RawTweetRow)
    (decision : LlmDecisionRow F) : Prop where
  event_mem : event ∈ db.events
  tweet_mem : tweet ∈ db.tweets
  decision_mem : decision ∈ db.decisions
  tweet_id : event.rawTweetId = tweet.id
  decision_id : event.llmDecisionId = decision.id
  analyzed : decision.rawTweetId = tweet.id

/-- What stands beside an event in a row: one of its orders with one of the fills of that order,
an order without fills alone, or nothing if the event has no order. -/
inductive Beside (db : Database F) (event : Event F) :
    Option (OrderRow F) → Option (FillRow F) → Prop
  | filled {order fill} (horder : order ∈ db.orders) (hevent : order.eventId = event.eventId)
      (hfill : fill ∈ db.fills) (hid : fill.orderId = order.id) :
      Beside db event (some order) (some fill)
  | unfilled {order} (horder : order ∈ db.orders) (hevent : order.eventId = event.eventId)
      (hnone : ∀ fill ∈ db.fills, fill.orderId ≠ order.id) : Beside db event (some order) none
  | unordered (hnone : ∀ order ∈ db.orders, order.eventId ≠ event.eventId) :
      Beside db event none none

/-- The view loses nothing, repeats nothing, and joins nothing that does not belong together. -/
structure JournalExact (db : Database F) : Prop where
  fills : ∀ fill ∈ db.fills,
    db.tradeJournal.countP (fun row => row.fillId == some fill.id) = 1
  orders : ∀ order ∈ db.orders, (∀ fill ∈ db.fills, fill.orderId ≠ order.id) →
    db.tradeJournal.countP (fun row => row.orderId == some order.id) = 1
  events : ∀ event ∈ db.events, (∀ order ∈ db.orders, order.eventId ≠ event.eventId) →
    db.tradeJournal.countP (fun row => row.eventId == event.eventId) = 1
  rows : ∀ row ∈ db.tradeJournal, ∃ event tweet decision o f, db.Source event tweet decision ∧
    db.Beside event o f ∧ row = selectColumns event (some tweet) (some decision) o f

variable {db : Database F}

/-- Every event has its source. -/
theorem Linked.source (h : db.Linked) {event : Event F} (hevent : event ∈ db.events) :
    ∃ tweet decision, db.Source event tweet decision := by
  obtain ⟨tweet, htweet, htid⟩ := h.tweets event hevent
  obtain ⟨decision, hdecision, hdid, hanalyzed⟩ := h.decisions event hevent
  exact ⟨tweet, decision, hevent, htweet, hdecision, htid, hdid, hanalyzed.trans htid⟩

theorem Source.unique (h : db.Linked) {event : Event F} {tweet tweet' : RawTweetRow}
    {decision decision' : LlmDecisionRow F} (hs : db.Source event tweet decision)
    (hs' : db.Source event tweet' decision') : tweet = tweet' ∧ decision = decision' :=
  ⟨List.inj_on_of_nodup_map h.tweetIds hs.tweet_mem hs'.tweet_mem
      (hs.tweet_id.symm.trans hs'.tweet_id),
    List.inj_on_of_nodup_map h.decisionIds hs.decision_mem hs'.decision_mem
      (hs.decision_id.symm.trans hs'.decision_id)⟩

/-- The first two joins find the source of each event. -/
theorem Linked.mem_sources (h : db.Linked)
    {x : (Event F × Option RawTweetRow) × Option (LlmDecisionRow F)} :
    x ∈ db.sources ↔ ∃ event tweet decision,
      db.Source event tweet decision ∧ x = ((event, some tweet), some decision) := by
  constructor
  · obtain ⟨⟨event, rt⟩, ld⟩ := x
    intro hx
    have hpair := (mem_leftJoin.mp hx).1
    have hevent : event ∈ db.events := (mem_leftJoin.mp hpair).1
    obtain ⟨tweet, decision, hs⟩ := h.source hevent
    obtain rfl : rt = some tweet := eq_some_of_mem_leftJoin hpair h.tweetIds hs.tweet_mem
      (congrArg some hs.tweet_id)
    obtain rfl : ld = some decision := eq_some_of_mem_leftJoin hx h.decisionIds hs.decision_mem
      (congrArg some hs.decision_id)
    exact ⟨event, tweet, decision, hs, rfl⟩
  · rintro ⟨event, tweet, decision, hs, rfl⟩
    refine mem_leftJoin_some.mpr ⟨?_, hs.decision_mem, congrArg some hs.decision_id⟩
    exact mem_leftJoin_some.mpr ⟨hs.event_mem, hs.tweet_mem, congrArg some hs.tweet_id⟩

/-- The last two joins put beside a source what belongs there. -/
theorem Linked.mem_joined (h : db.Linked)
    {x : (Event F × Option RawTweetRow) × Option (LlmDecisionRow F)} {o : Option (OrderRow F)}
    {f : Option (FillRow F)} : ((x, o), f) ∈ db.joined ↔ ∃ event tweet decision,
      db.Source event tweet decision ∧ x = ((event, some tweet), some decision) ∧
        db.Beside event o f := by
  constructor
  · intro hx
    obtain ⟨hxo, hf⟩ := mem_leftJoin.mp hx
    obtain ⟨hsource, ho⟩ := mem_leftJoin.mp hxo
    obtain ⟨event, tweet, decision, hs, rfl⟩ := h.mem_sources.mp hsource
    refine ⟨event, tweet, decision, hs, rfl, ?_⟩
    rcases ho with ⟨order, horder, hevent, rfl⟩ | ⟨rfl, hnone⟩
    · have heid : order.eventId = event.eventId := (Option.some.inj hevent).symm
      rcases hf with ⟨fill, hfill, hid, rfl⟩ | ⟨rfl, hnone⟩
      · exact .filled horder heid hfill (Option.some.inj hid).symm
      · exact .unfilled horder heid fun fill hfill hid =>
          hnone fill hfill (congrArg some hid.symm)
    · rcases hf with ⟨fill, -, hid, -⟩ | ⟨rfl, -⟩
      · cases hid
      · exact .unordered fun order horder hevent =>
          hnone order horder (congrArg some hevent.symm)
  · rintro ⟨event, tweet, decision, hs, rfl, hbeside⟩
    have hsource := h.mem_sources.mpr ⟨event, tweet, decision, hs, rfl⟩
    cases hbeside with
    | filled horder hevent hfill hid =>
      refine mem_leftJoin_some.mpr ⟨?_, hfill, congrArg some hid.symm⟩
      exact mem_leftJoin_some.mpr ⟨hsource, horder, congrArg some hevent.symm⟩
    | unfilled horder hevent hnone =>
      refine mem_leftJoin_none.mpr ⟨?_, fun fill hfill hid => ?_⟩
      · exact mem_leftJoin_some.mpr ⟨hsource, horder, congrArg some hevent.symm⟩
      · exact hnone fill hfill (Option.some.inj hid).symm
    | unordered hnone =>
      refine mem_leftJoin_none.mpr ⟨?_, fun fill hfill hid => by cases hid⟩
      exact mem_leftJoin_none.mpr ⟨hsource, fun order horder hevent =>
        hnone order horder (Option.some.inj hevent).symm⟩

theorem Linked.joined_nodup (h : db.Linked) : db.joined.Nodup := by
  apply leftJoin_nodup
  · apply leftJoin_nodup
    · apply leftJoin_nodup
      · exact leftJoin_nodup h.eventIds.of_map h.tweetIds.of_map
      · exact h.decisionIds.of_map
    · exact h.orderIds.of_map
  · exact h.fillIds.of_map

/-- A property of rows that holds of one event with what stands beside it, and of no other, holds
of one row of the view. -/
theorem Linked.countP_eq_one (h : db.Linked) {p : TradeJournalRow F → Bool} {event : Event F}
    {o : Option (OrderRow F)} {f : Option (FillRow F)} (hevent : event ∈ db.events)
    (hbeside : db.Beside event o f)
    (hp : ∀ rt ld, p (selectColumns event rt ld o f) = true)
    (hunique : ∀ event' o' f' rt ld, event' ∈ db.events → db.Beside event' o' f' →
      p (selectColumns event' rt ld o' f') = true → event' = event ∧ o' = o ∧ f' = f) :
    db.tradeJournal.countP p = 1 := by
  obtain ⟨tweet, decision, hs⟩ := h.source hevent
  rw [tradeJournal, List.countP_map]
  apply LeftJoin.countP_eq_one h.joined_nodup
    (h.mem_joined.mpr ⟨event, tweet, decision, hs, rfl, hbeside⟩) (hp _ _)
  rintro ⟨⟨x, o'⟩, f'⟩ hx hpx
  obtain ⟨event', tweet', decision', hs', rfl, hbeside'⟩ := h.mem_joined.mp hx
  obtain ⟨rfl, rfl, rfl⟩ := hunique event' o' f' _ _ hs'.event_mem hbeside' hpx
  obtain ⟨rfl, rfl⟩ := hs.unique h hs'
  rfl

/-- Over linked tables the view is exact. -/
theorem Linked.journalExact (h : db.Linked) : db.JournalExact where
  fills fill hfill := by
    obtain ⟨order, horder, hid⟩ := h.fills fill hfill
    obtain ⟨event, hevent, heid⟩ := h.orders order horder
    apply h.countP_eq_one hevent (.filled horder heid hfill hid)
    · simp [selectColumns]
    · intro event' o' f' rt ld hevent' hbeside hp
      have hf : f'.map FillRow.id = some fill.id := by simpa [selectColumns] using hp
      cases hbeside with
      | filled horder' heid' hfill' hid' =>
        obtain rfl := List.inj_on_of_nodup_map h.fillIds hfill' hfill (Option.some.inj hf)
        obtain rfl := List.inj_on_of_nodup_map h.orderIds horder' horder (hid'.symm.trans hid)
        obtain rfl := List.inj_on_of_nodup_map h.eventIds hevent' hevent (heid'.symm.trans heid)
        exact ⟨rfl, rfl, rfl⟩
      | unfilled _ _ _ => cases hf
      | unordered _ => cases hf
  orders order horder hnone := by
    obtain ⟨event, hevent, heid⟩ := h.orders order horder
    apply h.countP_eq_one hevent (.unfilled horder heid hnone)
    · simp [selectColumns]
    · intro event' o' f' rt ld hevent' hbeside hp
      have ho : o'.map OrderRow.id = some order.id := by simpa [selectColumns] using hp
      cases hbeside with
      | filled horder' heid' hfill' hid' =>
        obtain rfl := List.inj_on_of_nodup_map h.orderIds horder' horder (Option.some.inj ho)
        exact absurd hid' (hnone _ hfill')
      | unfilled horder' heid' _ =>
        obtain rfl := List.inj_on_of_nodup_map h.orderIds horder' horder (Option.some.inj ho)
        obtain rfl := List.inj_on_of_nodup_map h.eventIds hevent' hevent (heid'.symm.trans heid)
        exact ⟨rfl, rfl, rfl⟩
      | unordered _ => cases ho
  events event hevent hnone := by
    apply h.countP_eq_one hevent (.unordered hnone)
    · simp [selectColumns]
    · intro event' o' f' rt ld hevent' hbeside hp
      have hid : event'.eventId = event.eventId := by simpa [selectColumns] using hp
      obtain rfl := List.inj_on_of_nodup_map h.eventIds hevent' hevent hid
      cases hbeside with
      | filled horder' heid' _ _ => exact absurd heid' (hnone _ horder')
      | unfilled horder' heid' _ => exact absurd heid' (hnone _ horder')
      | unordered _ => exact ⟨rfl, rfl, rfl⟩
  rows row hrow := by
    obtain ⟨⟨⟨x, o⟩, f⟩, hx, rfl⟩ := List.mem_map.mp hrow
    obtain ⟨event, tweet, decision, hs, rfl, hbeside⟩ := h.mem_joined.mp hx
    exact ⟨event, tweet, decision, o, f, hs, hbeside, rfl⟩

end Database

end XSocialTrader
