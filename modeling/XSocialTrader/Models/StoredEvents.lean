import XSocialTrader.Models.StoredRows
import XSocialTrader.Services.LlmIteration

/-! The flush of the events of one tweet is a sequence of INSERTs into the migrated table. -/
namespace XSocialTrader

open Sql Migrations Llm

variable {F : Type} [PyFloat F]

namespace Event

/-- The columns that the INSERT of an event binds. -/
def values (event : Event F) : List (String × Value F) :=
  [("event_id", .text event.eventId), ("raw_tweet_id", .int event.rawTweetId),
    ("llm_decision_id", .int event.llmDecisionId), ("ticker", .text event.ticker),
    ("intent", .text event.intent), ("confidence", floatOrNull event.confidence),
    ("time_horizon", .text event.timeHorizon)]

/-- What the table asks of a row by itself. -/
def Storable (event : Event F) : Prop :=
  event.intent ∈ ["bullish", "bearish", "neutral", "noise"] ∧
    event.timeHorizon ∈ ["intraday", "swing", "long"] ∧
    (bindFloat event.confidence).isSome = true ∧ inUnit event.confidence = true

instance (event : Event F) : Decidable event.Storable := by
  unfold Storable
  infer_instance

end Event

/-- An event with its key and its `created_at`. -/
structure StoredEvent (F : Type) where
  id : ℕ
  event : Event F
  createdAt : String

/-- The largest key counts on. -/
def nextStoredEventId (rows : List (StoredEvent F)) : ℕ :=
  (rows.map StoredEvent.id).foldr max 0 + 1

/-- The table with one more event. -/
def appendEvent (rows : List (StoredEvent F)) (added : Event F × String) : List (StoredEvent F) :=
  rows ++ [⟨nextStoredEventId rows, added.1, added.2⟩]

section Table

variable [SqlFormat F]

/-- The `events` table of the migrated database. -/
def eventsStore : Table F := migrated.tableOf "events" eventsTable

def StoredEvent.stored (row : StoredEvent F) : Row F :=
  storedRow eventsStore row.id row.event.values row.createdAt

theorem eventsStore_uniques : (eventsStore : Table F).uniques =
    [("pk_events", ["id"]), ("ix_events_event_id", ["event_id"])] := by
  rw [eventsStore, tableOf_uniques]
  simp [eventsTable, uniqueIndexes]

theorem newRow_events (rows : List (StoredEvent F)) (event : Event F) (now : String) :
    (eventsStore : Table F).newRow (rows.map StoredEvent.stored) event.values now =
      StoredEvent.stored ⟨nextStoredEventId rows, event, now⟩ := by
  rw [newRow_eq_storedRow rfl rfl rfl rfl, nextKey_map StoredEvent.id fun _ => rfl]
  rfl

theorem StoredEvent.admits_stored (row : StoredEvent F) :
    (eventsStore : Table F).Admits row.stored ↔ row.event.Storable := by
  have hintent : row.stored "intent" = .text row.event.intent := rfl
  have hhorizon : row.stored "time_horizon" = .text row.event.timeHorizon := rfl
  have hconfidence : row.stored "confidence" = floatOrNull row.event.confidence :=
    storeAs_floatOrNull _
  have hnull : (∀ c ∈ (eventsStore : Table F).columns, c.nullable = false →
      (row.stored c.name).isNull = false) ↔ (bindFloat row.event.confidence).isSome = true := by
    simp only [stored, storedRow, Table.stored, Value.isNull_storeAs]
    simp only [eventsStore, Catalog.tableOf, eventsTable, List.forall_mem_cons, column,
      timestampColumn]
    simp [Event.values, List.lookup_cons, floatOrNull_isNull, Option.isSome_iff_ne_none]
    simp [Value.isNull]
  have hchecks : (bindFloat row.event.confidence).isSome = true →
      ((∀ c ∈ (eventsStore : Table F).checks, c.2.eval row.stored ≠ some false) ↔
        row.event.intent ∈ ["bullish", "bearish", "neutral", "noise"] ∧
          row.event.timeHorizon ∈ ["intraday", "swing", "long"] ∧
          inUnit row.event.confidence = true) := by
    intro hsome
    have hreal : floatOrNull row.event.confidence = .real row.event.confidence := by
      unfold bindFloat at hsome
      unfold floatOrNull
      split_ifs at hsome ⊢ with heq
      · rfl
      · cases hsome
    simp only [eventsStore, Catalog.tableOf, eventsTable, List.forall_mem_cons, columnIn,
      Cond.eval_isIn_text hintent, Cond.eval_isIn_text hhorizon]
    simp only [Cond.eval, hconfidence, hreal, Value.compare, Operator.onReals, andThen_some,
      SqlReal.le, SqlReal.ofInt]
    simp [inUnit]
    tauto
  constructor
  · intro h
    have hsome := hnull.mp h.notNull
    obtain ⟨hi, ht, hu⟩ := (hchecks hsome).mp h.checks
    exact ⟨hi, ht, hsome, hu⟩
  · rintro ⟨hi, ht, hsome, hu⟩
    exact ⟨rfl, hnull.mpr hsome, (hchecks hsome).mpr ⟨hi, ht, hu⟩⟩

theorem StoredEvent.apart_stored (r row : StoredEvent F) :
    (eventsStore : Table F).Apart r.stored row.stored ↔
      r.id ≠ row.id ∧ r.event.eventId ≠ row.event.eventId := by
  have hid (r : StoredEvent F) : r.stored "id" = .int r.id := rfl
  have hkey (r : StoredEvent F) : r.stored "event_id" = .text r.event.eventId := rfl
  simp [Table.Apart, eventsStore_uniques, Table.conflicts, hid, hkey, Value.compare,
    Operator.onInts, Operator.onTexts]

omit [PyFloat F] [SqlFormat F] in
theorem lt_nextStoredEventId {rows : List (StoredEvent F)} {row : StoredEvent F}
    (h : row ∈ rows) : row.id < nextStoredEventId rows :=
  lt_foldr_max_succ (List.mem_map_of_mem h)

/-- One INSERT: the row goes in exactly if the table takes it and its event id is new. -/
theorem exec_insertEvent (rows : List (StoredEvent F)) (added : Event F × String) :
    ((eventsStore : Table F).exec (rows.map StoredEvent.stored)
        (.insert added.1.values added.2)).toOption =
      if added.1.Storable ∧ added.1.eventId ∉ rows.map (·.event.eventId) then
        some ((appendEvent rows added).map StoredEvent.stored)
      else none := by
  have hcolumns : (eventsStore : Table F).knows added.1.values = true := by
    simp [Table.knows, Event.values, eventsStore, Catalog.tableOf, eventsTable, column,
      timestampColumn]
  have hviolation : (eventsStore : Table F).violation (rows.map StoredEvent.stored)
      (StoredEvent.stored ⟨nextStoredEventId rows, added.1, added.2⟩) = none ↔
        added.1.Storable ∧ added.1.eventId ∉ rows.map (·.event.eventId) := by
    rw [Table.violation_eq_none, StoredEvent.admits_stored, List.forall_mem_map]
    refine and_congr_right fun _ => ?_
    simp only [StoredEvent.apart_stored, List.mem_map, not_exists, not_and]
    exact ⟨fun h r hr => (h r hr).2, fun h r hr => ⟨(lt_nextStoredEventId hr).ne, h r hr⟩⟩
  rw [exec_insert_toOption hcolumns (newRow_events rows added.1 added.2),
    if_congr hviolation rfl rfl, appendEvent, List.map_append, List.map_singleton]

/-- The INSERTs of a flush, one after another. -/
def flushEvents (rows : List (Row F)) (added : List (Event F × String)) :
    Option (List (Row F)) :=
  added.foldlM (fun rows a => ((eventsStore : Table F).exec rows
    (.insert a.1.values a.2)).toOption) rows

omit [PyFloat F] [SqlFormat F] in
theorem flushable_cons {events added : List (Event F)} {event : Event F} :
    Flushable events (event :: added) ↔
      event.eventId ∉ events.map Event.eventId ∧ Flushable (events ++ [event]) added := by
  simp only [Flushable, List.forall_mem_cons, List.map_cons, List.nodup_cons, List.map_append,
    List.map_nil, List.mem_append, List.mem_singleton, not_or, List.mem_map, not_exists, not_and]
  constructor
  · rintro ⟨⟨hnew, hall⟩, hother, hnodup⟩
    exact ⟨hnew, fun a ha => ⟨hall a ha, hother a ha⟩, hnodup⟩
  · rintro ⟨hnew, hall, hnodup⟩
    exact ⟨⟨hnew, fun a ha => (hall a ha).1⟩, fun a ha => (hall a ha).2, hnodup⟩

/-- The flush of a tweet's events is a sequence of INSERTs into the migrated table: all of them
succeed exactly if the table takes each row by itself and no event id is there already or comes
twice, and the table then has the events behind its own, in order. -/
theorem flushEvents_refines (rows : List (StoredEvent F)) (added : List (Event F × String)) :
    flushEvents (rows.map StoredEvent.stored) added =
      if (∀ a ∈ added, a.1.Storable) ∧
          Flushable (rows.map StoredEvent.event) (added.map Prod.fst) then
        some ((added.foldl appendEvent rows).map StoredEvent.stored)
      else none := by
  induction added generalizing rows with
  | nil => simp [flushEvents, Flushable]
  | cons a added ih =>
    have hevents : (appendEvent rows a).map StoredEvent.event =
        rows.map StoredEvent.event ++ [a.1] := by simp [appendEvent]
    have hids : rows.map (·.event.eventId) = (rows.map StoredEvent.event).map Event.eventId := by
      rw [List.map_map]
      rfl
    rw [flushEvents, List.foldlM_cons, exec_insertEvent, hids]
    by_cases hfirst : a.1.Storable ∧
        a.1.eventId ∉ (rows.map StoredEvent.event).map Event.eventId
    · rw [if_pos hfirst]
      refine (ih (appendEvent rows a)).trans ?_
      rw [hevents]
      refine if_congr ?_ rfl rfl
      rw [List.map_cons, flushable_cons, List.forall_mem_cons]
      tauto
    · rw [if_neg hfirst, if_neg]
      · rfl
      · rw [List.map_cons, flushable_cons, List.forall_mem_cons]
        tauto

end Table

end XSocialTrader
