import XSocialTrader.Lib.Results
import XSocialTrader.Models.StoredRows
import XSocialTrader.Services.IngestionRun

/-! The capture of tweets is a sequence of INSERTs into the migrated table, of which those that
the database refuses count as duplicates. -/
namespace XSocialTrader

open Sql Migrations FirstSeen

variable {F : Type} [PyFloat F]

omit [PyFloat F] in
/-- The columns that the INSERT of a tweet binds. -/
def RawTweet.values (tweet : RawTweet) : List (String × Value F) :=
  [("tweet_id", .text tweet.tweetId), ("x_user_id", .text tweet.xUserId),
    ("username", .text tweet.username), ("content", .text tweet.content),
    ("lang", textOrNull tweet.lang), ("raw_json", .text tweet.rawJson),
    ("received_at", .text tweet.receivedAt)]

/-- What comes in: a tweet and the time at which its row would be made. -/
structure Arrival where
  tweet : RawTweet
  createdAt : String

def Arrival.tweetId (arrival : Arrival) : String := arrival.tweet.tweetId

/-- A row with its key. -/
structure StoredTweet extends Arrival where
  id : ℕ

namespace StoredTweet

/-- The largest key counts on. -/
def nextId (rows : List StoredTweet) : ℕ := (rows.map StoredTweet.id).foldr max 0 + 1

end StoredTweet

section Table

variable [SqlFormat F]

/-- The `raw_tweets` table of the migrated database. -/
def rawTweetsStore : Table F := migrated.tableOf "raw_tweets" rawTweetsTable

def StoredTweet.stored (row : StoredTweet) : Row F :=
  storedRow rawTweetsStore row.id row.tweet.values row.createdAt

/-- `_persist_raw_tweet`: a violated constraint counts as a duplicate, any other failure goes
on to the caller. -/
def captureTweet (rows : List (Row F)) (arrival : Arrival) :
    Except Failure (List (Row F) × Option ℤ) :=
  match (rawTweetsStore : Table F).exec rows (.insert arrival.tweet.values arrival.createdAt) with
  | .ok rows' => .ok (rows', some ((rawTweetsStore : Table F).nextKey rows))
  | .error (.constraint _) => .ok (rows, none)
  | .error failure => .error failure

/-- The captures of a stream; the keys of the new rows are what `run_ingestion` pushes. -/
def captureTweets (rows : List (Row F)) : List Arrival → Except Failure (List (Row F) × List ℤ)
  | [] => .ok (rows, [])
  | arrival :: stream => do
    let first ← captureTweet rows arrival
    let rest ← captureTweets first.1 stream
    .ok (rest.1, first.2.toList ++ rest.2)

/-- The rows of arrivals from a key on. -/
def numberedFrom (key : ℕ) (arrivals : List Arrival) : List StoredTweet :=
  arrivals.mapIdx fun i arrival => ⟨arrival, key + i⟩

/-- The table with the row of one more arrival. -/
def appendArrival (rows : List StoredTweet) (arrival : Arrival) : List StoredTweet :=
  rows ++ [⟨arrival, StoredTweet.nextId rows⟩]

theorem rawTweetsStore_uniques : (rawTweetsStore : Table F).uniques =
    [("pk_raw_tweets", ["id"]), ("ix_raw_tweets_tweet_id", ["tweet_id"])] := by
  rw [rawTweetsStore, tableOf_uniques]
  simp [rawTweetsTable, uniqueIndexes]

theorem nextKey_rawTweets (rows : List StoredTweet) :
    (rawTweetsStore : Table F).nextKey (rows.map StoredTweet.stored) =
      (StoredTweet.nextId rows : ℕ) :=
  nextKey_map StoredTweet.id (fun _ => rfl) rows

theorem newRow_rawTweets (rows : List StoredTweet) (arrival : Arrival) :
    (rawTweetsStore : Table F).newRow (rows.map StoredTweet.stored) arrival.tweet.values
        arrival.createdAt = StoredTweet.stored ⟨arrival, StoredTweet.nextId rows⟩ := by
  rw [newRow_eq_storedRow rfl rfl rfl rfl, nextKey_rawTweets]
  rfl

/-- The table has no CHECK, and a tweet binds every column that is NOT NULL. -/
theorem StoredTweet.admits_stored (row : StoredTweet) :
    (rawTweetsStore : Table F).Admits row.stored := by
  refine ⟨rfl, ?_, ?_⟩
  · simp only [stored, storedRow, Table.stored, Value.isNull_storeAs]
    simp only [rawTweetsStore, Catalog.tableOf, rawTweetsTable, List.forall_mem_cons]
    simp [column, nullableColumn, timestampColumn, RawTweet.values, Value.isNull,
      List.lookup_cons]
  · intro c hc
    cases hc

theorem StoredTweet.apart_stored (r row : StoredTweet) :
    (rawTweetsStore : Table F).Apart r.stored row.stored ↔
      r.id ≠ row.id ∧ r.tweetId ≠ row.tweetId := by
  have hid (r : StoredTweet) : (r.stored : Row F) "id" = .int r.id := rfl
  have htweet (r : StoredTweet) : (r.stored : Row F) "tweet_id" = .text r.tweetId := rfl
  simp [Table.Apart, rawTweetsStore_uniques, Table.conflicts, hid, htweet, Value.compare,
    Operator.onInts, Operator.onTexts]

variable {rows : List StoredTweet} {arrival : Arrival}

theorem violation_rawTweets : (rawTweetsStore : Table F).violation (rows.map StoredTweet.stored)
    (StoredTweet.stored ⟨arrival, StoredTweet.nextId rows⟩) = none ↔
      arrival.tweetId ∉ rows.map (·.tweetId) := by
  have hfresh : ∀ r ∈ rows, r.id ≠ StoredTweet.nextId rows := fun r hr =>
    (lt_foldr_max_succ (List.mem_map_of_mem hr)).ne
  rw [Table.violation_eq_none, List.forall_mem_map]
  simp only [StoredTweet.admits_stored, true_and, StoredTweet.apart_stored, List.mem_map,
    not_exists, not_and]
  exact ⟨fun h r hr => (h r hr).2, fun h r hr => ⟨hfresh r hr, h r hr⟩⟩

/-- One capture: the only constraint that can refuse a tweet is that its id is there. -/
theorem captureTweet_stored (rows : List StoredTweet) (arrival : Arrival) :
    captureTweet (F := F) (rows.map StoredTweet.stored) arrival =
      if arrival.tweetId ∈ rows.map (·.tweetId) then
        .ok (rows.map StoredTweet.stored, none)
      else .ok ((appendArrival rows arrival).map StoredTweet.stored,
        some (StoredTweet.nextId rows)) := by
  have hcolumns : (rawTweetsStore : Table F).knows arrival.tweet.values = true := by
    simp [Table.knows, RawTweet.values, rawTweetsStore, Catalog.tableOf, rawTweetsTable, column,
      nullableColumn, timestampColumn]
  delta captureTweet
  simp only [Table.exec, hcolumns, if_true, newRow_rawTweets, nextKey_rawTweets]
  by_cases hknown : arrival.tweetId ∈ rows.map (·.tweetId)
  · rw [if_pos hknown]
    cases hv : (rawTweetsStore : Table F).violation (rows.map StoredTweet.stored)
        (StoredTweet.stored ⟨arrival, StoredTweet.nextId rows⟩) with
    | none => exact absurd hknown (violation_rawTweets.mp hv)
    | some name => rfl
  · rw [if_neg hknown, violation_rawTweets.mpr hknown]
    simp [appendArrival]

/-- The rows that a stream adds: one for each id that is not there yet, from its first arrival,
with keys that count on. -/
def newRows (rows : List StoredTweet) (stream : List Arrival) : List StoredTweet :=
  numberedFrom (StoredTweet.nextId rows) (firsts Arrival.tweetId (rows.map (·.tweetId)) stream)

theorem nextId_appendArrival (rows : List StoredTweet) (arrival : Arrival) :
    StoredTweet.nextId (appendArrival rows arrival) = StoredTweet.nextId rows + 1 := by
  have hmax (keys : List ℕ) (key : ℕ) : keys.foldr max key = max (keys.foldr max 0) key := by
    induction keys with
    | nil => simp
    | cons k keys ih => rw [List.foldr_cons, List.foldr_cons, ih, max_assoc]
  simp only [StoredTweet.nextId, appendArrival, List.map_append, List.map_singleton,
    List.foldr_append, List.foldr_cons, List.foldr_nil, hmax _ (max _ 0)]
  omega

theorem numberedFrom_cons (key : ℕ) (arrival : Arrival) (stream : List Arrival) :
    numberedFrom key (arrival :: stream) =
      ⟨arrival, key⟩ :: numberedFrom (key + 1) stream := by
  simp [numberedFrom, List.mapIdx_cons, add_assoc, add_comm 1]

theorem newRows_known {stream : List Arrival} (h : arrival.tweetId ∈ rows.map (·.tweetId)) :
    newRows rows (arrival :: stream) = newRows rows stream := by
  rw [newRows, firsts_cons_known h, newRows]

theorem newRows_new {stream : List Arrival} (h : arrival.tweetId ∉ rows.map (·.tweetId)) :
    newRows rows (arrival :: stream) =
      ⟨arrival, StoredTweet.nextId rows⟩ :: newRows (appendArrival rows arrival) stream := by
  rw [newRows, firsts_cons_new h, numberedFrom_cons, newRows, nextId_appendArrival]
  congr 2
  apply firsts_congr
  intro x
  simp [appendArrival, or_comm]

theorem captureTweets_stored (rows : List StoredTweet) (stream : List Arrival) :
    captureTweets (F := F) (rows.map StoredTweet.stored) stream =
      .ok ((rows ++ newRows rows stream).map StoredTweet.stored,
        (newRows rows stream).map fun row => (row.id : ℤ)) := by
  induction stream generalizing rows with
  | nil => simp [captureTweets, newRows, numberedFrom]
  | cons arrival stream ih =>
    rw [captureTweets, captureTweet_stored]
    by_cases hknown : arrival.tweetId ∈ rows.map (·.tweetId)
    · rw [if_pos hknown, newRows_known hknown]
      exact Results.bind_ok_iff.mpr ⟨_, rfl, Results.bind_ok_iff.mpr ⟨_, ih rows, rfl⟩⟩
    · have hrows : rows ++ ⟨arrival, StoredTweet.nextId rows⟩ ::
            newRows (appendArrival rows arrival) stream =
          appendArrival rows arrival ++ newRows (appendArrival rows arrival) stream := by
        simp [appendArrival]
      rw [if_neg hknown, newRows_new hknown, hrows]
      exact Results.bind_ok_iff.mpr ⟨_, rfl, Results.bind_ok_iff.mpr
        ⟨_, ih (appendArrival rows arrival), rfl⟩⟩

end Table

/-! ### The run of the ingestion -/

section Run

open Ingestion

/-- The row as the loop keeps it. -/
def StoredTweet.captured (row : StoredTweet) : RawTweetRow := ⟨row.tweet, row.id⟩

/-- A delivery and the time of its row. -/
def delivered (d : Delivery × String) : Arrival := ⟨d.1.tweet, d.2⟩

/-- The ids of the new rows are those that the table gives out. -/
def KeysFrom (rows : List StoredTweet) : List (Delivery × String) → Prop
  | [] => True
  | d :: stream =>
    if d.1.tweetId ∈ rows.map (·.tweetId) then KeysFrom rows stream
    else d.1.rowId = StoredTweet.nextId rows ∧ KeysFrom (appendArrival rows (delivered d)) stream

instance decidableKeysFrom (rows : List StoredTweet) :
    (stream : List (Delivery × String)) → Decidable (KeysFrom rows stream)
  | [] => .isTrue trivial
  | d :: stream =>
    have := decidableKeysFrom rows stream
    have := decidableKeysFrom (appendArrival rows (delivered d)) stream
    inferInstanceAs (Decidable (if d.1.tweetId ∈ rows.map (·.tweetId) then KeysFrom rows stream
      else d.1.rowId = StoredTweet.nextId rows ∧
        KeysFrom (appendArrival rows (delivered d)) stream))

/-- What a run leaves when it consumes these deliveries: their new rows in the table and the
keys of these in the queue, both in order, and a report that counts them. -/
structure Leaves (rows : List StoredTweet) (consumed : List (Delivery × String))
    (start out : RunStores F × IngestionReport F) : Prop where
  tweets : out.1.tweets =
    (rows ++ newRows rows (consumed.map delivered)).map StoredTweet.captured
  queue : out.1.queue =
    start.1.queue ++ (newRows rows (consumed.map delivered)).map fun row => (row.id : ℤ)
  persisted : out.2.persisted =
    start.2.persisted + (newRows rows (consumed.map delivered)).length
  handled : out.2.persisted + out.2.duplicates =
    start.2.persisted + start.2.duplicates + consumed.length

variable {rows : List StoredTweet} {cfg : Config F} {st : RunStores F}
  {report : IngestionReport F} {d : Delivery × String} {consumed : List (Delivery × String)}
  {start out : RunStores F × IngestionReport F}

omit [PyFloat F] in
theorem Leaves.nothing (htweets : out.1.tweets = rows.map StoredTweet.captured)
    (hqueue : out.1.queue = start.1.queue) (hpersisted : out.2.persisted = start.2.persisted)
    (hduplicates : out.2.duplicates = start.2.duplicates) : Leaves rows [] start out := by
  constructor <;> simp [newRows, numberedFrom, htweets, hqueue, hpersisted, hduplicates]

omit [PyFloat F] in
theorem Leaves.duplicate (hknown : d.1.tweetId ∈ rows.map (·.tweetId))
    (h : Leaves rows consumed (st, { report with duplicates := report.duplicates + 1 }) out) :
    Leaves rows (d :: consumed) (st, report) out := by
  have hadded : newRows rows ((d :: consumed).map delivered) =
      newRows rows (consumed.map delivered) := newRows_known hknown
  refine ⟨hadded ▸ h.tweets, hadded ▸ h.queue, hadded ▸ h.persisted, h.handled.trans ?_⟩
  rw [List.length_cons]
  dsimp only
  omega

theorem tweets_insert (cfg : Config F) (hid : d.1.rowId = StoredTweet.nextId rows)
    (htweets : st.tweets = rows.map StoredTweet.captured) : (st.insert cfg d.1).tweets =
      (appendArrival rows (delivered d)).map StoredTweet.captured := by
  rw [RunStores.insert, htweets, Delivery.row, hid, appendArrival, List.map_append]
  rfl

theorem Leaves.inserted (cfg : Config F) (hnew : d.1.tweetId ∉ rows.map (·.tweetId))
    (hid : d.1.rowId = StoredTweet.nextId rows)
    (h : Leaves (appendArrival rows (delivered d)) consumed
      (st.insert cfg d.1, { report with persisted := report.persisted + 1 }) out) :
    Leaves rows (d :: consumed) (st, report) out := by
  have hadded : newRows rows ((d :: consumed).map delivered) =
      ⟨delivered d, StoredTweet.nextId rows⟩ ::
        newRows (appendArrival rows (delivered d)) (consumed.map delivered) := newRows_new hnew
  constructor
  · rw [h.tweets, hadded, appendArrival, List.append_assoc, List.singleton_append]
  · rw [h.queue, hadded, RunStores.insert, hid, List.append_assoc, List.map_cons,
      List.singleton_append]
  · rw [h.persisted, hadded, List.length_cons]
    dsimp only
    omega
  · rw [h.handled, List.length_cons]
    dsimp only
    omega

/-- A loop consumes a part of its stream, and all of it unless it stops. -/
theorem loop_leaves (cfg : Config F) (report : IngestionReport F)
    (stream : List (Delivery × String)) (hkeys : KeysFrom rows stream)
    (htweets : st.tweets = rows.map StoredTweet.captured) :
    let out := loop cfg (st, report) (stream.map Prod.fst)
    ∃ consumed, consumed <+: stream ∧ Leaves rows consumed (st, report) out ∧
      (out.2.stoppedReason = none → consumed = stream) := by
  induction stream generalizing rows st report with
  | nil => exact ⟨[], List.prefix_refl _, .nothing htweets rfl rfl rfl, fun _ => rfl⟩
  | cons d stream ih =>
    have hids : st.tweetIds = rows.map (·.tweetId) := by
      rw [RunStores.tweetIds, htweets, List.map_map]
      rfl
    rw [KeysFrom] at hkeys
    rw [List.map_cons]
    by_cases hactive : (isActive d.1.env st.redisFlag st.events).active = true
    · rw [loop_done (iteration_active hactive)]
      refine ⟨[], List.nil_prefix, .nothing htweets rfl rfl rfl, fun h => ?_⟩
      cases h
    rw [Bool.not_eq_true] at hactive
    by_cases hknown : d.1.tweetId ∈ rows.map (·.tweetId)
    · rw [loop_yield (iteration_duplicate hactive (hids ▸ hknown))]
      rw [if_pos hknown] at hkeys
      obtain ⟨consumed, hstream, hleaves, hend⟩ := ih _ hkeys htweets
      exact ⟨d :: consumed, (List.prefix_cons_inj d).mpr hstream, hleaves.duplicate hknown,
        fun h => congrArg _ (hend h)⟩
    · rw [if_neg hknown] at hkeys
      have hinsert := tweets_insert cfg hkeys.1 htweets
      have hstep : iteration cfg d.1 st report = _ :=
        iteration_inserted hactive (hids ▸ hknown)
      dsimp only at hstep
      split_ifs at hstep
      · -- the breach ends the loop behind the tweet that it has captured
        rw [loop_done hstep]
        refine ⟨[d], (List.prefix_cons_inj d).mpr List.nil_prefix,
          .inserted cfg hknown hkeys.1 ?_, fun h => ?_⟩
        · exact .nothing hinsert rfl rfl rfl
        · cases h
      · rw [loop_yield hstep]
        obtain ⟨consumed, hstream, hleaves, hend⟩ := ih _ hkeys.2 hinsert
        exact ⟨d :: consumed, (List.prefix_cons_inj d).mpr hstream,
          hleaves.inserted cfg hknown hkeys.1, fun h => congrArg _ (hend h)⟩

/-- A run of the ingestion is a sequence of INSERTs into the migrated table, one for each
delivery of a first part of the stream, which is all of it unless the run stops. The database
refuses exactly the deliveries that the report counts as duplicates, whose ids are there; each
other one is persisted and its key pushed, in order. -/
theorem runIngestion_refines [SqlFormat F] (cfg : Config F) (rows : List StoredTweet)
    (st : RunStores F) (stream : List (Delivery × String)) (hkeys : KeysFrom rows stream)
    (htweets : st.tweets = rows.map StoredTweet.captured) :
    let out := runIngestion cfg st (stream.map Prod.fst)
    ∃ consumed, consumed <+: stream ∧ (out.2.stoppedReason = none → consumed = stream) ∧
      ∃ rows' keys, captureTweets (F := F) (rows.map StoredTweet.stored)
          (consumed.map delivered) = .ok (rows'.map StoredTweet.stored, keys) ∧
        rows' = rows ++ newRows rows (consumed.map delivered) ∧
        out.1.tweets = rows'.map StoredTweet.captured ∧ out.1.queue = st.queue ++ keys ∧
        out.2.persisted = keys.length ∧
        out.2.persisted + out.2.duplicates = consumed.length := by
  obtain ⟨consumed, hstream, hleaves, hend⟩ := loop_leaves cfg ⟨0, 0, none⟩ stream hkeys
    htweets
  refine ⟨consumed, hstream, hend, _, _, captureTweets_stored rows _, rfl, hleaves.tweets,
    hleaves.queue, ?_, ?_⟩
  · exact hleaves.persisted.trans (by simp)
  · exact hleaves.handled.trans (by simp)

def paperNow : String := "2026-04-24 12:00:00"

/-- A known tweet, a new one twice, and the new one that reaches the limit. -/
def paperArrivals : List (Delivery × String) :=
  [("t1", 2), ("t2", 2), ("t2", 3), ("t3", 3), ("t4", 4)].map fun t =>
    (paperDeliveryOf t.1 t.2, paperNow)

theorem runIngestion_refines_breach :
    let out := runIngestion ⟨1, 2, fun _ _ => "budget"⟩ paperStores (paperArrivals.map Prod.fst)
    out.1.queue = [2, 3] ∧ ∃ consumed, consumed <+: paperArrivals ∧
      ∃ (rows' : List StoredTweet) (keys : List ℤ),
      captureTweets (F := ℚ) ([⟨⟨paperTweet, paperNow⟩, 1⟩].map StoredTweet.stored)
          (consumed.map delivered) = .ok (rows'.map StoredTweet.stored, keys) ∧
        out.1.tweets = rows'.map StoredTweet.captured ∧ out.1.queue = keys := by
  refine ⟨by decide +kernel, ?_⟩
  obtain ⟨consumed, hstream, -, rows', keys, hcapture, -, htweets, hqueue, -⟩ :=
    runIngestion_refines (⟨1, 2, fun _ _ => "budget"⟩ : Ingestion.Config ℚ)
      [⟨⟨paperTweet, paperNow⟩, 1⟩] paperStores paperArrivals (by decide +kernel) rfl
  exact ⟨consumed, hstream, rows', keys, hcapture, htweets, hqueue⟩

end Run

end XSocialTrader
