import XSocialTrader.Models.StoredTweets
import XSocialTrader.Providers.TwitterApiIo

/-! From the messages of the feed to the rows of `raw_tweets`: connections are refused, lost and
opened again, and what they bring more than once is stored once. -/
namespace XSocialTrader

open FirstSeen Ingestion

variable {F δ : Type} [PyFloat F]

/-- The messages that the loop over a connection gets through. -/
def Connection.read (rt : FeedRuntime F δ) : Connection δ → List (WsMessage × δ)
  | .refused _ => []
  | .opened messages _ => messages.takeWhile fun m => (handle rt m.1 m.2).isOk

/-- What `subscribe` yields. -/
def feedTweets (rt : FeedRuntime F δ) (attempts : List (WsAttempt δ)) : List (FeedTweet F δ) :=
  (subscribe rt wsBackoffInitial attempts).flatMap (·.outputs)

/-- What the driver binds for the DTO: `timestamp` writes its time and `json.dumps` the message. A
text with a lone surrogate does not encode. -/
def FeedTweet.bound (timestamp : δ → String) (t : FeedTweet F δ) : Option RawTweet := do
  let tweetId ← Json.string? t.tweetId
  let xUserId ← Json.string? t.xUserId
  let username ← Json.string? t.username
  let content ← Json.string? t.content
  let lang ← t.lang.mapM Json.string?
  let rawJson ← Json.string? (jsonDumps (ofJson (.object t.rawJson)))
  return ⟨tweetId, xUserId, username, content, lang, rawJson, timestamp t.receivedAt⟩

/-- A connection that `subscribe` makes serves the tweet. -/
def Serves (rt : FeedRuntime F δ) (attempts : List (WsAttempt δ)) (t : FeedTweet F δ) : Prop :=
  ∃ a ∈ made rt attempts, ∃ m ∈ a.connection.read rt, tweetOf rt m = some t

/-- A tweet as an iteration of the ingestion gets it, with what it meets outside the stores and
the time of the row. -/
structure FeedDelivery (F δ : Type) where
  tweet : FeedTweet F δ
  env : Option String
  rowId : ℤ
  now : UtcDateTime
  createdAt : String

def FeedDelivery.bound (timestamp : δ → String) (d : FeedDelivery F δ) :
    Option (Delivery × String) :=
  (d.tweet.bound timestamp).map fun tweet => (⟨tweet, d.env, d.rowId, d.now⟩, d.createdAt)

/-- The kill-switch check of an iteration whose INSERT then fails to bind. -/
def unboundIteration (d : FeedDelivery F δ) (st : RunStores F) (report : IngestionReport F) :
    Except PyExc (IngestionReport F) :=
  let state := isActive d.env st.redisFlag st.events
  if state.active then
    .ok { report with stoppedReason := some (.killSwitchActive state.source) }
  else .error .unicodeEncodeError

/-- The loop of `run_ingestion` over what `subscribe` yields. -/
def feedLoop (cfg : Ingestion.Config F) (timestamp : δ → String) :
    RunStores F × IngestionReport F → List (FeedDelivery F δ) →
      RunStores F × Except PyExc (IngestionReport F)
  | (st, report), [] => (st, .ok report)
  | (st, report), d :: ds =>
    match d.bound timestamp with
    | none => (st, unboundIteration d st report)
    | some delivery => match iteration cfg delivery.1 st report with
      | .done (st, report) => (st, .ok report)
      | .yield out => feedLoop cfg timestamp out ds

def ingestFeed (cfg : Ingestion.Config F) (timestamp : δ → String) (st : RunStores F)
    (stream : List (FeedDelivery F δ)) : RunStores F × Except PyExc (IngestionReport F) :=
  feedLoop cfg timestamp (st, ⟨0, 0, none⟩) stream

/-- The deliveries before the first that does not encode. -/
def encodable (timestamp : δ → String) : List (FeedDelivery F δ) → List (Delivery × String)
  | [] => []
  | d :: ds => match d.bound timestamp with
    | none => []
    | some delivery => delivery :: encodable timestamp ds

section Feed

variable {rt : FeedRuntime F δ}

theorem serve_tweets (messages : List (WsMessage × δ)) (closing : Option PyExc) :
    (serve rt messages closing).tweets =
      (messages.takeWhile fun m => (handle rt m.1 m.2).isOk).filterMap (tweetOf rt) := by
  induction messages with
  | nil => rfl
  | cons m rest ih =>
    rw [List.takeWhile_cons]
    cases hout : handle rt m.1 m.2 with
    | error exc => simp [serve, hout, Except.isOk, Except.toBool]
    | ok out =>
      simp only [serve, hout, ih, Except.isOk, Except.toBool, if_true, List.filterMap_cons,
        tweetOf, Except.toOption]
      cases out <;> rfl

theorem Connection.serve_tweets (c : Connection δ) :
    (c.serve rt).tweets = (c.read rt).filterMap (tweetOf rt) := by
  cases c with
  | refused exc => rfl
  | opened messages closing => exact XSocialTrader.serve_tweets messages closing

theorem feedTweets_eq (attempts : List (WsAttempt δ)) : feedTweets rt attempts =
    (made rt attempts).flatMap fun a => (a.connection.read rt).filterMap (tweetOf rt) := by
  have hrun (pause : ℕ) (as : List (Backoff.Attempt (FeedTweet F δ))) :
      (Backoff.run wsBackoffInitial wsBackoffMax pause as).flatMap (·.outputs) =
        as.flatMap (·.outputs) := by
    induction as generalizing pause with
    | nil => rfl
    | cons a as ih =>
      rw [Backoff.run]
      split_ifs <;> rw [List.flatMap_cons, ih, List.flatMap_cons]
  rw [feedTweets, subscribe_eq_run, hrun, List.flatMap_map]
  simp only [WsAttempt.round, Connection.serve_tweets]

theorem mem_feedTweets_iff (attempts : List (WsAttempt δ)) (t : FeedTweet F δ) :
    t ∈ feedTweets rt attempts ↔ Serves rt attempts t := by
  simp only [feedTweets_eq, List.mem_flatMap, List.mem_filterMap, Serves]

end Feed

section Rows

theorem map_numberedFrom (key : ℕ) (stream : List Arrival) :
    (numberedFrom key stream).map (·.tweetId) = stream.map Arrival.tweetId := by
  induction stream generalizing key with
  | nil => rfl
  | cons arrival stream ih => rw [numberedFrom_cons, List.map_cons, List.map_cons, ih]

theorem mem_newRows_iff {rows : List StoredTweet} {stream : List Arrival} {tweetId : String} :
    tweetId ∈ (newRows rows stream).map (·.tweetId) ↔
      tweetId ∉ rows.map (·.tweetId) ∧ tweetId ∈ stream.map Arrival.tweetId := by
  rw [newRows, map_numberedFrom, mem_map_firsts]

/-- A table without doublets stays so. -/
theorem nodup_newRows {rows : List StoredTweet} (h : (rows.map (·.tweetId)).Nodup)
    (stream : List Arrival) : ((rows ++ newRows rows stream).map (·.tweetId)).Nodup := by
  rw [List.map_append, List.nodup_append']
  refine ⟨h, ?_, fun tweetId hrow hnew => (mem_newRows_iff.mp hnew).1 hrow⟩
  rw [newRows, map_numberedFrom]
  exact nodup_map_firsts

end Rows

theorem tweetId_of_bound {timestamp : δ → String} {t : FeedTweet F δ} {tweet : RawTweet}
    (h : t.bound timestamp = some tweet) : Json.string? t.tweetId = some tweet.tweetId := by
  simp only [FeedTweet.bound, bind, Option.bind_eq_some_iff] at h
  obtain ⟨tweetId, hid, _, -, _, -, _, -, _, -, _, -, hrow⟩ := h
  rw [hid, ← Option.some.inj hrow]

section Loop

variable {cfg : Ingestion.Config F} {timestamp : δ → String} {d : FeedDelivery F δ}
  {ds : List (FeedDelivery F δ)} {st : RunStores F} {report : IngestionReport F}

omit [PyFloat F] in
theorem unboundIteration_ok {out : IngestionReport F} (h : unboundIteration d st report = .ok out) :
    out.stoppedReason.isSome = true := by
  simp only [unboundIteration] at h
  split_ifs at h
  obtain rfl := Except.ok.inj h
  rfl

omit [PyFloat F] in
theorem unboundIteration_error {exc : PyExc} (h : unboundIteration d st report = .error exc) :
    exc = .unicodeEncodeError := by
  simp only [unboundIteration] at h
  split_ifs at h
  exact (Except.error.inj h).symm

/-- The loop handles the deliveries that encode as it would alone, and unless it stops there it
meets the next one, if there is one. -/
theorem feedLoop_eq (hgoing : report.stoppedReason = none) :
    let out := loop cfg (st, report) ((encodable timestamp ds).map Prod.fst)
    feedLoop cfg timestamp (st, report) ds =
      (out.1, if out.2.stoppedReason.isSome then .ok out.2
        else match ds[(encodable timestamp ds).length]? with
          | none => .ok out.2
          | some d => unboundIteration d out.1 out.2) := by
  induction ds generalizing st report with
  | nil => simp [feedLoop, encodable, loop]
  | cons d ds ih =>
    cases hbound : d.bound timestamp with
    | none => simp [feedLoop, encodable, loop, hbound, hgoing]
    | some delivery =>
      simp only [feedLoop, encodable, hbound, List.map_cons, List.length_cons,
        List.getElem?_cons_succ]
      cases hstep : iteration cfg delivery.1 st report with
      | done out =>
        simp only [loop_done hstep, iteration_done hstep, if_true]
      | yield out =>
        rw [loop_yield hstep]
        exact ih ((iteration_yield hstep).trans hgoing)

/-- The ids of the deliveries that encode are ids of tweets of the stream. -/
theorem exists_of_mem_encodable {x : Delivery × String} (h : x ∈ encodable timestamp ds) :
    ∃ d ∈ ds, d.tweet.bound timestamp = some x.1.tweet := by
  induction ds with
  | nil => cases h
  | cons d ds ih =>
    rw [encodable] at h
    cases hbound : d.bound timestamp with
    | none =>
      rw [hbound] at h
      cases h
    | some delivery =>
      rw [hbound] at h
      rcases List.mem_cons.mp h with rfl | h
      · obtain ⟨tweet, htweet, rfl⟩ := Option.map_eq_some_iff.mp hbound
        exact ⟨d, List.mem_cons_self, htweet⟩
      · obtain ⟨d', hd', htweet⟩ := ih h
        exact ⟨d', List.mem_cons_of_mem d hd', htweet⟩

/-- What stands before the first delivery that does not encode, and what does not. -/
theorem encodable_split (timestamp : δ → String) (ds : List (FeedDelivery F δ)) :
    ∃ before after, ds = before ++ after ∧ before.length = (encodable timestamp ds).length ∧
      (∀ d ∈ before, ∃ x ∈ encodable timestamp ds,
        d.tweet.bound timestamp = some x.1.tweet) ∧
      ∀ d, after.head? = some d → d.tweet.bound timestamp = none := by
  induction ds with
  | nil => exact ⟨[], [], rfl, rfl, by simp, by simp⟩
  | cons d ds ih =>
    cases hbound : d.bound timestamp with
    | none =>
      refine ⟨[], d :: ds, rfl, by simp [encodable, hbound], by simp, fun d' hd' => ?_⟩
      obtain rfl := Option.some.inj hd'
      exact Option.map_eq_none_iff.mp hbound
    | some delivery =>
      obtain ⟨before, after, hsplit, hlen, hbefore, hafter⟩ := ih
      obtain ⟨tweet, htweet, rfl⟩ := Option.map_eq_some_iff.mp hbound
      refine ⟨d :: before, after, by rw [hsplit, List.cons_append],
        by simp [encodable, hbound, hlen], ?_, hafter⟩
      simp only [encodable, hbound, List.forall_mem_cons]
      refine ⟨⟨_, List.mem_cons_self, htweet⟩, fun d' hd' => ?_⟩
      obtain ⟨x, hx, hx'⟩ := hbefore d' hd'
      exact ⟨x, List.mem_cons_of_mem _ hx, hx'⟩

/-- A run ends with the loop over the deliveries that encode. When that has not stopped, the run
has come to the end of the stream, or it raises at the first delivery that does not encode. -/
theorem ingestFeed_ends (cfg : Ingestion.Config F) (timestamp : δ → String) (st : RunStores F)
    (ds : List (FeedDelivery F δ)) :
    let out := ingestFeed cfg timestamp st ds
    let looped := loop cfg (st, ⟨0, 0, none⟩) ((encodable timestamp ds).map Prod.fst)
    ∃ before after, ds = before ++ after ∧
      (∀ d ∈ before, ∃ x ∈ encodable timestamp ds, d.tweet.bound timestamp = some x.1.tweet) ∧
      out.1 = looped.1 ∧
      (∀ report, out.2 = .ok report → report.stoppedReason = none →
        looped.2.stoppedReason = none ∧ after = []) ∧
      (∀ exc, out.2 = .error exc → exc = .unicodeEncodeError ∧ looped.2.stoppedReason = none ∧
        ∃ d rest, after = d :: rest ∧ d.tweet.bound timestamp = none) := by
  intro out looped
  obtain ⟨before, after, hsplit, hlen, hbefore, hafter⟩ := encodable_split timestamp ds
  have hout : out = _ := feedLoop_eq rfl
  have hnext : ds[(encodable timestamp ds).length]? = after.head? := by
    nth_rewrite 1 [hsplit]
    rw [← hlen, List.getElem?_append_right le_rfl, Nat.sub_self, List.head?_eq_getElem?]
  rw [hnext] at hout
  refine ⟨before, after, hsplit, hbefore, congrArg Prod.fst hout, ?_⟩
  have hresult := congrArg Prod.snd hout
  cases hstop : looped.2.stoppedReason with
  | some reason =>
    have hok : out.2 = .ok looped.2 := by
      rw [hresult]
      exact if_pos (by rw [hstop]; rfl)
    refine ⟨fun report h hgoing => ?_, fun exc h => ?_⟩
    · rw [hok] at h
      obtain rfl := Except.ok.inj h
      exact absurd (hstop.symm.trans hgoing) (by simp)
    · rw [hok] at h
      cases h
  | none =>
    have hgoing : looped.2.stoppedReason.isSome ≠ true := by simp [hstop]
    replace hresult := hresult.trans (if_neg hgoing)
    cases after with
    | nil =>
      refine ⟨fun _ _ _ => ⟨rfl, rfl⟩, fun exc h => ?_⟩
      rw [hresult] at h
      cases h
    | cons d rest =>
      -- Only the kill switch ends a run in front of such a delivery without an exception.
      refine ⟨fun report h hnone => ?_, fun exc h => ?_⟩
      · have hstopped := unboundIteration_ok (hresult.symm.trans h)
        rw [hnone] at hstopped
        cases hstopped
      · exact ⟨unboundIteration_error (hresult.symm.trans h), rfl, d, rest, rfl, hafter d rfl⟩

end Loop

/-- Whatever the connections of the feed bring, drop and bring again: a run over the tweets that
`subscribe` yields stores no other id than one that was there or that a connection has served,
none of them twice, and unless it stops all of them. It raises at the first tweet with a text
that does not encode, behind all that was served before it. What it pushes is the keys of the
rows that it adds. -/
theorem feed_stored_once (rt : FeedRuntime F δ) (timestamp : δ → String)
    (attempts : List (WsAttempt δ)) (cfg : Ingestion.Config F) (rows : List StoredTweet)
    (st : RunStores F) (stream : List (FeedDelivery F δ))
    (hstream : stream.map FeedDelivery.tweet = feedTweets rt attempts)
    (hkeys : KeysFrom rows (encodable timestamp stream))
    (htweets : st.tweets = rows.map StoredTweet.captured)
    (hnodup : (rows.map (·.tweetId)).Nodup) :
    let out := ingestFeed cfg timestamp st stream
    let stored := fun t : FeedTweet F δ => ∃ tweet, t.bound timestamp = some tweet ∧
      tweet.tweetId ∈ out.1.tweetIds
    (∀ tweetId ∈ out.1.tweetIds, tweetId ∈ st.tweetIds ∨
      ∃ t, Serves rt attempts t ∧ Json.string? t.tweetId = some tweetId) ∧
      out.1.tweetIds.Nodup ∧
      (∀ report, out.2 = .ok report → report.stoppedReason = none →
        ∀ t, Serves rt attempts t → stored t) ∧
      (∀ exc, out.2 = .error exc → exc = .unicodeEncodeError ∧
        ∃ (before : List (FeedTweet F δ)) (t : FeedTweet F δ) (after : List (FeedTweet F δ)),
          feedTweets rt attempts = before ++ t :: after ∧ (∀ t' ∈ before, stored t') ∧
            t.bound timestamp = none) ∧
      ∃ added, out.1.tweets = st.tweets ++ added ∧
        out.1.queue = st.queue ++ added.map (·.id) := by
  intro out stored
  obtain ⟨before, after, hsplit, hbefore, hstores, hok, herror⟩ :=
    ingestFeed_ends cfg timestamp st stream
  obtain ⟨consumed, hpart, hleaves, hend⟩ :=
    loop_leaves cfg ⟨0, 0, none⟩ (encodable timestamp stream) hkeys htweets
  have hids : out.1.tweetIds =
      (rows ++ newRows rows (consumed.map delivered)).map (·.tweetId) := by
    rw [RunStores.tweetIds, hstores, hleaves.tweets, List.map_map]
    rfl
  have hstored : st.tweetIds = rows.map (·.tweetId) := by
    rw [RunStores.tweetIds, htweets, List.map_map]
    rfl
  have hall (hgoing : (loop cfg (st, ⟨0, 0, none⟩)
      ((encodable timestamp stream).map Prod.fst)).2.stoppedReason = none) :
      ∀ d ∈ before, stored d.tweet := by
    intro d hd
    obtain ⟨x, hx, hbound⟩ := hbefore d hd
    refine ⟨x.1.tweet, hbound, ?_⟩
    rw [hids, hend hgoing, List.map_append, List.mem_append]
    by_cases hold : x.1.tweet.tweetId ∈ rows.map (·.tweetId)
    · exact Or.inl hold
    · refine Or.inr (mem_newRows_iff.mpr ⟨hold, ?_⟩)
      exact List.mem_map_of_mem (List.mem_map_of_mem (f := delivered) hx)
  refine ⟨fun tweetId hmem => ?_, ?_, fun report hreport hgoing t ht => ?_,
    fun exc hexc => ?_, ?_⟩
  · rw [hids, List.map_append, List.mem_append] at hmem
    refine hmem.imp (fun h => hstored ▸ h) fun hnew => ?_
    obtain ⟨arrival, harrival, rfl⟩ := List.mem_map.mp (mem_newRows_iff.mp hnew).2
    obtain ⟨x, hx, rfl⟩ := List.mem_map.mp harrival
    obtain ⟨d, hd, hbound⟩ := exists_of_mem_encodable (hpart.subset hx)
    refine ⟨d.tweet, ?_, tweetId_of_bound hbound⟩
    rw [← mem_feedTweets_iff, ← hstream]
    exact List.mem_map_of_mem hd
  · rw [hids]
    exact nodup_newRows hnodup _
  · obtain ⟨hnone, rfl⟩ := hok report hreport hgoing
    rw [← mem_feedTweets_iff, ← hstream, hsplit, List.append_nil] at ht
    obtain ⟨d, hd, rfl⟩ := List.mem_map.mp ht
    exact hall hnone d hd
  · obtain ⟨hunicode, hnone, d, rest, rfl, hbound⟩ := herror exc hexc
    refine ⟨hunicode, before.map FeedDelivery.tweet, d.tweet, rest.map FeedDelivery.tweet, ?_,
      List.forall_mem_map.mpr (hall hnone), hbound⟩
    rw [← hstream, hsplit, List.map_append, List.map_cons]
  · refine ⟨(newRows rows (consumed.map delivered)).map StoredTweet.captured, ?_, ?_⟩
    · rw [hstores, htweets, ← List.map_append]
      exact hleaves.tweets
    · rw [hstores, List.map_map]
      exact hleaves.queue

/-- The first connection is lost behind a tweet, which the second brings again before one with a
lone surrogate in its text. -/
def reconnect : List (WsAttempt ℕ) :=
  let tweet := fun fields => paperMessage ("\x7b\"type\": \"tweet\", " ++ fields ++ "\x7d")
  [⟨.opened [tweet "\"id\": 42", paperMessage "hello", tweet "\"id\": 43"] none, true, true⟩,
    ⟨.opened [tweet "\"id\": 42", tweet "\"id\": 43",
      tweet "\"id\": 44, \"text\": \"\\ud800\""] none, false, true⟩]

def reconnected : List (FeedDelivery ℚ ℕ) :=
  ((feedTweets paperFeed reconnect).zip [1, 2, 2, 3]).map fun t =>
    ⟨t.1, none, t.2, paperNoon, paperNow⟩

theorem feed_stored_once_reconnect :
    let st : RunStores ℚ := ⟨[], [], fun _ => 0, none, []⟩
    let out := ingestFeed paperIngestion toString st reconnected
    out.1.tweetIds = ["42", "43"] ∧ out.1.tweetIds.Nodup ∧ out.1.queue = [1, 2] ∧
      ∃ exc, out.2 = .error exc ∧ exc = .unicodeEncodeError ∧
        ∃ (before : List (FeedTweet ℚ ℕ)) (t : FeedTweet ℚ ℕ) (after : List (FeedTweet ℚ ℕ)),
          feedTweets paperFeed reconnect = before ++ t :: after ∧ t.bound toString = none := by
  intro st out
  have hraises : out.2.toOption.isNone = true := by decide +kernel
  have hstream : reconnected.map FeedDelivery.tweet = feedTweets paperFeed reconnect := by
    rw [reconnected, List.map_map]
    exact List.map_fst_zip (by decide +kernel)
  obtain ⟨-, hnodup, -, herror, -⟩ := feed_stored_once paperFeed toString reconnect paperIngestion
    [] st reconnected hstream (by decide +kernel) rfl List.nodup_nil
  have hids : out.1.tweetIds = ["42", "43"] := by decide +kernel
  have hqueue : out.1.queue = [1, 2] := by decide +kernel
  refine ⟨hids, hnodup, hqueue, ?_⟩
  cases hout : out.2 with
  | ok report =>
    rw [hout] at hraises
    cases hraises
  | error exc =>
    obtain ⟨hexc, before, t, after, hfeed, -, hbound⟩ := herror exc hout
    exact ⟨exc, rfl, hexc, before, t, after, hfeed, hbound⟩

end XSocialTrader
