import XSocialTrader.Lib.Backoff
import XSocialTrader.Providers.Decision

/-! `TwitterApiIoProvider.subscribe`: messages of a WebSocket are decoded and parsed inside the
`try` that watches the connection, and only its `except` branch waits before the next attempt. -/
namespace XSocialTrader
open Json (Value)
open Results

variable {F δ : Type} [PyFloat F]

/-- The runtime with what `datetime` makes of a text and of a number of seconds. -/
structure FeedRuntime (F δ : Type) extends Runtime F where
  fromIsoFormat : Json.Text → Except PyExc δ
  fromTimestamp : F → Except PyExc δ

/-- A message as `websockets` delivers it. -/
inductive WsMessage where
  | text (s : Json.Text)
  | binary (b : ByteArray)

/-- The DTO `RawTweet` as the feed fills it. -/
structure FeedTweet (F δ : Type) where
  tweetId : Json.Text
  xUserId : Json.Text
  username : Json.Text
  content : Json.Text
  lang : Option Json.Text
  rawJson : Payload F
  receivedAt : δ

section Parse

/-- `_decode` of a text. -/
def decodeText (rt : Runtime F) (s : Json.Text) : Except PyExc (Payload F) := do
  let decoded ← jsonLoads rt s
  match decoded with
  | .object fields => return fields
  | _ => .error (.twitterApiIoError "unexpected WS message payload: str")

/-- `_decode`. -/
def decode (rt : Runtime F) : WsMessage → Except PyExc (Payload F)
  | .text s => decodeText rt s
  | .binary b => match String.fromUTF8? b with
    | some s => decodeText rt (Json.text s)
    | none => .error .unicodeDecodeError

/-- `a or b`. -/
def pyOr (a b : Option (Value F)) : Option (Value F) :=
  match a with
  | some v => if truthy v then some v else b
  | none => b

/-- `str(a or b or "")`. -/
def strOr (rt : Runtime F) (a b : Option (Value F)) : Except PyExc Json.Text :=
  match pyOr a b with
  | some v => if truthy v then pyStr rt v else .ok []
  | none => .ok []

/-- `s.replace("Z", "+00:00")`. -/
def replaceZ (s : Json.Text) : Json.Text :=
  s.flatMap fun c => if c = 'Z'.toNat then Json.text "+00:00" else [c]

/-- The three branches for `created_at`. A `bool` is an `int`. -/
def receivedAt (rt : FeedRuntime F δ) (now : δ) : Option (Value F) → Except PyExc δ
  | some (.str s) => rt.fromIsoFormat (replaceZ s)
  | some (.bool b) => rt.fromTimestamp (PyFloat.ofInt (PyValue.boolInt b))
  | some (.int n) => do
    let x ← floatOfInt n
    rt.fromTimestamp x
  | some (.float x) => rt.fromTimestamp x
  | _ => .ok now

/-- The field `lang`: a text or nothing. -/
def langOf (rt : Runtime F) : Option (Value F) → Except PyExc (Option Json.Text)
  | none | some .null => .ok none
  | some (.str s) => if rt.acceptsText s then .ok (some s) else .error .validationError
  | some _ => .error .validationError

/-- The field checks of `RawTweet`, with the value given for `lang`. -/
def FeedTweet.check (rt : Runtime F) (lang : Option (Value F)) (t : FeedTweet F δ) :
    Except PyExc (FeedTweet F δ) :=
  if [t.tweetId, t.xUserId, t.username, t.content].all rt.acceptsText &&
      t.rawJson.all fun field => rt.acceptsText field.1 then
    (langOf rt lang).map fun lang => { t with lang := lang }
  else .error .validationError

/-- `payload.get("tweet") or payload`. -/
def tweetValue (payload : Payload F) : Value F :=
  (pyOr (payload.field? "tweet") (some (.object payload))).getD .null

/-- `_parse_tweet` on the object `tweet` of the payload, at a time. -/
def parseFields (rt : FeedRuntime F δ) (now : δ) (payload tweet : Payload F) :
    Except PyExc (FeedTweet F δ) := do
  let received ← receivedAt rt now (pyOr (tweet.field? "created_at") (tweet.field? "time"))
  let id ← tweet.require "id"
  let tweetId ← pyStr rt.toRuntime id
  let xUserId ← strOr rt.toRuntime (tweet.field? "author_id") (tweet.field? "user_id")
  let username ← strOr rt.toRuntime (tweet.field? "username") (tweet.field? "author_name")
  let content ← strOr rt.toRuntime (tweet.field? "text") (tweet.field? "content")
  FeedTweet.check rt.toRuntime (tweet.field? "lang")
    ⟨tweetId, xUserId, username, content, none, payload, received⟩

/-- `_parse_tweet`. Only a `dict` has a `get`. -/
def parseTweet (rt : FeedRuntime F δ) (now : δ) (payload : Payload F) :
    Except PyExc (FeedTweet F δ) :=
  match tweetValue payload with
  | .object tweet => parseFields rt now payload tweet
  | _ => .error .attributeError

/-- `event_type == kind`. -/
def hasType (payload : Payload F) (kind : String) : Bool :=
  match pyOr (payload.field? "type") (payload.field? "event") with
  | some (.str s) => s == Json.text kind
  | _ => false

/-- The messages that are parsed as tweets. -/
def isTweet (payload : Payload F) : Bool :=
  !hasType payload "connected" && !hasType payload "ping" &&
    (hasType payload "tweet" || (payload.field? "tweet").isSome || (payload.field? "id").isSome)

/-- The body of `async for message in ws`: a tweet to yield, or nothing. -/
def handle (rt : FeedRuntime F δ) (message : WsMessage) (now : δ) :
    Except PyExc (Option (FeedTweet F δ)) := do
  let payload ← decode rt.toRuntime message
  if isTweet payload then (parseTweet rt now payload).map some else return none

end Parse

section WellFormed

/-- `datetime` can make something of the timestamp; a value of another type is the current time. -/
def Dated (rt : FeedRuntime F δ) : Option (Value F) → Prop
  | some (.str s) => ∃ t, rt.fromIsoFormat (replaceZ s) = .ok t
  | some (.bool b) => ∃ t, rt.fromTimestamp (PyFloat.ofInt (PyValue.boolInt b)) = .ok t
  | some (.int n) => PyFloat.fits F n = true ∧ ∃ t, rt.fromTimestamp (PyFloat.ofInt n) = .ok t
  | some (.float x) => ∃ t, rt.fromTimestamp x = .ok t
  | _ => True

/-- The text is there, and the model takes it. -/
def Spelled (rt : Runtime F) (s : Except PyExc Json.Text) : Prop :=
  ∃ t, s = .ok t ∧ rt.acceptsText t = true

/-- The value of `lang` is a text or nothing. -/
def IsLang (rt : Runtime F) : Option (Value F) → Prop
  | none | some .null => True
  | some (.str s) => rt.acceptsText s = true
  | some _ => False

/-- What `_parse_tweet` asks of the object of a tweet. -/
structure Readable (rt : FeedRuntime F δ) (payload tweet : Payload F) : Prop where
  time : Dated rt (pyOr (tweet.field? "created_at") (tweet.field? "time"))
  id : ∃ id, tweet.field? "id" = some id ∧ Spelled rt.toRuntime (pyStr rt.toRuntime id)
  author : Spelled rt.toRuntime
    (strOr rt.toRuntime (tweet.field? "author_id") (tweet.field? "user_id"))
  username : Spelled rt.toRuntime
    (strOr rt.toRuntime (tweet.field? "username") (tweet.field? "author_name"))
  content : Spelled rt.toRuntime
    (strOr rt.toRuntime (tweet.field? "text") (tweet.field? "content"))
  lang : IsLang rt.toRuntime (tweet.field? "lang")
  keys : ∀ field ∈ payload, rt.acceptsText field.1 = true

/-- The text of the message. -/
def WsMessage.text? : WsMessage → Option Json.Text
  | .text s => some s
  | .binary b => (String.fromUTF8? b).map Json.text

/-- The message is a JSON object, and the object of a readable tweet where it announces one. -/
def WellFormed (rt : FeedRuntime F δ) (message : WsMessage) : Prop :=
  ∃ s payload, message.text? = some s ∧ jsonLoads rt.toRuntime s = .ok (.object payload) ∧
    (isTweet payload = true → ∃ tweet, tweetValue payload = .object tweet ∧
      Readable rt payload tweet)

theorem receivedAt_ok_iff (rt : FeedRuntime F δ) (now : δ) (v : Option (Value F)) :
    (∃ t, receivedAt rt now v = .ok t) ↔ Dated rt v := by
  cases v with
  | none => simp [receivedAt, Dated]
  | some v =>
    cases v with
    | int n =>
      simp only [receivedAt, Dated, bind_ok_iff, floatOfInt]
      split_ifs with hfits <;> simp [hfits]
    | _ => simp [receivedAt, Dated]

omit [PyFloat F] in
theorem langOf_ok_iff (rt : Runtime F) (v : Option (Value F)) :
    (∃ t, langOf rt v = .ok t) ↔ IsLang rt v := by
  cases v with
  | none => simp [langOf, IsLang]
  | some v =>
    cases v with
    | str s =>
      simp only [langOf, IsLang]
      split_ifs with hs <;> simp [hs]
    | _ => simp [langOf, IsLang]

omit [PyFloat F] in
theorem check_ok_iff (rt : Runtime F) (lang : Option (Value F)) (t : FeedTweet F δ) :
    (∃ t', t.check rt lang = .ok t') ↔
      (∀ s ∈ [t.tweetId, t.xUserId, t.username, t.content], rt.acceptsText s = true) ∧
      (∀ field ∈ t.rawJson, rt.acceptsText field.1 = true) ∧ IsLang rt lang := by
  rw [← langOf_ok_iff, ← List.all_eq_true, ← List.all_eq_true]
  unfold FeedTweet.check
  split_ifs with htexts
  · rw [Bool.and_eq_true] at htexts
    simp only [map_ok_iff, htexts.1, htexts.2, true_and]
    constructor
    · rintro ⟨-, l, hl, -⟩
      exact ⟨l, hl⟩
    · rintro ⟨l, hl⟩
      exact ⟨_, l, hl, rfl⟩
  · rw [Bool.and_eq_true] at htexts
    constructor
    · rintro ⟨t', ht⟩
      cases ht
    · rintro ⟨hfirst, hkeys, -⟩
      exact absurd ⟨hfirst, hkeys⟩ htexts

theorem parseFields_ok_iff (rt : FeedRuntime F δ) (now : δ) (payload tweet : Payload F) :
    (∃ t, parseFields rt now payload tweet = .ok t) ↔ Readable rt payload tweet := by
  constructor
  · rintro ⟨t, ht⟩
    simp only [parseFields, bind_ok_iff, Payload.require_ok_iff] at ht
    obtain ⟨received, htime, id, hid, tweetId, htweetId, xUserId, hauthor, username, husername,
      content, hcontent, hcheck⟩ := ht
    obtain ⟨htexts, hkeys, hlang⟩ := (check_ok_iff _ _ _).mp ⟨t, hcheck⟩
    simp only [List.forall_mem_cons] at htexts
    exact ⟨(receivedAt_ok_iff rt now _).mp ⟨received, htime⟩,
      ⟨id, hid, tweetId, htweetId, htexts.1⟩, ⟨xUserId, hauthor, htexts.2.1⟩,
      ⟨username, husername, htexts.2.2.1⟩, ⟨content, hcontent, htexts.2.2.2.1⟩, hlang, hkeys⟩
  · intro h
    obtain ⟨received, htime⟩ := (receivedAt_ok_iff rt now _).mpr h.time
    obtain ⟨id, hid, tweetId, htweetId, hidText⟩ := h.id
    obtain ⟨xUserId, hauthor, hauthorText⟩ := h.author
    obtain ⟨username, husername, husernameText⟩ := h.username
    obtain ⟨content, hcontent, hcontentText⟩ := h.content
    obtain ⟨t, ht⟩ := (check_ok_iff rt.toRuntime (tweet.field? "lang")
      (⟨tweetId, xUserId, username, content, none, payload, received⟩ : FeedTweet F δ)).mpr
      ⟨by simp [hidText, hauthorText, husernameText, hcontentText], h.keys, h.lang⟩
    refine ⟨t, ?_⟩
    simp only [parseFields, bind_ok_iff, Payload.require_ok_iff]
    exact ⟨received, htime, id, hid, tweetId, htweetId, xUserId, hauthor, username, husername,
      content, hcontent, ht⟩

theorem decode_ok_iff (rt : Runtime F) (message : WsMessage) (payload : Payload F) :
    decode rt message = .ok payload ↔
      ∃ s, message.text? = some s ∧ jsonLoads rt s = .ok (.object payload) := by
  have htext : ∀ s, decodeText rt s = .ok payload ↔ jsonLoads rt s = .ok (.object payload) := by
    intro s
    simp only [decodeText, bind_ok_iff]
    constructor
    · rintro ⟨decoded, hloads, hmatch⟩
      cases decoded with
      | object fields => exact (Except.ok.inj hmatch) ▸ hloads
      | _ => cases hmatch
    · intro hloads
      exact ⟨_, hloads, rfl⟩
  cases message with
  | text s => simp [decode, WsMessage.text?, htext]
  | binary b =>
    cases hs : String.fromUTF8? b with
    | none => simp [decode, WsMessage.text?, hs]
    | some s => simp [decode, WsMessage.text?, hs, htext]

/-- The body of the loop gets through a message exactly if it is well formed. -/
theorem handle_ok_iff (rt : FeedRuntime F δ) (message : WsMessage) (now : δ) :
    (∃ out, handle rt message now = .ok out) ↔ WellFormed rt message := by
  have hparse : ∀ payload : Payload F, (∃ t, parseTweet rt now payload = .ok t) ↔
      ∃ tweet, tweetValue payload = .object tweet ∧ Readable rt payload tweet := by
    intro payload
    unfold parseTweet
    cases tweetValue payload with
    | object tweet => simp [parseFields_ok_iff]
    | _ => simp
  simp only [handle, bind_ok_iff, decode_ok_iff]
  constructor
  · rintro ⟨out, payload, ⟨s, hs, hloads⟩, hout⟩
    refine ⟨s, payload, hs, hloads, fun htweet => (hparse payload).mp ?_⟩
    rw [if_pos htweet] at hout
    obtain ⟨t, ht, -⟩ := map_ok_iff.mp hout
    exact ⟨t, ht⟩
  · rintro ⟨s, payload, hs, hloads, htweet⟩
    cases hkind : isTweet payload with
    | false => exact ⟨none, payload, ⟨s, hs, hloads⟩, by simp [hkind, pure, Except.pure]⟩
    | true =>
      obtain ⟨t, ht⟩ := (hparse payload).mpr (htweet hkind)
      exact ⟨some t, payload, ⟨s, hs, hloads⟩, by simp [hkind, ht, Except.map]⟩

end WellFormed

section Subscribe

/-- A connection of `_ws_connect`: refused, or opened with the messages that the peer sends, each
with the time at which it is parsed, and the exception with which the peer's stream ends, if it
does not close cleanly. -/
inductive Connection (δ : Type) where
  | refused (exc : PyExc)
  | opened (messages : List (WsMessage × δ)) (closing : Option PyExc)

/-- What the `try` block does with a connection. -/
structure Served (F δ : Type) where
  connected : Bool
  tweets : List (FeedTweet F δ)
  error : Option PyExc

/-- `async for message in ws`, up to the first message that raises. -/
def serve (rt : FeedRuntime F δ) : List (WsMessage × δ) → Option PyExc → Served F δ
  | [], closing => ⟨true, [], closing⟩
  | (message, now) :: rest, closing => match handle rt message now with
    | .error exc => ⟨true, [], some exc⟩
    | .ok out =>
      let served := serve rt rest closing
      { served with tweets := out.toList ++ served.tweets }

/-- The body of the `try`. -/
def Connection.serve (rt : FeedRuntime F δ) : Connection δ → Served F δ
  | .refused exc => ⟨false, [], some exc⟩
  | .opened messages closing => XSocialTrader.serve rt messages closing

def wsBackoffInitial : ℕ := 1

def wsBackoffMax : ℕ := 60

/-- One turn of the outer loop, with `self._running` when the connection has ended and after the
sleep. -/
structure WsAttempt (δ : Type) where
  connection : Connection δ
  running : Bool
  wakes : Bool

/-- `subscribe` of a running provider, from the backoff reached. The floats that the backoff takes
are whole seconds. -/
def subscribe (rt : FeedRuntime F δ) :
    ℕ → List (WsAttempt δ) → List (Backoff.Round (FeedTweet F δ))
  | _, [] => []
  | backoff, a :: as =>
    let served := a.connection.serve rt
    let backoff := if served.connected then wsBackoffInitial else backoff
    match served.error with
    | none =>
      ⟨served.connected, served.tweets, none⟩ :: if a.running then subscribe rt backoff as else []
    | some _ =>
      if a.running then
        ⟨served.connected, served.tweets, some backoff⟩ ::
          if a.wakes then subscribe rt (min (backoff * 2) wsBackoffMax) as else []
      else [⟨served.connected, served.tweets, none⟩]

/-- The tweet that a message is yielded as. -/
def tweetOf (rt : FeedRuntime F δ) (message : WsMessage × δ) : Option (FeedTweet F δ) :=
  (handle rt message.1 message.2).toOption.join

variable {rt : FeedRuntime F δ} {messages : List (WsMessage × δ)}

theorem serve_wellFormed (h : ∀ m ∈ messages, WellFormed rt m.1) (closing : Option PyExc) :
    serve rt messages closing = ⟨true, messages.filterMap (tweetOf rt), closing⟩ := by
  induction messages with
  | nil => rfl
  | cons m rest ih =>
    rw [List.forall_mem_cons] at h
    obtain ⟨out, hout⟩ := (handle_ok_iff rt m.1 m.2).mpr h.1
    simp only [serve, hout, ih h.2, List.filterMap_cons, tweetOf, Except.toOption]
    cases out <;> rfl

/-- The first malformed message ends the connection, and no message behind it is read. -/
theorem serve_malformed {m : WsMessage × δ} (h : ∀ m ∈ messages, WellFormed rt m.1)
    (hm : ¬ WellFormed rt m.1) : ∃ exc, ∀ rest closing,
      serve rt (messages ++ m :: rest) closing =
        ⟨true, messages.filterMap (tweetOf rt), some exc⟩ := by
  induction messages with
  | nil =>
    cases hout : handle rt m.1 m.2 with
    | ok out => exact absurd ((handle_ok_iff rt m.1 m.2).mp ⟨out, hout⟩) hm
    | error exc => exact ⟨exc, fun rest closing => by simp [serve, hout]⟩
  | cons m' messages ih =>
    rw [List.forall_mem_cons] at h
    obtain ⟨exc, hexc⟩ := ih h.2
    obtain ⟨out, hout⟩ := (handle_ok_iff rt m'.1 m'.2).mpr h.1
    refine ⟨exc, fun rest closing => ?_⟩
    simp only [List.cons_append, serve, hout, hexc, List.filterMap_cons, tweetOf,
      Except.toOption]
    cases out <;> rfl

/-- A connection ends without an exception if the peer closes it and every message is well
formed. -/
theorem serve_error_eq_none_iff (closing : Option PyExc) :
    (serve rt messages closing).error = none ↔
      closing = none ∧ ∀ m ∈ messages, WellFormed rt m.1 := by
  induction messages with
  | nil => simp [serve]
  | cons m rest ih =>
    rw [List.forall_mem_cons, ← handle_ok_iff rt m.1 m.2]
    cases hout : handle rt m.1 m.2 with
    | error exc => simp [serve, hout]
    | ok out => simpa [serve, hout] using ih

/-- A connection yields the tweets of all its messages in order, and ends as the peer ends it,
exactly if every message is well formed. -/
theorem connection_yields_iff (rt : FeedRuntime F δ) (messages : List (WsMessage × δ)) :
    (∀ closing, (Connection.opened messages closing).serve rt =
      ⟨true, messages.filterMap (tweetOf rt), closing⟩) ↔
      ∀ m ∈ messages, WellFormed rt m.1 := by
  constructor
  · intro h
    have herror : (serve rt messages none).error = none := congrArg Served.error (h none)
    exact ((serve_error_eq_none_iff none).mp herror).2
  · exact fun h closing => serve_wellFormed h closing

/-- A runtime that takes no timestamp but a number of seconds. -/
def paperFeed : FeedRuntime ℚ ℕ := ⟨asciiRuntime, fun _ => .error .valueError, fun _ => .ok 0⟩

def paperMessage (s : String) : WsMessage × ℕ := (.text (Json.text s), 7)

/-- A handshake and a ping are passed over, and a tweet is yielded. -/
example : (serve paperFeed [paperMessage "\x7b\"type\": \"connected\"\x7d",
    paperMessage "\x7b\"type\": \"ping\"\x7d",
    paperMessage "\x7b\"type\": \"tweet\", \"tweet\": \x7b\"id\": 42\x7d\x7d"] none).tweets.map
      FeedTweet.tweetId = [Json.text "42"] := by decide +kernel

/-- A text that is no JSON in front of a tweet: the connection is dropped and the tweet is not
read. -/
theorem malformed_message_drops_connection : ¬ ∀ (rt : FeedRuntime ℚ ℕ)
    (messages : List (WsMessage × ℕ)) (closing : Option PyExc),
    (Connection.opened messages closing).serve rt =
      ⟨true, messages.filterMap (tweetOf rt), closing⟩ := by
  intro h
  have herror := congrArg Served.error (h paperFeed [paperMessage "hello",
    paperMessage "\x7b\"type\": \"tweet\", \"id\": \"1\"\x7d"] none)
  exact absurd herror (by decide +kernel)

/-- The turns that the outer loop makes. -/
def made (rt : FeedRuntime F δ) : List (WsAttempt δ) → List (WsAttempt δ)
  | [] => []
  | a :: as =>
    a :: if a.running && ((a.connection.serve rt).error.isNone || a.wakes) then made rt as else []

/-- The peer closes an open connection, and every message on it is well formed. -/
def Connection.EndsCleanly (rt : FeedRuntime F δ) : Connection δ → Prop
  | .refused _ => False
  | .opened messages closing => closing = none ∧ ∀ m ∈ messages, WellFormed rt m.1

theorem Connection.endsCleanly_iff (rt : FeedRuntime F δ) (c : Connection δ) :
    c.EndsCleanly rt ↔ (c.serve rt).error = none := by
  cases c with
  | refused exc => simp [Connection.EndsCleanly, Connection.serve]
  | opened messages closing => exact (serve_error_eq_none_iff closing).symm

/-- A turn as the backoff sees it. -/
def WsAttempt.round (rt : FeedRuntime F δ) (a : WsAttempt δ) : Backoff.Attempt (FeedTweet F δ) :=
  let served := a.connection.serve rt
  ⟨served.connected, served.tweets, served.error.isSome && a.running⟩

/-- `subscribe` is a loop of attempts with backoff. -/
theorem subscribe_eq_run (rt : FeedRuntime F δ) (attempts : List (WsAttempt δ)) (backoff : ℕ) :
    subscribe rt backoff attempts = Backoff.run wsBackoffInitial wsBackoffMax backoff
      ((made rt attempts).map (WsAttempt.round rt)) := by
  induction attempts generalizing backoff with
  | nil => rfl
  | cons a as ih =>
    simp only [subscribe, made, List.map_cons, Backoff.run, WsAttempt.round]
    cases (a.connection.serve rt).error with
    | none => cases a.running <;> simp [ih, Backoff.run]
    | some exc => cases a.running <;> cases a.wakes <;> simp [ih, Backoff.run]

theorem running_of_mem_dropLast_made {attempts : List (WsAttempt δ)} {a : WsAttempt δ}
    (ha : a ∈ (made rt attempts).dropLast) : a.running = true := by
  induction attempts with
  | nil => simp [made] at ha
  | cons b as ih =>
    rw [made] at ha
    split_ifs at ha with hgo
    · cases hrest : made rt as with
      | nil => simp [hrest] at ha
      | cons c cs =>
        rw [hrest, List.dropLast_cons_cons, ← hrest] at ha
        rcases List.mem_cons.mp ha with rfl | ha
        · exact (Bool.and_eq_true_iff.mp hgo).1
        · exact ih ha
    · simp at ha

/-- The turns of `subscribe` are separated by the sleeps of the backoff exactly if none of them but
the last ends with a connection that the peer closes cleanly. -/
theorem reconnects_after_backoff_iff (rt : FeedRuntime F δ) (attempts : List (WsAttempt δ)) :
    Backoff.BacksOff wsBackoffInitial wsBackoffMax 0
        (subscribe rt wsBackoffInitial attempts) ↔
      ∀ a ∈ (made rt attempts).dropLast, ¬ a.connection.EndsCleanly rt := by
  have hcap : wsBackoffInitial ≤ wsBackoffMax := by decide
  have hiff := Backoff.run_backsOff_iff hcap ((made rt attempts).map (WsAttempt.round rt)) 0
  rw [Backoff.delay_zero hcap, ← subscribe_eq_run] at hiff
  rw [hiff, ← List.map_dropLast, List.forall_mem_map]
  refine forall₂_congr fun a ha => ?_
  have hrunning := running_of_mem_dropLast_made ha
  rw [Connection.endsCleanly_iff]
  simp only [WsAttempt.round, hrunning, Bool.and_true]
  exact Option.isSome_iff_ne_none

/-- The peer closes the first connection cleanly: the second attempt follows without a sleep. -/
theorem clean_close_reconnects_at_once : ¬ ∀ (rt : FeedRuntime ℚ ℕ) (attempts : List (WsAttempt ℕ)),
    Backoff.BacksOff wsBackoffInitial wsBackoffMax 0
      (subscribe rt wsBackoffInitial attempts) := by
  intro h
  let closed : WsAttempt ℕ := ⟨.opened [] none, true, true⟩
  have hslept := h paperFeed [closed, closed] [] _ _ [] rfl
  cases hslept

end Subscribe

end XSocialTrader
