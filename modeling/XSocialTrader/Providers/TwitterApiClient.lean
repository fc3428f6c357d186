import XSocialTrader.Lib.Retry
import XSocialTrader.Providers.Decision

/-! `TwitterApiIoClient`: every call goes through `_request`, which makes at most three attempts
and reads any status below 400 as success. -/
namespace XSocialTrader.TwitterApiIoClient
open Json (Value)
open Results

/-- The calls of the client, by their endpoint paths. -/
inductive Endpoint where
  | addUser
  | removeUser
  | listUsers
  | advancedSearch
  deriving DecidableEq, Repr

namespace Endpoint

def method : Endpoint → String
  | addUser | removeUser => "POST"
  | listUsers | advancedSearch => "GET"

def path : Endpoint → String
  | addUser => "/twitter/monitor/add_user"
  | removeUser => "/twitter/monitor/remove_user"
  | listUsers => "/twitter/monitor/list"
  | advancedSearch => "/twitter/tweets/advanced_search"

/-- `f"\x7bmethod\x7d \x7bpath\x7d"`, with which every error of the client begins. -/
def line (c : Endpoint) : String := c.method ++ " " ++ c.path

end Endpoint

/-- What the client reads of an `httpx.Response`; `json` is what `response.json()` does. -/
structure Response (F : Type) where
  statusCode : ℕ
  text : String
  json : Except PyExc (Value F)

/-- How `self._http.request` ends. An `httpx.RequestError` comes with its `repr`. -/
inductive Reply (F : Type) where
  | requestError (shown : String)
  | raises (e : PyExc)
  | response (r : Response F)

variable {F : Type}

section Request

def httpRetryMax : ℕ := 3

/-- `_HTTP_RETRY_BACKOFF_SECONDS * (2**attempt)`. -/
def httpBackoffSeconds (attempt : ℕ) : ℕ := 2 ^ attempt

/-- One round of the loop, up to its `sleep`. -/
def verdict (c : Endpoint) : Reply F → Retry.Verdict (Response F) PyExc String
  | .requestError shown => .again shown
  | .raises e => .raises e
  | .response r =>
    if 400 ≤ r.statusCode && r.statusCode < 500 then
      .raises (.twitterApiIoError
        (c.line ++ s!" -> {r.statusCode}: " ++ String.ofList (r.text.toList.take 200)))
    else if r.statusCode < 500 then .returns r
    else .again ("TwitterApiIoError('" ++ c.line ++ s!" -> {r.statusCode}')")

/-- The error after the last round. -/
def giveUp (c : Endpoint) (last : Option String) : PyExc :=
  .twitterApiIoError
    (c.line ++ s!" failed after {httpRetryMax} attempts: " ++ last.getD "None")

/-- `_request`, when its attempts come to `replies`. -/
def request (c : Endpoint) (replies : ℕ → Reply F) : Retry.Run (Response F) PyExc :=
  Retry.loop (fun k => verdict c (replies k)) (giveUp c) httpRetryMax 0 none

/-- The seconds a request has slept between its attempts and after the last one. -/
def slept (run : Retry.Run (Response F) PyExc) : ℕ := (run.paused.map httpBackoffSeconds).sum

/-- A reply that is worth another attempt: a `RequestError`, or a status from 500 on. -/
def Reply.isTransient : Reply F → Bool
  | .requestError _ => true
  | .raises _ => false
  | .response r => decide (500 ≤ r.statusCode)

/-- A reply that the client takes for success. Redirects are not followed and count as one. -/
def Reply.accepted? : Reply F → Option (Response F)
  | .response r => if r.statusCode < 400 then some r else none
  | _ => none

end Request

section RequestSpec

variable {c : Endpoint} {reply : Reply F} {replies replies' : ℕ → Reply F} {r : Response F}
  {e : PyExc}

theorem verdict_retries : (verdict c reply).retries = reply.isTransient := by
  cases reply with
  | requestError shown => rfl
  | raises e => rfl
  | response r =>
    simp only [verdict, Reply.isTransient]
    by_cases h400 : 400 ≤ r.statusCode
    · by_cases h500 : r.statusCode < 500
      · simp [h400, h500, Retry.Verdict.retries]
      · simp [h500, Retry.Verdict.retries, Nat.not_lt.mp h500]
    · have h500 : r.statusCode < 500 := by omega
      simp [h400, h500, Retry.Verdict.retries]

theorem verdict_settled_ok : (verdict c reply).settled = some (.ok r) ↔
    reply.accepted? = some r := by
  cases reply with
  | requestError shown => simp [verdict, Retry.Verdict.settled, Reply.accepted?]
  | raises e => simp [verdict, Retry.Verdict.settled, Reply.accepted?]
  | response r' =>
    simp only [verdict, Reply.accepted?]
    by_cases h400 : 400 ≤ r'.statusCode
    · have hrefused : ¬ r'.statusCode < 400 := Nat.not_lt.mpr h400
      by_cases h500 : r'.statusCode < 500
      · simp [h400, h500, hrefused, Retry.Verdict.settled]
      · simp [h500, hrefused, Retry.Verdict.settled]
    · have h500 : r'.statusCode < 500 := by omega
      simp [h400, h500, Nat.not_le.mp h400, Retry.Verdict.settled]

/-- An error that settles a round was raised by it, or it names the call. -/
theorem verdict_settled_error (h : (verdict c reply).settled = some (.error e)) :
    reply = .raises e ∨ ∃ detail, e = .twitterApiIoError (c.line ++ detail) := by
  cases reply with
  | requestError shown => simp [verdict, Retry.Verdict.settled] at h
  | raises e' =>
    left
    simpa [verdict, Retry.Verdict.settled] using h
  | response r =>
    right
    unfold verdict at h
    dsimp only at h
    split at h
    · refine ⟨s!" -> {r.statusCode}: " ++ String.ofList (r.text.toList.take 200), ?_⟩
      rw [← String.append_assoc]
      simpa [Retry.Verdict.settled] using h.symm
    · split at h <;> simp [Retry.Verdict.settled] at h

variable (c replies) in
/-- A request ends at the first reply that is not transient, or after three transient ones. -/
theorem request_cases :
    (∃ j < httpRetryMax, (∀ i < j, (replies i).isTransient = true) ∧
      ∃ result, (verdict c (replies j)).settled = some result ∧
        request c replies = ⟨result, j + 1, List.range' 0 j⟩) ∨
    (∀ i < httpRetryMax, (replies i).isTransient = true) ∧
      ∃ last, request c replies =
        ⟨.error (giveUp c last), httpRetryMax, List.range' 0 httpRetryMax⟩ := by
  have hround (k : ℕ) : (verdict c (replies k)).retries = (replies k).isTransient :=
    verdict_retries
  rcases Retry.settled_or_exhausted (fun k => verdict c (replies k)) httpRetryMax with
    ⟨j, hj, hbefore, result, hsettles⟩ | hall
  · left
    refine ⟨j, hj, fun i hi => hround i ▸ hbefore i hi, result, hsettles, ?_⟩
    exact Retry.loop_settled hj (by simpa only [Nat.zero_add] using hbefore)
      (by simpa only [Nat.zero_add] using hsettles)
  · right
    refine ⟨fun i hi => hround i ▸ hall i hi, ?_⟩
    exact Retry.loop_exhausted (by simpa only [Nat.zero_add] using hall)

theorem request_ok_iff : (request c replies).result = .ok r ↔
    ∃ j < httpRetryMax, (∀ i < j, (replies i).isTransient = true) ∧
      (replies j).accepted? = some r := by
  constructor
  · intro hok
    rcases request_cases c replies with ⟨j, hj, hbefore, result, hsettles, hrun⟩ | ⟨-, last, hrun⟩
    · rw [hrun] at hok
      obtain rfl : result = .ok r := hok
      exact ⟨j, hj, hbefore, verdict_settled_ok.mp hsettles⟩
    · rw [hrun] at hok
      cases hok
  · rintro ⟨j, hj, hbefore, haccepted⟩
    have hrun : request c replies = ⟨.ok r, j + 1, List.range' 0 j⟩ :=
      Retry.loop_settled hj
        (by simpa only [Nat.zero_add, verdict_retries] using hbefore)
        (by simpa only [Nat.zero_add] using verdict_settled_ok.mpr haccepted)
    rw [hrun]

/-- Among the attempts that `_request` has, the first that is not transient is accepted. -/
def Answered (replies : ℕ → Reply F) : Prop :=
  ∃ j < httpRetryMax, (∀ i < j, (replies i).isTransient = true) ∧
    ∃ r, (replies j).accepted? = some r

theorem request_answered : (∃ r, (request c replies).result = .ok r) ↔ Answered replies := by
  constructor
  · rintro ⟨r, hok⟩
    obtain ⟨j, hj, hbefore, haccepted⟩ := request_ok_iff.mp hok
    exact ⟨j, hj, hbefore, r, haccepted⟩
  · rintro ⟨j, hj, hbefore, r, haccepted⟩
    exact ⟨r, request_ok_iff.mpr ⟨j, hj, hbefore, haccepted⟩⟩

/-- The accepted reply is one of the attempts made. -/
theorem request_ok_attempt (h : (request c replies).result = .ok r) :
    ∃ j < (request c replies).tries, (replies j).accepted? = some r := by
  rcases request_cases c replies with ⟨j, -, -, result, hsettles, hrun⟩ | ⟨-, last, hrun⟩
  · rw [hrun] at h
    obtain rfl : result = .ok r := h
    exact ⟨j, by simp [hrun], verdict_settled_ok.mp hsettles⟩
  · rw [hrun] at h
    cases h

end RequestSpec

/-- However its replies come, a request makes one to three attempts, all but the last of them
answered transiently. It returns a response exactly if that is the first reply that is no
transient one and its status is below 400; any other end is what a reply raised or an error
that begins with the method and the path. It has slept 7 s if every attempt was transient and
less than the next pause otherwise, and replies to attempts that it does not make play no
part. -/
theorem request_spec (c : Endpoint) (replies : ℕ → Reply F) :
    let run := request c replies
    (1 ≤ run.tries ∧ run.tries ≤ httpRetryMax ∧
      ∀ i, i + 1 < run.tries → (replies i).isTransient = true) ∧
    (∀ r, run.result = .ok r ↔ ∃ j < httpRetryMax,
      (∀ i < j, (replies i).isTransient = true) ∧ replies j = .response r ∧
        r.statusCode < 400) ∧
    (∀ e, run.result = .error e → (∃ i < run.tries, replies i = .raises e) ∨
      ∃ detail, e = .twitterApiIoError (c.line ++ detail)) ∧
    slept run = (if ∀ i < httpRetryMax, (replies i).isTransient = true then 7
      else 2 ^ (run.tries - 1) - 1) ∧
    ∀ replies', (∀ i < run.tries, replies' i = replies i) → request c replies' = run := by
  intro run
  refine ⟨?_, fun r => ?_, fun e he => ?_, ?_, fun replies' h => ?_⟩
  · rcases request_cases c replies with ⟨j, hj, hbefore, result, -, hrun⟩ | ⟨hall, last, hrun⟩
    · simp only [run, hrun]
      exact ⟨by omega, by omega, fun i hi => hbefore i (by omega)⟩
    · simp only [run, hrun]
      exact ⟨by decide, le_rfl, fun i hi => hall i (by omega)⟩
  · have haccepted (reply : Reply F) :
        reply.accepted? = some r ↔ reply = .response r ∧ r.statusCode < 400 := by
      cases reply with
      | requestError shown => simp [Reply.accepted?]
      | raises e => simp [Reply.accepted?]
      | response r' =>
        by_cases hstatus : r'.statusCode < 400
        · simp only [Reply.accepted?, if_pos hstatus, Option.some.injEq, Reply.response.injEq]
          exact ⟨fun h => ⟨h, h ▸ hstatus⟩, And.left⟩
        · simp only [Reply.accepted?, if_neg hstatus, Reply.response.injEq, reduceCtorEq,
            false_iff]
          rintro ⟨rfl, h⟩
          exact hstatus h
    simp only [run, request_ok_iff, haccepted]
  · rcases request_cases c replies with ⟨j, -, -, result, hsettles, hrun⟩ | ⟨-, last, hrun⟩
    · simp only [run, hrun] at he ⊢
      subst he
      exact (verdict_settled_error hsettles).imp_left fun h => ⟨j, by omega, h⟩
    · simp only [run, hrun, Except.error.injEq] at he
      exact Or.inr ⟨_, by rw [← he, giveUp, String.append_assoc]⟩
  · rcases request_cases c replies with ⟨j, hj, -, result, hsettles, hrun⟩ | ⟨hall, last, hrun⟩
    · have hlast : ¬ ∀ i < httpRetryMax, (replies i).isTransient = true := by
        intro h
        have hretries : (verdict c (replies j)).retries = true := verdict_retries.trans (h j hj)
        cases hv : verdict c (replies j) <;>
          simp [hv, Retry.Verdict.settled, Retry.Verdict.retries] at hsettles hretries
      rw [if_neg hlast]
      simp only [run, hrun, slept, Nat.add_sub_cancel]
      exact Retry.sum_doubling j
    · rw [if_pos hall]
      simp only [run, hrun, slept]
      exact Retry.sum_doubling httpRetryMax
  · exact Retry.loop_congr fun i hi => by rw [Nat.zero_add, h i hi]

section MonitorList

variable [PyFloat F]

/-- `u["username"] if isinstance(u, dict) else str(u)`. -/
def monitoredUser (rt : Runtime F) : Value F → Except PyExc (Value F)
  | .object u => Payload.require u "username"
  | u => (pyStr rt u).map .str

/-- What `list_monitored_users` makes of a response. Only a `dict` has a `get`. -/
def monitoredUsers (rt : Runtime F) (r : Response F) : Except PyExc (List (Value F)) := do
  match ← r.json with
  | .object body =>
    let users ← iterate ((Payload.field? body "users").getD (.list []))
    users.mapM (monitoredUser rt)
  | _ => .error .attributeError

def listMonitoredUsers (rt : Runtime F) (replies : ℕ → Reply F) :
    Except PyExc (List (Value F)) :=
  (request .listUsers replies).result >>= monitoredUsers rt

end MonitorList

end XSocialTrader.TwitterApiIoClient
