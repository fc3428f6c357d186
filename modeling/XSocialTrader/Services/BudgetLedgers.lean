import XSocialTrader.Core.Clock
import XSocialTrader.Lib.Counters
import Mathlib.Algebra.BigOperators.Group.List.Basic
import Mathlib.Data.List.TakeWhile

/-! The two budgets over one Redis: a counter for each day of LLM calls and one for each month of
tweets, told apart by the text of their keys. Any number of processes call the trackers, and a
command that raises may have reached Redis. -/
namespace XSocialTrader.Budgets
open Counters FixedWidth

variable {F : Type}

/-- The floats that Redis keeps under text keys. -/
abbrev Redis (F : Type) := String → Option F

/-- How the one command of a call ends. -/
inductive CommandEnd where
  | answers
  | raises (applied : Bool)
  deriving DecidableEq

def CommandEnd.applied : CommandEnd → Bool
  | .answers => true
  | .raises applied => applied

/-- `LLMBudgetStatus` and `BudgetStatus`, whose period is a day or a month. -/
structure Status (F : Type) where
  period : String
  spendUsd : F
  limitUsd : F

/-- `_day_key`. -/
def llmKey (d : UtcDate) : String := String.ofList ("llm_spend:".toList ++ d.text)

/-- `YYYY-MM`. -/
def monthText (d : UtcDate) : List Char := digits 4 d.year ++ '-' :: digits 2 d.month

/-- `_month_key`. -/
def tweetKey (d : UtcDate) : String := String.ofList ("twitterapi_spend:".toList ++ monthText d)

/-- `key.split(":", 1)[1]`. -/
def afterColon (key : String) : String :=
  String.ofList ((key.toList.dropWhile (· ≠ ':')).drop 1)

section Keys

variable {d e : UtcDate}

theorem llmKey_inj : llmKey d = llmKey e ↔ d = e := by
  unfold llmKey
  rw [String.ofList_inj, List.append_cancel_left_eq, UtcDate.text_inj]

/-- The dates of one month. -/
def SameMonth (d e : UtcDate) : Prop := d.year = e.year ∧ d.month = e.month

instance (d e : UtcDate) : Decidable (SameMonth d e) := by
  unfold SameMonth
  infer_instance

theorem tweetKey_inj : tweetKey d = tweetKey e ↔ SameMonth d e := by
  have hd := d.year_bounds
  have he := e.year_bounds
  have hdm := d.month_bounds
  have hem := e.month_bounds
  unfold tweetKey monthText
  rw [String.ofList_inj, List.append_cancel_left_eq]
  constructor
  · intro h
    obtain ⟨hyear, hrest⟩ := List.append_inj h (by simp)
    exact ⟨(digits_inj (by omega) (by omega)).mp hyear,
      (digits_inj (by omega) (by omega)).mp (List.cons.inj hrest).2⟩
  · rintro ⟨hyear, hmonth⟩
    rw [hyear, hmonth]

theorem llmKey_ne_tweetKey : llmKey d ≠ tweetKey e := by
  intro h
  unfold llmKey tweetKey at h
  rw [String.ofList_inj] at h
  exact absurd (List.cons.inj h).1 (by decide)

theorem afterColon_llmKey : afterColon (llmKey d) = String.ofList d.text := by
  unfold afterColon llmKey
  rw [String.toList_ofList]
  rfl

theorem afterColon_tweetKey : afterColon (tweetKey d) = String.ofList (monthText d) := by
  unfold afterColon tweetKey
  rw [String.toList_ofList]
  rfl

end Keys

variable [PyFloat F]

namespace Status

/-- `self.spend_usd >= self.limit_usd`. -/
def overBudget (s : Status F) : Bool := PyFloat.le s.limitUsd s.spendUsd

/-- `max(0.0, self.limit_usd - self.spend_usd)`, which takes the second only if it is greater. -/
def remainingUsd (s : Status F) : F :=
  let rest := PyFloat.sub s.limitUsd s.spendUsd
  if PyFloat.lt (PyFloat.ofInt 0) rest then rest else PyFloat.ofInt 0

end Status

/-- What the constructor of a tracker lets through as its limit. -/
def LimitAccepted (limitUsd : F) : Prop := PyFloat.le limitUsd (PyFloat.ofInt 0) = false

/-- `LLMBudgetTracker`. -/
structure LlmBudgetTracker (F : Type) [PyFloat F] where
  limitUsd : F
  limit_accepted : LimitAccepted limitUsd

/-- `TwitterApiBudgetTracker`. -/
structure TwitterApiBudgetTracker (F : Type) [PyFloat F] where
  costPerTweetUsd : F
  limitUsd : F
  cost_accepted : PyFloat.lt costPerTweetUsd (PyFloat.ofInt 0) = false
  limit_accepted : LimitAccepted limitUsd

/-- The call that sends one command, which leaves Redis as `changed` if it is applied. -/
def command (ends : CommandEnd) (redis changed : Redis F) (status : Status F) :
    Redis F × Except PyExc (Status F) :=
  (if ends.applied then changed else redis,
    if ends = .answers then .ok status else .error .redisError)

/-- `INCRBYFLOAT`. -/
def incrbyfloat (redis : Redis F) (key : String) (x : F) : Redis F :=
  increment PyFloat.add (PyFloat.ofInt 0) redis (key, x)

/-- `float(raw) if raw is not None else 0.0`. -/
def spendAt (redis : Redis F) (key : String) : F := (redis key).getD (PyFloat.ofInt 0)

namespace LlmBudgetTracker

variable (t : LlmBudgetTracker F)

def recordCall (costUsd : F) (now : UtcDateTime) (ends : CommandEnd) (redis : Redis F) :
    Redis F × Except PyExc (Status F) :=
  if PyFloat.lt costUsd (PyFloat.ofInt 0) then (redis, .error .valueError)
  else
    let key := llmKey now.date
    let changed := incrbyfloat redis key costUsd
    command ends redis changed ⟨afterColon key, spendAt changed key, t.limitUsd⟩

def currentStatus (now : UtcDateTime) (ends : CommandEnd) (redis : Redis F) :
    Redis F × Except PyExc (Status F) :=
  let key := llmKey now.date
  command ends redis redis ⟨afterColon key, spendAt redis key, t.limitUsd⟩

end LlmBudgetTracker

namespace TwitterApiBudgetTracker

variable (t : TwitterApiBudgetTracker F)

def recordTweet (now : UtcDateTime) (ends : CommandEnd) (redis : Redis F) :
    Redis F × Except PyExc (Status F) :=
  let key := tweetKey now.date
  let changed := incrbyfloat redis key t.costPerTweetUsd
  command ends redis changed ⟨afterColon key, spendAt changed key, t.limitUsd⟩

def currentStatus (now : UtcDateTime) (ends : CommandEnd) (redis : Redis F) :
    Redis F × Except PyExc (Status F) :=
  let key := tweetKey now.date
  command ends redis redis ⟨afterColon key, spendAt redis key, t.limitUsd⟩

end TwitterApiBudgetTracker

/-- A call of either tracker, by whichever process. -/
inductive Call (F : Type) where
  | recordCall (costUsd : F) (now : UtcDateTime)
  | recordTweet (now : UtcDateTime)
  | llmStatus (now : UtcDateTime)
  | tweetStatus (now : UtcDateTime)

section Run

variable (llm : LlmBudgetTracker F) (twitter : TwitterApiBudgetTracker F)

def Call.perform (ends : CommandEnd) (redis : Redis F) :
    Call F → Redis F × Except PyExc (Status F)
  | .recordCall costUsd now => llm.recordCall costUsd now ends redis
  | .recordTweet now => twitter.recordTweet now ends redis
  | .llmStatus now => llm.currentStatus now ends redis
  | .tweetStatus now => twitter.currentStatus now ends redis

/-- What a sequence of calls, in whatever order the processes make them, leaves in Redis. -/
def after (calls : List (Call F × CommandEnd)) (redis : Redis F) : Redis F :=
  calls.foldl (fun redis call => (call.1.perform llm twitter call.2 redis).1) redis

/-- The cost that a call adds to a day of LLM calls. -/
def llmCost (d : UtcDate) : Call F × CommandEnd → Option F
  | (.recordCall costUsd now, ends) =>
    if ends.applied ∧ PyFloat.lt costUsd (PyFloat.ofInt 0) = false ∧ now.date = d then
      some costUsd
    else none
  | _ => none

/-- The cost that a call adds to a month of tweets. -/
def tweetCost (d : UtcDate) : Call F × CommandEnd → Option F
  | (.recordTweet now, ends) =>
    if ends.applied ∧ SameMonth now.date d then some twitter.costPerTweetUsd else none
  | _ => none

/-- The increment that a call leaves in Redis. -/
def written : Call F × CommandEnd → Option (String × F)
  | (.recordCall costUsd now, ends) =>
    if ends.applied ∧ PyFloat.lt costUsd (PyFloat.ofInt 0) = false then
      some (llmKey now.date, costUsd)
    else none
  | (.recordTweet now, ends) =>
    if ends.applied then some (tweetKey now.date, twitter.costPerTweetUsd) else none
  | _ => none

variable {llm twitter} {calls : List (Call F × CommandEnd)} {redis : Redis F} {d : UtcDate}

theorem perform_redis (call : Call F) (ends : CommandEnd) :
    (call.perform llm twitter ends redis).1 =
      apply PyFloat.add (PyFloat.ofInt 0) (written twitter (call, ends)).toList redis := by
  cases call with
  | recordCall costUsd now =>
    simp only [Call.perform, LlmBudgetTracker.recordCall, written]
    cases hneg : PyFloat.lt costUsd (PyFloat.ofInt 0) with
    | true => simp [apply]
    | false => cases hends : ends.applied <;> simp [command, hends, apply, incrbyfloat]
  | recordTweet now =>
    simp only [Call.perform, TwitterApiBudgetTracker.recordTweet, written]
    cases hends : ends.applied <;> simp [command, hends, apply, incrbyfloat]
  | llmStatus now => simp [Call.perform, LlmBudgetTracker.currentStatus, command, written, apply]
  | tweetStatus now =>
    simp [Call.perform, TwitterApiBudgetTracker.currentStatus, command, written, apply]

theorem after_eq_apply : after llm twitter calls redis =
    apply PyFloat.add (PyFloat.ofInt 0) (calls.filterMap (written twitter)) redis := by
  induction calls generalizing redis with
  | nil => rfl
  | cons call calls ih =>
    rw [after, List.foldl_cons]
    refine ih.trans ?_
    rw [perform_redis, apply, apply, ← List.foldl_append]
    cases hw : written twitter call <;> simp [apply, hw]

omit [PyFloat F] in
theorem amounts_filterMap {α : Type} (f : α → Option (String × F)) (g : α → Option F)
    (k : String) (xs : List α)
    (h : ∀ x, ((f x).bind fun entry => if entry.1 = k then some entry.2 else none) = g x) :
    amounts (xs.filterMap f) k = xs.filterMap g := by
  rw [amounts, List.filterMap_filterMap]
  exact List.filterMap_congr fun x _ => h x

theorem after_llmKey : after llm twitter calls redis (llmKey d) =
    total PyFloat.add (PyFloat.ofInt 0) (redis (llmKey d)) (calls.filterMap (llmCost d)) := by
  rw [after_eq_apply, apply_key]
  congr 1
  refine amounts_filterMap _ _ _ _ fun ⟨call, ends⟩ => ?_
  cases call with
  | recordCall costUsd now =>
    simp only [written, llmCost]
    by_cases hd : now.date = d
    · subst hd
      split_ifs <;> simp_all
    · have hkey : llmKey now.date ≠ llmKey d := fun h => hd (llmKey_inj.mp h)
      split_ifs <;> simp_all
  | recordTweet now =>
    simp only [written, llmCost]
    split_ifs
    · simp [Ne.symm llmKey_ne_tweetKey]
    · rfl
  | llmStatus now => rfl
  | tweetStatus now => rfl

theorem after_tweetKey : after llm twitter calls redis (tweetKey d) =
    total PyFloat.add (PyFloat.ofInt 0) (redis (tweetKey d))
      (calls.filterMap (tweetCost twitter d)) := by
  rw [after_eq_apply, apply_key]
  congr 1
  refine amounts_filterMap _ _ _ _ fun ⟨call, ends⟩ => ?_
  cases call with
  | recordCall costUsd now =>
    simp only [written, tweetCost]
    split_ifs
    · simp [llmKey_ne_tweetKey]
    · rfl
  | recordTweet now =>
    simp only [written, tweetCost]
    have hkey := tweetKey_inj (d := now.date) (e := d)
    split_ifs <;> simp_all
  | llmStatus now => rfl
  | tweetStatus now => rfl

/-- The trackers write no other key of Redis. -/
theorem after_other {key : String} (h : ∀ d, key ≠ llmKey d ∧ key ≠ tweetKey d) :
    after llm twitter calls redis key = redis key := by
  rw [after_eq_apply, apply_key]
  have hnone : amounts (calls.filterMap (written twitter)) key = calls.filterMap fun _ => none := by
    refine amounts_filterMap _ _ _ _ fun ⟨call, ends⟩ => ?_
    cases call with
    | recordCall costUsd now =>
      simp only [written]
      split_ifs <;> simp [Ne.symm (h now.date).1]
    | recordTweet now =>
      simp only [written]
      split_ifs <;> simp [Ne.symm (h now.date).2]
    | llmStatus now => rfl
    | tweetStatus now => rfl
  simp [hnone, total]

end Run

theorem spendAt_incrbyfloat (redis : Redis F) (key : String) (x : F) :
    spendAt (incrbyfloat redis key x) key =
      PyFloat.add ((redis key).getD (PyFloat.ofInt 0)) x := by
  simp [spendAt, incrbyfloat, increment]

variable (llm : LlmBudgetTracker F) (twitter : TwitterApiBudgetTracker F)
  (calls : List (Call F × CommandEnd)) (redis : Redis F) (now : UtcDateTime) in
/-- What an answered `record_tweet` reports. -/
theorem recordTweet_answered :
    (twitter.recordTweet now .answers (after llm twitter calls redis)).2 =
      .ok ⟨String.ofList (monthText now.date),
        (total PyFloat.add (PyFloat.ofInt 0) (redis (tweetKey now.date))
          (calls.filterMap (tweetCost twitter now.date) ++ [twitter.costPerTweetUsd])).getD
            (PyFloat.ofInt 0), twitter.limitUsd⟩ := by
  simp only [TwitterApiBudgetTracker.recordTweet, command, if_true, afterColon_tweetKey,
    spendAt_incrbyfloat, after_tweetKey, total_concat, Option.getD_some]

/-- Whatever both trackers have been asked before, by any processes, with any clocks and with
commands that raised after or before they reached Redis, an answered call reports for its own
day or month what Redis held of it at first and, added in order, exactly the costs recorded for
that day or month. No other key is written. -/
theorem ledgers_kept_apart (llm : LlmBudgetTracker F) (twitter : TwitterApiBudgetTracker F)
    (redis : Redis F) (calls : List (Call F × CommandEnd)) (costUsd : F) (now : UtcDateTime) :
    let held := after llm twitter calls redis
    let spend := fun key costs =>
      (total PyFloat.add (PyFloat.ofInt 0) (redis key) costs).getD (PyFloat.ofInt 0)
    let day := calls.filterMap (llmCost now.date)
    let month := calls.filterMap (tweetCost twitter now.date)
    (llm.recordCall costUsd now .answers held).2 =
        (if PyFloat.lt costUsd (PyFloat.ofInt 0) then .error .valueError else .ok
          ⟨String.ofList now.date.text, spend (llmKey now.date) (day ++ [costUsd]), llm.limitUsd⟩) ∧
      (llm.currentStatus now .answers held).2 =
        .ok ⟨String.ofList now.date.text, spend (llmKey now.date) day, llm.limitUsd⟩ ∧
      (twitter.recordTweet now .answers held).2 = .ok ⟨String.ofList (monthText now.date),
        spend (tweetKey now.date) (month ++ [twitter.costPerTweetUsd]), twitter.limitUsd⟩ ∧
      (twitter.currentStatus now .answers held).2 = .ok ⟨String.ofList (monthText now.date),
        spend (tweetKey now.date) month, twitter.limitUsd⟩ ∧
      ∀ key, (∀ d, key ≠ llmKey d ∧ key ≠ tweetKey d) → held key = redis key := by
  intro held spend day month
  have hday : held (llmKey now.date) = total PyFloat.add (PyFloat.ofInt 0)
      (redis (llmKey now.date)) day := after_llmKey
  have hmonth : held (tweetKey now.date) = total PyFloat.add (PyFloat.ofInt 0)
      (redis (tweetKey now.date)) month := after_tweetKey
  refine ⟨?_, ?_, recordTweet_answered llm twitter calls redis now, ?_,
    fun key h => after_other h⟩
  · unfold LlmBudgetTracker.recordCall
    split_ifs
    · rfl
    · simp only [command, if_true, afterColon_llmKey, spendAt_incrbyfloat, hday, spend,
        total_concat, Option.getD_some]
  · simp only [LlmBudgetTracker.currentStatus, command, if_true, afterColon_llmKey, spendAt, hday,
      spend]
  · simp only [TwitterApiBudgetTracker.currentStatus, command, if_true, afterColon_tweetKey,
      spendAt, hmonth, spend]

section Exact

variable {llm : LlmBudgetTracker ℚ} {twitter : TwitterApiBudgetTracker ℚ}
  {calls : List (Call ℚ × CommandEnd)} {now : UtcDateTime}

/-- A tweet of the month whose cost has reached Redis. -/
def recordedIn (d : UtcDate) : Call ℚ × CommandEnd → Bool
  | (.recordTweet now, ends) => ends.applied && decide (SameMonth now.date d)
  | _ => false

theorem total_rat (held : Option ℚ) (costs : List ℚ) :
    (total PyFloat.add (PyFloat.ofInt 0) held costs).getD 0 = held.getD 0 + costs.sum := by
  induction costs generalizing held with
  | nil => simp [total]
  | cons x costs ih =>
    rw [total, List.foldl_cons]
    refine (ih _).trans ?_
    simp [add_assoc]

theorem tweetCost_eq (d : UtcDate) (call : Call ℚ × CommandEnd) : tweetCost twitter d call =
    if recordedIn d call then some twitter.costPerTweetUsd else none := by
  obtain ⟨call, ends⟩ := call
  cases call with
  | recordTweet now => simp only [tweetCost, recordedIn, Bool.and_eq_true, decide_eq_true_eq]
  | recordCall costUsd now => rfl
  | llmStatus now => rfl
  | tweetStatus now => rfl

theorem sum_tweetCost (d : UtcDate) : (calls.filterMap (tweetCost twitter d)).sum =
    calls.countP (recordedIn d) * twitter.costPerTweetUsd := by
  induction calls with
  | nil => simp
  | cons call calls ih =>
    rw [List.filterMap_cons, tweetCost_eq, List.countP_cons]
    cases recordedIn d call with
    | true =>
      simp only [if_true, List.sum_cons, ih, Nat.cast_add, Nat.cast_one]
      ring
    | false => simpa using ih

variable (llm twitter calls now) in
theorem recordTweet_rat :
    (twitter.recordTweet now .answers (after llm twitter calls fun _ => none)).2 =
      .ok ⟨String.ofList (monthText now.date),
        (calls.countP (recordedIn now.date) + 1) * twitter.costPerTweetUsd, twitter.limitUsd⟩ := by
  have hsum := total_rat none (calls.filterMap (tweetCost twitter now.date) ++
    [twitter.costPerTweetUsd])
  rw [List.sum_append, sum_tweetCost, List.sum_singleton, Option.getD_none, zero_add] at hsum
  rw [recordTweet_answered, add_one_mul, ← hsum]
  rfl

theorem recordedIn_congr {d e : UtcDate} (h : SameMonth d e) : recordedIn d = recordedIn e := by
  obtain ⟨hyear, hmonth⟩ := h
  funext ⟨call, ends⟩
  cases call with
  | recordTweet now => simp only [recordedIn, SameMonth, hyear, hmonth]
  | recordCall costUsd now => rfl
  | llmStatus now => rfl
  | tweetStatus now => rfl

/-- In exact arithmetic a tweet is reported over budget exactly if the tweets recorded in its
month, it included, cost the limit or more; then and only then nothing remains, and every later
tweet of the month is reported over budget too. -/
theorem month_budget_exhausted_iff (llm : LlmBudgetTracker ℚ)
    (twitter : TwitterApiBudgetTracker ℚ) (calls : List (Call ℚ × CommandEnd))
    (now : UtcDateTime) :
    let tweets := calls.countP (recordedIn now.date)
    let report := fun calls now =>
      (twitter.recordTweet now .answers (after llm twitter calls fun _ => none)).2
    ∃ status, report calls now = .ok status ∧
      status.spendUsd = (tweets + 1) * twitter.costPerTweetUsd ∧
      (status.overBudget = true ↔ twitter.limitUsd ≤ (tweets + 1) * twitter.costPerTweetUsd) ∧
      status.remainingUsd = max 0 (twitter.limitUsd - status.spendUsd) ∧
      (status.remainingUsd = 0 ↔ status.overBudget = true) ∧
      (status.overBudget = true → ∀ more later, SameMonth later.date now.date →
        ∃ next, report (calls ++ (.recordTweet now, .answers) :: more) later = .ok next ∧
          next.overBudget = true) := by
  intro tweets report
  have hcost : 0 ≤ twitter.costPerTweetUsd := by simpa using twitter.cost_accepted
  have hcounted : report calls now = .ok ⟨String.ofList (monthText now.date),
      (tweets + 1) * twitter.costPerTweetUsd, twitter.limitUsd⟩ :=
    recordTweet_rat llm twitter calls now
  refine ⟨_, hcounted, rfl, by simp [Status.overBudget], ?_, ?_, ?_⟩
  · simp only [Status.remainingUsd, sub_rat, lt_rat, ofInt_rat, Int.cast_zero, decide_eq_true_eq]
    split_ifs with h
    · exact (max_eq_right h.le).symm
    · exact (max_eq_left (not_lt.mp h)).symm
  · simp only [Status.remainingUsd, Status.overBudget, sub_rat, lt_rat, le_rat, ofInt_rat,
      Int.cast_zero, decide_eq_true_eq]
    split_ifs with h
    · constructor
      · intro hzero
        exact absurd hzero h.ne'
      · intro hle
        linarith
    · exact iff_of_true rfl (by linarith)
  · intro hover more later hmonth
    refine ⟨_, recordTweet_rat llm twitter _ later, ?_⟩
    have hsame : recordedIn later.date = recordedIn now.date := recordedIn_congr hmonth
    have hle : tweets + 1 ≤ (calls ++ (.recordTweet now, .answers) :: more).countP
        (recordedIn later.date) := by
      rw [hsame, List.countP_append, List.countP_cons_of_pos (by
        simp [recordedIn, CommandEnd.applied, SameMonth])]
      omega
    have hgrows : ((tweets : ℚ) + 1) * twitter.costPerTweetUsd ≤
        (((calls ++ (.recordTweet now, .answers) :: more).countP (recordedIn later.date) : ℕ) + 1) *
          twitter.costPerTweetUsd := by
      have hcast : ((tweets : ℚ) + 1) ≤
          ((calls ++ (.recordTweet now, .answers) :: more).countP (recordedIn later.date) : ℕ) := by
        exact_mod_cast hle
      exact mul_le_mul_of_nonneg_right (by linarith) hcost
    simp only [Status.overBudget, le_rat, decide_eq_true_eq] at hover ⊢
    exact hover.trans hgrows

end Exact

end XSocialTrader.Budgets
