import XSocialTrader.Lib.FirstSeen
import XSocialTrader.Services.Ingestion
import Mathlib.Algebra.Order.Archimedean.Basic

/-! `run_ingestion` from its first delivery to its report, when no call fails. A loop carries the
table, the queue, the month's counter, the kill switch and the report; the reference says for the
stream as a whole what they are in the end. -/
namespace XSocialTrader.Ingestion
open LabelledRun FirstSeen

variable {F : Type}

section Run

/-- What an iteration gets from outside: the tweet, the environment that the check reads, the id
that the table has for a new row, and the time of the call to the budget. -/
structure Delivery where
  tweet : RawTweet
  env : Option String
  rowId : ℤ
  now : UtcDateTime

def Delivery.tweetId (d : Delivery) : String := d.tweet.tweetId

def Delivery.row (d : Delivery) : RawTweetRow := ⟨d.tweet, d.rowId⟩

/-- The stores that a run reads and writes; `queue` is the Redis list `raw_tweets`. -/
structure RunStores (F : Type) where
  tweets : List RawTweetRow
  queue : List ℤ
  spend : String → F
  redisFlag : Option String
  events : List KillSwitchEvent

def RunStores.tweetIds (st : RunStores F) : List String := st.tweets.map (·.tweetId)

inductive StoppedReason (F : Type) where
  | killSwitchActive (source : KillSwitchSource)
  | twitterapiBudgetBreached (spendUsd : F)

/-- `usd` formats an amount with four digits. -/
def StoppedReason.text (usd : F → String) : StoppedReason F → String
  | .killSwitchActive source => "kill_switch_active:" ++ source.text
  | .twitterapiBudgetBreached spendUsd => "twitterapi_budget_breached:" ++ usd spendUsd ++ "_USD"

structure IngestionReport (F : Type) where
  persisted : ℕ
  duplicates : ℕ
  stoppedReason : Option (StoppedReason F)

structure BudgetStatus (F : Type) where
  month : String
  spendUsd : F
  limitUsd : F

/-- `_persist_raw_tweet`: the row that the flush adds, or `None` for a duplicate. -/
def persistRawTweet (st : RunStores F) (d : Delivery) : Option RawTweetRow :=
  if d.tweetId ∈ st.tweetIds then none else some d.row

/-- `activate` and the commit of its session. -/
def RunStores.activate (st : RunStores F) (trigger : KillSwitchTrigger) (actor : String)
    (reason : Option String) : RunStores F :=
  { st with
    redisFlag := some "1"
    events := st.events ++ [⟨nextEventId st.events, true, trigger, actor, reason⟩] }

variable [PyFloat F]

/-- `self.spend_usd >= self.limit_usd`. -/
def BudgetStatus.overBudget (status : BudgetStatus F) : Bool :=
  PyFloat.le status.limitUsd status.spendUsd

def recordTweet (cfg : Config F) (spend : String → F) (now : UtcDateTime) :
    (String → F) × BudgetStatus F :=
  let month := monthKey now
  let spendUsd := PyFloat.add (spend month) cfg.costPerTweetUsd
  (Function.update spend month spendUsd, ⟨month, spendUsd, cfg.limitUsd⟩)

def triggerFromBudget (cfg : Config F) (st : RunStores F) (status : BudgetStatus F) :
    RunStores F × Bool :=
  if status.overBudget then
    (st.activate .budgetTwitterapi "twitterapi_budget_tracker"
      (some (cfg.breachReason status.month status.spendUsd)), true)
  else (st, false)

/-- The body of the loop, which goes on with the next delivery or breaks. -/
def iteration (cfg : Config F) (d : Delivery) (st : RunStores F) (report : IngestionReport F) :
    ForInStep (RunStores F × IngestionReport F) :=
  let state := isActive d.env st.redisFlag st.events
  if state.active then
    .done (st, { report with stoppedReason := some (.killSwitchActive state.source) })
  else match persistRawTweet st d with
    | none => .yield (st, { report with duplicates := report.duplicates + 1 })
    | some row =>
      let report := { report with persisted := report.persisted + 1 }
      let st := { st with tweets := st.tweets ++ [row], queue := st.queue ++ [row.id] }
      let recorded := recordTweet cfg st.spend d.now
      let status := recorded.2
      let st := { st with spend := recorded.1 }
      if status.overBudget then
        let activated := triggerFromBudget cfg st status
        if activated.2 then
          let reason := .twitterapiBudgetBreached status.spendUsd
          .done (activated.1, { report with stoppedReason := some reason })
        else .yield (activated.1, report)
      else .yield (st, report)

def loop (cfg : Config F) : RunStores F × IngestionReport F → List Delivery →
    RunStores F × IngestionReport F
  | out, [] => out
  | (st, report), d :: ds =>
    match iteration cfg d st report with
    | .done out => out
    | .yield out => loop cfg out ds

def runIngestion (cfg : Config F) (st : RunStores F) (stream : List Delivery) :
    RunStores F × IngestionReport F :=
  loop cfg (st, ⟨0, 0, none⟩) stream

/-- The stores once the row of a delivery is inserted, pushed and paid for. -/
def RunStores.insert (cfg : Config F) (st : RunStores F) (d : Delivery) : RunStores F :=
  { st with
    tweets := st.tweets ++ [d.row]
    queue := st.queue ++ [d.rowId]
    spend := (recordTweet cfg st.spend d.now).1 }

/-- The activation for a breach in a month. -/
def RunStores.breach (cfg : Config F) (st : RunStores F) (month : String) : RunStores F :=
  st.activate .budgetTwitterapi "twitterapi_budget_tracker"
    (some (cfg.breachReason month (st.spend month)))

variable {cfg : Config F} {d : Delivery} {st : RunStores F} {report : IngestionReport F}

theorem RunStores.spend_insert_self (st : RunStores F) : (st.insert cfg d).spend (monthKey d.now) =
    (recordTweet cfg st.spend d.now).2.spendUsd := by
  simp only [RunStores.insert, recordTweet, Function.update_self]

theorem loop_done {out : RunStores F × IngestionReport F} {ds : List Delivery}
    (h : iteration cfg d st report = .done out) : loop cfg (st, report) (d :: ds) = out := by
  rw [loop, h]

theorem loop_yield {out : RunStores F × IngestionReport F} {ds : List Delivery}
    (h : iteration cfg d st report = .yield out) :
    loop cfg (st, report) (d :: ds) = loop cfg out ds := by
  rw [loop, h]

theorem iteration_active (h : (isActive d.env st.redisFlag st.events).active = true) :
    iteration cfg d st report =
      let reason := .killSwitchActive (isActive d.env st.redisFlag st.events).source
      .done (st, { report with stoppedReason := some reason }) := by
  rw [iteration, if_pos h]

theorem iteration_duplicate (h : (isActive d.env st.redisFlag st.events).active = false)
    (hdup : d.tweetId ∈ st.tweetIds) : iteration cfg d st report =
      .yield (st, { report with duplicates := report.duplicates + 1 }) := by
  rw [iteration, if_neg (by simp [h]), persistRawTweet, if_pos hdup]

theorem iteration_inserted (h : (isActive d.env st.redisFlag st.events).active = false)
    (hnew : d.tweetId ∉ st.tweetIds) :
    iteration cfg d st report =
      let report := { report with persisted := report.persisted + 1 }
      let st := st.insert cfg d
      let month := monthKey d.now
      if PyFloat.le cfg.limitUsd (st.spend month) then
        .done (st.breach cfg month, { report with
          stoppedReason := some (.twitterapiBudgetBreached (st.spend month)) })
      else .yield (st, report) := by
  have hstatus : (recordTweet cfg st.spend d.now).2.overBudget =
      PyFloat.le cfg.limitUsd ((st.insert cfg d).spend (monthKey d.now)) := by
    rw [st.spend_insert_self]
    rfl
  rw [iteration, if_neg (by simp [h]), persistRawTweet, if_neg hnew]
  by_cases hover : PyFloat.le cfg.limitUsd ((st.insert cfg d).spend (monthKey d.now)) = true
  · simp only [triggerFromBudget, hstatus, hover, if_true, ← st.spend_insert_self]
    rfl
  · simp only [hstatus, hover]
    rfl

/-- An iteration that goes on has nothing to report but its counts. -/
theorem iteration_yield {out : RunStores F × IngestionReport F}
    (h : iteration cfg d st report = .yield out) :
    out.2.stoppedReason = report.stoppedReason := by
  by_cases hactive : (isActive d.env st.redisFlag st.events).active = true
  · rw [iteration_active hactive] at h
    cases h
  · rw [Bool.not_eq_true] at hactive
    by_cases hdup : d.tweetId ∈ st.tweetIds
    · rw [iteration_duplicate hactive hdup] at h
      cases h
      rfl
    · rw [iteration_inserted hactive hdup] at h
      dsimp only at h
      split_ifs at h
      cases h
      rfl

/-- An iteration that breaks says why. -/
theorem iteration_done {out : RunStores F × IngestionReport F}
    (h : iteration cfg d st report = .done out) : out.2.stoppedReason.isSome = true := by
  by_cases hactive : (isActive d.env st.redisFlag st.events).active = true
  · rw [iteration_active hactive] at h
    cases h
    rfl
  · rw [Bool.not_eq_true] at hactive
    by_cases hdup : d.tweetId ∈ st.tweetIds
    · rw [iteration_duplicate hactive hdup] at h
      cases h
    · rw [iteration_inserted hactive hdup] at h
      dsimp only at h
      split_ifs at h
      cases h
      rfl

/-- A loop that has stopped leaves the rest of the stream. -/
theorem loop_append {ds : List Delivery} (rest : List Delivery)
    (hgoing : report.stoppedReason = none)
    (h : (loop cfg (st, report) ds).2.stoppedReason.isSome = true) :
    loop cfg (st, report) (ds ++ rest) = loop cfg (st, report) ds := by
  induction ds generalizing st report with
  | nil =>
    rw [loop, hgoing] at h
    cases h
  | cons d ds ih =>
    rw [List.cons_append]
    cases hstep : iteration cfg d st report with
    | done out => rw [loop_done hstep, loop_done hstep]
    | yield out =>
      rw [loop_yield hstep] at h
      rw [loop_yield hstep, loop_yield hstep]
      exact ih ((iteration_yield hstep).trans hgoing) h

end Run

section Reference

variable {c limit s : ℚ}

/-- Some number of tweets reaches the limit if tweets cost something or the first one does. -/
theorem exists_stop_iff :
    (∃ k : ℕ, 1 ≤ k ∧ limit ≤ s + k * c) ↔ 0 < c ∨ limit ≤ s + c := by
  constructor
  · rintro ⟨k, hk, hreach⟩
    by_contra hnever
    push Not at hnever
    have hmul : (k : ℚ) * c ≤ 1 * c :=
      mul_le_mul_of_nonpos_right (by exact_mod_cast hk) hnever.1
    linarith
  · rintro (hc | hfirst)
    · obtain ⟨k, hk⟩ := exists_nat_ge ((limit - s) / c)
      have hreach := (div_le_iff₀ hc).mp hk
      refine ⟨k + 1, by omega, ?_⟩
      push_cast
      linarith
    · exact ⟨1, le_rfl, by simpa using hfirst⟩

instance decidableStop : Decidable (∃ k : ℕ, 1 ≤ k ∧ limit ≤ s + k * c) :=
  decidable_of_iff' _ exists_stop_iff

/-- The least number of tweets, one or more, with which a spend of `s` gets to the limit. -/
def budgetStop (c limit s : ℚ) : Option ℕ :=
  if h : ∃ k : ℕ, 1 ≤ k ∧ limit ≤ s + k * c then some (Nat.find h) else none

theorem budgetStop_eq_some_iff {k : ℕ} :
    budgetStop c limit s = some k ↔ IsLeast {k : ℕ | 1 ≤ k ∧ limit ≤ s + k * c} k := by
  unfold budgetStop
  split_ifs with h
  · rw [Option.some.injEq]
    exact ⟨fun hk => hk ▸ Nat.isLeast_find h, (Nat.isLeast_find h).unique⟩
  · exact iff_of_false (by simp) fun hk => h ⟨k, hk.1⟩

theorem budgetStop_over (h : limit ≤ s + c) : budgetStop c limit s = some 1 :=
  budgetStop_eq_some_iff.mpr ⟨⟨le_rfl, by simpa using h⟩, fun _ hk => hk.1⟩

/-- If the first tweet stays below the limit, the count goes on from the spend it leaves. -/
theorem budgetStop_under (h : ¬ limit ≤ s + c) :
    budgetStop c limit s = (budgetStop c limit (s + c)).map (· + 1) := by
  have hshift (k : ℕ) : s + ((k + 1 : ℕ) : ℚ) * c = s + c + k * c := by
    push_cast
    ring
  have hnotone {k : ℕ} (hk : 1 ≤ k ∧ limit ≤ s + k * c) : ∃ j, 1 ≤ j ∧ k = j + 1 := by
    rcases Nat.lt_or_eq_of_le hk.1 with hlt | rfl
    · exact ⟨k - 1, by omega, by omega⟩
    · exact absurd (by simpa using hk.2) h
  apply Option.ext
  intro k
  rw [budgetStop_eq_some_iff, Option.map_eq_some_iff]
  constructor
  · rintro ⟨hk, hleast⟩
    obtain ⟨j, hj, rfl⟩ := hnotone hk
    refine ⟨j, budgetStop_eq_some_iff.mpr ⟨⟨hj, hshift j ▸ hk.2⟩, fun i hi => ?_⟩, rfl⟩
    have hle : j + 1 ≤ i + 1 := hleast ⟨by omega, (hshift i).symm ▸ hi.2⟩
    omega
  · rintro ⟨j, hj, rfl⟩
    obtain ⟨hreach, hleast⟩ := budgetStop_eq_some_iff.mp hj
    refine ⟨⟨by omega, (hshift j).symm ▸ hreach.2⟩, fun i hi => ?_⟩
    obtain ⟨i, hone, rfl⟩ := hnotone hi
    have hle := hleast ⟨hone, hshift i ▸ hi.2⟩
    omega

/-- Where the stream has the new tweet with which the spend gets to the limit. -/
def stopAt (cfg : Config ℚ) (month : String) (st : RunStores ℚ) (stream : List Delivery) :
    Option ℕ :=
  (budgetStop cfg.costPerTweetUsd cfg.limitUsd (st.spend month)).bind fun k =>
    (newAt Delivery.tweetId st.tweetIds stream)[k - 1]?

/-- The stores with these rows inserted, pushed and paid for in the month. -/
def RunStores.settled (cfg : Config ℚ) (month : String) (st : RunStores ℚ)
    (rows : List RawTweetRow) : RunStores ℚ :=
  { st with
    tweets := st.tweets ++ rows
    queue := st.queue ++ rows.map (·.id)
    spend := Function.update st.spend month
      (st.spend month + rows.length * cfg.costPerTweetUsd) }

/-- What a run comes to: it consumes the stream up to the new tweet that reaches the limit. -/
def reference (cfg : Config ℚ) (month : String) (st : RunStores ℚ) (stream : List Delivery) :
    RunStores ℚ × IngestionReport ℚ :=
  let stop := stopAt cfg month st stream
  let consumed := upTo stop stream
  let rows := (firsts Delivery.tweetId st.tweetIds consumed).map Delivery.row
  let settled := st.settled cfg month rows
  let duplicates := consumed.length - rows.length
  if stop.isSome then (settled.breach cfg month,
    ⟨rows.length, duplicates, some (.twitterapiBudgetBreached (settled.spend month))⟩)
  else (settled, ⟨rows.length, duplicates, none⟩)

variable {cfg : Config ℚ} {month : String} {st : RunStores ℚ} {d : Delivery} {ds : List Delivery}

theorem stopAt_nil : stopAt cfg month st [] = none := by
  simp [stopAt, newAt]

theorem stopAt_duplicate (hdup : d.tweetId ∈ st.tweetIds) :
    stopAt cfg month st (d :: ds) = (stopAt cfg month st ds).map (· + 1) := by
  simp only [stopAt, newAt_cons_known hdup, List.getElem?_map, Option.map_bind]
  rfl

theorem stopAt_over (hnew : d.tweetId ∉ st.tweetIds)
    (hover : cfg.limitUsd ≤ st.spend month + cfg.costPerTweetUsd) :
    stopAt cfg month st (d :: ds) = some 0 := by
  simp [stopAt, newAt_cons_new hnew, budgetStop_over hover]

theorem tweetIds_insert : ∀ x, x ∈ (st.insert cfg d).tweetIds ↔ x ∈ d.tweetId :: st.tweetIds := by
  intro x
  simp [RunStores.tweetIds, RunStores.insert, Delivery.row, Delivery.tweetId, or_comm]

theorem spend_insert (hmonth : monthKey d.now = month) :
    (st.insert cfg d).spend month = st.spend month + cfg.costPerTweetUsd := by
  subst hmonth
  exact st.spend_insert_self

theorem stopAt_under (hnew : d.tweetId ∉ st.tweetIds) (hmonth : monthKey d.now = month)
    (hunder : ¬ cfg.limitUsd ≤ st.spend month + cfg.costPerTweetUsd) :
    stopAt cfg month st (d :: ds) = (stopAt cfg month (st.insert cfg d) ds).map (· + 1) := by
  rw [stopAt, stopAt, newAt_cons_new hnew, budgetStop_under hunder, spend_insert hmonth,
    newAt_congr tweetIds_insert]
  cases hstop : budgetStop cfg.costPerTweetUsd cfg.limitUsd
      (st.spend month + cfg.costPerTweetUsd) with
  | none => rfl
  | some k =>
    obtain ⟨i, rfl⟩ : ∃ i, k = i + 1 := ⟨k - 1, by
      have hpos := (budgetStop_eq_some_iff.mp hstop).1.1
      omega⟩
    simp [List.getElem?_map]

theorem settled_nil : st.settled cfg month [] = st := by
  simp [RunStores.settled]

theorem settled_cons (hmonth : monthKey d.now = month) (rows : List RawTweetRow) :
    st.settled cfg month (d.row :: rows) = (st.insert cfg d).settled cfg month rows := by
  have hspend : st.spend month + (d.row :: rows).length * cfg.costPerTweetUsd =
      (st.insert cfg d).spend month + rows.length * cfg.costPerTweetUsd := by
    rw [spend_insert hmonth, List.length_cons]
    push_cast
    ring
  unfold RunStores.settled
  rw [hspend]
  subst hmonth
  simp [RunStores.insert, recordTweet, Delivery.row]

theorem reference_nil : reference cfg month st [] = (st, ⟨0, 0, none⟩) := by
  simp [reference, stopAt_nil, settled_nil]

theorem reference_duplicate (hdup : d.tweetId ∈ st.tweetIds) :
    reference cfg month st (d :: ds) = ((reference cfg month st ds).1,
      { (reference cfg month st ds).2 with
        duplicates := (reference cfg month st ds).2.duplicates + 1 }) := by
  have hle (stop : Option ℕ) : (firsts Delivery.tweetId st.tweetIds (upTo stop ds)).length ≤
      (upTo stop ds).length := length_firsts_le
  simp only [reference, stopAt_duplicate hdup, upTo_succ, firsts_cons_known hdup,
    List.length_cons, List.length_map, Option.isSome_map, Nat.succ_sub (hle _)]
  split_ifs <;> rfl

theorem reference_over (hnew : d.tweetId ∉ st.tweetIds) (hmonth : monthKey d.now = month)
    (hover : cfg.limitUsd ≤ st.spend month + cfg.costPerTweetUsd) :
    reference cfg month st (d :: ds) = ((st.insert cfg d).breach cfg month,
      ⟨1, 0, some (.twitterapiBudgetBreached ((st.insert cfg d).spend month))⟩) := by
  simp only [reference, stopAt_over hnew hover, upTo_zero, firsts_cons_new hnew, firsts_nil,
    List.map_cons, List.map_nil, settled_cons hmonth, settled_nil]
  rfl

theorem reference_under (hnew : d.tweetId ∉ st.tweetIds) (hmonth : monthKey d.now = month)
    (hunder : ¬ cfg.limitUsd ≤ st.spend month + cfg.costPerTweetUsd) :
    reference cfg month st (d :: ds) = ((reference cfg month (st.insert cfg d) ds).1,
      { (reference cfg month (st.insert cfg d) ds).2 with
        persisted := (reference cfg month (st.insert cfg d) ds).2.persisted + 1 }) := by
  have hfirsts (l : List Delivery) : firsts Delivery.tweetId (d.tweetId :: st.tweetIds) l =
      firsts Delivery.tweetId (st.insert cfg d).tweetIds l :=
    (firsts_congr tweetIds_insert).symm
  simp only [reference, stopAt_under hnew hmonth hunder, upTo_succ, firsts_cons_new hnew, hfirsts,
    List.map_cons, List.length_cons, settled_cons hmonth, Option.isSome_map,
    Nat.add_sub_add_right]
  split_ifs <;> rfl

/-- The loop adds to its report what the rest of the stream comes to. -/
theorem loop_eq_reference {stream : List Delivery} {p q : ℕ}
    (hswitch : (isActive none st.redisFlag st.events).active = false)
    (henv : ∀ d ∈ stream, envActive d.env = false)
    (hmonth : ∀ d ∈ stream, monthKey d.now = month) :
    loop cfg (st, ⟨p, q, none⟩) stream = ((reference cfg month st stream).1,
      ⟨p + (reference cfg month st stream).2.persisted,
        q + (reference cfg month st stream).2.duplicates,
        (reference cfg month st stream).2.stoppedReason⟩) := by
  induction stream generalizing st p q with
  | nil =>
    rw [loop, reference_nil]
    rfl
  | cons d ds ih =>
    obtain ⟨hd, hds⟩ := List.forall_mem_cons.mp henv
    obtain ⟨hnow, hnows⟩ := List.forall_mem_cons.mp hmonth
    have hinactive : (isActive d.env st.redisFlag st.events).active = false := by
      have hnone : envActive none = false := by decide
      simpa [isActive, hd, hnone] using hswitch
    by_cases hdup : d.tweetId ∈ st.tweetIds
    · rw [loop_yield (iteration_duplicate hinactive hdup), ih hswitch hds hnows,
        reference_duplicate hdup, Nat.add_right_comm, Nat.add_assoc]
    · have hstep : iteration cfg d st ⟨p, q, none⟩ = _ := iteration_inserted hinactive hdup
      simp only [hnow, le_rat, spend_insert hnow, decide_eq_true_eq] at hstep
      split_ifs at hstep with hover
      · rw [loop_done hstep, reference_over hdup hnow hover, spend_insert hnow]
        rfl
      · have hswitch' : (isActive none (st.insert cfg d).redisFlag
            (st.insert cfg d).events).active = false := hswitch
        rw [loop_yield hstep, ih hswitch' hds hnows, reference_under hdup hnow hover,
          Nat.add_right_comm, Nat.add_assoc]

/-- The report counts each consumed delivery once. -/
theorem reference_counts (stream : List Delivery) :
    (reference cfg month st stream).2.persisted + (reference cfg month st stream).2.duplicates =
      (upTo (stopAt cfg month st stream) stream).length := by
  have hle : (firsts Delivery.tweetId st.tweetIds
      (upTo (stopAt cfg month st stream) stream)).length ≤
        (upTo (stopAt cfg month st stream) stream).length := length_firsts_le
  unfold reference
  simp only [List.length_map]
  split_ifs
  · exact Nat.add_sub_cancel' hle
  · exact Nat.add_sub_cancel' hle

theorem reference_stopped (stream : List Delivery) :
    (reference cfg month st stream).2.stoppedReason.isSome =
      (stopAt cfg month st stream).isSome := by
  unfold reference
  simp only
  split_ifs with hstop
  · exact hstop.symm
  · exact (Bool.eq_false_iff.mpr hstop).symm

/-- The switch ends up on exactly if the run has stopped on the budget. -/
theorem reference_active_iff (hswitch : (isActive none st.redisFlag st.events).active = false)
    (stream : List Delivery) :
    (isActive none (reference cfg month st stream).1.redisFlag
      (reference cfg month st stream).1.events).active = true ↔
        (stopAt cfg month st stream).isSome = true := by
  unfold reference
  simp only
  split_ifs with hstop
  · exact iff_of_true ((isActive_active_iff _ _ _).mpr (Or.inr (Or.inl rfl))) hstop
  · exact iff_of_false (by simpa [RunStores.settled] using hswitch) hstop

/-- With the switch off and nobody else to turn it on, and within one month, a run does what the
reference says: it consumes the stream up to the new tweet that brings the spend to the limit,
inserts, pushes and pays for each new tweet of what it consumes, counts the others as duplicates,
and turns the switch on exactly if it has stopped at the limit. Whatever the stream has after
that tweet is left. -/
theorem runIngestion_eq_reference (cfg : Config ℚ) (month : String) (st : RunStores ℚ)
    (stream : List Delivery) (hswitch : (isActive none st.redisFlag st.events).active = false)
    (henv : ∀ d ∈ stream, envActive d.env = false)
    (hmonth : ∀ d ∈ stream, monthKey d.now = month) :
    runIngestion cfg st stream = reference cfg month st stream ∧
      (runIngestion cfg st stream).2.persisted + (runIngestion cfg st stream).2.duplicates =
        (upTo (stopAt cfg month st stream) stream).length ∧
      ((isActive none (runIngestion cfg st stream).1.redisFlag
        (runIngestion cfg st stream).1.events).active = true ↔
          (stopAt cfg month st stream).isSome = true) ∧
      ((stopAt cfg month st stream).isSome = true → ∀ rest,
        runIngestion cfg st (stream ++ rest) = runIngestion cfg st stream) := by
  have hrun : runIngestion cfg st stream = reference cfg month st stream := by
    rw [runIngestion, loop_eq_reference hswitch henv hmonth, Nat.zero_add, Nat.zero_add]
  refine ⟨hrun, ?_, ?_, fun hstop rest => loop_append rest rfl ?_⟩
  · rw [hrun]
    exact reference_counts stream
  · rw [hrun]
    exact reference_active_iff hswitch stream
  · have hreport := congrArg (fun out => out.2.stoppedReason.isSome) hrun
    exact hreport.trans ((reference_stopped stream).trans hstop)

end Reference

section Trace

variable {κ : Type} [PyFloat F]

/-- The stores of the run, as the steps see them. -/
def Sys.stores (s : Sys κ F) : RunStores F :=
  ⟨s.tweets, s.published, s.spend, s.kill.redisFlag, s.kill.rows⟩

/-- Between two deliveries, with no call on the kill switch in flight. -/
structure Idle (s : Sys κ F) : Prop where
  waiting : s.phase = .waiting
  calls : ∀ k, s.kill.call k = none

/-- The steps of an iteration. -/
def trace (cfg : Config F) (d : Delivery) (st : RunStores F) : List Action :=
  .deliver d.tweet :: .readRedis d.env ::
    if (isActive d.env st.redisFlag []).active then []
    else .readDb :: if (isActive none none st.events).active then []
    else .flush d.rowId :: .commit :: if d.tweetId ∈ st.tweetIds then []
    else .push :: .recordTweet d.now ::
      if PyFloat.le cfg.limitUsd ((st.insert cfg d).spend (monthKey d.now)) then
        [.activate (nextEventId st.events), .activateRedis, .activatePublish, .activateCommit]
      else []

variable [DecidableEq κ] [Fintype κ] {cfg : Config F} {d : Delivery} {s : Sys κ F}
  {as : List (Label κ)}

omit [DecidableEq κ] [Fintype κ] [PyFloat F] in
theorem Sys.goto_waiting (hs : s.phase = .waiting) : s.goto .waiting = s := by
  rw [← hs]
  rfl

theorem exec_readRedis (hs : s.phase = .waiting) :
    exec (step cfg) s (.ingest (.deliver d.tweet) :: .ingest (.readRedis d.env) :: as) =
      exec (step cfg) (s.goto (if (isActive d.env s.stores.redisFlag []).active then .waiting
        else .redisRead d.tweet)) as := by
  have hdeliver : step cfg s (.ingest (.deliver d.tweet)) = some (s.goto (.delivered d.tweet)) := by
    simp [step, act, hs]
  rw [exec_cons hdeliver]
  apply exec_cons
  rfl

theorem exec_readDb : exec (step cfg) (s.goto (.redisRead d.tweet)) (.ingest .readDb :: as) =
    exec (step cfg) (s.goto (if (isActive none none s.stores.events).active then .waiting
      else .checked d.tweet)) as := rfl

theorem exec_duplicate (hid : d.rowId ∉ s.tweets.map RawTweetRow.id)
    (hdup : d.tweetId ∈ s.stores.tweetIds) :
    exec (step cfg) (s.goto (.checked d.tweet)) (.ingest (.flush d.rowId) ::
      .ingest .commit :: as) = exec (step cfg) (s.finish d.tweet) as := by
  have hflush : step cfg (s.goto (.checked d.tweet)) (.ingest (.flush d.rowId)) =
      some (s.goto (.duplicate d.tweet)) := by
    show (if d.rowId ∈ s.tweets.map RawTweetRow.id then none
      else some (s.goto (if d.tweetId ∈ s.stores.tweetIds then .duplicate d.tweet
        else .flushed d.row))) = _
    rw [if_neg hid, if_pos hdup]
  rw [exec_cons hflush]
  rfl

/-- The run once the row of a delivery is inserted and pushed. -/
def Sys.pushed (s : Sys κ F) (d : Delivery) : Sys κ F :=
  { s.goto (.pushed d.row) with
    tweets := s.tweets ++ [d.row]
    published := s.published ++ [d.rowId] }

theorem exec_insert (hid : d.rowId ∉ s.tweets.map RawTweetRow.id)
    (hnew : d.tweetId ∉ s.stores.tweetIds) :
    exec (step cfg) (s.goto (.checked d.tweet)) (.ingest (.flush d.rowId) :: .ingest .commit ::
      .ingest .push :: as) = exec (step cfg) (s.pushed d) as := by
  have hflush : step cfg (s.goto (.checked d.tweet)) (.ingest (.flush d.rowId)) =
      some (s.goto (.flushed d.row)) := by
    show (if d.rowId ∈ s.tweets.map RawTweetRow.id then none
      else some (s.goto (if d.tweetId ∈ s.stores.tweetIds then .duplicate d.tweet
        else .flushed d.row))) = _
    rw [if_neg hid, if_neg hnew]
  rw [exec_cons hflush]
  rfl

/-- The run once the row is paid for too. -/
def Sys.recorded (cfg : Config F) (s : Sys κ F) (d : Delivery) : Sys κ F :=
  { s.pushed d with spend := (recordTweet cfg s.spend d.now).1 }

omit [DecidableEq κ] [Fintype κ] in
theorem Sys.stores_recorded : (s.recorded cfg d).stores = s.stores.insert cfg d := by
  have hspend : s.stores.spend = s.spend := rfl
  rw [RunStores.insert, hspend]
  rfl

omit [DecidableEq κ] [Fintype κ] [PyFloat F] in
theorem Sys.stores_finish (tweet : RawTweet) : (s.finish tweet).stores = s.stores := rfl

/-- The budget call for a new row, up to the activation it asks for. -/
theorem exec_record : exec (step cfg) (s.pushed d) (.ingest (.recordTweet d.now) :: as) =
    let month := monthKey d.now
    let spendUsd := (s.stores.insert cfg d).spend month
    exec (step cfg) (if PyFloat.le cfg.limitUsd spendUsd then
      (s.recorded cfg d).goto (.breached d.row month spendUsd)
      else (s.recorded cfg d).finish d.tweet) as := by
  simp only [s.stores.spend_insert_self]
  apply exec_cons
  rfl

/-- The steps of an activation are those of its call on the kill switch. -/
theorem exec_activation (cfg : Config F) (row : RawTweetRow) (month : String) (spendUsd : F)
    (id : ℕ) : exec (step cfg) (s.goto (.breached row month spendUsd))
      ([.activate id, .activateRedis, .activatePublish, .activateCommit].map Label.ingest) =
    (exec KillSwitch.step s.kill [.flush (.inl ()) (.activate .budgetTwitterapi
      "twitterapi_budget_tracker" (some (cfg.breachReason month spendUsd))) id,
      .redis (.inl ()), .publish (.inl ()), .commit (.inl ())]).map fun kill =>
        { s with kill := kill }.finish row.toRawTweet := by
  simp only [List.map_cons, List.map_nil, exec, step, Sys.goto, act, Sys.killMove, Option.bind_map,
    Option.map_bind, Function.comp_def, Option.map_some]
  rfl

/-- An activation that nothing interrupts. -/
theorem exec_breach (cfg : Config F) (hcalls : ∀ k, s.kill.call k = none) (row : RawTweetRow)
    (month : String) : ∃ t, exec (step cfg) (s.goto (.breached row month (s.stores.spend month)))
      ([.activate (nextEventId s.stores.events), .activateRedis, .activatePublish,
        .activateCommit].map Label.ingest) = some t ∧ Idle t ∧
      t.stores = s.stores.breach cfg month := by
  have hfresh : KillSwitch.FreshId s.kill (nextEventId s.stores.events) :=
    ⟨fun _ => lt_nextEventId, fun k => by simp [hcalls k]⟩
  have hrun := exec_activation (s := s) cfg row month (s.stores.spend month)
    (nextEventId s.stores.events)
  rw [KillSwitch.exec_request (hcalls _) hfresh rfl, Option.map_some] at hrun
  exact ⟨_, hrun, ⟨rfl, hcalls⟩, rfl⟩

/-- An iteration is a run of the steps. -/
theorem exec_trace (cfg : Config F) (hs : Idle s) (hid : d.rowId ∉ s.tweets.map RawTweetRow.id)
    (report : IngestionReport F) :
    ∃ t, exec (step cfg) s ((trace cfg d s.stores).map Label.ingest) = some t ∧ Idle t ∧
      t.stores = (iteration cfg d s.stores report).value.1 := by
  have hsplit := isActive_split d.env s.stores.redisFlag s.stores.events
  unfold trace
  split_ifs with hredis hdb hdup hover
  · rw [hredis, Bool.true_or] at hsplit
    rw [iteration_active hsplit]
    refine ⟨s, ?_, hs, rfl⟩
    simp only [List.map_cons, List.map_nil]
    rw [exec_readRedis hs.waiting, if_pos hredis, s.goto_waiting hs.waiting, exec_nil]
  · rw [hdb, Bool.or_true] at hsplit
    rw [iteration_active hsplit]
    refine ⟨s, ?_, hs, rfl⟩
    simp only [List.map_cons, List.map_nil]
    rw [exec_readRedis hs.waiting, if_neg hredis, exec_readDb, if_pos hdb,
      s.goto_waiting hs.waiting, exec_nil]
  all_goals
    have hinactive : (isActive d.env s.stores.redisFlag s.stores.events).active = false := by
      simp [hsplit, hredis, hdb]
    simp only [List.map_cons, List.map_nil]
    rw [exec_readRedis hs.waiting, if_neg hredis, exec_readDb, if_neg hdb]
  · rw [iteration_duplicate hinactive hdup, exec_duplicate hid hdup]
    exact ⟨s.finish d.tweet, rfl, ⟨rfl, hs.calls⟩, rfl⟩
  · rw [iteration_inserted hinactive hdup, exec_insert hid hdup, exec_record]
    simp only [if_pos hover]
    have hbreach := exec_breach (s := s.recorded cfg d) cfg hs.calls d.row (monthKey d.now)
    rw [Sys.stores_recorded] at hbreach
    exact hbreach
  · rw [iteration_inserted hinactive hdup, exec_insert hid hdup, exec_record]
    simp only [if_neg hover]
    refine ⟨(s.recorded cfg d).finish d.tweet, exec_nil, ⟨rfl, hs.calls⟩, ?_⟩
    rw [Sys.stores_finish, Sys.stores_recorded, ForInStep.value_yield]

/-- The steps of the iterations of a run. -/
def loopTrace (cfg : Config F) : RunStores F × IngestionReport F → List Delivery → List Action
  | _, [] => []
  | (st, report), d :: ds => trace cfg d st ++
    match iteration cfg d st report with
    | .done _ => []
    | .yield out => loopTrace cfg out ds

omit [DecidableEq κ] [Fintype κ] in
/-- Of the table an iteration sees only the insert. -/
theorem iteration_tweets (cfg : Config F) (d : Delivery) (st : RunStores F)
    (report : IngestionReport F) :
    (iteration cfg d st report).value.1.tweets = st.tweets ∨
      (iteration cfg d st report).value.1.tweets = st.tweets ++ [d.row] := by
  by_cases hactive : (isActive d.env st.redisFlag st.events).active = true
  · rw [iteration_active hactive]
    exact Or.inl rfl
  · rw [Bool.not_eq_true] at hactive
    by_cases hdup : d.tweetId ∈ st.tweetIds
    · rw [iteration_duplicate hactive hdup]
      exact Or.inl rfl
    · rw [iteration_inserted hactive hdup]
      right
      dsimp only
      split_ifs <;> rfl

/-- The loop is a run of the steps, as long as the table gives each row an id of its own. -/
theorem exec_loop (hs : Idle s) {stream : List Delivery}
    (hids : (s.tweets.map RawTweetRow.id ++ stream.map Delivery.rowId).Nodup)
    (report : IngestionReport F) :
    ∃ t, exec (step cfg) s ((loopTrace cfg (s.stores, report) stream).map Label.ingest) = some t ∧
      Idle t ∧ t.stores = (loop cfg (s.stores, report) stream).1 := by
  induction stream generalizing s report with
  | nil => exact ⟨s, rfl, hs, rfl⟩
  | cons d ds ih =>
    rw [List.map_cons] at hids
    have hid : d.rowId ∉ s.tweets.map RawTweetRow.id := fun hmem =>
      (List.nodup_append.mp hids).2.2 _ hmem _ (List.mem_cons_self ..) rfl
    obtain ⟨t, ht, hidle, hstores⟩ := exec_trace cfg hs hid report
    rw [loopTrace, List.map_append, exec_append, ht, Option.bind_some]
    have htweets := iteration_tweets cfg d s.stores report
    cases hstep : iteration cfg d s.stores report with
    | done out =>
      rw [hstep] at hstores
      rw [loop_done hstep]
      exact ⟨t, rfl, hidle, hstores⟩
    | yield out =>
      rw [hstep] at hstores htweets
      rw [loop_yield hstep]
      obtain ⟨st', report'⟩ := out
      simp only [ForInStep.value_yield] at hstores htweets
      subst hstores
      apply ih hidle
      rcases htweets with hkept | hadded
      · rw [show t.tweets = s.tweets from hkept]
        exact hids.sublist (List.Sublist.append_left (List.sublist_cons_self ..) _)
      · rw [show t.tweets = s.tweets ++ [d.row] from hadded]
        simpa [Delivery.row] using hids

/-- A run without failure is one of the runs of the steps. -/
theorem runIngestion_exec (cfg : Config F) (hs : Idle s) (stream : List Delivery)
    (hids : (s.tweets.map RawTweetRow.id ++ stream.map Delivery.rowId).Nodup) :
    ∃ as t, exec (step cfg) s as = some t ∧ Idle t ∧
      t.stores = (runIngestion cfg s.stores stream).1 ∧ ∀ l ∈ as, ∃ a, l = .ingest a := by
  obtain ⟨t, ht, hidle, hstores⟩ := exec_loop hs hids ⟨0, 0, none⟩
  refine ⟨_, t, ht, hidle, hstores, fun l hl => ?_⟩
  obtain ⟨a, -, rfl⟩ := List.mem_map.mp hl
  exact ⟨a, rfl⟩

end Trace

section Paper

/-- One row, and nothing spent in any month. -/
def paperStores : RunStores ℚ := ⟨[⟨paperTweet, 1⟩], [], fun _ => 0, none, []⟩

def paperDeliveryOf (tweetId : String) (rowId : ℤ) : Delivery :=
  ⟨{ paperTweet with tweetId := tweetId }, none, rowId, paperNoon⟩

/-- A known tweet, a new one twice, and the new one that reaches the limit. -/
def paperStream : List Delivery :=
  [("t1", 2), ("t2", 3), ("t2", 4), ("t3", 5), ("t4", 6)].map fun t => paperDeliveryOf t.1 t.2

theorem runIngestion_eq_reference_breach :
    let cfg : Config ℚ := ⟨1, 2, fun _ _ => "budget"⟩
    let month := monthKey paperNoon
    runIngestion cfg paperStores paperStream = reference cfg month paperStores paperStream ∧
      (runIngestion cfg paperStores paperStream).1.queue = [3, 5] ∧
      (runIngestion cfg paperStores paperStream).2.duplicates = 2 := by
  intro cfg month
  refine ⟨(runIngestion_eq_reference cfg month paperStores paperStream (by decide) ?_ ?_).1, ?_, ?_⟩
  · intro d hd
    obtain ⟨t, -, rfl⟩ := List.mem_map.mp hd
    show envActive none = false
    decide
  · intro d hd
    obtain ⟨t, -, rfl⟩ := List.mem_map.mp hd
    rfl
  · decide +kernel
  · decide +kernel

end Paper

end XSocialTrader.Ingestion
