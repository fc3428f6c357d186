import XSocialTrader.Core.Clock
import XSocialTrader.KillSwitch.Interleaving
import XSocialTrader.Lib.Outbox
import XSocialTrader.Models.Decisions
import Mathlib.Data.Fintype.Sum

/-! `run_ingestion`, one run after another. A delivery goes from the check of the kill switch to
the row, the queue and the monthly budget; an exception or the end of the process takes the run
out of it at any point, and the stream may deliver the tweet again to the next run. -/
namespace XSocialTrader.Ingestion
open LabelledRun

variable {κ F : Type}

/-- Where the run stands with the tweet that the stream has delivered. -/
inductive Phase (F : Type) where
  | waiting
  | delivered (tweet : RawTweet)
  | redisRead (tweet : RawTweet)
  | checked (tweet : RawTweet)
  | flushed (row : RawTweetRow)
  | duplicate (tweet : RawTweet)
  | committed (row : RawTweetRow)
  | pushed (row : RawTweetRow)
  | breached (row : RawTweetRow) (month : String) (spendUsd : F)
  | activating (row : RawTweetRow)
  deriving DecidableEq

inductive Action where
  | deliver (tweet : RawTweet)
  | readRedis (env : Option String)
  | readDb
  | flush (id : ℤ)
  | commit
  | push
  | recordTweet (now : UtcDateTime)
  | activate (id : ℕ)
  | activateRedis
  | activatePublish
  | activateCommit
  | stop

/-- The stores, and the run at work. `published` is every id ever pushed onto the queue, and
`processed` lists the tweets whose delivery came to its end. -/
structure Sys (κ F : Type) where
  kill : KillSwitch.Sys (Unit ⊕ κ)
  tweets : List RawTweetRow
  published : List ℤ
  spend : String → F
  phase : Phase F
  processed : List String

inductive Label (κ : Type) where
  | ingest (a : Action)
  | operator (k : KillSwitch.Label κ)

/-- The price of a tweet, the monthly cap, and the audit text of a breach. -/
structure Config (F : Type) where
  costPerTweetUsd : F
  limitUsd : F
  breachReason : String → F → String

/-- `YYYY-MM`. -/
def monthKey (now : UtcDateTime) : String := String.ofList (now.date.text.take 7)

section Act

variable [DecidableEq κ] [Fintype κ] [PyFloat F]

def Sys.goto (s : Sys κ F) (phase : Phase F) : Sys κ F := { s with phase := phase }

/-- The iteration of the tweet comes to its end. -/
def Sys.finish (s : Sys κ F) (tweet : RawTweet) : Sys κ F :=
  { s with phase := .waiting, processed := s.processed ++ [tweet.tweetId] }

/-- A step of the run's own activation of the kill switch. -/
def Sys.killMove (s : Sys κ F) (k : KillSwitch.Label (Unit ⊕ κ)) (next : Sys κ F → Sys κ F) :
    Option (Sys κ F) :=
  (KillSwitch.step s.kill k).map fun kill => next { s with kill := kill }

def act (cfg : Config F) (s : Sys κ F) : Phase F → Action → Option (Sys κ F)
  | .waiting, .deliver tweet => some (s.goto (.delivered tweet))
  | .delivered tweet, .readRedis env =>
    some (s.goto (if (isActive env s.kill.redisFlag []).active then .waiting
      else .redisRead tweet))
  | .redisRead tweet, .readDb =>
    some (s.goto (if (isActive none none s.kill.rows).active then .waiting else .checked tweet))
  | .checked tweet, .flush id =>
    -- An `IntegrityError` rolls the session back; `UNIQUE(tweet_id)` is the only one there is.
    if id ∈ s.tweets.map RawTweetRow.id then none
    else some (s.goto (if tweet.tweetId ∈ s.tweets.map (·.tweetId) then .duplicate tweet
      else .flushed ⟨tweet, id⟩))
  | .flushed row, .commit => some { s.goto (.committed row) with tweets := s.tweets ++ [row] }
  | .duplicate tweet, .commit => some (s.finish tweet)
  | .committed row, .push =>
    some { s.goto (.pushed row) with published := s.published ++ [row.id] }
  | .pushed row, .recordTweet now =>
    let month := monthKey now
    let spendUsd := PyFloat.add (s.spend month) cfg.costPerTweetUsd
    let s' := { s with spend := Function.update s.spend month spendUsd }
    some (if PyFloat.le cfg.limitUsd spendUsd then s'.goto (.breached row month spendUsd)
      else s'.finish row.toRawTweet)
  | .breached row month spendUsd, .activate id =>
    s.killMove (.flush (.inl ()) (.activate .budgetTwitterapi "twitterapi_budget_tracker"
      (some (cfg.breachReason month spendUsd))) id) (·.goto (.activating row))
  | .activating row, .activateRedis => s.killMove (.redis (.inl ())) (·.goto (.activating row))
  | .activating row, .activatePublish =>
    s.killMove (.publish (.inl ())) (·.goto (.activating row))
  | .activating row, .activateCommit =>
    s.killMove (.commit (.inl ())) (·.finish row.toRawTweet)
  | .activating _, .stop => s.killMove (.stop (.inl ())) (·.goto .waiting)
  | .waiting, .stop => none
  | _, .stop => some (s.goto .waiting)
  | _, _ => none

def step (cfg : Config F) (s : Sys κ F) : Label κ → Option (Sys κ F)
  | .ingest a => act cfg s s.phase a
  | .operator k => (KillSwitch.step s.kill (KillSwitch.operatorLabel k)).map fun kill =>
      { s with kill := kill }

end Act

section Facts

/-- The ids of committed rows that the run has yet to push. -/
def Phase.unpublished : Phase F → List ℤ
  | .committed row => [row.id]
  | _ => []

/-- What the run knows of the tweet it works on: whether its row is there. -/
def Phase.Sound (tweets : List RawTweetRow) (processed : List String) : Phase F → Prop
  | .flushed row => row.id ∉ tweets.map RawTweetRow.id ∧ row.tweetId ∉ tweets.map (·.tweetId)
  | .duplicate tweet => tweet.tweetId ∈ tweets.map (·.tweetId)
  | .committed row => row ∈ tweets ∧ row.tweetId ∉ processed
  | .pushed row | .breached row _ _ | .activating row => row ∈ tweets
  | _ => True

/-- The rows are unique in both ids, and a processed tweet has one. -/
structure Captured (s : Sys κ F) : Prop where
  tweetIds : (s.tweets.map (·.tweetId)).Nodup
  processed : ∀ x ∈ s.processed, x ∈ s.tweets.map (·.tweetId)
  phase : s.phase.Sound s.tweets s.processed

/-- The outbox of the run. -/
def Sys.outbox (s : Sys κ F) : Outbox.State Unit ℤ where
  rows := s.tweets.map RawTweetRow.id
  pushed := s.published
  held _ := s.phase.unpublished

/-- The first run waits for its first tweet and nothing has been written yet. -/
structure Initial (s : Sys κ F) : Prop where
  waiting : s.phase = .waiting
  tweets : s.tweets = []
  published : s.published = []
  processed : s.processed = []

theorem Initial.outbox_inv {s : Sys κ F} (h : Initial s) : Outbox.Inv s.outbox :=
  .empty (by simp [Sys.outbox, h.tweets]) h.published fun _ => by
    simp [Sys.outbox, h.waiting, Phase.unpublished]

theorem Initial.captured {s : Sys κ F} (h : Initial s) : Captured s where
  tweetIds := by simp [h.tweets]
  processed x hx := by simp [h.processed] at hx
  phase := by
    rw [h.waiting]
    trivial

/-- What one step can do to the rows, the queue and the run. -/
inductive Move (s t : Sys κ F) : Label κ → Prop
  | quiet (l : Label κ) (htweets : t.tweets = s.tweets) (hpublished : t.published = s.published)
      (hprocessed : t.processed = s.processed) (hfrom : s.phase.unpublished = [])
      (hto : t.phase.unpublished = []) (hsound : s.phase.Sound s.tweets s.processed →
        t.phase.Sound s.tweets s.processed) : Move s t l
  | finish (l : Label κ) (tweet : RawTweet) (htweets : t.tweets = s.tweets)
      (hpublished : t.published = s.published)
      (hprocessed : t.processed = s.processed ++ [tweet.tweetId])
      (hfrom : s.phase.unpublished = []) (hto : t.phase = .waiting)
      (hknown : s.phase.Sound s.tweets s.processed →
        tweet.tweetId ∈ s.tweets.map (·.tweetId)) : Move s t l
  | commit (row : RawTweetRow) (hfrom : s.phase = .flushed row)
      (ht : t = { s.goto (.committed row) with tweets := s.tweets ++ [row] }) :
      Move s t (.ingest .commit)
  | push (row : RawTweetRow) (hfrom : s.phase = .committed row)
      (ht : t = { s.goto (.pushed row) with published := s.published ++ [row.id] }) :
      Move s t (.ingest .push)
  | stop (htweets : t.tweets = s.tweets) (hpublished : t.published = s.published)
      (hprocessed : t.processed = s.processed) (hto : t.phase = .waiting) :
      Move s t (.ingest .stop)
  | operator (k : KillSwitch.Label κ) (htweets : t.tweets = s.tweets)
      (hpublished : t.published = s.published) (hprocessed : t.processed = s.processed)
      (hphase : t.phase = s.phase) : Move s t (.operator k)

variable [DecidableEq κ] [Fintype κ] [PyFloat F] {cfg : Config F} {s t : Sys κ F}
  {l : Label κ} {a : Action}

theorem mem_tweetIds {row : RawTweetRow} {tweets : List RawTweetRow} (h : row ∈ tweets) :
    row.tweetId ∈ tweets.map (·.tweetId) :=
  List.mem_map_of_mem (f := fun row : RawTweetRow => row.tweetId) h

theorem step_move (h : step cfg s l = some t) : Move s t l := by
  cases l with
  | operator k =>
    obtain ⟨kill, -, rfl⟩ := Option.map_eq_some_iff.mp h
    exact .operator k rfl rfl rfl rfl
  | ingest a =>
    -- Most moves only take the run from one await to the next.
    have hgoto {next : Phase F} (hnext : some (s.goto next) = some t)
        (hfrom : s.phase.unpublished = []) (hto : next.unpublished = [])
        (hsound : s.phase.Sound s.tweets s.processed → next.Sound s.tweets s.processed) :
        Move s t (.ingest a) := by
      obtain rfl := Option.some.inj hnext
      exact .quiet _ rfl rfl rfl hfrom hto hsound
    simp only [step, act] at h
    split at h
    case h_1 hphase => exact hgoto h (by rw [hphase]; rfl) rfl fun _ => trivial
    case h_2 hphase | h_3 hphase =>
      split_ifs at h <;> exact hgoto h (by rw [hphase]; rfl) rfl fun _ => trivial
    case h_4 tweet id hphase =>
      split_ifs at h with hid hdup
      · exact hgoto h (by rw [hphase]; rfl) rfl fun _ => hdup
      · exact hgoto h (by rw [hphase]; rfl) rfl fun _ => ⟨hid, hdup⟩
    case h_5 row hphase => exact .commit row hphase (Option.some.inj h).symm
    case h_6 tweet hphase =>
      obtain rfl := Option.some.inj h
      refine .finish _ tweet rfl rfl rfl (by rw [hphase]; rfl) rfl fun hs => ?_
      rw [hphase] at hs
      exact hs
    case h_7 row hphase => exact .push row hphase (Option.some.inj h).symm
    case h_8 row now hphase =>
      have hrow : s.phase.Sound s.tweets s.processed → row ∈ s.tweets := by
        rw [hphase]
        exact id
      -- A move does not say what has been spent.
      generalize Function.update s.spend _ _ = spend at h
      split_ifs at h
      · obtain rfl := Option.some.inj h
        exact .quiet _ rfl rfl rfl (by rw [hphase]; rfl) rfl hrow
      · obtain rfl := Option.some.inj h
        exact .finish _ row.toRawTweet rfl rfl rfl (by rw [hphase]; rfl) rfl
          fun hs => mem_tweetIds (hrow hs)
    case h_9 row month spendUsd eventId hphase =>
      obtain ⟨kill, -, rfl⟩ := Option.map_eq_some_iff.mp h
      refine .quiet _ rfl rfl rfl (by rw [hphase]; rfl) rfl ?_
      rw [hphase]
      exact id
    case h_10 row hphase | h_11 row hphase =>
      obtain ⟨kill, -, rfl⟩ := Option.map_eq_some_iff.mp h
      refine .quiet _ rfl rfl rfl (by rw [hphase]; rfl) rfl ?_
      rw [hphase]
      exact id
    case h_12 row hphase =>
      obtain ⟨kill, -, rfl⟩ := Option.map_eq_some_iff.mp h
      refine .finish _ row.toRawTweet rfl rfl rfl (by rw [hphase]; rfl) rfl ?_
      rw [hphase]
      exact mem_tweetIds
    case h_13 =>
      obtain ⟨kill, -, rfl⟩ := Option.map_eq_some_iff.mp h
      exact .stop rfl rfl rfl rfl
    case h_14 => cases h
    case h_15 =>
      obtain rfl := Option.some.inj h
      exact .stop rfl rfl rfl rfl
    case h_16 => cases h

omit [DecidableEq κ] [Fintype κ] [PyFloat F] in
/-- There is one run, so what it holds is all that is held. -/
theorem held_update (s t : Sys κ F) :
    t.outbox.held = Function.update s.outbox.held () t.phase.unpublished := by
  funext u
  simp [Sys.outbox]

/-- Dropping what is left to push is a stop. -/
theorem stop_refines (h : step cfg s (.ingest .stop) = some t) :
    Outbox.step s.outbox (.drop ()) = some t.outbox := by
  obtain ⟨htweets, hpublished, hto⟩ : t.tweets = s.tweets ∧ t.published = s.published ∧
      t.phase.unpublished = [] := by
    cases step_move h with
    | quiet _ htweets hpublished _ _ hto => exact ⟨htweets, hpublished, hto⟩
    | finish _ _ htweets hpublished _ _ hto => exact ⟨htweets, hpublished, by rw [hto]; rfl⟩
    | stop htweets hpublished _ hto => exact ⟨htweets, hpublished, by rw [hto]; rfl⟩
  have hrows : t.outbox.rows = s.outbox.rows := congrArg (List.map RawTweetRow.id) htweets
  have hdrop : t.outbox = { s.outbox with held := Function.update s.outbox.held () [] } :=
    Outbox.State.ext hrows hpublished (hto ▸ held_update s t)
  exact congrArg some hdrop.symm

/-- Every step of the run is a step of the outbox, and only a stop drops anything. -/
theorem step_refines (hs : Captured s) (h : step cfg s l = some t) :
    ∃ a, Outbox.step s.outbox a = some t.outbox ∧ ∀ u, a = .drop u → l = .ingest .stop := by
  have hother (htweets : t.tweets = s.tweets) (hpublished : t.published = s.published)
      (hheld : t.phase.unpublished = s.phase.unpublished) :
      ∃ a, Outbox.step s.outbox a = some t.outbox ∧ ∀ u, a = .drop u → l = .ingest .stop := by
    have hrows : t.outbox.rows = s.outbox.rows := congrArg (List.map RawTweetRow.id) htweets
    have hsame : t.outbox = s.outbox :=
      Outbox.State.ext hrows hpublished (funext fun _ => hheld)
    exact ⟨.other, congrArg some hsame.symm, fun _ hbad => by cases hbad⟩
  cases step_move h with
  | quiet _ htweets hpublished _ hfrom hto => exact hother htweets hpublished (hto.trans hfrom.symm)
  | finish _ _ htweets hpublished _ hfrom hto =>
    refine hother htweets hpublished ?_
    rw [hfrom, hto]
    rfl
  | operator _ htweets hpublished _ hphase => exact hother htweets hpublished (by rw [hphase])
  | stop => exact ⟨.drop (), stop_refines h, fun _ _ => rfl⟩
  | commit row hfrom ht =>
    have hnew : row.id ∉ s.tweets.map RawTweetRow.id := by
      have hsound := hs.phase
      rw [hfrom] at hsound
      exact hsound.1
    have hcond : s.outbox.held () = [] ∧ (∀ k ∈ [row.id], k ∉ s.outbox.rows) ∧
        [row.id].Nodup := by
      refine ⟨by simp [Sys.outbox, hfrom, Phase.unpublished], ?_, List.nodup_singleton _⟩
      simpa [Sys.outbox] using hnew
    refine ⟨.commit () [row.id], ?_, fun _ hbad => by cases hbad⟩
    have hnext : t.outbox = { s.outbox with
        rows := s.outbox.rows ++ [row.id]
        held := Function.update s.outbox.held () [row.id] } := by
      subst ht
      apply Outbox.State.ext
      · exact List.map_append
      · rfl
      · exact held_update s _
    rw [Outbox.step, if_pos hcond, hnext]
  | push row hfrom ht =>
    have hheld : s.outbox.held () = [row.id] := by
      simp [Sys.outbox, hfrom, Phase.unpublished]
    refine ⟨.push (), ?_, fun _ hbad => by cases hbad⟩
    have hnext : t.outbox = { s.outbox with
        pushed := s.outbox.pushed ++ [row.id]
        held := Function.update s.outbox.held () [] } := by
      subst ht
      apply Outbox.State.ext
      · rfl
      · rfl
      · exact held_update s _
    simp only [Outbox.step, hheld, hnext]

theorem step_captured (hs : Captured s) (h : step cfg s l = some t) : Captured t := by
  have hsound := hs.phase
  cases step_move h with
  | quiet _ htweets _ hprocessed _ _ hnext =>
    refine ⟨htweets ▸ hs.tweetIds, ?_, ?_⟩
    · rw [hprocessed, htweets]
      exact hs.processed
    · rw [hprocessed, htweets]
      exact hnext hsound
  | finish _ tweet htweets _ hprocessed _ hto hknown =>
    refine ⟨htweets ▸ hs.tweetIds, fun x hx => ?_, by rw [hto]; trivial⟩
    rw [htweets]
    rw [hprocessed] at hx
    rcases List.mem_append.mp hx with hx | hx
    · exact hs.processed x hx
    · rw [List.mem_singleton.mp hx]
      exact hknown hsound
  | stop htweets _ hprocessed hto =>
    refine ⟨htweets ▸ hs.tweetIds, ?_, by rw [hto]; trivial⟩
    rw [hprocessed, htweets]
    exact hs.processed
  | operator _ htweets _ hprocessed hphase =>
    refine ⟨htweets ▸ hs.tweetIds, ?_, ?_⟩
    · rw [hprocessed, htweets]
      exact hs.processed
    · rw [hprocessed, htweets, hphase]
      exact hsound
  | commit row hfrom ht =>
    rw [hfrom] at hsound
    subst ht
    refine ⟨?_, fun x hx => ?_, ?_⟩
    · show ((s.tweets ++ [row]).map (·.tweetId)).Nodup
      rw [List.map_append]
      refine hs.tweetIds.append (List.nodup_singleton _) fun x hx hx' => ?_
      rw [List.mem_singleton.mp hx'] at hx
      exact hsound.2 hx
    · show x ∈ (s.tweets ++ [row]).map (·.tweetId)
      rw [List.map_append]
      exact List.mem_append_left _ (hs.processed x hx)
    · exact ⟨List.mem_append_right _ (List.mem_singleton_self row),
        fun hrow => hsound.2 (hs.processed _ hrow)⟩
  | push row hfrom ht =>
    rw [hfrom] at hsound
    subst ht
    exact ⟨hs.tweetIds, hs.processed, hsound.1⟩

/-- The run ends, or its RPUSH raises, with the row of this id committed and not pushed. -/
def Drops (id : ℤ) (s : Sys κ F) (l : Label κ) : Prop :=
  l = .ingest .stop ∧ id ∈ s.phase.unpublished

/-- Once the delivery of a tweet has come to its end, the id of its row has been pushed, unless
a run has ended between its commit and its push: a later delivery of the tweet finds the row,
takes it for a duplicate and pushes nothing. -/
theorem processed_pushed_iff {s₀ : Sys κ F} {as : List (Label κ)} (h₀ : Initial s₀)
    (h : exec (step cfg) s₀ as = some t) {x : String} (hx : x ∈ t.processed) :
    ∃ row ∈ t.tweets, row.tweetId = x ∧
      (row.id ∈ t.published ↔ ¬ Occurs (step cfg) (Drops row.id) s₀ as) := by
  have hinv (s : Sys κ F) (l : Label κ) (t : Sys κ F)
      (hs : Captured s ∧ Outbox.Inv s.outbox) (hstep : step cfg s l = some t) :
      Captured t ∧ Outbox.Inv t.outbox := by
    obtain ⟨a, ha, -⟩ := step_refines hs.1 hstep
    exact ⟨step_captured hs.1 hstep, Outbox.step_inv hs.2 ha⟩
  obtain ⟨hcaptured, hids⟩ := exec_invariant (fun s => Captured s ∧ Outbox.Inv s.outbox) hinv
    ⟨h₀.captured, h₀.outbox_inv⟩ h
  obtain ⟨row, hrow, rfl⟩ := List.mem_map.mp (hcaptured.processed x hx)
  refine ⟨row, hrow, rfl, fun hpub hdrop => ?_, fun hkept => ?_⟩
  · have hlost : Outbox.Lost row.id t.outbox := by
      refine occurs_persists (fun s => Captured s ∧ Outbox.Inv s.outbox)
        (fun s => Outbox.Lost row.id s.outbox) hinv ?_ ?_ ⟨h₀.captured, h₀.outbox_inv⟩ hdrop h
      · rintro s l t hs ⟨rfl, hheld⟩ hstep
        exact Outbox.drop_lost hs.2 hheld (stop_refines hstep)
      · intro s l t hs hlost hstep
        obtain ⟨a, ha, -⟩ := step_refines hs.1 hstep
        exact hlost.step ha
    exact hlost.unpushed hpub
  · have hguard := (guarded_or_occurs (Drops row.id) h).resolve_right hkept
    have hacc := guarded_invariant (fun s : Sys κ F => Captured s ∧
        (row.id ∈ s.outbox.rows → Outbox.Accounted row.id s.outbox)) ?_
      ⟨h₀.captured, fun hr => absurd hr (by simp [Sys.outbox, h₀.tweets])⟩ hguard h
    · rcases hacc.2 (List.mem_map_of_mem hrow) with hpub | ⟨_, hheld⟩
      · exact hpub
      · -- A run that still has the row to push has not processed its tweet.
        cases hphase : t.phase with
        | committed row' =>
          have hsound := hcaptured.phase
          rw [hphase] at hsound
          rw [Sys.outbox, hphase] at hheld
          obtain rfl : row = row' := List.inj_on_of_nodup_map hids.rows_nodup hrow hsound.1
            (List.mem_singleton.mp hheld)
          exact absurd hx hsound.2
        | _ => simp [Sys.outbox, hphase, Phase.unpublished] at hheld
    · intro s l t hs hnot hstep
      obtain ⟨a, ha, hdrop⟩ := step_refines hs.1 hstep
      refine ⟨step_captured hs.1 hstep, Outbox.accounted_step hs.2 ha fun u hu hheld => ?_⟩
      exact hnot ⟨hdrop u hu, hheld⟩

end Facts

section Paper

def paperIngestion : Config ℚ := ⟨1 / 1000, 100, fun _ _ => "budget"⟩

def paperEmpty : Sys (Fin 1) ℚ where
  kill := ⟨none, [], fun _ => none⟩
  tweets := []
  published := []
  spend := fun _ => 0
  phase := .waiting
  processed := []

theorem paperEmpty_initial : Initial paperEmpty := ⟨rfl, rfl, rfl, rfl⟩

/-- A delivery up to the commit of its session. -/
def paperDelivery : List (Label (Fin 1)) :=
  [.ingest (.deliver paperTweet), .ingest (.readRedis none), .ingest .readDb,
    .ingest (.flush 1), .ingest .commit]

/-- The same tweet again; the id that the insert would get is another one. -/
def paperRedelivery : List (Label (Fin 1)) :=
  [.ingest (.deliver paperTweet), .ingest (.readRedis none), .ingest .readDb,
    .ingest (.flush 2), .ingest .commit]

/-- The RPUSH of a new row raises. The tweet is delivered to the next run, which takes the row
for a duplicate, comes to the end of the iteration, and pushes nothing. -/
theorem redelivery_pushes_nothing : ¬ ∀ (cfg : Config ℚ) (s₀ t : Sys (Fin 1) ℚ)
    (as : List (Label (Fin 1))), Initial s₀ → exec (step cfg) s₀ as = some t →
      ∀ x ∈ t.processed, ∃ row ∈ t.tweets, row.tweetId = x ∧ row.id ∈ t.published := by
  intro h
  have hrun : (exec (step paperIngestion) paperEmpty
      (paperDelivery ++ .ingest .stop :: paperRedelivery)).map
        (fun t => (t.processed, t.published)) = some (["t1"], []) := by decide +kernel
  obtain ⟨t, ht, hend⟩ := Option.map_eq_some_iff.mp hrun
  obtain ⟨hprocessed, hpublished⟩ := Prod.mk.inj hend
  obtain ⟨row, -, -, hpushed⟩ := h paperIngestion paperEmpty t _ paperEmpty_initial ht "t1"
    (by simp [hprocessed])
  simp [hpublished] at hpushed

/-- A first delivery without failure. -/
theorem processed_pushed_iff_delivered :
    let as := paperDelivery ++ [.ingest .push, .ingest (.recordTweet paperNoon)]
    ∃ t, exec (step paperIngestion) paperEmpty as = some t ∧ t.processed = ["t1"] ∧
      ∃ row ∈ t.tweets, row.tweetId = "t1" ∧
        (row.id ∈ t.published ↔ ¬ Occurs (step paperIngestion) (Drops row.id) paperEmpty as) := by
  intro as
  have hrun : (exec (step paperIngestion) paperEmpty as).map (fun t => t.processed) =
      some ["t1"] := by decide +kernel
  obtain ⟨t, ht, hprocessed⟩ := Option.map_eq_some_iff.mp hrun
  exact ⟨t, ht, hprocessed, processed_pushed_iff paperEmpty_initial ht (by simp [hprocessed])⟩

end Paper

end XSocialTrader.Ingestion
