import XSocialTrader.Execution.KillRace
import XSocialTrader.KillSwitch.Shutdown
import XSocialTrader.Lib.Admission
import XSocialTrader.Services.Ingestion
import XSocialTrader.Services.LlmBudget

/-! What the workers still do once the kill switch is on. Each of them has looked at the switch or
not when the activation is committed, and the one that has may go on to one effect. -/
namespace XSocialTrader
open LabelledRun

/-- A process of the pipelines, which only ever activates the switch; the others are operators. -/
def IsWorker {ω κ : Type} (k : ω ⊕ κ) : Prop := k.isLeft = true

theorem not_isWorker_operatorLabel {ω κ : Type} (k : KillSwitch.Label κ) :
    ¬ IsWorker (KillSwitch.operatorLabel k : KillSwitch.Label (ω ⊕ κ)).process := by
  cases k <;> simp [IsWorker, KillSwitch.operatorLabel, KillSwitch.Label.process]

section Operators

variable {ω κ : Type} [DecidableEq ω] [Fintype ω] [DecidableEq κ] [Fintype κ]
  {s t : KillSwitch.Sys (ω ⊕ κ)}

/-- The operator commits no deactivation that is newer than every activation. -/
def LeavesOn (s : KillSwitch.Sys (ω ⊕ κ)) : KillSwitch.Label κ → Prop
  | .commit k => ∀ call ∈ s.call (.inr k), KillSwitch.Harmless s.rows call.2
  | _ => True

instance (s : KillSwitch.Sys (ω ⊕ κ)) : ∀ o : KillSwitch.Label κ, Decidable (LeavesOn s o)
  | .commit k =>
    inferInstanceAs (Decidable (∀ call ∈ s.call (.inr k), KillSwitch.Harmless s.rows call.2))
  | .flush _ _ _ | .redis _ | .publish _ | .stop _ => isTrue trivial

/-- What a step of a pipeline does to the switch: nothing, a step of a worker's activation, or a
step of an operator. -/
inductive SwitchMove (s t : KillSwitch.Sys (ω ⊕ κ)) (operates : KillSwitch.Label κ → Prop) : Prop
  | quiet (h : t = s)
  | worker (w : ω) (k : KillSwitch.Label (ω ⊕ κ)) (hprocess : k.process = .inl w)
      (hk : k.deactivates = false) (hstep : KillSwitch.step s k = some t)
  | operator (o : KillSwitch.Label κ) (ho : operates o)
      (hstep : KillSwitch.step s (KillSwitch.operatorLabel o) = some t)

variable {operates : KillSwitch.Label κ → Prop}

theorem SwitchMove.tracked (h : SwitchMove s t operates) (hs : KillSwitch.Tracked IsWorker s) :
    KillSwitch.Tracked IsWorker t := by
  cases h with
  | quiet h => exact h ▸ hs
  | worker w k _ hk hstep => exact hs.step (fun _ => hk) hstep
  | operator o _ hstep =>
    exact hs.step (fun hown => absurd hown (not_isWorker_operatorLabel o)) hstep

/-- The switch stays on behind a worker's activation and an operator who leaves it on. -/
theorem SwitchMove.shut (h : SwitchMove s t operates) (hon : ∀ o, operates o → LeavesOn s o)
    (hs : KillSwitch.Shut IsWorker s) : KillSwitch.Shut IsWorker t := by
  cases h with
  | quiet h => exact h ▸ hs
  | worker w k hprocess hk hstep =>
    refine hs.step (fun _ => hk) ?_ hstep
    rintro l rfl hl
    rw [show l = .inl w from hprocess] at hl
    exact absurd rfl hl
  | operator o ho hstep =>
    refine hs.step (fun hown => absurd hown (not_isWorker_operatorLabel o)) ?_ hstep
    intro k hk _ call hcall
    cases o with
    | commit l =>
      obtain rfl := KillSwitch.Label.commit.inj hk
      exact hon _ ho call hcall
    | flush | redis | publish | stop => cases hk

end Operators

/-- An operator's activation, up to its commit. -/
def paperShutdown {κ : Type} (k : κ) : List (KillSwitch.Label κ) :=
  [.flush k (.activate .manual "alice" none) 1, .redis k, .publish k, .commit k]

namespace Llm

variable {ω κ F : Type} [DecidableEq ω] [Fintype ω] [DecidableEq κ] [Fintype κ] [PyFloat F]
  {cfg : Config F} {s t : Sys ω κ F} {l : Label ω κ F}

/-- The step leaves the switch on. -/
def StaysOn (s : Sys ω κ F) : Label ω κ F → Prop
  | .operator o => LeavesOn s.kill o
  | _ => True

instance (s : Sys ω κ F) : ∀ l : Label ω κ F, Decidable (StaysOn s l)
  | .operator o => inferInstanceAs (Decidable (LeavesOn s.kill o))
  | .worker _ _ | .enqueue _ | .ingest _ | .setAliases _ => isTrue trivial

theorem step_kill (h : step cfg s l = some t) : SwitchMove s.kill t.kill (l = .operator ·) := by
  cases l with
  | worker w a =>
    cases act_move (step_worker h).2.1 with
    | quiet _ hkill | charge _ _ _ hkill => exact .quiet hkill
    | check hs | start hs | giveUp hs => exact .quiet (congrArg Shared.kill hs)
    | alarm _ k hk hfrom hkill hspend hto =>
      refine .worker w k hk ?_ hkill
      rcases hto with ⟨_, _, _, -, rfl, -⟩ | ⟨-, rfl | rfl, -⟩ | ⟨-, rfl, -⟩ | ⟨-, rfl, -⟩ <;> rfl
  | enqueue raw | setAliases aliases =>
    obtain rfl := Option.some.inj h
    exact .quiet rfl
  | ingest tweet =>
    simp only [step] at h
    split_ifs at h
    obtain rfl := Option.some.inj h
    exact .quiet rfl
  | operator o =>
    obtain ⟨kill, hkill, rfl⟩ := Option.map_eq_some_iff.mp h
    exact .operator o rfl hkill

theorem Reaches.tracked {s₀ : Sys ω κ F} (h : Reaches (step cfg) s₀ s)
    (h₀ : KillSwitch.Initial s₀.kill) : KillSwitch.Tracked IsWorker s.kill :=
  h.invariant (fun s => KillSwitch.Tracked IsWorker s.kill)
    (fun _ _ _ hu hstep => (step_kill hstep).tracked hu) h₀.tracked

theorem act_startAnalyze {w : ω} {sh sh' : Shared ω κ F} {ph ph' : Phase F}
    (h : act cfg w sh ph .startAnalyze = some (sh', ph')) :
    ph.stage = .cleared ∧ ph'.stage = .calling := by
  cases ph with
  | loaded tweet =>
    obtain ⟨-, rfl⟩ := Prod.mk.inj (Option.some.inj h)
    exact ⟨rfl, rfl⟩
  | scanning tweet decision todo added => cases todo <;> cases h
  | publishing newEventIds costUsd => cases newEventIds <;> cases h
  | _ => cases h

/-- Behind the switch a worker that has passed its check had passed it before the move. -/
theorem act_cleared {w : ω} {sh sh' : Shared ω κ F} {ph ph' : Phase F} {a : Action F}
    (hs : KillSwitch.Shut IsWorker sh.kill) (h : act cfg w sh ph a = some (sh', ph'))
    (hcleared : ph'.stage = .cleared) : ph.stage = .cleared ∧ a ≠ .startAnalyze := by
  have hne : a ≠ .startAnalyze := by
    rintro rfl
    rw [(act_startAnalyze h).2] at hcleared
    cases hcleared
  refine ⟨?_, hne⟩
  cases act_move h with
  | quiet _ _ _ _ hto =>
    rcases hto with hto | hto
    · exact hto.symm.trans hcleared
    · rw [hto] at hcleared
      cases hcleared
  | check _ _ hoff =>
    rw [hs.active] at hoff
    cases hoff
  | start => exact absurd rfl hne
  | charge _ _ _ _ _ hto =>
    rw [hto] at hcleared
    split_ifs at hcleared <;> cases hcleared
  | alarm _ _ _ _ _ _ hto =>
    rcases hto with ⟨_, _, _, -, -, hp⟩ | ⟨-, -, hp⟩ | ⟨-, -, hp⟩ | ⟨-, -, hp, -⟩ <;>
      rw [hp] at hcleared <;> cases hcleared
  | giveUp _ _ hto =>
    rw [hto] at hcleared
    cases hcleared

/-- A step that is not a worker's own leaves it where it is. -/
theorem step_phase (h : step cfg s l = some t) (w : ω) : (∃ a, l = .worker w a) ∨
    t.phase w = s.phase w ∧ l.startsAnalysis w = false := by
  cases l with
  | worker v a =>
    by_cases hw : v = w
    · exact Or.inl ⟨a, hw ▸ rfl⟩
    · refine Or.inr ⟨(step_worker h).2.2 w (Ne.symm hw), eq_false_of_ne_true fun hstarts => ?_⟩
      exact hw (Label.startsAnalysis_iff.mp hstarts).1
  | enqueue raw | setAliases aliases =>
    obtain rfl := Option.some.inj h
    exact Or.inr ⟨rfl, rfl⟩
  | ingest tweet =>
    simp only [step] at h
    split_ifs at h
    obtain rfl := Option.some.inj h
    exact Or.inr ⟨rfl, rfl⟩
  | operator o =>
    obtain ⟨kill, -, rfl⟩ := Option.map_eq_some_iff.mp h
    exact Or.inr ⟨rfl, rfl⟩

/-- A worker has passed the check and not begun its call. -/
def Cleared (s : Sys ω κ F) (w : ω) : Prop := (s.phase w).stage = .cleared

instance (s : Sys ω κ F) : DecidablePred (Cleared s) := fun w =>
  inferInstanceAs (Decidable ((s.phase w).stage = .cleared))

theorem shuts (cfg : Config F) : Admission.Shuts (step cfg) StaysOn
    (fun s : Sys ω κ F => KillSwitch.Shut IsWorker s.kill) Cleared
    (fun _ => Label.startsAnalysis) where
  stays s l t hs hon h := (step_kill h).shut (fun _ ho => by rwa [ho] at hon) hs
  takes s l t w _ _ h hstarts := by
    rcases step_phase h w with ⟨a, rfl⟩ | ⟨-, hno⟩
    · obtain ⟨-, rfl⟩ := Label.startsAnalysis_iff.mp hstarts
      exact (act_startAnalyze (step_worker h).2.1).1
    · rw [hno] at hstarts
      cases hstarts
  admits s l t w hs _ h hcleared := by
    rcases step_phase h w with ⟨a, rfl⟩ | ⟨hphase, hno⟩
    · obtain ⟨hbefore, hne⟩ := act_cleared hs (step_worker h).2.1 hcleared
      exact ⟨hbefore, eq_false_of_ne_true fun hbad => hne (Label.startsAnalysis_iff.mp hbad).2⟩
    · rw [Cleared, hphase] at hcleared
      exact ⟨hcleared, hno⟩

/-- From a moment at which the switch is on, until an operator commits a deactivation that is
newer than every activation, a worker begins at most one more call of the provider, and that only
if it had passed its check before. -/
theorem analyses_after_activation {s₀ : Sys ω κ F} {as : List (Label ω κ F)}
    (h₀ : KillSwitch.Initial s₀.kill) (hs : Reaches (step cfg) s₀ s)
    (hon : (isActive none none s.kill.rows).active = true)
    (hstays : Guarded (step cfg) StaysOn s as) (hrun : exec (step cfg) s as = some t) (w : ω) :
    tally (step cfg) (fun _ => Label.startsAnalysis) s as w ≤
      if (s.phase w).stage = .cleared then 1 else 0 :=
  (Nat.le_add_left _ _).trans
    ((shuts cfg).each ((Reaches.tracked hs h₀).shut hon) hstays hrun w)

/-- The worker is past its check when the activation is committed. Its call begins, and its next
run stops at the check. -/
theorem analyses_after_activation_in_flight :
    let before := paperCapture ++ [.worker 0 (.readRedis none), .worker 0 .readDb, .worker 0 .pop,
      .worker 0 .load] ++ (paperShutdown 0).map .operator
    let as := [.worker 0 .startAnalyze, .worker 0 (.finishAnalyze paperAnalysis), .worker 0 .stop,
      .worker 0 (.readRedis none)]
    ∃ s t, exec (step paperConfig) paperStart before = some s ∧
      exec (step paperConfig) s as = some t ∧
      tally (step paperConfig) (fun _ => Label.startsAnalysis) s as 0 ≤ 1 := by
  intro before as
  have hrun : (exec (step paperConfig) paperStart before).map (fun s =>
      ((isActive none none s.kill.rows).active, decide (Guarded (step paperConfig) StaysOn s as),
        decide ((s.phase 0).stage = .cleared), (exec (step paperConfig) s as).isSome)) =
          some (true, true, true, true) := by decide +kernel
  obtain ⟨s, hs, hout⟩ := Option.map_eq_some_iff.mp hrun
  simp only [Prod.mk.injEq, decide_eq_true_eq] at hout
  obtain ⟨hon, hstays, hcleared, hsome⟩ := hout
  obtain ⟨t, ht⟩ := Option.isSome_iff_exists.mp hsome
  have h₀ : KillSwitch.Initial paperStart.kill := ⟨List.nodup_nil, fun _ => rfl⟩
  have hbound := analyses_after_activation h₀ ⟨before, hs⟩ hon hstays ht 0
  rw [if_pos hcleared] at hbound
  exact ⟨s, t, hs, ht, hbound⟩

end Llm

namespace Ingestion

variable {κ F : Type} [DecidableEq κ] [Fintype κ] [PyFloat F] {cfg : Config F} {s t : Sys κ F}
  {l : Label κ} {a : Action}

/-- The step leaves the switch on. -/
def StaysOn (s : Sys κ F) : Label κ → Prop
  | .operator o => LeavesOn s.kill o
  | _ => True

instance (s : Sys κ F) : ∀ l : Label κ, Decidable (StaysOn s l)
  | .operator o => inferInstanceAs (Decidable (LeavesOn s.kill o))
  | .ingest _ => isTrue trivial

/-- The rows that the run may still add without another check. -/
def Phase.captures : Phase F → ℕ
  | .checked _ | .flushed _ => 1
  | _ => 0

/-- The ids that it may still push. -/
def Phase.pushes : Phase F → ℕ
  | .checked _ | .flushed _ | .committed _ => 1
  | _ => 0

omit [PyFloat F] in
theorem switchMove_of_killMove {k : KillSwitch.Label (Unit ⊕ κ)} {next : Sys κ F → Sys κ F}
    {operates : KillSwitch.Label κ → Prop} (h : s.killMove k next = some t)
    (hk : k.process = .inl ()) (ha : k.deactivates = false)
    (hnext : ∀ kill, (next { s with kill := kill }).kill = kill) :
    SwitchMove s.kill t.kill operates := by
  obtain ⟨kill, hkill, rfl⟩ := Option.map_eq_some_iff.mp h
  exact .worker () k hk ha ((hnext kill).symm ▸ hkill)

theorem step_kill (h : step cfg s l = some t) : SwitchMove s.kill t.kill (l = .operator ·) := by
  cases l with
  | operator o =>
    obtain ⟨kill, hkill, rfl⟩ := Option.map_eq_some_iff.mp h
    exact .operator o rfl hkill
  | ingest a =>
    simp only [step, act] at h
    split at h
    case h_9 | h_10 | h_11 | h_12 | h_13 =>
      exact switchMove_of_killMove h rfl rfl fun _ => rfl
    case h_14 | h_16 => cases h
    case h_4 =>
      split_ifs at h
      all_goals
        obtain rfl := Option.some.inj h
        exact .quiet rfl
    case h_8 =>
      obtain rfl := Option.some.inj h
      split_ifs <;> exact .quiet rfl
    all_goals
      obtain rfl := Option.some.inj h
      exact .quiet rfl

/-- The step adds only what the run was to add. -/
structure Spends (s t : Sys κ F) : Prop where
  tweets : t.tweets.length + t.phase.captures ≤ s.tweets.length + s.phase.captures
  published : t.published.length + t.phase.pushes ≤ s.published.length + s.phase.pushes

omit [DecidableEq κ] [Fintype κ] [PyFloat F] in
theorem Spends.trans {r : Sys κ F} (h : Spends r s) (h' : Spends s t) : Spends r t :=
  ⟨h'.tweets.trans h.tweets, h'.published.trans h.published⟩

omit [DecidableEq κ] [Fintype κ] [PyFloat F] in
/-- With nothing added, the run has no more to add than before. -/
theorem Spends.idle (htweets : t.tweets = s.tweets) (hpublished : t.published = s.published)
    (hcaptures : t.phase.captures ≤ s.phase.captures)
    (hpushes : t.phase.pushes ≤ s.phase.pushes) : Spends s t where
  tweets := htweets ▸ Nat.add_le_add_left hcaptures _
  published := hpublished ▸ Nat.add_le_add_left hpushes _

omit [DecidableEq κ] [Fintype κ] [PyFloat F] in
theorem Spends.goto {next : Phase F} (h : some (s.goto next) = some t)
    (hcaptures : next.captures ≤ s.phase.captures) (hpushes : next.pushes ≤ s.phase.pushes) :
    Spends s t := by
  obtain rfl := Option.some.inj h
  exact .idle rfl rfl hcaptures hpushes

omit [PyFloat F] in
/-- A run that activates the switch has nothing more to add. -/
theorem Spends.killMove {k : KillSwitch.Label (Unit ⊕ κ)} {next : Sys κ F → Sys κ F}
    (h : s.killMove k next = some t)
    (hnext : ∀ kill, (next { s with kill := kill }).tweets = s.tweets ∧
      (next { s with kill := kill }).published = s.published ∧
      (next { s with kill := kill }).phase.captures = 0 ∧
      (next { s with kill := kill }).phase.pushes = 0) : Spends s t := by
  obtain ⟨kill, hkill, rfl⟩ := Option.map_eq_some_iff.mp h
  obtain ⟨htweets, hpublished, hcaptures, hpushes⟩ := hnext kill
  exact .idle htweets hpublished (hcaptures ▸ Nat.zero_le _) (hpushes ▸ Nat.zero_le _)

/-- The check behind the switch does not pass, so no move gives the run anything to add. -/
theorem act_spends (hs : KillSwitch.Shut IsWorker s.kill) (h : act cfg s s.phase a = some t) :
    Spends s t := by
  simp only [act] at h
  split at h
  case h_1 => exact .goto h (Nat.zero_le _) (Nat.zero_le _)
  case h_2 => split_ifs at h <;> exact .goto h (Nat.zero_le _) (Nat.zero_le _)
  case h_3 =>
    rw [if_pos hs.active] at h
    exact .goto h (Nat.zero_le _) (Nat.zero_le _)
  case h_4 tweet id hphase =>
    split_ifs at h
    · exact .goto h (Nat.zero_le _) (Nat.zero_le _)
    · exact .goto h (hphase ▸ le_rfl) (hphase ▸ le_rfl)
  case h_5 row hphase =>
    obtain rfl := Option.some.inj h
    refine ⟨?_, ?_⟩ <;> rw [hphase] <;> simp [Sys.goto, Phase.captures, Phase.pushes]
  case h_6 =>
    obtain rfl := Option.some.inj h
    exact .idle rfl rfl (Nat.zero_le _) (Nat.zero_le _)
  case h_7 row hphase =>
    obtain rfl := Option.some.inj h
    refine ⟨?_, ?_⟩ <;> rw [hphase] <;> simp [Sys.goto, Phase.captures, Phase.pushes]
  case h_8 row now hphase =>
    generalize Function.update s.spend _ _ = spend at h
    obtain rfl := Option.some.inj h
    split_ifs <;> exact .idle rfl rfl (Nat.zero_le _) (Nat.zero_le _)
  case h_9 | h_10 | h_11 | h_12 | h_13 => exact .killMove h fun _ => ⟨rfl, rfl, rfl, rfl⟩
  case h_15 => exact .goto h (Nat.zero_le _) (Nat.zero_le _)
  case h_14 | h_16 => cases h

theorem step_spends (hs : KillSwitch.Shut IsWorker s.kill) (h : step cfg s l = some t) :
    Spends s t := by
  cases l with
  | ingest a => exact act_spends hs h
  | operator o =>
    obtain ⟨kill, -, rfl⟩ := Option.map_eq_some_iff.mp h
    exact ⟨le_rfl, le_rfl⟩

/-- From a moment at which the switch is on, until an operator commits a deactivation that is
newer than every activation, only the tweet that had passed its check is captured and pushed. -/
theorem captures_after_activation {s₀ : Sys κ F} {as : List (Label κ)}
    (h₀ : KillSwitch.Initial s₀.kill) (hs : Reaches (step cfg) s₀ s)
    (hon : (isActive none none s.kill.rows).active = true)
    (hstays : Guarded (step cfg) StaysOn s as) (hrun : exec (step cfg) s as = some t) :
    t.tweets.length ≤ s.tweets.length + s.phase.captures ∧
      t.published.length ≤ s.published.length + s.phase.pushes := by
  have htracked := hs.invariant (fun s => KillSwitch.Tracked IsWorker s.kill)
    (fun _ _ _ hu hstep => (step_kill hstep).tracked hu) h₀.tracked
  obtain ⟨-, hspends⟩ := guarded_invariant
    (fun u => KillSwitch.Shut IsWorker u.kill ∧ Spends s u)
    (fun u l v hu hl hstep => ⟨(step_kill hstep).shut (fun _ ho => by rwa [ho] at hl) hu.1,
      hu.2.trans (step_spends hu.1 hstep)⟩)
    ⟨htracked.shut hon, ⟨le_rfl, le_rfl⟩⟩ hstays hrun
  exact ⟨(Nat.le_add_right _ _).trans hspends.tweets,
    (Nat.le_add_right _ _).trans hspends.published⟩

/-- A tweet is past its check when the activation is committed. It is captured and pushed, and the
run stops at the next one. -/
theorem captures_after_activation_in_flight :
    let before := [.ingest (.deliver paperTweet), .ingest (.readRedis none), .ingest .readDb] ++
      (paperShutdown 0).map .operator
    let as := [.ingest (.flush 1), .ingest .commit, .ingest .push,
      .ingest (.recordTweet paperNoon), .ingest (.deliver { paperTweet with tweetId := "t2" }),
      .ingest (.readRedis none)]
    ∃ s t, exec (step paperIngestion) paperEmpty before = some s ∧
      exec (step paperIngestion) s as = some t ∧ s.tweets.length = 0 ∧ s.published.length = 0 ∧
      t.tweets.length ≤ 1 ∧ t.published.length ≤ 1 := by
  intro before as
  have hrun : (exec (step paperIngestion) paperEmpty before).map (fun s =>
      ((isActive none none s.kill.rows).active, decide (Guarded (step paperIngestion) StaysOn s as),
        (s.tweets.length, s.phase.captures), (s.published.length, s.phase.pushes),
        (exec (step paperIngestion) s as).isSome)) =
          some (true, true, (0, 1), (0, 1), true) := by decide +kernel
  obtain ⟨s, hs, hout⟩ := Option.map_eq_some_iff.mp hrun
  simp only [Prod.mk.injEq, decide_eq_true_eq] at hout
  obtain ⟨hon, hstays, ⟨htweets, hcaptures⟩, ⟨hpublished, hpushes⟩, hsome⟩ := hout
  obtain ⟨t, ht⟩ := Option.isSome_iff_exists.mp hsome
  have h₀ : KillSwitch.Initial paperEmpty.kill := ⟨List.nodup_nil, fun _ => rfl⟩
  have hbound := captures_after_activation h₀ ⟨before, hs⟩ hon hstays ht
  rw [htweets, hcaptures, hpublished, hpushes] at hbound
  exact ⟨s, t, hs, ht, htweets, hpublished, hbound⟩

end Ingestion

namespace Workers

variable {ι κ F : Type} [DecidableEq ι] [Fintype ι] [DecidableEq κ] [Fintype κ] [PyFloat F]
  {x : Executor F} {s t : Sys ι κ F} {l : Label ι κ F} {c : ι}

/-- No deactivation that is newer than every activation is committed. -/
def StaysOn (s : Sys ι κ F) : Label ι κ F → Prop
  | .kill (.commit k) => ∀ call ∈ s.kill.call k, KillSwitch.Harmless s.kill.rows call.2
  | _ => True

instance (s : Sys ι κ F) : ∀ l : Label ι κ F, Decidable (StaysOn s l)
  | .kill (.commit k) =>
    inferInstanceAs (Decidable (∀ call ∈ s.kill.call k, KillSwitch.Harmless s.kill.rows call.2))
  | .kill (.flush _ _ _) | .kill (.redis _) | .kill (.publish _) | .kill (.stop _)
  | .worker _ _ | .enqueue _ => isTrue trivial

instance : ∀ ph : Phase F, Decidable ph.PastSwitch
  | .permitted _ _ _ | .validated _ _ => isTrue trivial
  | .idle | .preRedis | .preDb | .popped _ | .proposed _ _ | .ready _ _ _ | .redisRead _ _ _
  | .placed _ _ _ | .finishing _ => isFalse id

/-- The caller sends its order to the broker. -/
def Label.places : Label ι κ F → ι → Bool
  | .worker d (.place _), c => d == c
  | _, _ => false

omit [Fintype ι] [DecidableEq κ] [Fintype κ] in
theorem Label.places_iff : l.places c = true ↔ ∃ answer, l = .worker c (.place answer) := by
  constructor
  · intro h
    cases l with
    | worker d a =>
      cases a with
      | place answer => exact ⟨answer, by rw [of_decide_eq_true h]⟩
      | _ => cases h
    | kill k | enqueue raw => cases h
  · rintro ⟨answer, rfl⟩
    exact decide_eq_true rfl

/-- The order goes onto the broker's log, and its caller has the switch to pass again. -/
theorem step_place {answer : Except PyExc OrderReceipt}
    (h : step x s (.worker c (.place answer)) = some t) :
    t.broker.length = s.broker.length + 1 ∧ ¬ (t.phase c).PastSwitch := by
  have hact := (step_worker h).1
  cases hphase : s.phase c with
  | validated p session =>
    rw [hphase] at hact
    obtain ⟨hshared, hto⟩ := Prod.mk.inj (Option.some.inj hact)
    refine ⟨?_, ?_⟩
    · rw [← hshared, List.length_append, List.length_singleton]
    · rw [← hto]
      cases answer <;> exact id
  | _ => simp [hphase, act] at hact

/-- Nothing but the call of `place_order` reaches the broker. -/
theorem step_broker_of_not_places (h : step x s l = some t) (hno : ∀ c, l.places c = false) :
    t.broker = s.broker := by
  cases l with
  | kill k =>
    obtain ⟨kill, -, rfl⟩ := Option.map_eq_some_iff.mp h
    rfl
  | enqueue raw =>
    obtain rfl := Option.some.inj h
    rfl
  | worker d a =>
    rcases (act_cases (step_worker h).1).2 with hquiet | ⟨_, _, _, _, _, hbroker, _⟩ |
      ⟨_, _, _, _, _, _, hsame, _⟩ | ⟨_, _, answer, rfl, _⟩
    · exact hquiet.broker
    · exact hbroker
    · exact congrArg Shared.broker hsame
    · exact absurd (hno d) (by simp [Label.places])

theorem shuts (x : Executor F) : Admission.Shuts (step x) StaysOn
    (fun s : Sys ι κ F => KillSwitch.Shut (fun _ => False) s.kill)
    (fun s c => (s.phase c).PastSwitch) (fun _ => Label.places) where
  stays s l t hs hon h := by
    cases l with
    | worker c a => exact (act_cases (step_worker h).1).1 ▸ hs
    | enqueue raw =>
      obtain rfl := Option.some.inj h
      exact hs
    | kill k =>
      obtain ⟨kill, hkill, rfl⟩ := Option.map_eq_some_iff.mp h
      refine hs.step False.elim ?_ hkill
      rintro j rfl - call hcall
      exact hon call hcall
  takes s l t c _ _ h hplaces := by
    obtain ⟨answer, rfl⟩ := Label.places_iff.mp hplaces
    exact place_phase h
  admits s l t c hs _ h hpast := by
    refine ⟨?_, eq_false_of_ne_true fun hplaces => ?_⟩
    · by_contra hnot
      obtain ⟨-, hoff⟩ := step_passes_switch h hnot hpast
      rw [hs.active] at hoff
      cases hoff
    · obtain ⟨answer, rfl⟩ := Label.places_iff.mp hplaces
      exact (step_place h).2 hpast

/-- The broker's log grows by the orders that are sent. -/
theorem step_broker (h : step x s l = some t) :
    t.broker.length = s.broker.length + ∑ c, (l.places c).toNat := by
  by_cases hplaces : ∃ c, l.places c = true
  · obtain ⟨d, hd⟩ := hplaces
    obtain ⟨answer, rfl⟩ := Label.places_iff.mp hd
    rw [(step_place h).1, Finset.sum_eq_single d]
    · simp [Label.places]
    · intro c _ hne
      simp [Label.places, hne.symm]
    · exact fun hd => absurd (Finset.mem_univ d) hd
  · have hno (c) : l.places c = false := eq_false_of_ne_true fun hc => hplaces ⟨c, hc⟩
    simp [step_broker_of_not_places h hno, hno]

/-- From a moment at which the switch is on, until a deactivation that is newer than every
activation is committed, no more orders go out than there are callers past the switch, one each. -/
theorem orders_after_activation {s₀ : Sys ι κ F} {as : List (Label ι κ F)}
    (h₀ : KillSwitch.Initial s₀.kill) (hs : Reaches (step x) s₀ s)
    (hon : (isActive none none s.kill.rows).active = true)
    (hstays : Guarded (step x) StaysOn s as) (hrun : exec (step x) s as = some t) :
    (∀ c, tally (step x) (fun _ => Label.places) s as c ≤
      if (s.phase c).PastSwitch then 1 else 0) ∧
    t.broker.length ≤ s.broker.length +
      (Finset.univ.filter fun c => (s.phase c).PastSwitch).card := by
  have hshut : KillSwitch.Shut (fun _ => False) s.kill :=
    KillSwitch.Tracked.shut ⟨Reaches.kill_idsDistinct hs h₀.idsDistinct, fun _ _ _ => False.elim⟩
      hon
  refine ⟨fun c => ?_, ?_⟩
  · exact (Nat.le_add_left _ _).trans ((shuts x).each hshut hstays hrun c)
  · exact (shuts x).total hshut hstays hrun (fun u => u.broker.length)
      fun u l v hstep => step_broker hstep

/-- One of two callers is past the switch when the activation is committed. Its order goes out, and
the other caller is stopped at the switch. -/
theorem orders_after_activation_in_flight :
    let x := (paperPipeline 10).toExecutor
    let before := paperSnapshot 0 ++ paperGates 0 ++ paperSnapshot 1 ++ paperActivation 1
    let as := paperPlace 0 ++ [.worker 1 (.readRedis none)]
    ∃ s t : Sys (Fin 2) (Fin 1) ℚ, exec (step x) (paperStart 2) before = some s ∧
      exec (step x) s as = some t ∧ s.broker.length = 0 ∧ t.broker.length ≤ 1 := by
  intro x before as
  have hrun : (exec (step x) (paperStart 2) before).map (fun s =>
      ((isActive none none s.kill.rows).active, decide (Guarded (step x) StaysOn s as),
        s.broker.length, (Finset.univ.filter fun c => (s.phase c).PastSwitch).card,
        (exec (step x) s as).isSome)) = some (true, true, 0, 1, true) := by decide +kernel
  obtain ⟨s, hs, hout⟩ := Option.map_eq_some_iff.mp hrun
  simp only [Prod.mk.injEq, decide_eq_true_eq] at hout
  obtain ⟨hon, hstays, hbroker, hcard, hsome⟩ := hout
  obtain ⟨t, ht⟩ := Option.isSome_iff_exists.mp hsome
  have h₀ : KillSwitch.Initial (paperStart 2).kill := ⟨List.nodup_nil, fun _ => rfl⟩
  have hbound := (orders_after_activation h₀ ⟨before, hs⟩ hon hstays ht).2
  rw [hbroker, hcard] at hbound
  exact ⟨s, t, hs, ht, hbroker, hbound⟩

end Workers

end XSocialTrader
