import XSocialTrader.Execution.Workers

/-! Two callers with orders for one event. The seen ids are a snapshot and the unique key
bites after the broker call, so only the order of the snapshots keeps the calls apart. -/
namespace XSocialTrader.Workers
open LabelledRun

variable {ι κ F : Type} [PyFloat F] {s t : Sys ι κ F}

/-- How often `place_order` has been called for an event. -/
def Sys.callsFor (s : Sys ι κ F) (eventId : String) : ℕ :=
  s.broker.countP fun call => call.proposed.eventId == eventId

/-- The caller that takes its snapshot. -/
def Label.reader : Label ι κ F → Option ι
  | .worker c (.context _ _ _ _) => some c
  | _ => none

/-- When a caller takes its snapshot for an event, either a committed row shows the event, or
nobody has called the broker for it and nobody else is on the way from a snapshot to a call. -/
def ReadsAlone (s : Sys ι κ F) (l : Label ι κ F) : Prop :=
  ∀ c ∈ l.reader, ∀ eventId ∈ (s.phase c).proposedEvent,
    (∃ row ∈ s.orders, row.eventId = eventId) ∨
      s.callsFor eventId = 0 ∧ ∀ d, d ≠ c → ¬ (s.phase d).MayPlace eventId

instance [DecidableEq ι] [Fintype ι] (s : Sys ι κ F) (l : Label ι κ F) :
    Decidable (ReadsAlone s l) := by
  unfold ReadsAlone
  infer_instance

/-- A caller that may still call the broker for an event is the first and the only one. -/
structure AtMostOnce (s : Sys ι κ F) : Prop where
  calls_le : ∀ eventId, s.callsFor eventId ≤ 1
  uncalled : ∀ eventId c, (s.phase c).Unseen eventId → s.callsFor eventId = 0
  alone : ∀ eventId c d, (s.phase c).Unseen eventId → (s.phase d).Unseen eventId → c = d

theorem AtMostOnce.of_phases (h : AtMostOnce s) (hb : t.broker = s.broker)
    (hp : ∀ eventId c, (t.phase c).Unseen eventId → (s.phase c).Unseen eventId) :
    AtMostOnce t := by
  have hcalls : ∀ eventId, t.callsFor eventId = s.callsFor eventId := fun eventId => by
    rw [Sys.callsFor, hb, Sys.callsFor]
  constructor
  · intro eventId
    rw [hcalls]
    exact h.calls_le eventId
  · intro eventId c hc
    rw [hcalls]
    exact h.uncalled eventId c (hp eventId c hc)
  · intro eventId c d hc hd
    exact h.alone eventId c d (hp eventId c hc) (hp eventId d hd)

section Step

variable [DecidableEq ι]

/-- The snapshot step: the new snapshot shows the event, or its holder is alone. -/
theorem AtMostOnce.context (h : AtMostOnce s) {c : ι} {p : ProposedOrder F}
    {ctx : ValidationContext F} {session : Session F} (hb : t.broker = s.broker)
    (hother : ∀ d, d ≠ c → t.phase d = s.phase d) (hc : t.phase c = .ready p ctx session)
    (hseen : ctx.seenEventIds = s.orders.map OrderRow.eventId)
    (halone : (∃ row ∈ s.orders, row.eventId = p.eventId) ∨
      s.callsFor p.eventId = 0 ∧ ∀ d, d ≠ c → ¬ (s.phase d).MayPlace p.eventId) :
    AtMostOnce t := by
  have hcalls : ∀ eventId, t.callsFor eventId = s.callsFor eventId := fun eventId => by
    rw [Sys.callsFor, hb, Sys.callsFor]
  have hnew : ∀ eventId, (t.phase c).Unseen eventId → s.callsFor eventId = 0 ∧
      ∀ d, d ≠ c → ¬ (s.phase d).Unseen eventId := by
    intro eventId hu
    rw [hc] at hu
    obtain ⟨rfl, hnot⟩ := hu
    rcases halone with ⟨row, hrow, hid⟩ | ⟨hzero, hnone⟩
    · exact absurd (hseen ▸ List.mem_map.mpr ⟨row, hrow, hid⟩) hnot
    · exact ⟨hzero, fun d hd hu => hnone d hd hu.mayPlace⟩
  constructor
  · intro eventId
    rw [hcalls]
    exact h.calls_le eventId
  · intro eventId d hd
    rw [hcalls]
    by_cases hdc : d = c
    · exact (hnew eventId (hdc ▸ hd)).1
    · exact h.uncalled eventId d (hother d hdc ▸ hd)
  · intro eventId d e hd he
    by_cases hdc : d = c <;> by_cases hec : e = c
    · rw [hdc, hec]
    · exact absurd (hother e hec ▸ he) ((hnew eventId (hdc ▸ hd)).2 e hec)
    · exact absurd (hother d hdc ▸ hd) ((hnew eventId (hec ▸ he)).2 d hdc)
    · exact h.alone eventId d e (hother d hdc ▸ hd) (hother e hec ▸ he)

/-- The broker call: the caller was alone, and it is no longer on the way. -/
theorem AtMostOnce.place (h : AtMostOnce s) {c : ι} {p : ProposedOrder F} {session : Session F}
    {answer : Except PyExc OrderReceipt} (hc : s.phase c = .validated p session)
    (hb : t.broker = s.broker ++ [⟨p, answer⟩])
    (hother : ∀ d, d ≠ c → t.phase d = s.phase d) (hinert : (t.phase c).inert = true) :
    AtMostOnce t := by
  have hunseen : (s.phase c).Unseen p.eventId := by
    rw [hc]
    rfl
  have hzero := h.uncalled p.eventId c hunseen
  have hcalls : ∀ eventId, t.callsFor eventId =
      s.callsFor eventId + if p.eventId = eventId then 1 else 0 := by
    intro eventId
    simp [Sys.callsFor, hb, List.countP_append, List.countP_singleton]
  have hback : ∀ eventId d, (t.phase d).Unseen eventId → d ≠ c ∧ (s.phase d).Unseen eventId := by
    intro eventId d hd
    by_cases hdc : d = c
    · exact absurd hd (hdc ▸ Phase.not_unseen_of_inert hinert eventId)
    · exact ⟨hdc, hother d hdc ▸ hd⟩
  constructor
  · intro eventId
    rw [hcalls]
    split_ifs with he
    · subst he
      omega
    · exact h.calls_le eventId
  · intro eventId d hd
    obtain ⟨hdc, hd⟩ := hback eventId d hd
    rw [hcalls]
    split_ifs with he
    · subst he
      exact absurd (h.alone _ _ _ hd hunseen) hdc
    · exact h.uncalled eventId d hd
  · intro eventId d e hd he
    exact h.alone eventId d e (hback eventId d hd).2 (hback eventId e he).2

variable [Fintype ι] [DecidableEq κ] [Fintype κ] {x : Executor F}

theorem step_atMostOnce {l : Label ι κ F} (h : AtMostOnce s) (hl : ReadsAlone s l)
    (hstep : step x s l = some t) : AtMostOnce t := by
  cases l with
  | kill k =>
    obtain ⟨kill, -, rfl⟩ := Option.map_eq_some_iff.mp hstep
    exact h.of_phases rfl fun _ _ hu => hu
  | enqueue raw =>
    obtain rfl := Option.some.inj hstep
    exact h.of_phases rfl fun _ _ hu => hu
  | worker c a =>
    obtain ⟨hact, hother⟩ := step_worker hstep
    rcases (act_cases hact).2 with hq |
      ⟨p, session, ctx, hph, hph', hb, ⟨now, peak, pnl, account, rfl⟩, hseen⟩ |
      ⟨p, ctx, session, -, hph, hph', hb, -⟩ | ⟨p, session, answer, -, hph, hb, hinert⟩
    · refine h.of_phases hq.broker fun eventId d hd => ?_
      by_cases hdc : d = c
      · subst hdc
        exact hq.unseen eventId hd
      · exact hother d hdc ▸ hd
    · exact h.context hb hother hph' hseen (hl c rfl p.eventId (by rw [hph]; rfl))
    · refine h.of_phases (congrArg Shared.broker hb) fun eventId d hd => ?_
      by_cases hdc : d = c
      · subst hdc
        rw [hph'] at hd
        rw [hph]
        exact hd
      · exact hother d hdc ▸ hd
    · exact h.place hph hb hother hinert

/-- In every run in which each snapshot is taken alone, the broker is called at most once
for an event. -/
theorem place_order_at_most_once {as : List (Label ι κ F)} (hidle : ∀ c, s.phase c = .idle)
    (hbroker : s.broker = []) (halone : Guarded (step x) ReadsAlone s as)
    (h : exec (step x) s as = some t) (eventId : String) : t.callsFor eventId ≤ 1 := by
  have h₀ : AtMostOnce s := by
    have hnone : ∀ eventId c, ¬ (s.phase c).Unseen eventId := fun eventId c hu => by
      rw [hidle c] at hu
      exact hu
    exact ⟨fun _ => by simp [Sys.callsFor, hbroker], fun e c hu => absurd hu (hnone e c),
      fun e c _ hu => absurd hu (hnone e c)⟩
  exact (guarded_invariant AtMostOnce (fun _ _ _ => step_atMostOnce) h₀ halone h).calls_le eventId

end Step

/-- Both callers take their snapshots first; then one runs to its commit, and the other
calls the broker before the unique key turns its row away. -/
theorem stale_snapshot_orders_twice : ¬ ∀ (x : Executor ℚ) (s t : Sys (Fin 2) (Fin 1) ℚ)
    (as : List (Label (Fin 2) (Fin 1) ℚ)), (∀ c, s.phase c = .idle) → s.broker = [] →
      exec (step x) s as = some t → ∀ eventId, t.callsFor eventId ≤ 1 := by
  intro h
  let x := (paperPipeline 10).toExecutor
  let as := paperSnapshot (0 : Fin 2) ++ paperSnapshot 1 ++ paperGates 0 ++ paperPlace 0 ++
    [.worker 0 .commit] ++ paperGates 1 ++ paperPlace 1
  have hrun : (exec (step x) (paperStart 2) as).map (fun t => t.callsFor "t1:TSLA") = some 2 := by
    decide +kernel
  obtain ⟨t, ht, hcalls⟩ := Option.map_eq_some_iff.mp hrun
  have hle := h x (paperStart 2) t as (fun _ => rfl) rfl ht "t1:TSLA"
  omega

/-- Two callers for one event, one after the other. -/
theorem place_order_at_most_once_in_turn :
    let as := paperSnapshot (0 : Fin 2) ++ paperGates 0 ++ paperPlace 0 ++
      [.worker 0 .commit] ++ paperSnapshot 1 ++ [.worker 1 (.readRedis none)]
    ∃ t, exec (step (paperPipeline 10).toExecutor) (paperStart 2) as = some t ∧
      t.callsFor "t1:TSLA" ≤ 1 := by
  intro as
  have hrun : (exec (step (paperPipeline 10).toExecutor) (paperStart 2) as).isSome = true := by
    decide +kernel
  obtain ⟨t, ht⟩ := Option.isSome_iff_exists.mp hrun
  exact ⟨t, ht, place_order_at_most_once (fun _ => rfl) rfl (by decide +kernel) ht "t1:TSLA"⟩

end XSocialTrader.Workers
