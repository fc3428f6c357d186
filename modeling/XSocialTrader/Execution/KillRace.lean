import XSocialTrader.Execution.Workers

/-! An activation against a `submit` in flight. The switch is read once; the walk from that
read to the broker call does not look at it again. -/
namespace XSocialTrader.Workers
open LabelledRun

variable {ι κ F : Type} [DecidableEq ι] [Fintype ι] [DecidableEq κ] [Fintype κ] [PyFloat F]
  {x : Executor F} {s t u v : Sys ι κ F} {c : ι}

theorem place_phase {answer : Except PyExc OrderReceipt}
    (h : step x t (.worker c (.place answer)) = some u) : (t.phase c).PastSwitch := by
  have hact := (step_worker h).1
  cases hp : t.phase c with
  | validated p session => trivial
  | _ => simp [hp, act] at hact

/-- The switch is passed only by reading the latest row, and only if that row is off. -/
theorem step_passes_switch {l : Label ι κ F} (h : step x u l = some v)
    (hu : ¬ (u.phase c).PastSwitch) (hv : (v.phase c).PastSwitch) :
    l = .worker c .readDb ∧ (isActive none none u.kill.rows).active = false := by
  cases l with
  | kill k =>
    obtain ⟨kill, -, rfl⟩ := Option.map_eq_some_iff.mp h
    exact absurd hv hu
  | enqueue raw =>
    obtain rfl := Option.some.inj h
    exact absurd hv hu
  | worker d a =>
    obtain ⟨hact, hother⟩ := step_worker h
    by_cases hdc : c = d
    · subst hdc
      rcases (act_cases hact).2 with hq | ⟨_, _, _, _, hph, _⟩ | ⟨_, _, _, rfl, _, _, _, hoff⟩ |
        ⟨_, _, _, _, _, _, hinert⟩
      · exact absurd (hq.pastSwitch hv) hu
      · rw [hph] at hv
        exact absurd hv id
      · exact ⟨rfl, hoff⟩
      · exact absurd hv (Phase.not_pastSwitch_of_inert hinert)
    · rw [hother c hdc] at hv
      exact absurd hv hu

/-- Once an activation row has committed, a caller that has yet to read the latest row gets
to the broker only by reading, in between, a deactivation with a larger id. -/
theorem place_order_needs_deactivation {s₀ t' : Sys ι κ F} {answer : Except PyExc OrderReceipt}
    {r : KillSwitchEvent} (h₀ : KillSwitch.Initial s₀.kill) (hs : Reaches (step x) s₀ s)
    (hr : r ∈ s.kill.rows) (ha : r.activated = true) (hread : ¬ (s.phase c).PastSwitch)
    (ht : Reaches (step x) s t) (hplace : step x t (.worker c (.place answer)) = some t') :
    ∃ u v, Reaches (step x) s u ∧ step x u (.worker c .readDb) = some v ∧
      Reaches (step x) v t ∧ ∃ d ∈ u.kill.rows, d.activated = false ∧ r.id < d.id := by
  obtain ⟨as, hrun⟩ := ht
  obtain ⟨u, l, v, hu, hnot, hstep, hpast, hv⟩ := exists_crossing
    (fun s : Sys ι κ F => (s.phase c).PastSwitch) hread (place_phase hplace) hrun
  obtain ⟨rfl, hoff⟩ := step_passes_switch hstep hnot hpast
  refine ⟨u, v, hu, hstep, hv, ?_⟩
  by_contra hnone
  have hids := Reaches.kill_idsDistinct (hs.trans hu) h₀.idsDistinct
  have hon : (isActive none none u.kill.rows).active = true :=
    isActive_of_activation hids.rows_nodup (Reaches.kill_rows_subset hu hr) ha
      fun d hd hoff hlt => hnone ⟨d, hd, hoff, hlt⟩
  exact absurd hon (by simp [hoff])

/-- An activation by one process, up to its commit. -/
def paperActivation {n : ℕ} (id : ℕ) : List (Label (Fin n) (Fin 1) ℚ) :=
  [.kill (.flush 0 (.activate .manual "alice" none) id), .kill (.redis 0), .kill (.publish 0),
    .kill (.commit 0)]

def paperDeactivation {n : ℕ} (id : ℕ) : List (Label (Fin n) (Fin 1) ℚ) :=
  [.kill (.flush 0 (.deactivate (some "I-understand") "bob" "resume") id), .kill (.redis 0),
    .kill (.publish 0), .kill (.commit 0)]

/-- The activation commits while the caller is between the switch and the broker; there is
no deactivation at all, and the order still goes out. -/
theorem activation_in_flight_ignored : ¬ ∀ (x : Executor ℚ) (s t : Sys (Fin 1) (Fin 1) ℚ)
    (c : Fin 1) (answer : Except PyExc OrderReceipt) (r : KillSwitchEvent),
      KillSwitch.Initial s.kill → Reaches (step x) s t → r ∈ t.kill.rows → r.activated = true →
      (∀ d ∈ t.kill.rows, d.activated = true) →
      step x t (.worker c (.place answer)) = none := by
  intro h
  let x := (paperPipeline 10).toExecutor
  let row : KillSwitchEvent := ⟨1, true, .manual, "alice", none⟩
  have hrun : ((exec (step x) (paperStart 1) (paperSnapshot 0 ++ paperGates 0 ++
      paperActivation 1)).map fun t => (t.kill.rows,
        (step x t (.worker 0 (.place (.ok ⟨"t1:TSLA:news", "ext"⟩)))).isSome)) =
          some ([row], true) := by decide +kernel
  obtain ⟨t, ht, hout⟩ := Option.map_eq_some_iff.mp hrun
  obtain ⟨hrows, hplace⟩ := Prod.mk.inj hout
  have hnone := h x (paperStart 1) t 0 (.ok ⟨"t1:TSLA:news", "ext"⟩) row
    ⟨List.nodup_nil, fun _ => rfl⟩ ⟨_, ht⟩ (by simp [hrows]) rfl (by simp [hrows, row])
  simp [hnone] at hplace

/-- An order goes out after an activation: a deactivation was read in between. -/
theorem place_order_needs_deactivation_resumed :
    ∃ u : Sys (Fin 1) (Fin 1) ℚ, ∃ d ∈ u.kill.rows, d.activated = false ∧ 1 < d.id := by
  let x := (paperPipeline 10).toExecutor
  let row : KillSwitchEvent := ⟨1, true, .manual, "alice", none⟩
  let rest : List (Label (Fin 1) (Fin 1) ℚ) :=
    paperDeactivation 2 ++ paperSnapshot 0 ++ paperGates 0
  have hfirst : (exec (step x) (paperStart 1) (paperActivation 1)).map (fun s => s.kill.rows) =
      some [row] := by decide +kernel
  have hplace : (((exec (step x) (paperStart 1) (paperActivation 1)).bind fun s =>
      exec (step x) s rest).bind fun t =>
        step x t (.worker 0 (.place (.ok ⟨"t1:TSLA:news", "ext"⟩)))).isSome = true := by
    decide +kernel
  obtain ⟨s, hs, hrows⟩ := Option.map_eq_some_iff.mp hfirst
  rw [hs, Option.bind_some] at hplace
  obtain ⟨t', hbind⟩ := Option.isSome_iff_exists.mp hplace
  obtain ⟨t, ht, ht'⟩ := Option.bind_eq_some_iff.mp hbind
  have hidle : ¬ (s.phase 0).PastSwitch := by
    have hphase : (exec (step x) (paperStart 1) (paperActivation 1)).all
        (fun s => (s.phase 0).inert) = true := by decide +kernel
    rw [hs] at hphase
    exact Phase.not_pastSwitch_of_inert hphase
  have h₀ : KillSwitch.Initial (paperStart 1).kill := ⟨List.nodup_nil, fun _ => rfl⟩
  obtain ⟨u, -, -, -, -, hd⟩ := place_order_needs_deactivation (c := 0) (r := row) h₀
    ⟨_, hs⟩ (by simp [hrows]) rfl hidle ⟨_, ht⟩ ht'
  exact ⟨u, hd⟩

end XSocialTrader.Workers
