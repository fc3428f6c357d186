import XSocialTrader.KillSwitch.Interleaving

/-! The switch once it is on: it stays on until a deactivation that is newer than every activation
is committed. Some of the processes only ever activate. -/
namespace XSocialTrader.KillSwitch
open LabelledRun

variable {κ : Type} [DecidableEq κ] [Fintype κ]

/-- Ids are distinct, and the calls of these processes are activations. -/
structure Tracked (own : κ → Prop) (s : Sys κ) : Prop where
  ids : IdsDistinct s
  activations : ∀ k p row, own k → s.call k = some (p, row) → row.activated = true

/-- The switch is on for every read of the table. -/
structure Shut (own : κ → Prop) (s : Sys κ) : Prop extends Tracked own s where
  latched : Latched s.rows

variable {own : κ → Prop} {s t : Sys κ} {a : Label κ}

omit [DecidableEq κ] [Fintype κ] in
theorem Initial.tracked (h : Initial s) : Tracked own s where
  ids := h.idsDistinct
  activations k p row _ hc := by simp [h.2 k] at hc

theorem Tracked.step (h : Tracked own s) (hown : own a.process → a.deactivates = false)
    (hstep : KillSwitch.step s a = some t) : Tracked own t where
  ids := step_idsDistinct h.ids hstep
  activations k p row hk hc := by
    rcases step_call hstep hc with ⟨q, hq⟩ | ⟨req, id, rfl, -, hrow⟩
    · exact h.activations k q row hk hq
    · cases req with
      | activate trigger actor reason => exact Option.some.inj hrow ▸ rfl
      | deactivate xConfirm actor reason => cases hown hk

/-- Processes that may deactivate commit no row that turns the switch off. -/
theorem Shut.step (h : Shut own s) (hown : own a.process → a.deactivates = false)
    (hothers : ∀ k, a = .commit k → ¬ own k → ∀ call ∈ s.call k, Harmless s.rows call.2)
    (hstep : KillSwitch.step s a = some t) : Shut own t where
  toTracked := h.toTracked.step hown hstep
  latched := by
    refine step_latched h.latched (fun k row ha hc => ?_) hstep
    by_cases hk : own k
    · exact Or.inl (h.activations k _ row hk hc)
    · exact hothers k ha hk (.published, row) hc

omit [DecidableEq κ] [Fintype κ] in
theorem Tracked.shut (h : Tracked own s) (hon : (isActive none none s.rows).active = true) :
    Shut own s := ⟨h, (latched_iff h.ids.rows_nodup).mpr hon⟩

omit [DecidableEq κ] [Fintype κ] in
/-- A check of the table does not pass. -/
theorem Shut.active (h : Shut own s) : (isActive none none s.rows).active = true :=
  (latched_iff h.ids.rows_nodup).mp h.latched

end XSocialTrader.KillSwitch
