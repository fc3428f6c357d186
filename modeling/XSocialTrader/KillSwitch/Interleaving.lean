import XSocialTrader.KillSwitch.Service
import XSocialTrader.Lib.LabelledRun
import Mathlib.Data.Fintype.Basic

/-! Concurrent activations and deactivations by any number of processes. A call inserts and
flushes its row, writes Redis, publishes, and commits; between any two of these the other
processes may act, and a process may stop at any point, which takes its row back. -/
namespace XSocialTrader.KillSwitch
open LabelledRun

/-- A request to one of the two endpoints, or an automatic activation. -/
inductive Request where
  | activate (trigger : KillSwitchTrigger) (actor : String) (reason : Option String)
  | deactivate (xConfirm : Option String) (actor reason : String)
  deriving DecidableEq, Repr

/-- The row a request adds; a deactivation without confirmation or reason is answered 400. -/
def Request.row (id : ℕ) : Request → Option KillSwitchEvent
  | .activate trigger actor reason =>
    some { id := id, activated := true, trigger := trigger, actor := actor, reason := reason }
  | .deactivate xConfirm actor reason =>
    if xConfirm = some "I-understand" ∧ reason ≠ "" then
      some { id := id, activated := false, trigger := .manual, actor := actor,
             reason := some reason }
    else none

theorem Request.row_id {id : ℕ} {req : Request} {row : KillSwitchEvent}
    (h : req.row id = some row) : row.id = id := by
  cases req with
  | activate trigger actor reason => exact Option.some.inj h ▸ rfl
  | deactivate xConfirm actor reason =>
    simp only [Request.row] at h
    split_ifs at h
    exact Option.some.inj h ▸ rfl

/-- How far a call has come. -/
inductive Phase where
  | flushed | redisWritten | published
  deriving DecidableEq, Repr

/-- The committed rows, the Redis key, and each process's call in flight. -/
structure Sys (κ : Type) where
  redisFlag : Option String
  rows : List KillSwitchEvent
  call : κ → Option (Phase × KillSwitchEvent)

inductive Label (κ : Type) where
  | flush (k : κ) (req : Request) (id : ℕ)
  | redis (k : κ)
  | publish (k : κ)
  | commit (k : κ)
  | stop (k : κ)
  deriving DecidableEq, Repr

/-- A label of an operator's process, which is none of the workers. -/
def operatorLabel {ω κ : Type} : Label κ → Label (ω ⊕ κ)
  | .flush k req id => .flush (.inr k) req id
  | .redis k => .redis (.inr k)
  | .publish k => .publish (.inr k)
  | .commit k => .commit (.inr k)
  | .stop k => .stop (.inr k)

variable {κ : Type} [DecidableEq κ] [Fintype κ]

def Sys.setCall (s : Sys κ) (k : κ) (c : Option (Phase × KillSwitchEvent)) : Sys κ :=
  { s with call := Function.update s.call k c }

omit [Fintype κ] in
@[simp] theorem Sys.setCall_rows (s : Sys κ) (k : κ) (c : Option (Phase × KillSwitchEvent)) :
    (s.setCall k c).rows = s.rows := rfl

omit [Fintype κ] in
@[simp] theorem Sys.setCall_redisFlag (s : Sys κ) (k : κ)
    (c : Option (Phase × KillSwitchEvent)) : (s.setCall k c).redisFlag = s.redisFlag := rfl

omit [Fintype κ] in
@[simp] theorem Sys.setCall_call_self (s : Sys κ) (k : κ)
    (c : Option (Phase × KillSwitchEvent)) : (s.setCall k c).call k = c := by
  simp [Sys.setCall]

/-- An autoincrement id: larger than that of every row, committed or in flight. -/
def FreshId (s : Sys κ) (id : ℕ) : Prop :=
  (∀ r ∈ s.rows, r.id < id) ∧ ∀ k, ((s.call k).all fun c => decide (c.2.id < id)) = true

instance (s : Sys κ) (id : ℕ) : Decidable (FreshId s id) := by
  unfold FreshId
  infer_instance

/-- One step of one process. -/
def step (s : Sys κ) : Label κ → Option (Sys κ)
  | .flush k req id =>
    if s.call k = none ∧ FreshId s id then
      (req.row id).map fun row => s.setCall k (some (.flushed, row))
    else none
  | .redis k => match s.call k with
    | some (.flushed, row) => some { s.setCall k (some (.redisWritten, row)) with
        redisFlag := if row.activated then some "1" else none }
    | _ => none
  | .publish k => match s.call k with
    | some (.redisWritten, row) => some (s.setCall k (some (.published, row)))
    | _ => none
  | .commit k => match s.call k with
    | some (.published, row) => some { s.setCall k none with rows := s.rows ++ [row] }
    | _ => none
  | .stop k => if s.call k = none then none else some (s.setCall k none)

section Enabled

variable {s : Sys κ} {k : κ} {row : KillSwitchEvent}

theorem step_flush {req : Request} {id : ℕ} (hcall : s.call k = none) (hfresh : FreshId s id)
    (hrow : req.row id = some row) :
    step s (.flush k req id) = some (s.setCall k (some (.flushed, row))) := by
  rw [step, if_pos ⟨hcall, hfresh⟩, hrow, Option.map_some]

theorem step_redis (hcall : s.call k = some (.flushed, row)) :
    step s (.redis k) = some { s.setCall k (some (.redisWritten, row)) with
      redisFlag := if row.activated then some "1" else none } := by
  rw [step, hcall]

theorem step_publish (hcall : s.call k = some (.redisWritten, row)) :
    step s (.publish k) = some (s.setCall k (some (.published, row))) := by
  rw [step, hcall]

theorem step_commit (hcall : s.call k = some (.published, row)) :
    step s (.commit k) = some { s.setCall k none with rows := s.rows ++ [row] } := by
  rw [step, hcall]

/-- A request between whose steps nobody else acts. -/
theorem exec_request {req : Request} {id : ℕ} (hcall : s.call k = none) (hfresh : FreshId s id)
    (hrow : req.row id = some row) :
    exec step s [.flush k req id, .redis k, .publish k, .commit k] =
      some { s with
        redisFlag := if row.activated then some "1" else none
        rows := s.rows ++ [row] } := by
  let flushed := s.setCall k (some (.flushed, row))
  let written : Sys κ := { flushed.setCall k (some (.redisWritten, row)) with
    redisFlag := if row.activated then some "1" else none }
  let published := written.setCall k (some (.published, row))
  have hflush : step s (.flush k req id) = some flushed := step_flush hcall hfresh hrow
  have hredis : step flushed (.redis k) = some written := step_redis (Sys.setCall_call_self ..)
  have hpublish : step written (.publish k) = some published :=
    step_publish (Sys.setCall_call_self flushed k _)
  have hcommit : step published (.commit k) =
      some { published.setCall k none with rows := s.rows ++ [row] } :=
    step_commit (Sys.setCall_call_self ..)
  rw [exec_cons hflush, exec_cons hredis, exec_cons hpublish, exec_cons hcommit, exec_nil]
  have hback : (published.setCall k none).call = s.call := by
    simp only [published, written, flushed, Sys.setCall, Function.update_idem]
    rw [← hcall, Function.update_eq_self]
  show some (⟨written.redisFlag, s.rows ++ [row], (published.setCall k none).call⟩ : Sys κ) = _
  rw [hback]

end Enabled

/-- What one step does to the rows and the calls. -/
theorem step_cases {s t : Sys κ} {a : Label κ} (h : step s a = some t) :
    (∃ k req id row, a = .flush k req id ∧ FreshId s id ∧ req.row id = some row ∧
      t = s.setCall k (some (.flushed, row))) ∨
    (∃ k p q row, s.call k = some (p, row) ∧ t.rows = s.rows ∧
      t.call = Function.update s.call k (some (q, row))) ∨
    (∃ k row, a = .commit k ∧ s.call k = some (.published, row) ∧ t.redisFlag = s.redisFlag ∧
      t.rows = s.rows ++ [row] ∧ t.call = Function.update s.call k none) ∨
    (∃ k, a = .stop k ∧ t = s.setCall k none) := by
  cases a with
  | flush k req id =>
    simp only [step] at h
    split_ifs at h with hf
    obtain ⟨row, hrow, rfl⟩ := Option.map_eq_some_iff.mp h
    exact Or.inl ⟨k, req, id, row, rfl, hf.2, hrow, rfl⟩
  | redis k | publish k =>
    simp only [step] at h
    split at h
    next row hc =>
      obtain rfl := Option.some.inj h
      exact Or.inr (Or.inl ⟨k, _, _, row, hc, rfl, rfl⟩)
    next => exact absurd h (by simp)
  | commit k =>
    simp only [step] at h
    split at h
    next row hc =>
      obtain rfl := Option.some.inj h
      exact Or.inr (Or.inr (Or.inl ⟨k, row, rfl, hc, rfl, rfl, rfl⟩))
    next => exact absurd h (by simp)
  | stop k =>
    simp only [step] at h
    split_ifs at h with hn
    exact Or.inr (Or.inr (Or.inr ⟨k, rfl, (Option.some.inj h).symm⟩))

/-- The process that takes a step. -/
def Label.process : Label κ → κ
  | .flush k _ _ | .redis k | .publish k | .commit k | .stop k => k

/-- The calls of the other processes stay as they are. -/
theorem step_call_of_ne {s t : Sys κ} {a : Label κ} {l : κ} (h : step s a = some t)
    (hl : l ≠ a.process) : t.call l = s.call l := by
  have hset (k : κ) (c : Option (Phase × KillSwitchEvent)) (hk : l ≠ k) :
      Function.update s.call k c l = s.call l := Function.update_of_ne hk c s.call
  cases a with
  | flush k req id =>
    simp only [step] at h
    split_ifs at h
    obtain ⟨row, -, rfl⟩ := Option.map_eq_some_iff.mp h
    exact hset k _ hl
  | redis k | publish k | commit k =>
    simp only [step] at h
    split at h
    · obtain rfl := Option.some.inj h
      exact hset k _ hl
    · cases h
  | stop k =>
    simp only [step] at h
    split_ifs at h
    obtain rfl := Option.some.inj h
    exact hset k _ hl

/-- The table stays as it is, or a process commits the row of its call. -/
theorem step_rows {s t : Sys κ} {a : Label κ} (h : step s a = some t) :
    t.rows = s.rows ∨ ∃ k row, a = .commit k ∧ s.call k = some (.published, row) ∧
      t.rows = s.rows ++ [row] := by
  rcases step_cases h with ⟨k, req, id, row, -, -, -, rfl⟩ | ⟨k, p, q, row, -, hrows, -⟩ |
    ⟨k, row, ha, hc, -, hrows, -⟩ | ⟨k, -, rfl⟩
  · exact Or.inl rfl
  · exact Or.inl hrows
  · exact Or.inr ⟨k, row, ha, hc, hrows⟩
  · exact Or.inl rfl

/-- The row of a call that is in flight after a step was in flight before, or it is flushed
with an id above all others. -/
theorem step_call {s t : Sys κ} {a : Label κ} {k : κ} {p : Phase} {row : KillSwitchEvent}
    (h : step s a = some t) (hc : t.call k = some (p, row)) :
    (∃ q, s.call k = some (q, row)) ∨
      ∃ req id, a = .flush k req id ∧ FreshId s id ∧ req.row id = some row := by
  by_cases hk : k = a.process
  · subst hk
    rcases step_cases h with ⟨l, req, id, row', rfl, hf, hrow, rfl⟩ |
      ⟨l, q, q', row', hl, -, hcall⟩ | ⟨l, row', rfl, hl, -, -, hcall⟩ | ⟨l, rfl, rfl⟩
    · have hcall : some (Phase.flushed, row') = some (p, row) :=
        (Sys.setCall_call_self ..).symm.trans hc
      obtain ⟨-, rfl⟩ := Prod.mk.inj (Option.some.inj hcall)
      exact Or.inr ⟨req, id, rfl, hf, hrow⟩
    · rw [hcall] at hc
      by_cases hla : a.process = l
      · rw [hla, Function.update_self] at hc
        obtain ⟨-, rfl⟩ := Prod.mk.inj (Option.some.inj hc)
        exact Or.inl ⟨q, hla ▸ hl⟩
      · rw [Function.update_of_ne hla] at hc
        exact Or.inl ⟨p, hc⟩
    · rw [hcall] at hc
      simp [Label.process] at hc
    · simp [Label.process] at hc
  · rw [step_call_of_ne h hk] at hc
    exact Or.inl ⟨p, hc⟩

/-- The process has an activation row in flight that is newer than every deactivation row. -/
def Armed (s : Sys κ) (k : κ) : Prop :=
  ∃ p row, s.call k = some (p, row) ∧ row.activated = true ∧
    ∀ d ∈ s.rows, d.activated = false → d.id < row.id

instance (s : Sys κ) (k : κ) : Decidable (Armed s k) :=
  decidable_of_iff (∃ c ∈ s.call k, c.2.activated = true ∧
    ∀ d ∈ s.rows, d.activated = false → d.id < c.2.id)
    ⟨fun ⟨c, hc, h⟩ => ⟨c.1, c.2, hc, h⟩, fun ⟨p, row, hc, h⟩ => ⟨(p, row), hc, h⟩⟩

theorem Armed.of_flush {s t : Sys κ} {k : κ} {trigger : KillSwitchTrigger} {actor : String}
    {reason : Option String} {id : ℕ}
    (h : step s (.flush k (.activate trigger actor reason) id) = some t) :
    Armed t k ∧ t.rows = s.rows := by
  simp only [step] at h
  split_ifs at h with hf
  obtain ⟨row, hrow, rfl⟩ := Option.map_eq_some_iff.mp h
  have hid := Request.row_id hrow
  obtain rfl := Option.some.inj hrow
  exact ⟨⟨_, _, Sys.setCall_call_self .., rfl, fun d hd _ => hf.2.1 d hd⟩, rfl⟩

/-- Redis and the channel are written with the row in flight. -/
theorem Armed.carry {s t : Sys κ} {k : κ} {a : Label κ} (hs : Armed s k)
    (ha : a = .redis k ∨ a = .publish k) (h : step s a = some t) :
    Armed t k ∧ t.rows = s.rows := by
  obtain ⟨p, row, hc, hact, hlate⟩ := hs
  rcases ha with rfl | rfl <;> simp only [step] at h <;> split at h
  any_goals cases h
  all_goals
    next row' hc' =>
      obtain ⟨-, rfl⟩ := Prod.mk.inj (Option.some.inj (hc.symm.trans hc'))
      exact ⟨⟨_, row, Sys.setCall_call_self .., hact, hlate⟩, rfl⟩

/-- The commit of the row latches the table. -/
theorem Armed.latched {s t : Sys κ} {k : κ} (hs : Armed s k) (h : step s (.commit k) = some t) :
    Latched t.rows := by
  obtain ⟨p, row, hc, hact, hlate⟩ := hs
  simp only [step] at h
  split at h
  · next row' hc' =>
    obtain ⟨-, rfl⟩ := Prod.mk.inj (Option.some.inj (hc.symm.trans hc'))
    obtain rfl := Option.some.inj h
    exact .of_append hact hlate
  · cases h

/-- The commit of a row leaves the latch alone: it is an activation row, or a committed
activation row is newer. -/
def Harmless (rows : List KillSwitchEvent) (row : KillSwitchEvent) : Prop :=
  row.activated = true ∨ ∃ r ∈ rows, r.activated = true ∧ row.id < r.id

instance (rows : List KillSwitchEvent) (row : KillSwitchEvent) : Decidable (Harmless rows row) := by
  unfold Harmless
  infer_instance

omit [DecidableEq κ] [Fintype κ] in
/-- It stays armed while its row stays in flight and no newer deactivation row is committed. -/
theorem Armed.keep {s t : Sys κ} {k : κ} (hs : Armed s k) (hcall : t.call k = s.call k)
    (hrows : ∀ d ∈ t.rows, d.activated = false → d ∈ s.rows ∨
      ∀ p row, s.call k = some (p, row) → d.id < row.id) : Armed t k := by
  obtain ⟨p, row, hc, hact, hlate⟩ := hs
  refine ⟨p, row, hcall.trans hc, hact, fun d hd hda => ?_⟩
  rcases hrows d hd hda with hd | hid
  · exact hlate d hd hda
  · exact hid p row hc

/-- Another process disarms it only by the commit of a newer deactivation row. -/
theorem Armed.of_ne {s t : Sys κ} {k : κ} {a : Label κ} (hs : Armed s k) (hk : k ≠ a.process)
    (hcommit : ∀ l row, a = .commit l → s.call l = some (.published, row) → Harmless s.rows row)
    (h : step s a = some t) : Armed t k ∨ Latched t.rows := by
  have hcall := step_call_of_ne h hk
  rcases step_rows h with hrows | ⟨l, row', ha, hl, hrows⟩
  · exact Or.inl (hs.keep hcall fun d hd _ => Or.inl (hrows ▸ hd))
  · obtain ⟨p, row, hc, hact, hlate⟩ := id hs
    rcases hcommit l row' ha hl with hact' | ⟨r, hr, hract, hid⟩
    · refine Or.inl (hs.keep hcall fun d hd hda => Or.inl ?_)
      rw [hrows] at hd
      refine (List.mem_append.mp hd).resolve_right fun hd => ?_
      rw [List.mem_singleton.mp hd, hact'] at hda
      cases hda
    · by_cases hlt : row'.id < row.id
      · refine Or.inl (hs.keep hcall fun d hd _ => ?_)
        rw [hrows] at hd
        refine (List.mem_append.mp hd).imp_right fun hd q row₀ hq => ?_
        obtain ⟨-, rfl⟩ := Prod.mk.inj (Option.some.inj (hc.symm.trans hq))
        rwa [List.mem_singleton.mp hd]
      · refine Or.inr ⟨r, hrows ▸ List.mem_append_left _ hr, hract, fun d hd hda => ?_⟩
        rw [hrows] at hd
        rcases List.mem_append.mp hd with hd | hd
        · have hdlt := hlate d hd hda
          omega
        · rwa [List.mem_singleton.mp hd]

/-- The table stays latched until a newer deactivation row is committed. -/
theorem step_latched {s t : Sys κ} {a : Label κ} (hs : Latched s.rows)
    (hcommit : ∀ l row, a = .commit l → s.call l = some (.published, row) → Harmless s.rows row)
    (h : step s a = some t) : Latched t.rows := by
  rcases step_rows h with hrows | ⟨l, row, ha, hl, hrows⟩
  · exact hrows ▸ hs
  · rw [hrows]
    rcases hcommit l row ha hl with hact | ⟨r, hr, hract, hid⟩
    · exact hs.append hact
    · exact hs.append_outdated hr hract hid

/-- Every call in flight is armed. -/
def AllArmed (s : Sys κ) : Prop := ∀ k, s.call k ≠ none → Armed s k

def Label.deactivates : Label κ → Bool
  | .flush _ (.deactivate _ _ _) _ => true
  | _ => false

omit [DecidableEq κ] [Fintype κ] in
theorem AllArmed.of_idle {s : Sys κ} (h : ∀ k, s.call k = none) : AllArmed s :=
  fun k hk => absurd (h k) hk

omit [DecidableEq κ] [Fintype κ] in
theorem AllArmed.activated {s : Sys κ} (h : AllArmed s) {k : κ} {p : Phase}
    {row : KillSwitchEvent} (hc : s.call k = some (p, row)) : row.activated = true := by
  obtain ⟨q, row', hc', hact, -⟩ := h k (by simp [hc])
  obtain ⟨-, rfl⟩ := Prod.mk.inj (Option.some.inj (hc.symm.trans hc'))
  exact hact

/-- Without deactivations every commit latches the table. -/
theorem AllArmed.step {s t : Sys κ} {a : Label κ} (h : AllArmed s) (ha : a.deactivates = false)
    (hstep : step s a = some t) :
    AllArmed t ∧ (Latched s.rows → Latched t.rows) ∧ ∀ k, a = .commit k → Latched t.rows := by
  have hcommit : ∀ l row, a = .commit l → s.call l = some (.published, row) →
      Harmless s.rows row := fun l row _ hl => Or.inl (h.activated hl)
  refine ⟨fun k hk => ?_, fun hs => step_latched hs hcommit hstep, ?_⟩
  · by_cases hka : k = a.process
    · cases a with
      | flush l req id =>
        obtain rfl : k = l := hka
        cases req with
        | activate trigger actor reason => exact (Armed.of_flush hstep).1
        | deactivate xConfirm actor reason => cases ha
      | redis l | publish l =>
        obtain rfl : k = l := hka
        have hs : Armed s k := by
          apply h
          intro hnone
          simp [KillSwitch.step, hnone] at hstep
        exact (hs.carry (by simp) hstep).1
      | commit l =>
        obtain rfl : k = l := hka
        simp only [KillSwitch.step] at hstep
        split at hstep
        · obtain rfl := Option.some.inj hstep
          exact absurd (Sys.setCall_call_self s k none) hk
        · cases hstep
      | stop l =>
        obtain rfl : k = l := hka
        simp only [KillSwitch.step] at hstep
        split_ifs at hstep
        obtain rfl := Option.some.inj hstep
        exact absurd (Sys.setCall_call_self s k none) hk
    · have hcall := step_call_of_ne hstep hka
      refine (h k (hcall ▸ hk)).keep hcall fun d hd hda => Or.inl ?_
      rcases step_rows hstep with hrows | ⟨l, row, -, hl, hrows⟩
      · exact hrows ▸ hd
      · rw [hrows] at hd
        refine (List.mem_append.mp hd).resolve_right fun hd => ?_
        rw [List.mem_singleton.mp hd, h.activated hl] at hda
        cases hda
  · rintro k rfl
    have hs : Armed s k := by
      apply h
      intro hnone
      simp [KillSwitch.step, hnone] at hstep
    exact hs.latched hstep

/-- The stores with no call in flight. -/
def Sys.quiet (κ : Type) (st : Stores) : Sys κ := ⟨st.redisFlag, st.rows, fun _ => none⟩

/-- How far one activation request gets against failing stores. -/
def requestLabels (fails : StoreCall → Bool) (k : κ) (req : Request) (id : ℕ) : List (Label κ) :=
  if fails .flush then []
  else if fails .redisSet then [.flush k req id, .stop k]
  else if fails .redisPublish then [.flush k req id, .redis k, .stop k]
  else if fails .commit then [.flush k req id, .redis k, .publish k, .stop k]
  else [.flush k req id, .redis k, .publish k, .commit k]

/-- A request that nobody interrupts, with or without failures, is a run of its process. -/
theorem postKillSwitch_run (fails : StoreCall → Bool) (xActor : String) (xReason : Option String)
    (st : Stores) (k : κ) :
    exec step (Sys.quiet κ st) (requestLabels fails k (.activate .manual xActor xReason)
      (nextEventId st.rows)) = some (Sys.quiet κ (postKillSwitch fails xActor xReason st).1) := by
  have hfresh : FreshId (⟨st.redisFlag, st.rows, fun _ => none⟩ : Sys κ) (nextEventId st.rows) :=
    ⟨fun _ hr => lt_nextEventId hr, fun _ => rfl⟩
  unfold requestLabels postKillSwitch Sys.quiet
  cases fails .flush with
  | true => rfl
  | false =>
    cases fails .redisSet with
    | true => simp [exec, step, Request.row, Sys.setCall, hfresh]
    | false =>
      cases fails .redisPublish with
      | true => simp [exec, step, Request.row, Sys.setCall, hfresh]
      | false =>
        cases fails .commit with
        | true => simp [exec, step, Request.row, Sys.setCall, hfresh]
        | false =>
          have hrow : (Request.activate .manual xActor xReason).row (nextEventId st.rows) =
            some ⟨nextEventId st.rows, true, .manual, xActor, xReason⟩ := rfl
          exact exec_request rfl hfresh hrow

/-- No two rows, committed or in flight, share an id. -/
structure IdsDistinct (s : Sys κ) : Prop where
  rows_nodup : (s.rows.map KillSwitchEvent.id).Nodup
  call_fresh : ∀ k p row, s.call k = some (p, row) → ∀ r ∈ s.rows, r.id ≠ row.id
  calls_distinct : ∀ k l p q row row', s.call k = some (p, row) → s.call l = some (q, row') →
    row.id = row'.id → k = l

/-- No call is in flight and the committed rows have distinct ids. -/
def Initial (s : Sys κ) : Prop :=
  (s.rows.map KillSwitchEvent.id).Nodup ∧ ∀ k, s.call k = none

omit [DecidableEq κ] [Fintype κ] in
theorem Initial.idsDistinct {s : Sys κ} (h : Initial s) : IdsDistinct s where
  rows_nodup := h.1
  call_fresh k _ _ hc := by simp [h.2 k] at hc
  calls_distinct k _ _ _ _ _ hc := by simp [h.2 k] at hc

omit [Fintype κ] in
/-- Dropping a call, or moving it on with the same row, keeps the ids distinct. -/
theorem IdsDistinct.update {s t : Sys κ} (h : IdsDistinct s) {k : κ} {p : Phase}
    {row : KillSwitchEvent} {c : Option (Phase × KillSwitchEvent)}
    (hc : s.call k = some (p, row)) (hcr : ∀ q row', c = some (q, row') → row' = row)
    (hrows : t.rows = s.rows) (hcall : t.call = Function.update s.call k c) :
    IdsDistinct t := by
  have hback : ∀ l q row', t.call l = some (q, row') → ∃ q', s.call l = some (q', row') := by
    intro l q row' hl
    rw [hcall] at hl
    by_cases hlk : l = k
    · subst hlk
      rw [Function.update_self] at hl
      exact ⟨p, by rw [hc, hcr q row' hl]⟩
    · rw [Function.update_of_ne hlk] at hl
      exact ⟨q, hl⟩
  refine ⟨hrows ▸ h.rows_nodup, ?_, ?_⟩
  · intro l q row' hl r hr
    obtain ⟨q', hl'⟩ := hback l q row' hl
    exact h.call_fresh l q' row' hl' r (hrows ▸ hr)
  · intro l m q q' row' row'' hl hm hid
    obtain ⟨u, hl'⟩ := hback l q row' hl
    obtain ⟨u', hm'⟩ := hback m q' row'' hm
    exact h.calls_distinct l m u u' row' row'' hl' hm' hid

omit [Fintype κ] in
theorem IdsDistinct.flush {s : Sys κ} (h : IdsDistinct s) {k : κ} {row : KillSwitchEvent}
    (hfresh : FreshId s row.id) : IdsDistinct (s.setCall k (some (.flushed, row))) := by
  have hold : ∀ l q row', l ≠ k → (s.setCall k (some (.flushed, row))).call l = some (q, row') →
      s.call l = some (q, row') ∧ row'.id < row.id := by
    intro l q row' hlk hl
    have hl' : s.call l = some (q, row') := by
      simpa [Sys.setCall, Function.update_of_ne hlk] using hl
    have hlt := hfresh.2 l
    rw [hl'] at hlt
    exact ⟨hl', by simpa using hlt⟩
  have hself : ∀ q row', (s.setCall k (some (.flushed, row))).call k = some (q, row') →
      row' = row := by
    intro q row' hl
    rw [Sys.setCall_call_self] at hl
    exact (Prod.mk.inj (Option.some.inj hl)).2.symm
  refine ⟨h.rows_nodup, ?_, ?_⟩
  · intro l q row' hl r hr
    by_cases hlk : l = k
    · subst hlk
      rw [hself q row' hl]
      exact (hfresh.1 r hr).ne
    · exact h.call_fresh l q row' (hold l q row' hlk hl).1 r hr
  · intro l m q q' row' row'' hl hm hid
    by_cases hlk : l = k <;> by_cases hmk : m = k
    · rw [hlk, hmk]
    · subst hlk
      have hlt := (hold m q' row'' hmk hm).2
      rw [hself q row' hl] at hid
      omega
    · subst hmk
      have hlt := (hold l q row' hlk hl).2
      rw [hself q' row'' hm] at hid
      omega
    · exact h.calls_distinct l m q q' row' row'' (hold l q row' hlk hl).1
        (hold m q' row'' hmk hm).1 hid

omit [Fintype κ] in
theorem IdsDistinct.commit {s t : Sys κ} (h : IdsDistinct s) {k : κ} {p : Phase}
    {row : KillSwitchEvent} (hc : s.call k = some (p, row)) (hrows : t.rows = s.rows ++ [row])
    (hcall : t.call = Function.update s.call k none) : IdsDistinct t := by
  have hback : ∀ l q row', t.call l = some (q, row') → l ≠ k ∧ s.call l = some (q, row') := by
    intro l q row' hl
    rw [hcall] at hl
    by_cases hlk : l = k
    · subst hlk
      simp at hl
    · exact ⟨hlk, by rwa [Function.update_of_ne hlk] at hl⟩
  refine ⟨?_, ?_, ?_⟩
  · rw [hrows, List.map_append, List.nodup_append]
    refine ⟨h.rows_nodup, by simp, fun a ha b hb hab => ?_⟩
    obtain ⟨r, hr, rfl⟩ := List.mem_map.mp ha
    rw [List.map_singleton, List.mem_singleton] at hb
    exact h.call_fresh k p row hc r hr (hab.trans hb)
  · intro l q row' hl r hr
    obtain ⟨hlk, hl'⟩ := hback l q row' hl
    rw [hrows] at hr
    rcases List.mem_append.mp hr with hr | hr
    · exact h.call_fresh l q row' hl' r hr
    · rw [List.mem_singleton.mp hr]
      exact fun hid => hlk (h.calls_distinct l k q p row' row hl' hc hid.symm)
  · intro l m q q' row' row'' hl hm hid
    exact h.calls_distinct l m q q' row' row'' (hback l q row' hl).2 (hback m q' row'' hm).2 hid

theorem step_idsDistinct {s : Sys κ} {a : Label κ} {t : Sys κ} (h : IdsDistinct s)
    (hstep : step s a = some t) : IdsDistinct t := by
  rcases step_cases hstep with ⟨k, req, id, row, -, hf, hrow, rfl⟩ |
    ⟨k, p, q, row, hc, hrows, hcall⟩ | ⟨k, row, -, hc, -, hrows, hcall⟩ | ⟨k, rfl, rfl⟩
  · exact h.flush (Request.row_id hrow ▸ hf)
  · exact h.update hc (fun _ _ he => (Prod.mk.inj (Option.some.inj he)).2.symm) hrows hcall
  · exact h.commit hc hrows hcall
  · simp only [step] at hstep
    split_ifs at hstep with hn
    obtain ⟨⟨p, row⟩, hc⟩ := Option.ne_none_iff_exists'.mp hn
    exact h.update hc (fun _ _ he => by simp at he) rfl rfl

/-- The table only grows. -/
theorem step_rows_subset {s t : Sys κ} {a : Label κ} (h : step s a = some t) :
    s.rows ⊆ t.rows := by
  rcases step_cases h with ⟨k, req, id, row, -, -, -, rfl⟩ | ⟨k, p, q, row, -, hrows, -⟩ |
    ⟨k, row, -, -, -, hrows, -⟩ | ⟨k, -, rfl⟩
  · exact List.Subset.refl _
  · rw [hrows]
    exact List.Subset.refl _
  · rw [hrows]
    exact List.subset_append_left _ _
  · exact List.Subset.refl _

theorem Reaches.idsDistinct {s t : Sys κ} (h : Reaches step s t) (hs : IdsDistinct s) :
    IdsDistinct t :=
  h.invariant IdsDistinct (fun _ _ _ => step_idsDistinct) hs

theorem Reaches.rows_subset {s t : Sys κ} (h : Reaches step s t) : s.rows ⊆ t.rows :=
  h.relates (fun s t => s.rows ⊆ t.rows) (fun _ => List.Subset.refl _)
    (fun _ _ _ => List.Subset.trans) fun _ _ _ => step_rows_subset

/-- Every read that begins after an activation row has committed sees the switch on, until
a deactivation row with a larger id is committed. The read takes the Redis key in one state
and the latest row in a later one. -/
theorem activation_persists {s₀ s t u : Sys κ} (h₀ : Initial s₀) (hs : Reaches step s₀ s)
    {r : KillSwitchEvent} (hr : r ∈ s.rows) (ha : r.activated = true)
    (ht : Reaches step s t) (hu : Reaches step t u)
    (hlate : ∀ d ∈ u.rows, d.activated = false → ¬ r.id < d.id) (env : Option String) :
    (isActive env t.redisFlag u.rows).active = true := by
  have hsu := ht.trans hu
  have hids := Reaches.idsDistinct (hs.trans hsu) h₀.idsDistinct
  exact isActive_of_activation hids.rows_nodup (Reaches.rows_subset hsu hr) ha hlate

/-- One activation alone: flushed, in Redis, published and committed; a deactivation is then
flushed, deletes the Redis key and stops. The switch stays on. -/
theorem activation_persists_rolled_back_deactivation :
    (isActive none none [⟨1, true, .manual, "alice", none⟩]).active = true := by
  let s₀ : Sys (Fin 2) := ⟨none, [], fun _ => none⟩
  let on : List (Label (Fin 2)) :=
    [.flush 0 (.activate .manual "alice" none) 1, .redis 0, .publish 0, .commit 0]
  let off : List (Label (Fin 2)) :=
    [.flush 1 (.deactivate (some "I-understand") "bob" "done") 2, .redis 1, .stop 1]
  have h₀ : Initial s₀ := ⟨List.nodup_nil, fun _ => rfl⟩
  have hrun : ∃ s t, exec step s₀ on = some s ∧ exec step s off = some t ∧
      s.rows = [⟨1, true, .manual, "alice", none⟩] ∧
      t.rows = [⟨1, true, .manual, "alice", none⟩] ∧ t.redisFlag = none :=
    ⟨_, _, rfl, rfl, rfl, rfl, rfl⟩
  obtain ⟨s, t, hs, ht, hsr, htr, hf⟩ := hrun
  have h := activation_persists h₀ ⟨on, hs⟩ (r := ⟨1, true, .manual, "alice", none⟩)
    (by simp [hsr]) rfl ⟨off, ht⟩ .refl (by simp [htr]) none
  rwa [hf, htr] at h

end XSocialTrader.KillSwitch
