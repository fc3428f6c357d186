import XSocialTrader.Core.Text
import XSocialTrader.Core.Values
import Mathlib.Data.List.MinMax
import Mathlib.Data.List.Nodup

/-! The kill switch: the tri-source read, and the activation request against two stores
that may each refuse a call. -/
namespace XSocialTrader

inductive KillSwitchTrigger where
  | manual | envVar | drawdown | budgetLlm | budgetTwitterapi
  deriving DecidableEq, Repr

/-- A row of the append-only `kill_switch_events` table. -/
structure KillSwitchEvent where
  id : ℕ
  activated : Bool
  trigger : KillSwitchTrigger
  actor : String
  reason : Option String
  deriving DecidableEq, Repr

inductive KillSwitchSource where
  | env | redis | db | inactive
  deriving DecidableEq, Repr

structure KillSwitchState where
  active : Bool
  source : KillSwitchSource
  deriving DecidableEq, Repr

def KillSwitchSource.text : KillSwitchSource → String
  | .env => "env"
  | .redis => "redis"
  | .db => "db"
  | .inactive => "inactive"

/-- `(self._env_getter() or "").strip() in {"1", "true", "yes"}`. -/
def envActive (env : Option String) : Bool :=
  ["1", "true", "yes"].contains (pyStrip (env.getD ""))

/-- `order_by(desc(id)).limit(1)`. -/
def latestDbEvent (rows : List KillSwitchEvent) : Option KillSwitchEvent :=
  rows.argmax KillSwitchEvent.id

/-- `is_active`: the environment, then the Redis key, then the latest row. -/
def isActive (env redisFlag : Option String) (rows : List KillSwitchEvent) : KillSwitchState :=
  if envActive env then ⟨true, .env⟩
  else if redisFlag.isSome then ⟨true, .redis⟩
  else match latestDbEvent rows with
    | some latest => if latest.activated then ⟨true, .db⟩ else ⟨false, .inactive⟩
    | none => ⟨false, .inactive⟩

theorem isActive_active_iff (env redisFlag : Option String) (rows : List KillSwitchEvent) :
    (isActive env redisFlag rows).active = true ↔ envActive env = true ∨
      redisFlag.isSome = true ∨ ∃ m, latestDbEvent rows = some m ∧ m.activated = true := by
  unfold isActive
  cases envActive env <;> cases redisFlag <;> simp
  cases latestDbEvent rows with
  | none => simp
  | some m => cases ha : m.activated <;> simp [ha]

/-- The switch is on if the part read from the environment and Redis says so, or the part
read from the table. -/
theorem isActive_split (env redisFlag : Option String) (rows : List KillSwitchEvent) :
    (isActive env redisFlag rows).active =
      ((isActive env redisFlag []).active || (isActive none none rows).active) := by
  have henv : envActive none = false := by decide
  unfold isActive
  cases envActive env <;> cases redisFlag <;> simp [henv, latestDbEvent]

theorem isActive_of_latest {env redisFlag : Option String} {rows : List KillSwitchEvent}
    {m : KillSwitchEvent} (hm : latestDbEvent rows = some m) (ha : m.activated = true) :
    (isActive env redisFlag rows).active = true :=
  (isActive_active_iff env redisFlag rows).mpr (Or.inr (Or.inr ⟨m, hm, ha⟩))

/-- With distinct ids, an activation row outlives everything but a deactivation with a
larger id. -/
theorem isActive_of_activation {env redisFlag : Option String} {rows : List KillSwitchEvent}
    {r : KillSwitchEvent} (hn : (rows.map KillSwitchEvent.id).Nodup) (hr : r ∈ rows)
    (ha : r.activated = true)
    (hlate : ∀ d ∈ rows, d.activated = false → ¬ r.id < d.id) :
    (isActive env redisFlag rows).active = true := by
  obtain ⟨m, hm⟩ : ∃ m, latestDbEvent rows = some m := by
    cases h : latestDbEvent rows with
    | none =>
      rw [List.argmax_eq_none.mp h] at hr
      exact absurd hr List.not_mem_nil
    | some m => exact ⟨m, rfl⟩
  apply isActive_of_latest hm
  by_contra hna
  have hmem : m ∈ rows := List.argmax_mem hm
  have hle : r.id ≤ m.id := List.le_of_mem_argmax hr hm
  have hnot := hlate m hmem (by simpa using hna)
  have hid : r.id = m.id := by omega
  rw [List.inj_on_of_nodup_map hn hr hmem hid] at ha
  exact hna ha

/-- Some activation row is newer than every deactivation row. -/
def Latched (rows : List KillSwitchEvent) : Prop :=
  ∃ r ∈ rows, r.activated = true ∧ ∀ d ∈ rows, d.activated = false → d.id < r.id

theorem Latched.active {rows : List KillSwitchEvent} (h : Latched rows)
    (hn : (rows.map KillSwitchEvent.id).Nodup) (env redisFlag : Option String) :
    (isActive env redisFlag rows).active = true := by
  obtain ⟨r, hr, ha, hlate⟩ := h
  exact isActive_of_activation hn hr ha fun d hd hda => (hlate d hd hda).not_gt

/-- The part of the read that asks the table sees a latched table on, and no other. -/
theorem latched_iff {rows : List KillSwitchEvent} (hn : (rows.map KillSwitchEvent.id).Nodup) :
    Latched rows ↔ (isActive none none rows).active = true := by
  constructor
  · exact fun h => h.active hn none none
  · intro h
    have henv : envActive none = false := by decide
    obtain ⟨m, hm, ha⟩ := by simpa [henv] using (isActive_active_iff none none rows).mp h
    have hmem : m ∈ rows := List.argmax_mem hm
    refine ⟨m, hmem, ha, fun d hd hda => lt_of_le_of_ne (List.le_of_mem_argmax hd hm) ?_⟩
    intro hid
    rw [List.inj_on_of_nodup_map hn hd hmem hid, ha] at hda
    cases hda

theorem Latched.append {rows : List KillSwitchEvent} {row : KillSwitchEvent}
    (h : Latched rows) (hrow : row.activated = true) : Latched (rows ++ [row]) := by
  obtain ⟨r, hr, ha, hlate⟩ := h
  refine ⟨r, List.mem_append_left _ hr, ha, fun d hd hda => ?_⟩
  rcases List.mem_append.mp hd with hd | hd
  · exact hlate d hd hda
  · rw [List.mem_singleton.mp hd, hrow] at hda
    cases hda

/-- A row that a committed activation row outdates does not break the latch. -/
theorem Latched.append_outdated {rows : List KillSwitchEvent} {row r : KillSwitchEvent}
    (h : Latched rows) (hr : r ∈ rows) (hact : r.activated = true) (hid : row.id < r.id) :
    Latched (rows ++ [row]) := by
  obtain ⟨r₀, hr₀, ha, hlate⟩ := h
  by_cases hlt : row.id < r₀.id
  · refine ⟨r₀, List.mem_append_left _ hr₀, ha, fun d hd hda => ?_⟩
    rcases List.mem_append.mp hd with hd | hd
    · exact hlate d hd hda
    · rwa [List.mem_singleton.mp hd]
  · refine ⟨r, List.mem_append_left _ hr, hact, fun d hd hda => ?_⟩
    rcases List.mem_append.mp hd with hd | hd
    · have hdlt := hlate d hd hda
      omega
    · rwa [List.mem_singleton.mp hd]

/-- An activation row that no deactivation row outdates latches the table once it is there. -/
theorem Latched.of_append {rows : List KillSwitchEvent} {row : KillSwitchEvent}
    (hrow : row.activated = true) (hlate : ∀ d ∈ rows, d.activated = false → d.id < row.id) :
    Latched (rows ++ [row]) := by
  refine ⟨row, List.mem_append_right _ (List.mem_singleton_self row), hrow, fun d hd hda => ?_⟩
  rcases List.mem_append.mp hd with hd | hd
  · exact hlate d hd hda
  · rw [List.mem_singleton.mp hd, hrow] at hda
    cases hda

/-- The two stores and the environment, as one request finds them. -/
structure Stores where
  env : Option String
  redisFlag : Option String
  rows : List KillSwitchEvent
  deriving DecidableEq

def Stores.state (st : Stores) : KillSwitchState := isActive st.env st.redisFlag st.rows

/-- The store calls of one activation request, in order. -/
inductive StoreCall where
  | flush | redisSet | redisPublish | commit
  deriving DecidableEq, Repr

def nextEventId (rows : List KillSwitchEvent) : ℕ :=
  (rows.map KillSwitchEvent.id).foldr max 0 + 1

theorem lt_nextEventId {rows : List KillSwitchEvent} {r : KillSwitchEvent} (hr : r ∈ rows) :
    r.id < nextEventId rows :=
  Nat.lt_succ_of_le (List.le_max_of_le (List.mem_map_of_mem hr) le_rfl)

/-- `POST /kill-switch`: `service.activate` and then `session.commit`. An exception leaves
the handler, and the session that closes then takes the flushed row back. -/
def postKillSwitch (fails : StoreCall → Bool) (xActor : String) (xReason : Option String)
    (st : Stores) : Stores × Except PyExc ℕ :=
  let event : KillSwitchEvent :=
    { id := nextEventId st.rows, activated := true, trigger := .manual, actor := xActor,
      reason := xReason }
  if fails .flush then (st, .error .operationalError)
  else if fails .redisSet then (st, .error .redisError)
  else
    let st' := { st with redisFlag := some "1" }
    if fails .redisPublish then (st', .error .redisError)
    else if fails .commit then (st', .error .operationalError)
    else ({ st' with rows := st.rows ++ [event] }, .ok event.id)

/-- The database takes every write of the request. -/
def DbAccepts (fails : StoreCall → Bool) : Prop := fails .flush = false ∧ fails .commit = false

/-- Redis takes every write of the request. -/
def RedisAccepts (fails : StoreCall → Bool) : Prop :=
  fails .redisSet = false ∧ fails .redisPublish = false

/-- The switch is on after the request exactly when it was on before or both the first
database call and the first Redis call went through: the two channels are not independent,
since an outage of either one before the SET loses the activation in both. -/
theorem postKillSwitch_active_iff (fails : StoreCall → Bool) (xActor : String)
    (xReason : Option String) (st : Stores) :
    (postKillSwitch fails xActor xReason st).1.state.active = true ↔
      st.state.active = true ∨ fails .flush = false ∧ fails .redisSet = false := by
  unfold postKillSwitch
  cases hf : fails .flush with
  | true => simp
  | false =>
    cases hs : fails .redisSet with
    | true => simp
    | false =>
      have hset : ∀ rows, (isActive st.env (some "1") rows).active = true := fun rows =>
        (isActive_active_iff _ _ _).mpr (Or.inr (Or.inl rfl))
      cases fails .redisPublish <;> cases fails .commit <;> simp [Stores.state, hset]

/-- A database outage alone: Redis would take the SET, but the handler never reaches it. -/
theorem postKillSwitch_db_outage_lost : ¬ ∀ (fails : StoreCall → Bool) (xActor : String)
    (xReason : Option String) (st : Stores), DbAccepts fails ∨ RedisAccepts fails →
      (postKillSwitch fails xActor xReason st).1.state.active = true := by
  intro h
  have hlost := h (fun c => decide (c = .flush ∨ c = .commit)) "bob" (some "panic")
    ⟨none, none, []⟩ (Or.inr ⟨by decide, by decide⟩)
  exact absurd hlost (by decide)

end XSocialTrader
