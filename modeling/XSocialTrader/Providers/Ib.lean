import XSocialTrader.Lib.LabelledRun
import Mathlib.Algebra.Field.Rat
import Mathlib.Tactic.Ring
import Mathlib.Logic.Function.Basic

/-! Connections of `IBProvider`: any number of `connect` and `disconnect` calls interleaved at
their awaits, with the gateway free to fail an attempt or drop a session at any time. -/
namespace XSocialTrader.Ib

/-- What `IBProvider.__init__` keeps, the address apart. -/
structure Config where
  expectedAccountId : String
  retryMax : ℕ
  retryBackoff : ℚ

/-- `IBConnectionError` by its message. -/
inductive IbConnectionError where
  | connectFailed (attempts : ℕ) (lastErr : Option String)
  | accountMismatch (expected : String) (managed : List String)
  | notConnected
  deriving DecidableEq, Repr

/-- A client made by the factory: `managed` is what `managedAccounts()` answered once it was
connected, and `slept` the pauses of the `connect` call that made it. -/
structure Session where
  isConnected : Bool
  managed : List String
  slept : List ℚ

/-- Where a `connect` call awaits. -/
inductive Phase where
  | connecting (attempt : ℕ) (lastErr : Option String)
  | sleeping (attempt : ℕ) (lastErr : Option String)
  deriving DecidableEq, Repr

/-- Sessions are numbered in the order of the `connect` calls that made them. `outcome` is how
a call ended and `replaced` the sessions whose place in `_ib` another one took. -/
structure State where
  count : ℕ
  sessions : ℕ → Session
  calls : ℕ → Option Phase
  outcome : ℕ → Option (Except IbConnectionError Unit)
  ib : Option ℕ
  replaced : List ℕ

/-- A failed attempt may leave the client's socket open. -/
inductive Label where
  | connect
  | attemptFails (session : ℕ) (error : String) (staysOpen : Bool)
  | attemptSucceeds (session : ℕ) (managed : List String)
  | wake (session : ℕ)
  | cancel (session : ℕ)
  | drop (session : ℕ)
  | disconnect
  deriving DecidableEq, Repr

def initial : State where
  count := 0
  sessions _ := ⟨false, [], []⟩
  calls _ := none
  outcome _ := none
  ib := none
  replaced := []

namespace State

variable (st : State)

/-- What a step changes of one session and of the call that made it. -/
def put (s : ℕ) (session : Session) (call : Option Phase)
    (outcome : Option (Except IbConnectionError Unit)) : State :=
  { st with
    sessions := Function.update st.sessions s session
    calls := Function.update st.calls s call
    outcome := Function.update st.outcome s outcome }

/-- `self._ib = ib`. -/
def assign (s : ℕ) : State :=
  { st with ib := some s, replaced := st.ib.toList ++ st.replaced }

/-- `_require_connected`. -/
def requireConnected : Except IbConnectionError ℕ :=
  match st.ib with
  | none => .error .notConnected
  | some s => if (st.sessions s).isConnected then .ok s else .error .notConnected

end State

/-- The pauses before attempt `n`: `retry_backoff * 2**attempt` after each failure. -/
def pauses (cfg : Config) (n : ℕ) : List ℚ :=
  (List.range n).map fun attempt => cfg.retryBackoff * 2 ^ attempt

/-- `connect` up to its next await, `disconnect`, and what the gateway does. -/
def step (cfg : Config) (st : State) : Label → Option State
  | .connect =>
    let made := { st with count := st.count + 1 }
    if cfg.retryMax = 0 then
      some (made.put st.count ⟨false, [], []⟩ none (some (.error (.connectFailed 0 none))))
    else some (made.put st.count ⟨false, [], []⟩ (some (.connecting 0 none)) none)
  | .attemptFails s error staysOpen =>
    match st.calls s with
    | some (.connecting attempt _) =>
      let session := { st.sessions s with
        isConnected := staysOpen
        slept := (st.sessions s).slept ++ [cfg.retryBackoff * 2 ^ attempt] }
      some (st.put s session (some (.sleeping attempt (some error))) none)
    | _ => none
  | .attemptSucceeds s managed =>
    match st.calls s with
    | some (.connecting _ _) =>
      if cfg.expectedAccountId ∈ managed then
        let session := { st.sessions s with isConnected := true, managed := managed }
        some ((st.put s session none (some (.ok ()))).assign s)
      else
        -- `ib.disconnect()` before the raise
        let session := { st.sessions s with isConnected := false, managed := managed }
        some (st.put s session none
          (some (.error (.accountMismatch cfg.expectedAccountId managed))))
    | _ => none
  | .wake s =>
    match st.calls s with
    | some (.sleeping attempt lastErr) =>
      if attempt + 1 < cfg.retryMax then
        some (st.put s (st.sessions s) (some (.connecting (attempt + 1) lastErr)) none)
      else
        some (st.put s (st.sessions s) none
          (some (.error (.connectFailed cfg.retryMax lastErr))))
    | _ => none
  | .cancel s =>
    match st.calls s with
    | some _ => some (st.put s (st.sessions s) none none)
    | none => none
  | .drop s =>
    if s < st.count then
      some (st.put s { st.sessions s with isConnected := false } (st.calls s) (st.outcome s))
    else none
  | .disconnect =>
    match st.ib with
    | none => some st
    | some s =>
      some { st.put s { st.sessions s with isConnected := false } (st.calls s) (st.outcome s) with
        ib := none }

/-! ### The invariant -/

/-- What holds of one session, the call that made it and how that call ended. -/
structure Local (cfg : Config) (session : Session) (call : Option Phase)
    (outcome : Option (Except IbConnectionError Unit)) : Prop where
  running : ∀ phase, call = some phase → outcome = none
  connecting : ∀ attempt e, call = some (.connecting attempt e) →
    attempt < cfg.retryMax ∧ session.slept = pauses cfg attempt
  sleeping : ∀ attempt e, call = some (.sleeping attempt e) →
    attempt < cfg.retryMax ∧ session.slept = pauses cfg (attempt + 1)
  verified : outcome = some (.ok ()) → cfg.expectedAccountId ∈ session.managed
  gaveUp : ∀ n e, outcome = some (.error (.connectFailed n e)) →
    n = cfg.retryMax ∧ session.slept = pauses cfg cfg.retryMax

/-- What holds between any two awaits. -/
structure Inv (cfg : Config) (st : State) : Prop where
  fresh : ∀ s, st.count ≤ s → st.calls s = none ∧ st.outcome s = none
  sessions : ∀ s, Local cfg (st.sessions s) (st.calls s) (st.outcome s)
  current : ∀ s, st.ib = some s → st.outcome s = some (.ok ())
  handedOver : ∀ s, st.outcome s = some (.ok ()) → (st.sessions s).isConnected = true →
    st.ib = some s ∨ s ∈ st.replaced

variable {cfg : Config} {st st' : State} {s : ℕ}

/-- A session whose call neither runs nor has ended, as after a cancellation. -/
theorem Local.idle (cfg : Config) (session : Session) : Local cfg session none none where
  running _ h := by cases h
  connecting _ _ h := by cases h
  sleeping _ _ h := by cases h
  verified h := by cases h
  gaveUp _ _ h := by cases h

theorem Local.of_connecting {session : Session} {attempt : ℕ} {e : Option String}
    (hlt : attempt < cfg.retryMax) (hslept : session.slept = pauses cfg attempt) :
    Local cfg session (some (.connecting attempt e)) none where
  running _ _ := rfl
  connecting _ _ h := by
    cases h
    exact ⟨hlt, hslept⟩
  sleeping _ _ h := by cases h
  verified h := by cases h
  gaveUp _ _ h := by cases h

theorem Local.of_sleeping {session : Session} {attempt : ℕ} {e : Option String}
    (hlt : attempt < cfg.retryMax) (hslept : session.slept = pauses cfg (attempt + 1)) :
    Local cfg session (some (.sleeping attempt e)) none where
  running _ _ := rfl
  connecting _ _ h := by cases h
  sleeping _ _ h := by
    cases h
    exact ⟨hlt, hslept⟩
  verified h := by cases h
  gaveUp _ _ h := by cases h

theorem Local.of_outcome {session : Session} {result : Except IbConnectionError Unit}
    (hok : result = .ok () → cfg.expectedAccountId ∈ session.managed)
    (hgaveUp : ∀ n e, result = .error (.connectFailed n e) →
      n = cfg.retryMax ∧ session.slept = pauses cfg cfg.retryMax) :
    Local cfg session none (some result) where
  running _ h := by cases h
  connecting _ _ h := by cases h
  sleeping _ _ h := by cases h
  verified h := hok (Option.some.inj h)
  gaveUp n e h := hgaveUp n e (Option.some.inj h)

theorem inv_initial (cfg : Config) : Inv cfg initial where
  fresh _ _ := ⟨rfl, rfl⟩
  sessions _ := .idle cfg _
  current _ h := by cases h
  handedOver _ h := by cases h

/-- A change of one session, with the place in `_ib` changed or not, keeps the invariant if
that session is in order and the others keep their places. -/
theorem Inv.put (h : Inv cfg st) {count : ℕ} {session : Session} {call : Option Phase}
    {outcome : Option (Except IbConnectionError Unit)} {ib : Option ℕ} {replaced : List ℕ}
    (hcount : st.count ≤ count) (hs : s < count) (hlocal : Local cfg session call outcome)
    (hib : ∀ u, ib = some u → u = s ∧ outcome = some (.ok ()) ∨ u ≠ s ∧ st.ib = some u)
    (hother : ∀ u, u ≠ s → st.ib = some u ∨ u ∈ st.replaced → ib = some u ∨ u ∈ replaced)
    (hself : outcome = some (.ok ()) → session.isConnected = true → ib = some s ∨ s ∈ replaced) :
    Inv cfg { st.put s session call outcome with count, ib, replaced } where
  fresh u hu := by
    have hne : u ≠ s := by
      rintro rfl
      exact absurd hs (not_lt.mpr hu)
    simp only [State.put, Function.update_of_ne hne]
    exact h.fresh u (hcount.trans hu)
  sessions u := by
    by_cases hu : u = s
    · subst hu
      simpa only [State.put, Function.update_self] using hlocal
    · simpa only [State.put, Function.update_of_ne hu] using h.sessions u
  current u hu := by
    rcases hib u hu with ⟨rfl, ho⟩ | ⟨hne, hold⟩
    · simpa only [State.put, Function.update_self] using ho
    · simpa only [State.put, Function.update_of_ne hne] using h.current u hold
  handedOver u ho hc := by
    by_cases hu : u = s
    · subst hu
      simp only [State.put, Function.update_self] at ho hc
      exact hself ho hc
    · simp only [State.put, Function.update_of_ne hu] at ho hc
      exact hother u hu (h.handedOver u ho hc)

theorem Inv.lt_count (h : Inv cfg st) {phase : Phase} (hcall : st.calls s = some phase) :
    s < st.count := by
  by_contra hle
  rw [(h.fresh s (not_lt.mp hle)).1] at hcall
  cases hcall

/-- A session whose call is still running is not the current one. -/
theorem Inv.ib_ne (h : Inv cfg st) {phase : Phase} (hcall : st.calls s = some phase) :
    st.ib ≠ some s := by
  intro hib
  have hnone := (h.sessions s).running phase hcall
  rw [h.current s hib] at hnone
  cases hnone

theorem pauses_succ (n : ℕ) : pauses cfg (n + 1) = pauses cfg n ++ [cfg.retryBackoff * 2 ^ n] := by
  simp [pauses, List.range_succ]

/-- A gateway that closes a socket, or a client that does, breaks nothing. -/
theorem Local.disconnected {session : Session} {call : Option Phase}
    {outcome : Option (Except IbConnectionError Unit)} (h : Local cfg session call outcome) :
    Local cfg { session with isConnected := false } call outcome where
  running := h.running
  connecting := h.connecting
  sleeping := h.sleeping
  verified := h.verified
  gaveUp := h.gaveUp

/-- Every step of every call keeps the invariant. -/
theorem step_inv (h : Inv cfg st) {a : Label} (hstep : step cfg st a = some st') :
    Inv cfg st' := by
  cases a with
  | connect =>
    have hfresh := h.fresh st.count le_rfl
    have hib : st.ib ≠ some st.count := by
      intro hib
      rw [h.current _ hib] at hfresh
      cases hfresh.2
    have hplaces : ∀ u, st.ib = some u → u ≠ st.count ∧ st.ib = some u := by
      rintro u hu
      exact ⟨fun hc => hib (hc ▸ hu), hu⟩
    simp only [step] at hstep
    split_ifs at hstep with hzero
    · obtain rfl := Option.some.inj hstep
      refine h.put (Nat.le_succ _) (Nat.lt_succ_self _) (.of_outcome (fun ho => by cases ho) ?_)
        (fun u hu => Or.inr (hplaces u hu)) (fun u _ hu => hu) (fun ho => by cases ho)
      intro n e ho
      cases ho
      simp [hzero, pauses]
    · obtain rfl := Option.some.inj hstep
      exact h.put (Nat.le_succ _) (Nat.lt_succ_self _)
        (.of_connecting (Nat.pos_of_ne_zero hzero) rfl) (fun u hu => Or.inr (hplaces u hu))
        (fun u _ hu => hu) (fun ho => by cases ho)
  | attemptFails s error staysOpen =>
    simp only [step] at hstep
    cases hcall : st.calls s with
    | none => simp [hcall] at hstep
    | some phase =>
      cases phase with
      | sleeping attempt e => simp [hcall] at hstep
      | connecting attempt e =>
        simp only [hcall] at hstep
        obtain rfl := Option.some.inj hstep
        obtain ⟨hlt, hslept⟩ := (h.sessions s).connecting attempt e hcall
        refine h.put le_rfl (h.lt_count hcall) ?_ (fun u hu => Or.inr ⟨?_, hu⟩)
          (fun u _ hu => hu) (fun ho => by cases ho)
        · exact .of_sleeping hlt (by rw [pauses_succ, hslept])
        · rintro rfl
          exact h.ib_ne hcall hu
  | attemptSucceeds s managed =>
    simp only [step] at hstep
    cases hcall : st.calls s with
    | none => simp [hcall] at hstep
    | some phase =>
      cases phase with
      | sleeping attempt e => simp [hcall] at hstep
      | connecting attempt e =>
        simp only [hcall] at hstep
        split_ifs at hstep with hmem
        · obtain rfl := Option.some.inj hstep
          refine h.put le_rfl (h.lt_count hcall) ?_ ?_ ?_ (fun _ _ => Or.inl rfl)
          · exact .of_outcome (fun _ => hmem) (fun _ _ ho => by cases ho)
          · intro u hu
            exact Or.inl ⟨(Option.some.inj hu).symm, rfl⟩
          · intro u hne hu
            right
            rcases hu with hu | hu
            · exact List.mem_append_left _ (by simp [State.put, hu])
            · exact List.mem_append_right _ hu
        · obtain rfl := Option.some.inj hstep
          refine h.put le_rfl (h.lt_count hcall) ?_ (fun u hu => Or.inr ⟨?_, hu⟩)
            (fun u _ hu => hu) (fun ho => by cases ho)
          · exact .of_outcome (fun ho => by cases ho) (fun _ _ ho => by cases ho)
          · rintro rfl
            exact h.ib_ne hcall hu
  | wake s =>
    simp only [step] at hstep
    cases hcall : st.calls s with
    | none => simp [hcall] at hstep
    | some phase =>
      cases phase with
      | connecting attempt e => simp [hcall] at hstep
      | sleeping attempt e =>
        obtain ⟨hlt, hslept⟩ := (h.sessions s).sleeping attempt e hcall
        simp only [hcall] at hstep
        split_ifs at hstep with hmore
        · obtain rfl := Option.some.inj hstep
          refine h.put le_rfl (h.lt_count hcall) ?_ (fun u hu => Or.inr ⟨?_, hu⟩)
            (fun u _ hu => hu) (fun ho => by cases ho)
          · exact .of_connecting hmore hslept
          · rintro rfl
            exact h.ib_ne hcall hu
        · obtain rfl := Option.some.inj hstep
          have hlast : attempt + 1 = cfg.retryMax := by omega
          refine h.put le_rfl (h.lt_count hcall) ?_ (fun u hu => Or.inr ⟨?_, hu⟩)
            (fun u _ hu => hu) (fun ho => by cases ho)
          · refine .of_outcome (fun ho => by cases ho) (fun n e' ho => ?_)
            cases ho
            exact ⟨rfl, hlast ▸ hslept⟩
          · rintro rfl
            exact h.ib_ne hcall hu
  | cancel s =>
    simp only [step] at hstep
    cases hcall : st.calls s with
    | none => simp [hcall] at hstep
    | some phase =>
      simp only [hcall] at hstep
      obtain rfl := Option.some.inj hstep
      refine h.put le_rfl (h.lt_count hcall) (.idle cfg _) (fun u hu => Or.inr ⟨?_, hu⟩)
        (fun u _ hu => hu) (fun ho => by cases ho)
      rintro rfl
      exact h.ib_ne hcall hu
  | drop s =>
    simp only [step] at hstep
    split_ifs at hstep with hlt
    obtain rfl := Option.some.inj hstep
    refine h.put le_rfl hlt (h.sessions s).disconnected ?_ (fun u _ hu => hu)
      (fun _ hc => by cases hc)
    intro u hu
    by_cases hus : u = s
    · subst hus
      exact Or.inl ⟨rfl, h.current u hu⟩
    · exact Or.inr ⟨hus, hu⟩
  | disconnect =>
    simp only [step] at hstep
    cases hib : st.ib with
    | none =>
      simp only [hib] at hstep
      exact Option.some.inj hstep ▸ h
    | some s =>
      simp only [hib] at hstep
      obtain rfl := Option.some.inj hstep
      have hlt : s < st.count := by
        by_contra hle
        have hnone := (h.fresh s (not_lt.mp hle)).2
        rw [h.current s hib] at hnone
        cases hnone
      refine h.put le_rfl hlt (h.sessions s).disconnected (fun u hu => by cases hu) ?_
        (fun _ hc => by cases hc)
      intro u hne hu
      right
      rcases hu with hu | hu
      · exact absurd (Option.some.inj (hib.symm.trans hu)).symm hne
      · exact hu

theorem reachable_inv (h : LabelledRun.Reaches (step cfg) initial st) : Inv cfg st :=
  h.invariant (Inv cfg) (fun _ _ _ hi hstep => step_inv hi hstep) (inv_initial cfg)

/-! ### What the calls guarantee -/

/-- Every read goes to a session that is connected, that a `connect` call handed over, and
whose managed accounts contain the expected one. -/
theorem reads_verified (h : LabelledRun.Reaches (step cfg) initial st)
    (hread : st.requireConnected = .ok s) :
    (st.sessions s).isConnected = true ∧ st.outcome s = some (.ok ()) ∧
      cfg.expectedAccountId ∈ (st.sessions s).managed := by
  have hinv := reachable_inv h
  unfold State.requireConnected at hread
  cases hib : st.ib with
  | none => simp [hib] at hread
  | some u =>
    simp only [hib] at hread
    split_ifs at hread with hconn
    obtain rfl := Except.ok.inj hread
    have hok := hinv.current u hib
    exact ⟨hconn, hok, (hinv.sessions u).verified hok⟩

/-- One attempt fails, the next one reaches the account that is expected. -/
def secondAttempt : List Label :=
  [.connect, .attemptFails 0 "ConnectionRefusedError()" false, .wake 0,
    .attemptSucceeds 0 ["DU1234567"]]

def paper : Config := ⟨"DU1234567", 3, 1⟩

def connected : State := (LabelledRun.exec (step paper) initial secondAttempt).getD initial

/-- A `connect` call that gives up has made all its attempts and paused after each of them,
the last one included: `retry_backoff * (2 ** retry_max - 1)` in all. -/
theorem gaveUp_slept (h : LabelledRun.Reaches (step cfg) initial st) {n : ℕ}
    {e : Option String} (hout : st.outcome s = some (.error (.connectFailed n e))) :
    n = cfg.retryMax ∧ (st.sessions s).slept.length = n ∧
      (st.sessions s).slept.sum = cfg.retryBackoff * (2 ^ n - 1) := by
  obtain ⟨rfl, hslept⟩ := ((reachable_inv h).sessions s).gaveUp n e hout
  refine ⟨rfl, by simp [hslept, pauses], ?_⟩
  rw [hslept, pauses]
  generalize cfg.retryMax = n
  induction n with
  | zero => simp
  | succ n ih =>
    rw [List.range_succ, List.map_append, List.sum_append, ih, List.map_singleton,
      List.sum_singleton]
    ring

/-- Two attempts, with a pause after each. -/
def impatient : Config := ⟨"DU1234567", 2, 3⟩

def bothAttempts : List Label :=
  [.connect, .attemptFails 0 "TimeoutError()" false, .wake 0,
    .attemptFails 0 "ConnectionRefusedError()" false, .wake 0]

def failed : State := (LabelledRun.exec (step impatient) initial bothAttempts).getD initial

theorem gaveUp_slept_impatient : 2 = impatient.retryMax ∧ (failed.sessions 0).slept.length = 2 ∧
    (failed.sessions 0).slept.sum = impatient.retryBackoff * (2 ^ 2 - 1) :=
  gaveUp_slept (e := some "ConnectionRefusedError()") ⟨bothAttempts, rfl⟩ rfl

/-- After `disconnect` the sessions that are still open, of those that calls handed over, are
those whose place another call took while they were open. -/
theorem disconnect_leaves_open_iff (h : LabelledRun.Reaches (step cfg) initial st)
    (hstep : step cfg st .disconnect = some st') (hs : st'.outcome s = some (.ok ())) :
    (st'.sessions s).isConnected = true ↔
      st.ib ≠ some s ∧ s ∈ st.replaced ∧ (st.sessions s).isConnected = true := by
  have hinv := reachable_inv h
  simp only [step] at hstep
  cases hib : st.ib with
  | none =>
    simp only [hib] at hstep
    obtain rfl := Option.some.inj hstep
    constructor
    · intro hc
      have hplace := hinv.handedOver s hs hc
      rw [hib] at hplace
      exact ⟨by simp, hplace.resolve_left (by simp), hc⟩
    · exact fun hc => hc.2.2
  | some u =>
    simp only [hib] at hstep
    obtain rfl := Option.some.inj hstep
    by_cases hsu : s = u
    · subst hsu
      simp [State.put]
    · simp only [State.put, Function.update_of_ne hsu] at hs ⊢
      constructor
      · intro hc
        have hne : st.ib ≠ some s := by
          rw [hib]
          exact fun heq => hsu (Option.some.inj heq).symm
        have hplace := (hinv.handedOver s hs hc).resolve_left hne
        exact ⟨hib ▸ hne, hplace, hc⟩
      · exact fun hc => hc.2.2

/-- A `connect` call begins only while no other one runs, and while the provider has no session
that is connected: while `_require_connected` raises. -/
def ConnectsAlone (st : State) (a : Label) : Prop :=
  a = .connect → (∀ s, st.ib = some s → (st.sessions s).isConnected = false) ∧
    ∀ s, st.calls s = none

/-- While they do, a running call is alone, the current session is closed meanwhile, and no
session is open whose place another one took. -/
structure AloneInv (st : State) : Prop where
  handedOver : ∀ s ∈ st.replaced, st.outcome s = some (.ok ())
  closed : ∀ s ∈ st.replaced, (st.sessions s).isConnected = false
  alone : ∀ s phase, st.calls s = some phase → (∀ u, u ≠ s → st.calls u = none) ∧
    ∀ u, u ≠ s → st.ib = some u → (st.sessions u).isConnected = false

theorem AloneInv.put (h : AloneInv st) {count : ℕ} {session : Session} {call : Option Phase}
    {outcome : Option (Except IbConnectionError Unit)}
    (hopen : session.isConnected = true → st.ib ≠ some s ∧ s ∉ st.replaced)
    (houtcome : s ∈ st.replaced → outcome = some (.ok ()))
    (hcall : call.isSome = true → (∀ u, u ≠ s → st.calls u = none) ∧
      ∀ u, u ≠ s → st.ib = some u → (st.sessions u).isConnected = false) :
    AloneInv { st.put s session call outcome with count } where
  handedOver u hu := by
    by_cases hus : u = s
    · subst hus
      simpa only [State.put, Function.update_self] using houtcome hu
    · simpa only [State.put, Function.update_of_ne hus] using h.handedOver u hu
  closed u hu := by
    by_cases hus : u = s
    · subst hus
      simp only [State.put, Function.update_self]
      exact Bool.eq_false_iff.mpr fun hc => (hopen hc).2 hu
    · simpa only [State.put, Function.update_of_ne hus] using h.closed u hu
  alone u phase hu := by
    by_cases hus : u = s
    · subst hus
      simp only [State.put, Function.update_self] at hu
      obtain ⟨hother, hib⟩ := hcall (by rw [hu]; rfl)
      exact ⟨fun v hv => by simpa only [State.put, Function.update_of_ne hv] using hother v hv,
        fun v hv => by simpa only [State.put, Function.update_of_ne hv] using hib v hv⟩
    · simp only [State.put, Function.update_of_ne hus] at hu
      obtain ⟨hother, hib⟩ := h.alone u phase hu
      constructor
      · intro v hv
        by_cases hvs : v = s
        · subst hvs
          cases hc : call with
          | none => simp [State.put]
          | some p =>
            have hnone := (hcall (by rw [hc]; rfl)).1 u hus
            rw [hu] at hnone
            cases hnone
        · simpa only [State.put, Function.update_of_ne hvs] using hother v hv
      · intro v hv hvib
        by_cases hvs : v = s
        · subst hvs
          simp only [State.put, Function.update_self]
          exact Bool.eq_false_iff.mpr fun hc => (hopen hc).1 hvib
        · simpa only [State.put, Function.update_of_ne hvs] using hib v hv hvib

/-- A session whose call still runs has neither been current nor lost its place. -/
theorem AloneInv.running (h : AloneInv st) (hinv : Inv cfg st) {phase : Phase}
    (hcall : st.calls s = some phase) : st.ib ≠ some s ∧ s ∉ st.replaced := by
  refine ⟨hinv.ib_ne hcall, fun hs => ?_⟩
  have hnone := (hinv.sessions s).running phase hcall
  rw [h.handedOver s hs] at hnone
  cases hnone

theorem step_aloneInv (hinv : Inv cfg st) (h : AloneInv st) {a : Label}
    (halone : ConnectsAlone st a) (hstep : step cfg st a = some st') : AloneInv st' := by
  cases a with
  | connect =>
    obtain ⟨hclosed, hnone⟩ := halone rfl
    have hnew : st.count ∉ st.replaced := by
      intro hmem
      have hfresh := (hinv.fresh st.count le_rfl).2
      rw [h.handedOver _ hmem] at hfresh
      cases hfresh
    simp only [step] at hstep
    split_ifs at hstep
    · obtain rfl := Option.some.inj hstep
      exact h.put nofun (fun hs => absurd hs hnew) nofun
    · obtain rfl := Option.some.inj hstep
      exact h.put nofun (fun hs => absurd hs hnew) fun _ =>
        ⟨fun u _ => hnone u, fun u _ => hclosed u⟩
  | attemptFails s error staysOpen =>
    simp only [step] at hstep
    split at hstep
    · rename_i attempt e hcall
      obtain rfl := Option.some.inj hstep
      have hrunning := h.running hinv hcall
      exact h.put (fun _ => hrunning) (fun hs => absurd hs hrunning.2) fun _ => h.alone s _ hcall
    · cases hstep
  | attemptSucceeds s managed =>
    simp only [step] at hstep
    split at hstep
    · rename_i attempt e hcall
      obtain ⟨hib, hnot⟩ := h.running hinv hcall
      obtain ⟨hother, hclosed⟩ := h.alone s _ hcall
      split_ifs at hstep
      · obtain rfl := Option.some.inj hstep
        -- the session that loses its place to the new one was closed when the call began
        have hreplaced : ∀ u ∈ st.ib.toList ++ st.replaced, u ≠ s ∧
            st.outcome u = some (.ok ()) ∧ (st.sessions u).isConnected = false := by
          intro u hu
          rcases List.mem_append.mp hu with hu | hu
          · have hu' : st.ib = some u := by simpa using hu
            have hus : u ≠ s := fun heq => hib (heq ▸ hu')
            exact ⟨hus, hinv.current u hu', hclosed u hus hu'⟩
          · exact ⟨fun heq => hnot (heq ▸ hu), h.handedOver u hu, h.closed u hu⟩
        refine ⟨fun u hu => ?_, fun u hu => ?_, fun u phase hu => ?_⟩
        · obtain ⟨hus, ho, -⟩ := hreplaced u hu
          simpa only [State.assign, State.put, Function.update_of_ne hus] using ho
        · obtain ⟨hus, -, hc⟩ := hreplaced u hu
          simpa only [State.assign, State.put, Function.update_of_ne hus] using hc
        · by_cases hus : u = s
          · subst hus
            simp [State.assign, State.put] at hu
          · simp only [State.assign, State.put, Function.update_of_ne hus, hother u hus] at hu
            cases hu
      · obtain rfl := Option.some.inj hstep
        exact h.put nofun (fun hs => absurd hs hnot) nofun
    · cases hstep
  | wake s =>
    simp only [step] at hstep
    split at hstep
    · rename_i attempt e hcall
      have hrunning := h.running hinv hcall
      split_ifs at hstep
      · obtain rfl := Option.some.inj hstep
        exact h.put (fun _ => hrunning) (fun hs => absurd hs hrunning.2) fun _ => h.alone s _ hcall
      · obtain rfl := Option.some.inj hstep
        exact h.put (fun _ => hrunning) (fun hs => absurd hs hrunning.2) nofun
    · cases hstep
  | cancel s =>
    simp only [step] at hstep
    split at hstep
    · rename_i phase hcall
      have hrunning := h.running hinv hcall
      obtain rfl := Option.some.inj hstep
      exact h.put (fun _ => hrunning) (fun hs => absurd hs hrunning.2) nofun
    · cases hstep
  | drop s =>
    simp only [step] at hstep
    split_ifs at hstep
    obtain rfl := Option.some.inj hstep
    refine h.put nofun (h.handedOver s) fun hc => ?_
    obtain ⟨phase, hphase⟩ := Option.isSome_iff_exists.mp hc
    exact h.alone s phase hphase
  | disconnect =>
    simp only [step] at hstep
    split at hstep
    · exact Option.some.inj hstep ▸ h
    · rename_i s hib
      obtain rfl := Option.some.inj hstep
      have hput : AloneInv { st.put s { st.sessions s with isConnected := false } (st.calls s)
          (st.outcome s) with count := st.count } := by
        refine h.put nofun (h.handedOver s) fun hc => ?_
        obtain ⟨phase, hphase⟩ := Option.isSome_iff_exists.mp hc
        exact h.alone s phase hphase
      exact ⟨hput.handedOver, hput.closed, fun u phase hu =>
        ⟨(hput.alone u phase hu).1, fun v _ hv => by cases hv⟩⟩

/-- In any interleaving, what a `disconnect` leaves open of the sessions that calls handed over
are those whose place another call took while they were open. Where each `connect` call begins
without a connected session and while no other one runs, it leaves none open. -/
theorem disconnect_closes {labels : List Label}
    (hrun : LabelledRun.exec (step cfg) initial labels = some st)
    (hstep : step cfg st .disconnect = some st') (hs : st'.outcome s = some (.ok ())) :
    ((st'.sessions s).isConnected = true ↔
      st.ib ≠ some s ∧ s ∈ st.replaced ∧ (st.sessions s).isConnected = true) ∧
    (LabelledRun.Guarded (step cfg) ConnectsAlone initial labels →
      (st'.sessions s).isConnected = false) := by
  have hleft := disconnect_leaves_open_iff ⟨labels, hrun⟩ hstep hs
  refine ⟨hleft, fun halone => ?_⟩
  have hinv := (LabelledRun.guarded_invariant (fun st => Inv cfg st ∧ AloneInv st)
    (fun _ _ _ hi hc hv => ⟨step_inv hi.1 hv, step_aloneInv hi.1 hi.2 hc hv⟩)
    ⟨inv_initial cfg, nofun, nofun, nofun⟩ halone hrun).2
  rw [Bool.eq_false_iff, ne_eq, hleft]
  rintro ⟨-, hmem, hopen⟩
  rw [hinv.closed s hmem] at hopen
  cases hopen

/-- The gateway drops the session, and the provider connects again. -/
def reconnecting : List Label :=
  secondAttempt ++ [.drop 0, .connect, .attemptSucceeds 1 ["DU1234567"]]

def reconnected : State := (LabelledRun.exec (step paper) initial reconnecting).getD initial

def closed : State := (step paper reconnected .disconnect).getD initial

theorem disconnect_closes_reconnected : reconnected.replaced = [0] ∧
    (closed.sessions 0).isConnected = false ∧ (closed.sessions 1).isConnected = false := by
  have halone : LabelledRun.Guarded (step paper) ConnectsAlone initial reconnecting := by
    simp [LabelledRun.Guarded, reconnecting, secondAttempt, ConnectsAlone, step, paper, initial,
      State.put, State.assign]
  have hrun : LabelledRun.exec (step paper) initial reconnecting = some reconnected := rfl
  have hstep : step paper reconnected .disconnect = some closed := rfl
  have hcloses (s : ℕ) (hs : closed.outcome s = some (.ok ())) :
      (closed.sessions s).isConnected = false := (disconnect_closes hrun hstep hs).2 halone
  exact ⟨rfl, hcloses 0 rfl, hcloses 1 rfl⟩

end XSocialTrader.Ib
