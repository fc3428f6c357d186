import XSocialTrader.Lib.Reconcile
import Mathlib.Data.String.Basic

/-! `sync_watched_accounts`: the monitor list of twitterapi.io is driven towards the active rows
of `watched_accounts`, one client call at a time. Any call may raise, which ends the sync there
and leaves the list half way; a later sync starts from that list. -/
namespace XSocialTrader
open Reconcile

/-- A row of `watched_accounts`. -/
structure WatchedAccount (υ : Type) where
  username : υ
  active : Bool

structure WatchedAccountsReport (υ : Type) where
  added : List υ
  removed : List υ
  unchanged : List υ

/-- The monitor list that the service keeps: the usernames a list call returns, repetitions
included, and what an add or a remove makes of it. -/
structure MonitorList (σ υ : Type) where
  users : σ → List υ
  add : υ → σ → σ
  remove : υ → σ → σ
  mem_add : ∀ u s v, v ∈ users (add u s) ↔ v = u ∨ v ∈ users s
  mem_remove : ∀ u s v, v ∈ users (remove u s) ↔ v ∈ users s ∧ v ≠ u

/-- How a client call ends. One that raises may have reached the service all the same. -/
inductive CallEnd (ε : Type) where
  | ok
  | raises (e : ε) (applied : Bool)

/-- How the calls of one sync end. No username is added or removed twice in one sync. -/
structure ClientCalls (ε υ : Type) where
  listMonitoredUsers : Except ε Unit
  addUserToMonitor : υ → CallEnd ε
  removeUserFromMonitor : υ → CallEnd ε

/-- A loop of client calls: the list after each of them and at the end, and what was raised. -/
structure Progress (σ ε : Type) where
  remote : σ
  passed : List σ
  raised : Option ε

variable {σ ε υ : Type}

/-- `for username in usernames: await call(username)`. -/
def callEach (effect : υ → σ → σ) (ends : υ → CallEnd ε) : List υ → σ → Progress σ ε
  | [], r => { remote := r, passed := [], raised := none }
  | u :: us, r => match ends u with
    | .ok =>
      let rest := callEach effect ends us (effect u r)
      { rest with passed := effect u r :: rest.passed }
    | .raises e applied =>
      let r' := if applied then effect u r else r
      { remote := r', passed := [r'], raised := some e }

/-- `select(WatchedAccount.username).where(active)`. -/
def dbActive (rows : List (WatchedAccount υ)) : List υ :=
  (rows.filter WatchedAccount.active).map WatchedAccount.username

section Loops

variable {api : MonitorList σ υ} {effect : υ → σ → σ} {ends : υ → CallEnd ε} {R : σ → σ → Prop}

/-- A loop walks along any preorder that each of its effects respects, whichever call stops it. -/
theorem callEach_path (hrefl : ∀ s, R s s) (htrans : ∀ a b c, R a b → R b c → R a c)
    {us : List υ} (heffect : ∀ u ∈ us, ∀ s, R s (effect u s)) (r : σ) :
    Path R r (callEach effect ends us r).passed (callEach effect ends us r).remote := by
  induction us generalizing r with
  | nil => exact Path.nil hrefl
  | cons u us ih =>
    have hu : R r (effect u r) := heffect u List.mem_cons_self r
    cases he : ends u with
    | ok =>
      simp only [callEach, he]
      have hrest := ih (fun v hv => heffect v (List.mem_cons_of_mem u hv)) (effect u r)
      exact Path.append htrans (Path.single hrefl hu) hrest
    | raises e applied =>
      simp only [callEach, he]
      refine Path.single hrefl ?_
      cases applied with
      | true => exact hu
      | false => exact hrefl r

variable (effect) in
/-- A loop that raises nothing has applied the effect of every username, and it raises nothing
exactly if no call does. -/
theorem callEach_completed {us : List υ} (r : σ) :
    (callEach effect ends us r).raised = none ↔ ∀ u ∈ us, ends u = .ok := by
  induction us generalizing r with
  | nil => simp [callEach]
  | cons u us ih =>
    cases he : ends u with
    | ok => simp [callEach, he, ih]
    | raises e applied => simp [callEach, he]

theorem callEach_remote {us : List υ} {r : σ} (h : ∀ u ∈ us, ends u = .ok) :
    (callEach effect ends us r).remote = us.foldl (fun s u => effect u s) r := by
  induction us generalizing r with
  | nil => rfl
  | cons u us ih =>
    have hu : ends u = .ok := h u List.mem_cons_self
    simp only [callEach, hu, List.foldl_cons]
    exact ih fun v hv => h v (List.mem_cons_of_mem u hv)

theorem mem_users_foldl_add {us : List υ} {r : σ} {v : υ} :
    v ∈ api.users (us.foldl (fun s u => api.add u s) r) ↔ v ∈ us ∨ v ∈ api.users r := by
  induction us generalizing r with
  | nil => simp
  | cons u us ih =>
    rw [List.foldl_cons, ih, api.mem_add, List.mem_cons]
    tauto

theorem mem_users_foldl_remove {us : List υ} {r : σ} {v : υ} :
    v ∈ api.users (us.foldl (fun s u => api.remove u s) r) ↔ v ∈ api.users r ∧ v ∉ us := by
  induction us generalizing r with
  | nil => simp
  | cons u us ih =>
    rw [List.foldl_cons, ih, api.mem_remove, List.mem_cons]
    tauto

end Loops

section Aligning

variable {api : MonitorList σ υ} {rows : List (WatchedAccount υ)}

variable (api rows) in
/-- From one list to a later one, no active account is dropped and no other one is added. -/
def Aligning (r s : σ) : Prop :=
  Towards {u | u ∈ dbActive rows} {u | u ∈ api.users r} {u | u ∈ api.users s}

theorem Aligning.refl (s : σ) : Aligning api rows s s := Towards.refl

theorem Aligning.trans (s t u : σ) (h : Aligning api rows s t) (h' : Aligning api rows t u) :
    Aligning api rows s u := Towards.trans h h'

variable (api) in
theorem aligning_add {u : υ} (hu : u ∈ dbActive rows) (s : σ) :
    Aligning api rows s (api.add u s) := by
  have hset : {v | v ∈ api.users (api.add u s)} = insert u {v | v ∈ api.users s} := by
    ext v
    exact api.mem_add u s v
  rw [Aligning, hset]
  exact towards_insert hu

variable (api) in
theorem aligning_remove {u : υ} (hu : u ∉ dbActive rows) (s : σ) :
    Aligning api rows s (api.remove u s) := by
  have hset : {v | v ∈ api.users (api.remove u s)} = {v | v ∈ api.users s} \ {u} := by
    ext v
    exact api.mem_remove u s v
  rw [Aligning, hset]
  exact towards_remove hu

end Aligning

structure SyncRun (σ ε υ : Type) where
  remote : σ
  passed : List σ
  outcome : Except ε (WatchedAccountsReport υ)

variable [LinearOrder υ] (api : MonitorList σ υ) (rows : List (WatchedAccount υ))

def syncWatchedAccounts (calls : ClientCalls ε υ) (r : σ) : SyncRun σ ε υ :=
  match calls.listMonitoredUsers with
  | .error e => { remote := r, passed := [], outcome := .error e }
  | .ok () =>
    -- the two sets are only ever asked for members, and each difference is sorted
    let toAdd := missing (dbActive rows) (api.users r)
    let toRemove := surplus (dbActive rows) (api.users r)
    let unchanged := common (dbActive rows) (api.users r)
    let adds := callEach api.add calls.addUserToMonitor toAdd r
    match adds.raised with
    | some e => { remote := adds.remote, passed := adds.passed, outcome := .error e }
    | none =>
      let removes := callEach api.remove calls.removeUserFromMonitor toRemove adds.remote
      { remote := removes.remote
        passed := adds.passed ++ removes.passed
        outcome := match removes.raised with
          | some e => .error e
          | none => .ok { added := toAdd, removed := toRemove, unchanged := unchanged } }

/-- One sync after another, each starting from the list the one before has left. -/
def syncRuns : List (ClientCalls ε υ) → σ → List (SyncRun σ ε υ)
  | [], _ => []
  | calls :: later, r =>
    let run := syncWatchedAccounts api rows calls r
    run :: syncRuns later run.remote

/-- The list that a sequence of syncs leaves. -/
def remoteAfter (syncs : List (ClientCalls ε υ)) (r : σ) : σ :=
  syncs.foldl (fun r calls => (syncWatchedAccounts api rows calls r).remote) r

section Sync

variable {api rows} {calls : ClientCalls ε υ} {r : σ}

variable (api rows calls r) in
/-- One sync, stopped anywhere or not at all. -/
theorem syncWatchedAccounts_path :
    Path (Aligning api rows) r (syncWatchedAccounts api rows calls r).passed
      (syncWatchedAccounts api rows calls r).remote := by
  have hadds (ends : υ → CallEnd ε) : Path (Aligning api rows) r
      (callEach api.add ends (missing (dbActive rows) (api.users r)) r).passed
      (callEach api.add ends (missing (dbActive rows) (api.users r)) r).remote :=
    callEach_path Aligning.refl Aligning.trans
      (fun u hu => aligning_add api (mem_missing.mp hu).1) r
  unfold syncWatchedAccounts
  cases calls.listMonitoredUsers with
  | error e => exact Path.nil Aligning.refl
  | ok _ =>
    dsimp only
    cases (callEach api.add calls.addUserToMonitor
        (missing (dbActive rows) (api.users r)) r).raised with
    | some e => exact hadds _
    | none =>
      refine Path.append Aligning.trans (hadds _) ?_
      exact callEach_path Aligning.refl Aligning.trans
        (fun u hu => aligning_remove api (mem_surplus.mp hu).2) _

/-- A sync completes exactly if the list call and every call of its plan return. -/
theorem syncWatchedAccounts_ok_iff {report : WatchedAccountsReport υ} :
    (syncWatchedAccounts api rows calls r).outcome = .ok report ↔
      calls.listMonitoredUsers = .ok () ∧
      (∀ u ∈ missing (dbActive rows) (api.users r), calls.addUserToMonitor u = .ok) ∧
      (∀ u ∈ surplus (dbActive rows) (api.users r), calls.removeUserFromMonitor u = .ok) ∧
      report = { added := missing (dbActive rows) (api.users r)
                 removed := surplus (dbActive rows) (api.users r)
                 unchanged := common (dbActive rows) (api.users r) } := by
  unfold syncWatchedAccounts
  cases calls.listMonitoredUsers with
  | error e => simp
  | ok _ =>
    simp only [true_and]
    rw [← callEach_completed api.add r]
    cases (callEach api.add calls.addUserToMonitor
        (missing (dbActive rows) (api.users r)) r).raised with
    | some e => simp
    | none =>
      simp only [true_and]
      rw [← callEach_completed api.remove]
      cases (callEach api.remove calls.removeUserFromMonitor
          (surplus (dbActive rows) (api.users r)) _).raised with
      | some e => simp
      | none => simp [eq_comm]

/-- What a complete sync leaves is the active set. -/
theorem mem_users_of_ok {report : WatchedAccountsReport υ}
    (h : (syncWatchedAccounts api rows calls r).outcome = .ok report) (v : υ) :
    v ∈ api.users (syncWatchedAccounts api rows calls r).remote ↔ v ∈ dbActive rows := by
  obtain ⟨hlist, hadds, hremoves, -⟩ := syncWatchedAccounts_ok_iff.mp h
  have hraised := (callEach_completed api.add r).mpr hadds
  simp only [syncWatchedAccounts, hlist, hraised]
  rw [callEach_remote hremoves, mem_users_foldl_remove, callEach_remote hadds,
    mem_users_foldl_add, mem_missing, mem_surplus]
  tauto

variable (api rows) in
/-- Any sequence of syncs, however each of them ends. -/
theorem syncRuns_path (syncs : List (ClientCalls ε υ)) (r : σ) :
    Path (Aligning api rows) r ((syncRuns api rows syncs r).flatMap SyncRun.passed)
      (remoteAfter api rows syncs r) := by
  induction syncs generalizing r with
  | nil => exact Path.nil Aligning.refl
  | cons calls later ih =>
    exact Path.append Aligning.trans (syncWatchedAccounts_path api rows calls r) (ih _)

/-- A sync that finds the active set calls nothing but the list. -/
theorem syncWatchedAccounts_of_aligned (h : ∀ u, u ∈ api.users r ↔ u ∈ dbActive rows) :
    syncWatchedAccounts api rows calls r = {
      remote := r
      passed := []
      outcome := calls.listMonitoredUsers.map fun _ =>
        { added := [], removed := [], unchanged := sortedSet (dbActive rows) } } := by
  obtain ⟨hmissing, hsurplus, hcommon⟩ := plan_of_same_members h
  unfold syncWatchedAccounts
  rw [hmissing, hsurplus, hcommon]
  cases calls.listMonitoredUsers <;> rfl

theorem remoteAfter_of_aligned (h : ∀ u, u ∈ api.users r ↔ u ∈ dbActive rows)
    (later : List (ClientCalls ε υ)) : remoteAfter api rows later r = r := by
  induction later with
  | nil => rfl
  | cons calls later ih =>
    rw [remoteAfter, List.foldl_cons, syncWatchedAccounts_of_aligned h]
    exact ih

end Sync

/-- Through any sequence of syncs, each stopped anywhere or not at all, no active account that
is monitored is dropped and no other account is added. A sync that completes leaves the active
set and reports a partition of it and of the list it found; from then on a sync changes nothing
and reports nothing added or removed. -/
theorem sync_watched_accounts_converges (api : MonitorList σ υ) (rows : List (WatchedAccount υ))
    (r : σ) (syncs later : List (ClientCalls ε υ)) (calls next : ClientCalls ε υ) :
    let found := remoteAfter api rows syncs r
    let run := syncWatchedAccounts api rows calls found
    (r :: (syncRuns api rows (syncs ++ calls :: later) r).flatMap SyncRun.passed).Pairwise
      (fun s t => (∀ u ∈ dbActive rows, u ∈ api.users s → u ∈ api.users t) ∧
        ∀ u ∉ dbActive rows, u ∈ api.users t → u ∈ api.users s) ∧
    ∀ report, run.outcome = .ok report →
      (∀ u, u ∈ api.users run.remote ↔ u ∈ dbActive rows) ∧
      (report.added ++ report.removed ++ report.unchanged).Nodup ∧
      (∀ u, u ∈ report.added ++ report.removed ++ report.unchanged ↔
        u ∈ dbActive rows ∨ u ∈ api.users found) ∧
      (∀ u ∈ report.added, u ∉ api.users found) ∧ (∀ u ∈ report.removed, u ∉ dbActive rows) ∧
      (syncWatchedAccounts api rows next (remoteAfter api rows later run.remote)).outcome =
        next.listMonitoredUsers.map fun _ =>
          { added := [], removed := [], unchanged := sortedSet (dbActive rows) } := by
  intro found run
  refine ⟨(syncRuns_path api rows (syncs ++ calls :: later) r).ordered.imp ?_, ?_⟩
  · rintro s t ⟨hkept, hgained⟩
    refine ⟨fun u hD hs => hkept ⟨hs, hD⟩, fun u hD ht => ?_⟩
    exact (hgained ht).resolve_right hD
  · intro report hok
    have haligned := mem_users_of_ok hok
    obtain ⟨-, -, -, rfl⟩ := syncWatchedAccounts_ok_iff.mp hok
    dsimp only
    refine ⟨haligned, plan_nodup _ _, fun u => ?_, fun u hu => ?_, fun u hu => ?_, ?_⟩
    · exact mem_plan
    · exact (mem_missing.mp hu).2
    · exact (mem_surplus.mp hu).2
    · rw [remoteAfter_of_aligned haligned, syncWatchedAccounts_of_aligned haligned]

/-- A service that keeps the accounts in the order in which they were added. -/
def listMonitor : MonitorList (List String) String where
  users s := s
  add u s := s ++ [u]
  remove u s := s.filter (· ≠ u)
  mem_add u s v := by simp [or_comm]
  mem_remove u s v := by simp

theorem listMonitor_users (s : List String) : listMonitor.users s = s := rfl

/-- The first sync is stopped by the second account it adds, the next one completes. -/
theorem sync_watched_accounts_converges_interrupted :
    let rows := [⟨"alice", true⟩, ⟨"bob", true⟩, ⟨"carol", false⟩, ⟨"erin", true⟩]
    let stopped : ClientCalls Unit String :=
      ⟨.ok (), fun u => if u = "erin" then .raises () false else .ok, fun _ => .ok⟩
    let complete : ClientCalls Unit String := ⟨.ok (), fun _ => .ok, fun _ => .ok⟩
    let found := remoteAfter listMonitor rows [stopped] ["bob", "dave", "bob"]
    found = ["bob", "dave", "bob", "alice"] ∧
      ∀ u, u ∈ (syncWatchedAccounts listMonitor rows complete found).remote ↔
        u ∈ dbActive rows := by
  intro rows stopped complete found
  have hok : (syncWatchedAccounts listMonitor rows complete found).outcome = .ok _ :=
    syncWatchedAccounts_ok_iff.mpr ⟨rfl, fun _ _ => rfl, fun _ _ => rfl, rfl⟩
  refine ⟨by decide +kernel, ?_⟩
  have hconverges := (sync_watched_accounts_converges listMonitor rows ["bob", "dave", "bob"]
    [stopped] [] complete complete).2 _ hok
  simpa only [listMonitor_users] using hconverges.1

end XSocialTrader
