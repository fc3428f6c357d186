import XSocialTrader.Providers.TwitterApiClient
import XSocialTrader.Services.WatchedAccounts
import Mathlib.Data.List.Lex

/-! `sync_watched_accounts` on the client that retries: an attempt whose answer is lost may have
reached the service, and the next one then reaches it again. What the service lists may be any
JSON, of which the sync takes what a set does. -/
namespace XSocialTrader.TwitterApiIoClient
open Json (Value)
open Reconcile Results

variable {F σ ν : Type}

/-- One attempt of a call: what comes back, and whether the service has carried it out. A name that
does not encode comes back as the exception that it raises. -/
structure Exchange (F : Type) where
  reply : Reply F
  applied : Bool

/-- `sorted` on numbers, which a NaN among them may leave in any order. -/
structure NumberSort (F : Type) where
  sort : List (PyValue F) → List (PyValue F)
  perm : ∀ names, (sort names).Perm names

/-- The exchanges of one sync, by the name that they are about. -/
structure SyncExchanges (F : Type) where
  list : ℕ → Reply F
  numbers : NumberSort F
  add : Json.Text → ℕ → Exchange F
  remove : PyValue F → ℕ → Exchange F

/-- What one attempt makes of the service. -/
def attempt (effect : σ → σ) (exchanges : ℕ → Exchange F) (s : σ) (k : ℕ) : σ :=
  if (exchanges k).applied then effect s else s

/-- A call whose request is `c`, with the state of the service after each of its attempts. -/
def post (c : Endpoint) (effect : σ → σ) (exchanges : ℕ → Exchange F) (s : σ) :
    Progress σ PyExc :=
  let run := request c fun k => (exchanges k).reply
  let attempts := List.range run.tries
  { remote := attempts.foldl (attempt effect exchanges) s
    passed := (attempts.scanl (attempt effect exchanges) s).tail
    raised := match run.result with
      | .ok _ => none
      | .error e => some e }

/-- `for username in usernames: await call(username)`, attempt by attempt. -/
def postEach (c : Endpoint) (effect : ν → σ → σ) (exchanges : ν → ℕ → Exchange F) :
    List ν → σ → Progress σ PyExc
  | [], s => { remote := s, passed := [], raised := none }
  | u :: us, s =>
    let call := post c (effect u) (exchanges u) s
    match call.raised with
    | some _ => call
    | none =>
      let rest := postEach c effect exchanges us call.remote
      { rest with passed := call.passed ++ rest.passed }

section Calls

variable {c : Endpoint} {api : MonitorList σ Json.Text} {rows : List (WatchedAccount Json.Text)}
  {effect : σ → σ} {effects : ν → σ → σ} {exchanges : ℕ → Exchange F}
  {exchangesOf : ν → ℕ → Exchange F} {names : List ν} {textExchanges : Json.Text → ℕ → Exchange F}
  {us : List Json.Text} {u v : Json.Text} {R : σ → σ → Prop} {s : σ}

/-- A service that answers with a status below 400 has carried the request out. -/
def Acknowledged (exchanges : ℕ → Exchange F) : Prop :=
  ∀ k r, (exchanges k).reply.accepted? = some r → (exchanges k).applied = true

theorem post_path (hrefl : ∀ s, R s s) (htrans : ∀ a b c, R a b → R b c → R a c)
    (heffect : ∀ s, R s (effect s)) (s : σ) :
    Path R s (post c effect exchanges s).passed (post c effect exchanges s).remote := by
  refine Path.foldl htrans hrefl (fun s k => ?_) _ s
  unfold attempt
  split
  · exact heffect s
  · exact hrefl s

theorem post_completed :
    (post c effect exchanges s).raised = none ↔ Answered fun k => (exchanges k).reply := by
  rw [← request_answered (c := c)]
  simp only [post]
  cases (request c fun k => (exchanges k).reply).result <;> simp

/-- An answered call has reached an acknowledging service at least once. -/
theorem post_applied (hack : Acknowledged exchanges)
    (h : Answered fun k => (exchanges k).reply) :
    ∃ k ∈ List.range (request c fun k => (exchanges k).reply).tries,
      (exchanges k).applied = true := by
  obtain ⟨r, hok⟩ := (request_answered (c := c)).mpr h
  obtain ⟨j, hj, haccepted⟩ := request_ok_attempt hok
  exact ⟨j, List.mem_range.mpr hj, hack j r haccepted⟩

theorem mem_users_attempts_add {ks : List ℕ} :
    v ∈ api.users (ks.foldl (attempt (api.add u) exchanges) s) ↔
      (v = u ∧ ∃ k ∈ ks, (exchanges k).applied = true) ∨ v ∈ api.users s := by
  induction ks generalizing s with
  | nil => simp
  | cons k ks ih =>
    rw [List.foldl_cons, ih, attempt]
    cases hk : (exchanges k).applied with
    | true =>
      simp only [if_true, api.mem_add, List.mem_cons, exists_eq_or_imp, hk, true_or, and_true]
      tauto
    | false => simp [hk]

theorem mem_users_attempts_remove {ks : List ℕ} :
    v ∈ api.users (ks.foldl (attempt (api.remove u) exchanges) s) ↔
      v ∈ api.users s ∧ ¬ (v = u ∧ ∃ k ∈ ks, (exchanges k).applied = true) := by
  induction ks generalizing s with
  | nil => simp
  | cons k ks ih =>
    rw [List.foldl_cons, ih, attempt]
    cases hk : (exchanges k).applied with
    | true =>
      simp only [if_true, api.mem_remove, List.mem_cons, exists_eq_or_imp, hk, true_or, and_true]
      tauto
    | false => simp [hk]

theorem postEach_path (hrefl : ∀ s, R s s) (htrans : ∀ a b c, R a b → R b c → R a c)
    (heffect : ∀ u ∈ names, ∀ s, R s (effects u s)) (s : σ) :
    Path R s (postEach c effects exchangesOf names s).passed
      (postEach c effects exchangesOf names s).remote := by
  induction names generalizing s with
  | nil => exact Path.nil hrefl
  | cons u names ih =>
    have hcall : Path R s (post c (effects u) (exchangesOf u) s).passed
        (post c (effects u) (exchangesOf u) s).remote :=
      post_path hrefl htrans (heffect u List.mem_cons_self) s
    simp only [postEach]
    cases (post c (effects u) (exchangesOf u) s).raised with
    | some e => exact hcall
    | none => exact Path.append htrans hcall (ih (fun v hv => heffect v (.tail u hv)) _)

variable (c effects s) in
theorem postEach_completed : (postEach c effects exchangesOf names s).raised = none ↔
    ∀ u ∈ names, Answered fun k => (exchangesOf u k).reply := by
  induction names generalizing s with
  | nil => simp [postEach]
  | cons u names ih =>
    have hcall : (post c (effects u) (exchangesOf u) s).raised = none ↔
        Answered fun k => (exchangesOf u k).reply := post_completed
    simp only [postEach, List.forall_mem_cons, ← hcall]
    cases hraised : (post c (effects u) (exchangesOf u) s).raised with
    | some e => simp [hraised]
    | none => simp [ih]

theorem postEach_map {ι : Type} (f : ι → ν) (is : List ι) (s : σ) :
    postEach c effects exchangesOf (is.map f) s =
      postEach c (fun i => effects (f i)) (fun i => exchangesOf (f i)) is s := by
  induction is generalizing s with
  | nil => rfl
  | cons i is ih => simp only [List.map_cons, postEach, ih]

theorem mem_users_postEach_add (hack : ∀ u ∈ us, Acknowledged (textExchanges u))
    (h : ∀ u ∈ us, Answered fun k => (textExchanges u k).reply) :
    v ∈ api.users (postEach c api.add textExchanges us s).remote ↔ v ∈ us ∨ v ∈ api.users s := by
  induction us generalizing s with
  | nil => simp [postEach]
  | cons u us ih =>
    obtain ⟨hu, hus⟩ := List.forall_mem_cons.mp h
    obtain ⟨hacku, hackus⟩ := List.forall_mem_cons.mp hack
    have hreached := post_applied (c := c) hacku hu
    simp only [postEach, post_completed.mpr hu]
    rw [ih hackus hus, post, mem_users_attempts_add, and_iff_left hreached, List.mem_cons]
    tauto

theorem mem_users_postEach_remove (hack : ∀ u ∈ us, Acknowledged (textExchanges u))
    (h : ∀ u ∈ us, Answered fun k => (textExchanges u k).reply) :
    v ∈ api.users (postEach c api.remove textExchanges us s).remote ↔
      v ∈ api.users s ∧ v ∉ us := by
  induction us generalizing s with
  | nil => simp [postEach]
  | cons u us ih =>
    obtain ⟨hu, hus⟩ := List.forall_mem_cons.mp h
    obtain ⟨hacku, hackus⟩ := List.forall_mem_cons.mp hack
    have hreached := post_applied (c := c) hacku hu
    simp only [postEach, post_completed.mpr hu]
    rw [ih hackus hus, post, mem_users_attempts_remove, and_iff_left hreached, List.mem_cons]
    tauto

end Calls

section Names

/-- `a == b` for two members of a set. The `NaN` of `json.loads` is one object, so a set that has
it finds it. -/
def sameMember [PyFloat F] : PyValue F → PyValue F → Bool
  | .none, .none => true
  | .text s, .text t => s == t
  | .bool a, .bool b => a == b
  | .int m, .int n => m == n
  | .int n, .bool b | .bool b, .int n => n == PyValue.boolInt b
  | .float x, .float y => PyFloat.eq x y || !PyFloat.eq x x && !PyFloat.eq y y
  | .float x, .int n | .int n, .float x => PyFloat.eqInt x n
  | .float x, .bool b | .bool b, .float x => PyFloat.eqInt x (PyValue.boolInt b)
  | _, _ => false

/-- The member stays out if an equal one is there. -/
def addMember [PyFloat F] (members : List (PyValue F)) (name : PyValue F) : List (PyValue F) :=
  if members.any (sameMember name) then members else members ++ [name]

/-- `set(await client.list_monitored_users())`. A list and an object cannot be hashed. -/
def listedNames [PyFloat F] (rt : Runtime F) (replies : ℕ → Reply F) :
    Except PyExc (List (PyValue F)) := do
  let names := (← listMonitoredUsers rt replies).map ofJson
  if names.all PyValue.isJsonKey then return names.foldl addMember [] else .error .typeError

def textOf : PyValue F → Option Json.Text
  | .text s => some s
  | _ => none

/-- The usernames of the set. -/
def texts (remote : List (PyValue F)) : List Json.Text := remote.filterMap textOf

/-- `sorted(remote - db_active)`. Names of different kinds do not compare. -/
def sortedSurplus (numbers : NumberSort F) (D : List Json.Text) (remote : List (PyValue F)) :
    Except PyExc (List (PyValue F)) :=
  let usernames := (surplus D (texts remote)).map .text
  let others := remote.filter fun name => !name.isStrKey
  if PyValue.keysSortable (usernames ++ others) then .ok (usernames ++ numbers.sort others)
  else .error .typeError

/-- A request to remove a name; one that is no text is no account's. -/
def removeName (api : MonitorList σ Json.Text) : PyValue F → σ → σ
  | .text u, s => api.remove u s
  | _, s => s

variable {numbers : NumberSort F} {D : List Json.Text} {remote toRemove : List (PyValue F)}

/-- A username that is to be removed is none of the desired ones. -/
theorem notMem_of_sortedSurplus (h : sortedSurplus numbers D remote = .ok toRemove)
    {u : Json.Text} (hu : .text u ∈ toRemove) : u ∉ D := by
  simp only [sortedSurplus] at h
  split_ifs at h
  obtain rfl := Except.ok.inj h
  rcases List.mem_append.mp hu with hu | hu
  · obtain ⟨w, hw, hwu⟩ := List.mem_map.mp hu
    obtain rfl := PyValue.text.inj hwu
    exact (mem_surplus.mp hw).2
  · have hother := List.mem_filter.mp ((numbers.perm _).mem_iff.mp hu)
    simp [PyValue.isStrKey] at hother

/-- A list of usernames only is sorted as texts are. -/
theorem sortedSurplus_of_texts (h : ∀ name ∈ remote, ∃ u, name = .text u) :
    sortedSurplus numbers D remote = .ok ((surplus D (texts remote)).map .text) := by
  have hothers : (remote.filter fun name => !name.isStrKey) = [] := by
    rw [List.filter_eq_nil_iff]
    intro name hname
    obtain ⟨u, rfl⟩ := h name hname
    simp [PyValue.isStrKey]
  have hsorted : numbers.sort [] = [] := (numbers.perm []).eq_nil
  have htexts : PyValue.keysSortable ((surplus D (texts remote)).map (.text (F := F))) = true := by
    have hall : ((surplus D (texts remote)).map (.text (F := F))).all PyValue.isStrKey = true := by
      simp [PyValue.isStrKey]
    simp [PyValue.keysSortable, hall]
  simp only [sortedSurplus, hothers, List.append_nil, htexts, if_true, hsorted]

theorem mem_texts {u : Json.Text} : u ∈ texts remote ↔ .text u ∈ remote := by
  simp only [texts, List.mem_filterMap]
  constructor
  · rintro ⟨name, hname, hu⟩
    cases name with
    | text s => exact Option.some.inj hu ▸ hname
    | _ => cases hu
  · exact fun hu => ⟨_, hu, rfl⟩

end Names

variable [PyFloat F] (rt : Runtime F) (api : MonitorList σ Json.Text)
  (rows : List (WatchedAccount Json.Text))

def syncOverHttp (x : SyncExchanges F) (r : σ) : SyncRun σ PyExc (PyValue F) :=
  match listedNames rt x.list with
  | .error e => { remote := r, passed := [], outcome := .error e }
  | .ok remote =>
    let toAdd := missing (dbActive rows) (texts remote)
    match sortedSurplus x.numbers (dbActive rows) remote with
    | .error e => { remote := r, passed := [], outcome := .error e }
    | .ok toRemove =>
      let unchanged := common (dbActive rows) (texts remote)
      let adds := postEach .addUser api.add x.add toAdd r
      match adds.raised with
      | some e => { remote := adds.remote, passed := adds.passed, outcome := .error e }
      | none =>
        let removes := postEach .removeUser (removeName api) x.remove toRemove adds.remote
        { remote := removes.remote
          passed := adds.passed ++ removes.passed
          outcome := match removes.raised with
            | some e => .error e
            | none => .ok {
                added := toAdd.map .text
                removed := toRemove
                unchanged := unchanged.map .text } }

/-- One sync after another, each starting from the list the one before has left. -/
def syncRunsOverHttp : List (SyncExchanges F) → σ → List (SyncRun σ PyExc (PyValue F))
  | [], _ => []
  | x :: later, r =>
    let run := syncOverHttp rt api rows x r
    run :: syncRunsOverHttp later run.remote

/-- The list that a sequence of syncs leaves. -/
def remoteAfterHttp (syncs : List (SyncExchanges F)) (r : σ) : σ :=
  syncs.foldl (fun r x => (syncOverHttp rt api rows x r).remote) r

section Sync

variable {rt api rows} {x next : SyncExchanges F} {r : σ}
  {report : WatchedAccountsReport (PyValue F)}

omit [PyFloat F] in
variable (api) in
theorem aligning_removeName {name : PyValue F} (h : ∀ u, name = .text u → u ∉ dbActive rows)
    (s : σ) : Aligning api rows s (removeName api name s) := by
  cases name with
  | text u => exact aligning_remove api (h u rfl) s
  | _ => exact Aligning.refl s

variable (rt api rows x r) in
/-- One sync, whatever it is told and whatever becomes of its requests. -/
theorem syncOverHttp_path :
    Path (Aligning api rows) r (syncOverHttp rt api rows x r).passed
      (syncOverHttp rt api rows x r).remote := by
  unfold syncOverHttp
  cases listedNames rt x.list with
  | error e => exact Path.nil Aligning.refl
  | ok remote =>
    dsimp only
    cases hsurplus : sortedSurplus x.numbers (dbActive rows) remote with
    | error e => exact Path.nil Aligning.refl
    | ok toRemove =>
      have hadds : Path (Aligning api rows) r
          (postEach .addUser api.add x.add (missing (dbActive rows) (texts remote)) r).passed
          (postEach .addUser api.add x.add (missing (dbActive rows) (texts remote)) r).remote :=
        postEach_path Aligning.refl Aligning.trans
          (fun u hu => aligning_add api (mem_missing.mp hu).1) r
      dsimp only
      cases (postEach .addUser api.add x.add (missing (dbActive rows) (texts remote)) r).raised with
      | some e => exact hadds
      | none =>
        refine Path.append Aligning.trans hadds ?_
        refine postEach_path Aligning.refl Aligning.trans (fun name hname => ?_) _
        exact aligning_removeName api fun u hu => notMem_of_sortedSurplus hsurplus (hu ▸ hname)

variable (rt api rows) in
theorem syncRunsOverHttp_path (syncs : List (SyncExchanges F)) (r : σ) :
    Path (Aligning api rows) r ((syncRunsOverHttp rt api rows syncs r).flatMap SyncRun.passed)
      (remoteAfterHttp rt api rows syncs r) := by
  induction syncs generalizing r with
  | nil => exact Path.nil Aligning.refl
  | cons x later ih =>
    exact Path.append Aligning.trans (syncOverHttp_path rt api rows x r) (ih _)

/-- A sync completes exactly if the list is read, its surplus has an order and every call of its
plan is answered. -/
theorem syncOverHttp_ok_iff : (syncOverHttp rt api rows x r).outcome = .ok report ↔
    ∃ remote, listedNames rt x.list = .ok remote ∧
      ∃ toRemove, sortedSurplus x.numbers (dbActive rows) remote = .ok toRemove ∧
      (∀ u ∈ missing (dbActive rows) (texts remote), Answered fun k => (x.add u k).reply) ∧
      (∀ name ∈ toRemove, Answered fun k => (x.remove name k).reply) ∧
      report = { added := (missing (dbActive rows) (texts remote)).map .text
                 removed := toRemove
                 unchanged := (common (dbActive rows) (texts remote)).map .text } := by
  unfold syncOverHttp
  cases listedNames rt x.list with
  | error e => simp
  | ok remote =>
    simp only [Except.ok.injEq, exists_eq_left']
    cases sortedSurplus x.numbers (dbActive rows) remote with
    | error e => simp
    | ok toRemove =>
      simp only [Except.ok.injEq, exists_eq_left']
      rw [← postEach_completed .addUser api.add r]
      cases (postEach .addUser api.add x.add (missing (dbActive rows) (texts remote)) r).raised with
      | some e => simp
      | none =>
        simp only [true_and]
        rw [← postEach_completed .removeUser (removeName api)]
        cases (postEach .removeUser (removeName api) x.remove toRemove _).raised with
        | some e => simp
        | none => simp [eq_comm]

variable (rt api) in
/-- The list that the client reads, if it reads one, is the list as it is. -/
def Truthful (x : SyncExchanges F) (s : σ) : Prop :=
  ∀ remote, listedNames rt x.list = .ok remote →
    ∀ name, name ∈ remote ↔ ∃ u ∈ api.users s, name = .text u

theorem Truthful.mem_texts {remote : List (PyValue F)} (h : Truthful rt api x r)
    (hremote : listedNames rt x.list = .ok remote) (u : Json.Text) :
    u ∈ texts remote ↔ u ∈ api.users r := by
  rw [TwitterApiIoClient.mem_texts, h remote hremote]
  constructor
  · rintro ⟨v, hv, heq⟩
    exact PyValue.text.inj heq ▸ hv
  · exact fun hu => ⟨u, hu, rfl⟩

/-- A truthful list is one of usernames. -/
theorem Truthful.sortedSurplus {remote : List (PyValue F)} (h : Truthful rt api x r)
    (hremote : listedNames rt x.list = .ok remote) (D : List Json.Text) :
    sortedSurplus x.numbers D remote = .ok ((surplus D (texts remote)).map .text) :=
  sortedSurplus_of_texts fun name hname =>
    ((h remote hremote name).mp hname).imp fun _ hu => hu.2

/-- Told the truth, a sync completes exactly if the list is read and every call of its plan is
answered. -/
theorem syncOverHttp_truthful_iff (htruth : Truthful rt api x r) :
    (syncOverHttp rt api rows x r).outcome = .ok report ↔
      ∃ remote, listedNames rt x.list = .ok remote ∧
        (∀ u ∈ missing (dbActive rows) (texts remote), Answered fun k => (x.add u k).reply) ∧
        (∀ u ∈ surplus (dbActive rows) (texts remote),
          Answered fun k => (x.remove (.text u) k).reply) ∧
        report = { added := (missing (dbActive rows) (texts remote)).map .text
                   removed := (surplus (dbActive rows) (texts remote)).map .text
                   unchanged := (common (dbActive rows) (texts remote)).map .text } := by
  rw [syncOverHttp_ok_iff]
  refine exists_congr fun remote => and_congr_right fun hremote => ?_
  simp only [htruth.sortedSurplus hremote, Except.ok.injEq, exists_eq_left', List.forall_mem_map]

/-- What a complete sync leaves is the active set, if the service tells the truth. -/
theorem mem_users_of_http_ok (htruth : Truthful rt api x r)
    (hadd : ∀ u, Acknowledged (x.add u)) (hremove : ∀ name, Acknowledged (x.remove name))
    (h : (syncOverHttp rt api rows x r).outcome = .ok report) (v : Json.Text) :
    v ∈ api.users (syncOverHttp rt api rows x r).remote ↔ v ∈ dbActive rows := by
  obtain ⟨remote, hremote, hadds, hremoves, -⟩ := (syncOverHttp_truthful_iff htruth).mp h
  have hraised := (postEach_completed .addUser api.add r).mpr hadds
  have heffect : (fun u => removeName (F := F) api (.text u)) = api.remove := rfl
  simp only [syncOverHttp, hremote, htruth.sortedSurplus hremote, hraised, postEach_map, heffect]
  rw [mem_users_postEach_remove (fun u _ => hremove (.text u)) hremoves,
    mem_users_postEach_add (fun u _ => hadd u) hadds, mem_missing, mem_surplus,
    htruth.mem_texts hremote]
  tauto

/-- A sync that is told of the active set posts nothing. -/
theorem syncOverHttp_of_aligned (htruth : Truthful rt api next r)
    (h : ∀ u, u ∈ api.users r ↔ u ∈ dbActive rows) :
    syncOverHttp rt api rows next r = {
      remote := r
      passed := []
      outcome := (listedNames rt next.list).map fun _ =>
        { added := [], removed := [], unchanged := (sortedSet (dbActive rows)).map .text } } := by
  unfold syncOverHttp
  cases hremote : listedNames rt next.list with
  | error e => rfl
  | ok remote =>
    obtain ⟨hmissing, hsurplus, hcommon⟩ := plan_of_same_members (D := dbActive rows)
      fun u => (htruth.mem_texts hremote u).trans (h u)
    dsimp only
    rw [htruth.sortedSurplus hremote, hmissing, hsurplus, hcommon]
    rfl

end Sync

/-- Through any sequence of syncs over HTTP, each told anything at all about the list, names that
are no texts included, with any of their attempts applied, lost or applied again after a lost
answer, no active account that is monitored is dropped and no other account is added: this
relates every two moments, those between two attempts of one call included, and each of them to
the list at the end. -/
theorem monitor_sync_over_http_safe (rt : Runtime F) (api : MonitorList σ Json.Text)
    (rows : List (WatchedAccount Json.Text)) (syncs : List (SyncExchanges F)) (r : σ) :
    let moments := r :: (syncRunsOverHttp rt api rows syncs r).flatMap SyncRun.passed
    let safe := fun s t => (∀ u ∈ dbActive rows, u ∈ api.users s → u ∈ api.users t) ∧
      ∀ u ∉ dbActive rows, u ∈ api.users t → u ∈ api.users s
    moments.Pairwise safe ∧ ∀ s ∈ moments, safe s (remoteAfterHttp rt api rows syncs r) := by
  intro moments safe
  have hsafe (s t : σ) (h : Aligning api rows s t) : safe s t := by
    obtain ⟨hkept, hgained⟩ := h
    refine ⟨fun u hD hs => hkept ⟨hs, hD⟩, fun u hD ht => ?_⟩
    exact (hgained ht).resolve_right hD
  have hpath := syncRunsOverHttp_path rt api rows syncs r
  exact ⟨hpath.ordered.imp (hsafe _ _), fun s hs => hsafe s _ (hpath.reaches s hs)⟩

/-- Let a service tell the truth about its list and answer with a status below 400 only what it
has carried out, perhaps more than once. A sync that follows any others completes exactly if its
list call is read and every call of its plan is accepted within three attempts; it then leaves
the active set, and the next sync posts nothing. -/
theorem monitor_sync_over_http_completes (rt : Runtime F) (api : MonitorList σ Json.Text)
    (rows : List (WatchedAccount Json.Text)) (syncs : List (SyncExchanges F)) (r : σ)
    (x : SyncExchanges F)
    (htruth : Truthful rt api x (remoteAfterHttp rt api rows syncs r))
    (hadd : ∀ u, Acknowledged (x.add u)) (hremove : ∀ name, Acknowledged (x.remove name)) :
    let found := remoteAfterHttp rt api rows syncs r
    let run := syncOverHttp rt api rows x found
    ((∃ report, run.outcome = .ok report) ↔ (∃ remote, listedNames rt x.list = .ok remote) ∧
      (∀ u ∈ dbActive rows, u ∉ api.users found → Answered fun k => (x.add u k).reply) ∧
      ∀ u ∈ api.users found, u ∉ dbActive rows → Answered fun k => (x.remove (.text u) k).reply) ∧
    ∀ report, run.outcome = .ok report →
      (∀ u, u ∈ api.users run.remote ↔ u ∈ dbActive rows) ∧
      (∀ name, name ∈ report.added ↔
        ∃ u, name = .text u ∧ u ∈ dbActive rows ∧ u ∉ api.users found) ∧
      (∀ name, name ∈ report.removed ↔
        ∃ u, name = .text u ∧ u ∈ api.users found ∧ u ∉ dbActive rows) ∧
      ∀ next, Truthful rt api next run.remote →
        (syncOverHttp rt api rows next run.remote).passed = [] ∧
        (syncOverHttp rt api rows next run.remote).remote = run.remote ∧
        ∀ again, (syncOverHttp rt api rows next run.remote).outcome = .ok again →
          again.added = [] ∧ again.removed = [] := by
  intro found run
  have htold : Truthful rt api x found := htruth
  constructor
  · simp only [run, syncOverHttp_truthful_iff htold]
    constructor
    · rintro ⟨report, remote, hremote, hadds, hremoves, -⟩
      have hmem := htold.mem_texts hremote
      exact ⟨⟨remote, hremote⟩,
        fun u hD hu => hadds u (mem_missing.mpr ⟨hD, fun h => hu ((hmem u).mp h)⟩),
        fun u hu hD => hremoves u (mem_surplus.mpr ⟨(hmem u).mpr hu, hD⟩)⟩
    · rintro ⟨⟨remote, hremote⟩, hadds, hremoves⟩
      have hmem := htold.mem_texts hremote
      refine ⟨_, remote, hremote, fun u hu => ?_, fun u hu => ?_, rfl⟩
      · obtain ⟨hD, hu⟩ := mem_missing.mp hu
        exact hadds u hD fun h => hu ((hmem u).mpr h)
      · obtain ⟨hu, hD⟩ := mem_surplus.mp hu
        exact hremoves u ((hmem u).mp hu) hD
  · intro report hok
    have haligned := mem_users_of_http_ok htold hadd hremove hok
    obtain ⟨remote, hremote, -, -, rfl⟩ := (syncOverHttp_truthful_iff htold).mp hok
    have hmem := htold.mem_texts hremote
    refine ⟨haligned, fun name => ?_, fun name => ?_, fun next hnext => ?_⟩
    · simp only [List.mem_map, mem_missing, hmem, eq_comm (a := name), and_comm]
    · simp only [List.mem_map, mem_surplus, hmem, eq_comm (a := name), and_comm]
    · rw [syncOverHttp_of_aligned hnext haligned]
      refine ⟨rfl, rfl, fun again hagain => ?_⟩
      obtain ⟨-, -, rfl⟩ := map_ok_iff.mp hagain
      exact ⟨rfl, rfl⟩

/-- A username and a number do not compare, so nothing is posted. -/
example : (sortedSurplus ⟨id, fun _ => .refl _⟩ [] [.int 5, .text (Json.text "bob")] :
    Except PyExc (List (PyValue ℚ))).toOption.isNone = true := by decide +kernel

/-- A service that keeps the accounts in the order in which they were added. -/
def textMonitor : MonitorList (List Json.Text) Json.Text where
  users s := s
  add u s := s ++ [u]
  remove u s := s.filter (· ≠ u)
  mem_add u s v := by simp [or_comm]
  mem_remove u s v := by simp

/-- The first attempt to add the account is applied and answered by a gateway error, so the
second one adds it again. -/
theorem monitor_sync_over_http_completes_gateway :
    let alice := Json.text "alice"
    let carol := Json.text "carol"
    let rows : List (WatchedAccount Json.Text) := [⟨alice, true⟩, ⟨carol, false⟩]
    let done : Reply ℚ := .response ⟨200, "", .ok (.object [])⟩
    let listing : Reply ℚ := .response ⟨200, "", .ok (.object
      [(Json.text "users", .list [.object [(Json.text "username", .str carol)]])])⟩
    let lost : Reply ℚ := .response ⟨502, "", .error .jsonDecodeError⟩
    let x : SyncExchanges ℚ := ⟨fun _ => listing, ⟨id, fun _ => .refl _⟩,
      fun _ k => if k = 0 then ⟨lost, true⟩ else ⟨done, true⟩, fun _ _ => ⟨done, true⟩⟩
    let run := syncOverHttp asciiRuntime textMonitor rows x [carol]
    run.passed = [[carol, alice], [carol, alice, alice], [alice, alice]] ∧
      ∀ u, u ∈ textMonitor.users run.remote ↔ u ∈ dbActive rows := by
  intro alice carol rows done listing lost x run
  have hlisted : listedNames asciiRuntime x.list = .ok [.text carol] := rfl
  have htruth : Truthful asciiRuntime textMonitor x
      (remoteAfterHttp asciiRuntime textMonitor rows [] [carol]) := by
    intro remote h name
    obtain rfl := Except.ok.inj (hlisted.symm.trans h)
    simp only [List.mem_singleton, remoteAfterHttp, List.foldl_nil, textMonitor, exists_eq_left]
  have hadd (u : Json.Text) : Acknowledged (x.add u) := by
    intro k r h
    by_cases hk : k = 0 <;> simp [x, hk]
  have hremove (name : PyValue ℚ) : Acknowledged (x.remove name) := fun _ _ _ => rfl
  have hcompletes := monitor_sync_over_http_completes asciiRuntime textMonitor rows [] [carol] x
    htruth hadd hremove
  have hanswered (u : Json.Text) : Answered fun k => (x.add u k).reply :=
    ⟨1, by decide, fun i hi => by obtain rfl := Nat.lt_one_iff.mp hi; rfl, _, rfl⟩
  obtain ⟨report, hok⟩ := hcompletes.1.mpr ⟨⟨_, hlisted⟩, fun u _ _ => hanswered u,
    fun u _ _ => ⟨0, by decide, fun i hi => absurd hi (Nat.not_lt_zero i), _, rfl⟩⟩
  exact ⟨by decide +kernel, (hcompletes.2 report hok).1⟩

end XSocialTrader.TwitterApiIoClient
