import XSocialTrader.Lib.SqlSeed
import XSocialTrader.Models.AuditStore

/-! `scripts/seed.py`: the settings row, the demo accounts and the aliases, each inserted if its
key is missing, in one transaction. -/
namespace XSocialTrader.Seed

open Sql Migrations

variable {F : Type} [SqlReal F] {ι : Type} [DecidableEq ι]

def sqlBool (b : Bool) : Value F := .int b.toNat

/-- `Settings(id=1)` with the defaults of the model. -/
def settingsRow : Wanted F where
  target := "settings"
  key := ["id"]
  values := [("id", .int 1), ("trading_mode", .text "paper"), ("paper_trading", sqlBool true),
    ("max_capital_usd", .real (SqlReal.ofInt 1000)),
    ("max_position_pct", .real (SqlReal.ofInt 2)),
    ("max_total_exposure_pct", .real (SqlReal.ofInt 20)), ("max_trades_per_day", .int 10),
    ("max_daily_drawdown_pct", .real (SqlReal.ofInt 3)), ("allow_after_hours", sqlBool false),
    ("llm_max_usd_per_day", .real (SqlReal.ofInt 5)),
    ("twitterapi_io_max_usd", .real (SqlReal.ofInt 50))]

def accountRow (username : String) (priority : ℤ) (active : Bool) : Wanted F where
  target := "watched_accounts"
  key := ["username"]
  values := [("username", .text username), ("x_user_id", .null), ("priority", .int priority),
    ("active", sqlBool active)]

def aliasRow (mention ticker : String) (priority : ℤ) : Wanted F where
  target := "aliases"
  key := ["mention", "ticker"]
  values := [("mention", .text mention), ("ticker", .text ticker), ("priority", .int priority)]

def demoAccounts : List (Wanted F) :=
  [accountRow "elonmusk" 10 true, accountRow "jeffbezos" 5 true,
    accountRow "chamath" 3 false]

def demoAliases : List (Wanted F) :=
  [aliasRow "Tesla" "TSLA" 10, aliasRow "$TSLA" "TSLA" 20, aliasRow "Apple" "AAPL" 10,
    aliasRow "$AAPL" "AAPL" 20, aliasRow "Amazon" "AMZN" 10]

/-- `datetime.fromisoformat` on what is stored; it takes texts only. -/
def readsTime (fromIsoformat : String → Bool) : Value F → Bool
  | .null => true
  | .text s => fromIsoformat s
  | _ => false

/-- The columns of type `DateTime`. -/
def timestamps (table : String) : List String :=
  if table = "settings" then ["updated_at"] else ["created_at", "updated_at"]

/-- Whether a query for the model reads a row of its table. -/
def loads (fromIsoformat : String → Bool) (table : String) (row : Row F) : Bool :=
  (timestamps table).all fun c => readsTime fromIsoformat (row c)

section Run

variable (fromIsoformat : String → Bool) (now : Wanted F → String) (data : Data F)

def seedSettings : Except SeedFailure (String × Data F) := do
  let (inserted, data) ← Wanted.ensure schema (loads fromIsoformat) now data settingsRow
  return (if inserted then "settings: created (paper mode, INV-1 defaults)"
    else "settings: exists (skipped)", data)

/-- The loop of the rows of one table. -/
def seedTable (name : String) (rows : List (Wanted F)) :
    Except SeedFailure (String × Data F) := do
  let (inserted, data) ← Wanted.ensureAll schema (loads fromIsoformat) now data rows
  return (s!"{name}: +{inserted.count true}", data)

def seedAccounts : Except SeedFailure (String × Data F) :=
  seedTable fromIsoformat now data "watched_accounts" demoAccounts

def seedAliases : Except SeedFailure (String × Data F) :=
  seedTable fromIsoformat now data "aliases" demoAliases

/-- `main`: the reports and what is committed. An exception rolls everything back. -/
def main : Except SeedFailure (List String × Data F) := do
  let (settings, data) ← seedSettings fromIsoformat now data
  let (accounts, data) ← seedAccounts fromIsoformat now data
  let (aliases, data) ← seedAliases fromIsoformat now data
  return ([settings, accounts, aliases], data)

end Run

section Fits

theorem lookup_tableDefs {name : String} {d : TableDef F} (hd : (name, d) ∈ tableDefs) :
    schema.lookup name = some (migrated.tableOf name d) := lookup_schema_iff.mpr ⟨d, hd, rfl⟩

theorem settingsRow_fits : ∃ t, (settingsRow : Wanted F).Fits schema t := by
  refine ⟨migrated.tableOf "settings" settingsTable, lookup_tableDefs ?_, ?_, ?_, ?_, ?_, ?_⟩
  · simp [settingsRow, tableDefs_eq]
  · simp [Table.knows, settingsRow, Catalog.tableOf, settingsTable, column, timestampColumn]
  · exact ⟨("pk_settings", ["id"]), by simp [tableOf_uniques, settingsTable], rfl⟩
  · simp [tableOf_uniques, settingsTable, uniqueIndexes, settingsRow]
  · intro c hc
    obtain rfl := List.mem_singleton.mp hc
    exact ⟨.int 1, rfl, Or.inr ⟨rfl, 1, rfl⟩, rfl⟩
  · intro rows now
    constructor
    · rfl
    · simp only [Table.newRow, Table.stored, Value.isNull_storeAs]
      simp [Catalog.tableOf, settingsTable, column, timestampColumn, settingsRow, sqlBool,
        Value.isNull, List.lookup_cons]
    · let t : Table F := migrated.tableOf "settings" settingsTable
      have hmode : t.newRow rows settingsRow.values now "trading_mode" = .text "paper" := rfl
      have hid : t.newRow rows settingsRow.values now "id" = .int 1 := rfl
      show ∀ c ∈ (settingsTable : TableDef F).checks,
        c.2.eval (t.newRow rows settingsRow.values now) ≠ some false
      simp only [settingsTable, List.forall_mem_cons, columnIn, Cond.eval_isIn_text hmode]
      simp [Cond.eval, hid, Value.compare, Operator.onInts]

theorem accountRow_fits (username : String) (priority : ℤ) (active : Bool) :
    ∃ t, (accountRow username priority active : Wanted F).Fits schema t := by
  refine ⟨migrated.tableOf "watched_accounts" watchedAccountsTable, lookup_tableDefs ?_, ?_, ?_,
    ?_, ?_, ?_⟩
  · simp [accountRow, tableDefs_eq]
  · simp [Table.knows, accountRow, Catalog.tableOf, watchedAccountsTable, column, nullableColumn,
      timestampColumn]
  · exact ⟨("ix_watched_accounts_username", ["username"]),
      by simp [tableOf_uniques, uniqueIndexes], rfl⟩
  · rw [tableOf_uniques]
    simp [watchedAccountsTable, uniqueIndexes, accountRow, List.lookup_cons, Catalog.tableOf]
  · intro c hc
    obtain rfl := List.mem_singleton.mp hc
    exact ⟨.text username, rfl, Or.inl ⟨username, rfl⟩, rfl⟩
  · intro rows now
    constructor
    · rfl
    · simp only [Table.newRow, Table.stored, Value.isNull_storeAs]
      simp [Catalog.tableOf, watchedAccountsTable, column, nullableColumn, timestampColumn,
        accountRow, sqlBool, Value.isNull, List.lookup_cons]
    · simp [Catalog.tableOf, watchedAccountsTable]

theorem aliasRow_fits (mention ticker : String) (priority : ℤ) :
    ∃ t, (aliasRow mention ticker priority : Wanted F).Fits schema t := by
  refine ⟨migrated.tableOf "aliases" aliasesTable, lookup_tableDefs ?_, ?_, ?_, ?_, ?_, ?_⟩
  · simp [aliasRow, tableDefs_eq]
  · simp [Table.knows, aliasRow, Catalog.tableOf, aliasesTable, column, timestampColumn]
  · exact ⟨("uq_alias_mention_ticker", ["mention", "ticker"]),
      by simp [tableOf_uniques, aliasesTable], rfl⟩
  · rw [tableOf_uniques]
    simp [aliasesTable, uniqueIndexes, aliasRow, List.lookup_cons, Catalog.tableOf]
  · intro c hc
    rcases List.mem_cons.mp hc with rfl | hc
    · exact ⟨.text mention, rfl, Or.inl ⟨mention, rfl⟩, rfl⟩
    · obtain rfl := List.mem_singleton.mp hc
      exact ⟨.text ticker, rfl, Or.inl ⟨ticker, rfl⟩, rfl⟩
  · intro rows now
    constructor
    · rfl
    · simp only [Table.newRow, Table.stored, Value.isNull_storeAs]
      simp [Catalog.tableOf, aliasesTable, column, timestampColumn, aliasRow, Value.isNull,
        List.lookup_cons]
    · simp [Catalog.tableOf, aliasesTable]

theorem demoAccounts_fit : ∀ w ∈ (demoAccounts : List (Wanted F)), ∃ t, w.Fits schema t := by
  simp only [demoAccounts, List.forall_mem_cons]
  exact ⟨accountRow_fits _ _ _, accountRow_fits _ _ _, accountRow_fits _ _ _, by simp⟩

theorem demoAliases_fit : ∀ w ∈ (demoAliases : List (Wanted F)), ∃ t, w.Fits schema t := by
  simp only [demoAliases, List.forall_mem_cons]
  exact ⟨aliasRow_fits _ _ _, aliasRow_fits _ _ _, aliasRow_fits _ _ _, aliasRow_fits _ _ _,
    aliasRow_fits _ _ _, by simp⟩

omit [SqlReal F] in
theorem demoAccounts_distinct : (demoAccounts : List (Wanted F)).Pairwise Wanted.Distinct := by
  simp [demoAccounts, Wanted.Distinct, accountRow, List.lookup_cons]

omit [SqlReal F] in
theorem demoAliases_distinct : (demoAliases : List (Wanted F)).Pairwise Wanted.Distinct := by
  simp [demoAliases, Wanted.Distinct, aliasRow, List.lookup_cons]

end Fits

/-- Every row that the script wants. -/
def wanted : List (Wanted F) := settingsRow :: demoAccounts ++ demoAliases

section Settles

variable {fromIsoformat : String → Bool} {data : Data F} {now : Wanted F → String}

variable (now) in
theorem seedSettings_ok (hs : Sound schema data)
    (hr : settingsRow.Readable (loads fromIsoformat) data) : ∃ report left,
      seedSettings fromIsoformat now data = .ok (report, left) ∧ Sound schema left ∧
        (∀ name, data name <+: left name) ∧ Wanted.Present left settingsRow ∧
        ∀ other, other ≠ "settings" → left other = data other := by
  obtain ⟨t, ht⟩ := settingsRow_fits (F := F)
  obtain ⟨inserted, left, hok, h⟩ := ht.ensure_ok now hs hr
  refine ⟨if inserted then "settings: created (paper mode, INV-1 defaults)"
    else "settings: exists (skipped)", left, ?_, h.sound, h.extends, h.present, ?_⟩
  · rw [seedSettings, hok]
    rfl
  · intro other hother
    obtain ⟨new, rfl, -⟩ := h.grown
    exact Function.update_of_ne hother _ data

variable (now) in
theorem seedTable_ok (name : String) {rows : List (Wanted F)}
    (hfit : ∀ w ∈ rows, ∃ t, w.Fits schema t) (hdistinct : rows.Pairwise Wanted.Distinct)
    (htarget : ∀ w ∈ rows, w.target = name) (hs : Sound schema data)
    (hr : ∀ w ∈ rows, w.Readable (loads fromIsoformat) data) : ∃ n left,
      seedTable fromIsoformat now data name rows = .ok (s!"{name}: +{n}", left) ∧
        Sound schema left ∧ (∀ other, data other <+: left other) ∧
        (∀ w ∈ rows, Wanted.Present left w) ∧ (left name).length = (data name).length + n ∧
        ∀ other, other ≠ name → left other = data other := by
  obtain ⟨inserted, left, hok, hs', hextends, hpresent⟩ :=
    Wanted.ensureAll_ok now hfit hdistinct hs hr
  have hcounts := Wanted.ensureAll_counts hfit hs htarget hok
  refine ⟨inserted.count true, left, ?_, hs', hextends, hpresent, hcounts⟩
  rw [seedTable, hok]
  rfl

theorem seedTable_unreadable (name : String) {rows : List (Wanted F)}
    (hfit : ∀ w ∈ rows, ∃ t, w.Fits schema t) (hs : Sound schema data)
    (hr : ¬ ∀ w ∈ rows, w.Readable (loads fromIsoformat) data) :
    seedTable fromIsoformat now data name rows = .error .unreadable := by
  rw [seedTable, Wanted.ensureAll_unreadable hfit hs (by simpa using hr)]
  rfl

theorem seedTable_present {rows : List (Wanted F)} (hfit : ∀ w ∈ rows, ∃ t, w.Fits schema t)
    (hs : Sound schema data) (hr : ∀ w ∈ rows, w.Readable (loads fromIsoformat) data)
    (h : ∀ w ∈ rows, Wanted.Present data w) (name : String) :
    seedTable fromIsoformat now data name rows = .ok (s!"{name}: +{0}", data) := by
  have hcount : (rows.map fun _ => false).count true = 0 := by
    rw [List.count_eq_zero]
    simp
  rw [seedTable, Wanted.ensureAll_present hfit hs hr h]
  show Except.ok (s!"{name}: +{(rows.map fun _ => false).count true}", data) = _
  rw [hcount]

/-- A database that has every row, each as it can be loaded, is left alone. -/
theorem main_present (hs : Sound schema data)
    (hr : ∀ w ∈ wanted, w.Readable (loads fromIsoformat) data)
    (h : ∀ w ∈ wanted, Wanted.Present data w) : main fromIsoformat now data =
      .ok (["settings: exists (skipped)", "watched_accounts: +0", "aliases: +0"], data) := by
  simp only [wanted, List.cons_append, List.forall_mem_cons, List.forall_mem_append] at h hr
  obtain ⟨hsettings, haccounts, haliases⟩ := h
  obtain ⟨t, ht⟩ := settingsRow_fits (F := F)
  have h₁ : seedSettings fromIsoformat now data = .ok ("settings: exists (skipped)", data) := by
    rw [seedSettings, ht.ensure_present hs hr.1 hsettings]
    rfl
  have h₂ : seedAccounts fromIsoformat now data = _ :=
    seedTable_present demoAccounts_fit hs hr.2.1 haccounts _
  have h₃ : seedAliases fromIsoformat now data = _ :=
    seedTable_present demoAliases_fit hs hr.2.2 haliases _
  simp only [main, h₁, h₂, h₃, bind, Except.bind, pure, Except.pure]
  rfl

/-- Of the rows of other tables as much can be loaded as before. -/
theorem readable_congr {left : Data F} {w : Wanted F} (h : left w.target = data w.target)
    (hr : w.Readable (loads fromIsoformat) data) : w.Readable (loads fromIsoformat) left :=
  fun row hrow => hr row (h ▸ hrow)

/-- A row that is there and cannot be loaded ends the script, which commits nothing. -/
theorem main_unreadable (hs : Sound schema data)
    (hr : ¬ ∀ w ∈ wanted, w.Readable (loads fromIsoformat) data) :
    main fromIsoformat now data = .error .unreadable := by
  simp only [wanted, List.cons_append, List.forall_mem_cons, List.forall_mem_append] at hr
  by_cases hsettings : settingsRow.Readable (loads fromIsoformat) data
  · obtain ⟨settings, data₁, h₁, hs₁, hext₁, -, -⟩ := seedSettings_ok now hs hsettings
    by_cases haccounts : ∀ w ∈ demoAccounts, w.Readable (loads fromIsoformat) data₁
    · obtain ⟨accounts, data₂, h₂, hs₂, hext₂, -⟩ :=
        seedTable_ok now "watched_accounts" demoAccounts_fit demoAccounts_distinct
          (by simp [demoAccounts, accountRow]) hs₁ haccounts
      have haliases : ¬ ∀ w ∈ demoAliases, w.Readable (loads fromIsoformat) data₂ := fun h =>
        hr ⟨hsettings, fun w hw => (haccounts w hw).anti hext₁,
          fun w hw => ((h w hw).anti hext₂).anti hext₁⟩
      have h₃ : seedAliases fromIsoformat now data₂ = _ :=
        seedTable_unreadable "aliases" demoAliases_fit hs₂ haliases
      simp only [main, seedAccounts, h₁, h₂, h₃, bind, Except.bind]
    · have h₂ : seedAccounts fromIsoformat now data₁ = _ :=
        seedTable_unreadable "watched_accounts" demoAccounts_fit hs₁ haccounts
      simp only [main, h₁, h₂, bind, Except.bind]
  · obtain ⟨t, ht⟩ := settingsRow_fits (F := F)
    have h₁ : seedSettings fromIsoformat now data = .error .unreadable := by
      rw [seedSettings, ht.ensure_unreadable hs hsettings]
      rfl
    simp only [main, h₁, bind, Except.bind]

end Settles

/-- Whatever any connections have done to the database, the script succeeds on what it sees
exactly if it can load those of its rows that are there. It then keeps every row in its place,
leaves all its rows there, and reports the numbers of accounts and aliases that it has added.
Run again on any sound state that has its rows, however they have been edited meanwhile as long
as they can be loaded, it reports that nothing was missing and changes nothing. -/
theorem seed_settles {actions : List (DbAction ι F)} {i : ι} {data : Data F}
    (h : (reached actions).working i = some data) (fromIsoformat : String → Bool)
    (now : Wanted F → String) :
    (¬ (∀ w ∈ wanted, w.Readable (loads fromIsoformat) data) →
      main fromIsoformat now data = .error .unreadable) ∧
    ((∀ w ∈ wanted, w.Readable (loads fromIsoformat) data) →
      ∃ settings accounts aliases left,
        main fromIsoformat now data = .ok
          ([settings, s!"watched_accounts: +{accounts}", s!"aliases: +{aliases}"], left) ∧
        Sound schema left ∧ (∀ name, data name <+: left name) ∧
        (∀ w ∈ wanted, Wanted.Present left w) ∧
        (left "watched_accounts").length = (data "watched_accounts").length + accounts ∧
        (left "aliases").length = (data "aliases").length + aliases) ∧
    ∀ later : Data F, Sound schema later → (∀ w ∈ wanted, Wanted.Present later w) →
      (∀ w ∈ wanted, w.Readable (loads fromIsoformat) later) →
      main fromIsoformat now later =
        .ok (["settings: exists (skipped)", "watched_accounts: +0", "aliases: +0"], later) := by
  have hs : Sound schema data :=
    (run_sound (emptyStore_sound (F := F) (ι := ι)) actions).working h
  refine ⟨main_unreadable hs, fun hr => ?_, fun later hs' hpresent hr =>
    main_present hs' hr hpresent⟩
  simp only [wanted, List.cons_append, List.forall_mem_cons, List.forall_mem_append] at hr
  obtain ⟨hsettings, haccounts, haliases⟩ := hr
  have htarget : ∀ w ∈ (demoAccounts : List (Wanted F)), w.target = "watched_accounts" := by
    simp [demoAccounts, accountRow]
  have htarget' : ∀ w ∈ (demoAliases : List (Wanted F)), w.target = "aliases" := by
    simp [demoAliases, aliasRow]
  obtain ⟨settings, data₁, h₁, hs₁, hext₁, hpres₁, hframe₁⟩ := seedSettings_ok now hs hsettings
  obtain ⟨accounts, data₂, h₂, hs₂, hext₂, hpres₂, hlen₂, hframe₂⟩ :=
    seedTable_ok now "watched_accounts" demoAccounts_fit demoAccounts_distinct htarget hs₁
      fun w hw => readable_congr (hframe₁ _ (by rw [htarget w hw]; decide)) (haccounts w hw)
  obtain ⟨aliases, data₃, h₃, hs₃, hext₃, hpres₃, hlen₃, hframe₃⟩ :=
    seedTable_ok now "aliases" demoAliases_fit demoAliases_distinct htarget' hs₂ fun w hw => by
      have hsame : data₂ w.target = data w.target := by
        rw [htarget' w hw, hframe₂ _ (by decide), hframe₁ _ (by decide)]
      exact readable_congr hsame (haliases w hw)
  refine ⟨settings, accounts, aliases, data₃, ?_, hs₃, fun name => ?_, ?_, ?_, ?_⟩
  · have haccounts : "watched_accounts" ++ ": +" = "watched_accounts: +" := by decide
    have haliases : "aliases" ++ ": +" = "aliases: +" := by decide
    simp only [main, seedAccounts, seedAliases, h₁, h₂, h₃, bind, Except.bind, pure, Except.pure,
      toString, haccounts, haliases]
  · exact (hext₁ name).trans ((hext₂ name).trans (hext₃ name))
  · simp only [wanted, List.cons_append, List.forall_mem_cons, List.forall_mem_append]
    exact ⟨(hpres₁.mono hext₂).mono hext₃, fun w hw => (hpres₂ w hw).mono hext₃, hpres₃⟩
  · rw [hframe₃ _ (by decide), hlen₂, hframe₁ _ (by decide)]
  · rw [hlen₃, hframe₂ _ (by decide), hframe₁ _ (by decide)]

/-- A watched account that someone has entered with a time of its own. -/
def accountRun (updatedAt : String) : List (DbAction ℕ ℚ) :=
  [.statement 0 "watched_accounts" (.insert
    [("username", .text "elonmusk"), ("priority", .int 1), ("active", .int 0),
      ("updated_at", .text updatedAt)] "2026-04-24 12:00:00")]

/-- What its writer sees. -/
def accountData (updatedAt : String) : Data ℚ :=
  ((reached (accountRun updatedAt)).working 0).getD fun _ => []

/-- The one time of the example. -/
def paperIsoformat (s : String) : Bool := s == "2026-04-24 12:00:00"

theorem seed_settles_account :
    main paperIsoformat (fun _ => "2026-04-24 12:00:01") (accountData "yesterday") =
      .error .unreadable ∧
    ∃ (settings : String) (accounts aliases : ℕ) (left : Data ℚ),
      main paperIsoformat (fun _ => "2026-04-24 12:00:01") (accountData "2026-04-24 12:00:00") =
        .ok ([settings, s!"watched_accounts: +{accounts}", s!"aliases: +{aliases}"], left) ∧
      ∀ w ∈ wanted, Wanted.Present left w := by
  have hseen (updatedAt : String)
      (h : ((reached (accountRun updatedAt)).working 0).isSome = true) :
      (reached (accountRun updatedAt)).working 0 = some (accountData updatedAt) := by
    obtain ⟨data, hdata⟩ := Option.isSome_iff_exists.mp h
    rw [accountData, hdata]
    rfl
  have hbad := seed_settles (hseen "yesterday" (by decide +kernel)) paperIsoformat
    fun _ => "2026-04-24 12:00:01"
  have hgood := seed_settles (hseen "2026-04-24 12:00:00" (by decide +kernel)) paperIsoformat
    fun _ => "2026-04-24 12:00:01"
  refine ⟨hbad.1 (by decide +kernel), ?_⟩
  obtain ⟨settings, accounts, aliases, left, hok, -, -, hpresent, -⟩ :=
    hgood.2.1 (by decide +kernel)
  exact ⟨settings, accounts, aliases, left, hok, hpresent⟩

end XSocialTrader.Seed
