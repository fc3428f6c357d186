import XSocialTrader.Lib.SqlCatalog

/-! The two migrations: what `upgrade` creates, in its order, and what `downgrade` drops. SQLite
converts what is stored in a column by the affinity of its type. It does not enforce foreign
keys, as no connection sets `PRAGMA foreign_keys`, so the rows are not checked against them. -/
namespace XSocialTrader.Migrations

open Sql

variable {F : Type}

inductive ColumnType where
  | integer | string | text | float | boolean | dateTime | json

/-- The affinity by the name of the type: `INTEGER`, `VARCHAR`, `TEXT` and `FLOAT` have their
own, and `BOOLEAN`, `DATETIME` and `JSON` are names that SQLite does not know. -/
def ColumnType.affinity : ColumnType → Affinity
  | .integer => .integer
  | .string | .text => .text
  | .float => .real
  | .boolean | .dateTime | .json => .numeric

/-- `nullable=False`, without a server default. -/
def column (name : String) (type : ColumnType) : Column := ⟨name, type.affinity, false, false⟩

def nullableColumn (name : String) (type : ColumnType) : Column :=
  ⟨name, type.affinity, true, false⟩

/-- `sa.DateTime` with `server_default=sa.text("(CURRENT_TIMESTAMP)")`. -/
def timestampColumn (name : String) : Column := ⟨name, ColumnType.affinity .dateTime, false, true⟩

/-- A CHECK of the form `column IN ('…', …)`. -/
def columnIn (name : String) (values : List String) : Cond F := .isIn name (values.map .text)

def index (table name : String) (columns : List String) (unique : Bool) : Ddl (Object F) :=
  .create name (.index table columns unique)

def aliasesTable : TableDef F where
  columns := [column "id" .integer, column "mention" .string, column "ticker" .string,
    column "priority" .integer, timestampColumn "created_at", timestampColumn "updated_at"]
  primaryKey := "id"
  checks := []
  uniques := [("pk_aliases", ["id"]), ("uq_alias_mention_ticker", ["mention", "ticker"])]
  foreignKeys := []

def createAliases : List (Ddl (Object F)) :=
  [.create "aliases" (.table aliasesTable),
    index "aliases" "ix_aliases_mention" ["mention"] false,
    index "aliases" "ix_aliases_ticker" ["ticker"] false]

def killSwitchEventsTable : TableDef F where
  columns := [column "id" .integer, column "activated" .boolean, column "trigger" .string,
    column "actor" .string, nullableColumn "reason" .text, timestampColumn "created_at"]
  primaryKey := "id"
  checks := [("ck_kill_switch_events_trigger_valid",
    columnIn "trigger" ["manual", "env_var", "drawdown", "budget_llm", "budget_twitterapi"])]
  uniques := [("pk_kill_switch_events", ["id"])]
  foreignKeys := []

def createKillSwitchEvents : List (Ddl (Object F)) :=
  [.create "kill_switch_events" (.table killSwitchEventsTable)]

def positionsTable : TableDef F where
  columns := [column "id" .integer, column "symbol" .string, column "quantity" .integer,
    column "avg_price_usd" .float, column "realized_pnl_usd" .float, timestampColumn "created_at",
    timestampColumn "updated_at"]
  primaryKey := "id"
  checks := []
  uniques := [("pk_positions", ["id"])]
  foreignKeys := []

def createPositions : List (Ddl (Object F)) :=
  [.create "positions" (.table positionsTable),
    index "positions" "ix_positions_symbol" ["symbol"] true]

def rawTweetsTable : TableDef F where
  columns := [column "id" .integer, column "tweet_id" .string, column "x_user_id" .string,
    column "username" .string, column "content" .text, nullableColumn "lang" .string,
    column "raw_json" .json, column "received_at" .dateTime, timestampColumn "created_at"]
  primaryKey := "id"
  checks := []
  uniques := [("pk_raw_tweets", ["id"])]
  foreignKeys := []

def createRawTweets : List (Ddl (Object F)) :=
  [.create "raw_tweets" (.table rawTweetsTable),
    index "raw_tweets" "ix_raw_tweets_received_at" ["received_at"] false,
    index "raw_tweets" "ix_raw_tweets_tweet_id" ["tweet_id"] true,
    index "raw_tweets" "ix_raw_tweets_username" ["username"] false,
    index "raw_tweets" "ix_raw_tweets_x_user_id" ["x_user_id"] false]

def riskLimitsTable : TableDef F where
  columns := [column "id" .integer, column "strategy_id" .string, column "version" .integer,
    column "active" .boolean, nullableColumn "max_position_pct" .float,
    nullableColumn "max_total_exposure_pct" .float, nullableColumn "max_trades_per_day" .integer,
    nullableColumn "max_daily_drawdown_pct" .float, nullableColumn "allow_after_hours" .boolean,
    timestampColumn "created_at", timestampColumn "updated_at"]
  primaryKey := "id"
  checks := []
  uniques := [("pk_risk_limits", ["id"]),
    ("uq_risk_limit_strategy_version", ["strategy_id", "version"])]
  foreignKeys := []

def createRiskLimits : List (Ddl (Object F)) :=
  [.create "risk_limits" (.table riskLimitsTable),
    index "risk_limits" "ix_risk_limits_strategy_id" ["strategy_id"] false]

def settingsTable : TableDef F where
  columns := [column "id" .integer, column "trading_mode" .string, column "paper_trading" .boolean,
    column "max_capital_usd" .float, column "max_position_pct" .float,
    column "max_total_exposure_pct" .float, column "max_trades_per_day" .integer,
    column "max_daily_drawdown_pct" .float, column "allow_after_hours" .boolean,
    column "llm_max_usd_per_day" .float, column "twitterapi_io_max_usd" .float,
    timestampColumn "updated_at"]
  primaryKey := "id"
  checks := [("ck_settings_trading_mode_valid", columnIn "trading_mode" ["paper", "live"]),
    ("ck_settings_singleton_row", .compare .eq "id" (.int 1))]
  uniques := [("pk_settings", ["id"])]
  foreignKeys := []

def createSettings : List (Ddl (Object F)) :=
  [.create "settings" (.table settingsTable)]

def watchedAccountsTable : TableDef F where
  columns := [column "id" .integer, column "username" .string, nullableColumn "x_user_id" .string,
    column "priority" .integer, column "active" .boolean, timestampColumn "created_at",
    timestampColumn "updated_at"]
  primaryKey := "id"
  checks := []
  uniques := [("pk_watched_accounts", ["id"])]
  foreignKeys := []

def createWatchedAccounts : List (Ddl (Object F)) :=
  [.create "watched_accounts" (.table watchedAccountsTable),
    index "watched_accounts" "ix_watched_accounts_username" ["username"] true,
    index "watched_accounts" "ix_watched_accounts_x_user_id" ["x_user_id"] false]

def llmDecisionsTable : TableDef F where
  columns := [column "id" .integer, column "raw_tweet_id" .integer,
    column "prompt_version" .string, column "model" .string, column "provider" .string,
    column "prompt" .text, column "raw_response" .text, nullableColumn "parsed_decision" .json,
    column "cost_usd" .float, column "latency_ms" .integer, column "status" .string,
    timestampColumn "created_at"]
  primaryKey := "id"
  checks := [("ck_llm_decisions_status_valid",
    columnIn "status" ["success", "invalid_json", "error"])]
  uniques := [("pk_llm_decisions", ["id"])]
  foreignKeys := ["raw_tweets"]

def createLlmDecisions : List (Ddl (Object F)) :=
  [.create "llm_decisions" (.table llmDecisionsTable),
    index "llm_decisions" "ix_llm_decisions_raw_tweet_id" ["raw_tweet_id"] false]

def eventsTable [SqlReal F] : TableDef F where
  columns := [column "id" .integer, column "event_id" .string, column "raw_tweet_id" .integer,
    column "llm_decision_id" .integer, column "ticker" .string, column "intent" .string,
    column "confidence" .float, column "time_horizon" .string, timestampColumn "created_at"]
  primaryKey := "id"
  checks := [
    ("ck_events_intent_valid", columnIn "intent" ["bullish", "bearish", "neutral", "noise"]),
    ("ck_events_time_horizon_valid", columnIn "time_horizon" ["intraday", "swing", "long"]),
    ("ck_events_confidence_in_unit",
      .and (.compare .ge "confidence" (.real (SqlReal.ofInt 0)))
        (.compare .le "confidence" (.real (SqlReal.ofInt 1))))]
  uniques := [("pk_events", ["id"])]
  foreignKeys := ["llm_decisions", "raw_tweets"]

def createEvents [SqlReal F] : List (Ddl (Object F)) :=
  [.create "events" (.table eventsTable),
    index "events" "ix_events_event_id" ["event_id"] true,
    index "events" "ix_events_llm_decision_id" ["llm_decision_id"] false,
    index "events" "ix_events_raw_tweet_id" ["raw_tweet_id"] false,
    index "events" "ix_events_ticker" ["ticker"] false]

def ordersTable : TableDef F where
  columns := [column "id" .integer, column "idempotency_key" .string, column "event_id" .string,
    column "strategy_id" .string, nullableColumn "external_id" .string,
    column "trading_mode" .string, column "side" .string, column "order_type" .string,
    column "symbol" .string, column "quantity" .integer, nullableColumn "limit_price" .float,
    timestampColumn "created_at"]
  primaryKey := "id"
  checks := [
    ("ck_orders_limit_price_required_for_limit",
      .or (.and (.compare .eq "order_type" (.text "limit")) (.isNotNull "limit_price"))
        (.and (.compare .eq "order_type" (.text "market")) (.isNull "limit_price"))),
    ("ck_orders_order_type_valid", columnIn "order_type" ["market", "limit"]),
    ("ck_orders_side_valid", columnIn "side" ["buy", "sell"]),
    ("ck_orders_trading_mode_valid", columnIn "trading_mode" ["paper", "live"]),
    ("ck_orders_quantity_positive", .compare .gt "quantity" (.int 0))]
  uniques := [("pk_orders", ["id"])]
  foreignKeys := ["events"]

def createOrders : List (Ddl (Object F)) :=
  [.create "orders" (.table ordersTable),
    index "orders" "ix_orders_event_id" ["event_id"] false,
    index "orders" "ix_orders_external_id" ["external_id"] false,
    index "orders" "ix_orders_idempotency_key" ["idempotency_key"] true,
    index "orders" "ix_orders_symbol" ["symbol"] false]

def ruleEvaluationsTable : TableDef F where
  columns := [column "id" .integer, column "event_id" .string, column "rule_id" .string,
    column "rule_priority" .integer, column "inputs_hash" .string, column "inputs_json" .json,
    column "outcome" .string, nullableColumn "proposed_order_json" .json,
    timestampColumn "created_at"]
  primaryKey := "id"
  checks := [("ck_rule_evaluations_outcome_valid",
    columnIn "outcome" ["matched", "skipped", "failed"])]
  uniques := [("pk_rule_evaluations", ["id"])]
  foreignKeys := ["events"]

def createRuleEvaluations : List (Ddl (Object F)) :=
  [.create "rule_evaluations" (.table ruleEvaluationsTable),
    index "rule_evaluations" "ix_rule_evaluations_event_id" ["event_id"] false,
    index "rule_evaluations" "ix_rule_evaluations_rule_id" ["rule_id"] false]

def fillsTable : TableDef F where
  columns := [column "id" .integer, column "order_id" .integer, column "external_fill_id" .string,
    column "symbol" .string, column "quantity" .integer, column "price" .float,
    column "commission_usd" .float, column "filled_at" .dateTime, timestampColumn "created_at"]
  primaryKey := "id"
  checks := [("ck_fills_price_positive", .compare .gt "price" (.int 0)),
    ("ck_fills_quantity_positive", .compare .gt "quantity" (.int 0))]
  uniques := [("pk_fills", ["id"])]
  foreignKeys := ["orders"]

def createFills : List (Ddl (Object F)) :=
  [.create "fills" (.table fillsTable),
    index "fills" "ix_fills_external_fill_id" ["external_fill_id"] true,
    index "fills" "ix_fills_filled_at" ["filled_at"] false,
    index "fills" "ix_fills_order_id" ["order_id"] false,
    index "fills" "ix_fills_symbol" ["symbol"] false]

/-- `AUDIT_TABLES`. -/
def auditTables : List String :=
  ["llm_decisions", "rule_evaluations", "orders", "fills", "kill_switch_events"]

/-- The two append-only triggers of an audit table. -/
def createTriggers (table : String) : List (Ddl (Object F)) :=
  [.create (table ++ "_no_update")
      (.trigger table .update (table ++ " is append-only (INV-4)")),
    .create (table ++ "_no_delete")
      (.trigger table .delete (table ++ " is append-only (INV-4)"))]

def dropTriggers (table : String) : List (Ddl (Object F)) :=
  [.dropIfExists .trigger (table ++ "_no_update"), .dropIfExists .trigger (table ++ "_no_delete")]

/-- `upgrade` of the first migration, on SQLite. -/
def upgradeInitial [SqlReal F] : List (Ddl (Object F)) :=
  createAliases ++ createKillSwitchEvents ++ createPositions ++ createRawTweets ++
    createRiskLimits ++ createSettings ++ createWatchedAccounts ++ createLlmDecisions ++
    createEvents ++ createOrders ++ createRuleEvaluations ++ createFills ++
    auditTables.flatMap createTriggers

/-- `downgrade` of the first migration, on SQLite. -/
def downgradeInitial : List (Ddl (Object F)) :=
  auditTables.flatMap dropTriggers ++
  [.drop .index "ix_fills_symbol", .drop .index "ix_fills_order_id",
    .drop .index "ix_fills_filled_at", .drop .index "ix_fills_external_fill_id",
    .drop .table "fills", .drop .index "ix_rule_evaluations_rule_id",
    .drop .index "ix_rule_evaluations_event_id", .drop .table "rule_evaluations",
    .drop .index "ix_orders_symbol", .drop .index "ix_orders_idempotency_key",
    .drop .index "ix_orders_external_id", .drop .index "ix_orders_event_id", .drop .table "orders",
    .drop .index "ix_events_ticker", .drop .index "ix_events_raw_tweet_id",
    .drop .index "ix_events_llm_decision_id", .drop .index "ix_events_event_id",
    .drop .table "events", .drop .index "ix_llm_decisions_raw_tweet_id",
    .drop .table "llm_decisions", .drop .index "ix_watched_accounts_x_user_id",
    .drop .index "ix_watched_accounts_username", .drop .table "watched_accounts",
    .drop .table "settings", .drop .index "ix_risk_limits_strategy_id", .drop .table "risk_limits",
    .drop .index "ix_raw_tweets_x_user_id", .drop .index "ix_raw_tweets_username",
    .drop .index "ix_raw_tweets_tweet_id", .drop .index "ix_raw_tweets_received_at",
    .drop .table "raw_tweets", .drop .index "ix_positions_symbol", .drop .table "positions",
    .drop .table "kill_switch_events", .drop .index "ix_aliases_ticker",
    .drop .index "ix_aliases_mention", .drop .table "aliases"]

def upgradeTradeJournal : List (Ddl (Object F)) :=
  [.create "trade_journal" (.view ["events", "raw_tweets", "llm_decisions", "orders", "fills"])]

def downgradeTradeJournal : List (Ddl (Object F)) := [.dropIfExists .view "trade_journal"]

/-- `alembic upgrade head` on a database at no revision. -/
def upgradeHead [SqlReal F] : List (Ddl (Object F)) := upgradeInitial ++ upgradeTradeJournal

/-- `alembic downgrade base` from the last revision. -/
def downgradeBase : List (Ddl (Object F)) := downgradeTradeJournal ++ downgradeInitial

/-- What the migrations leave in an empty database. -/
def migrated [SqlReal F] : Catalog (Object F) := upgradeHead.filterMap Ddl.entry

/-! ### The statements by name alone -/

/-- An object without its contents. -/
structure Outline where
  kind : Kind
  owner : Option String
  references : List String
  deriving DecidableEq

instance : SchemaObject Outline := ⟨Outline.kind, Outline.owner, Outline.references⟩

def outline (object : Object F) : Outline :=
  ⟨SchemaObject.kind object, SchemaObject.owner object, SchemaObject.references object⟩

/-- Whole numbers, to run the migrations at a concrete type. -/
instance : SqlReal ℤ where
  ofInt := id
  lt m n := decide (m < n)
  le m n := decide (m ≤ n)
  toText n := toString n ++ ".0"
  ofText := digits
  toInt := some

def outlineUpgrade : List (Ddl Outline) :=
  (upgradeHead : List (Ddl (Object ℤ))).map (Ddl.map outline)

def outlineDowngrade : List (Ddl Outline) :=
  (downgradeBase : List (Ddl (Object ℤ))).map (Ddl.map outline)

variable [SqlReal F]

theorem map_outline_upgradeHead :
    (upgradeHead : List (Ddl (Object F))).map (Ddl.map outline) = outlineUpgrade := rfl

omit [SqlReal F] in
theorem map_outline_downgradeBase :
    (downgradeBase : List (Ddl (Object F))).map (Ddl.map outline) = outlineDowngrade := rfl

theorem outlineUpgrade_runs (enforced : Bool) :
    ((Catalog.run enforced [] outlineUpgrade).bind fun c =>
      c.run enforced outlineDowngrade).any List.isEmpty = true := by
  have hruns : (Catalog.run true [] (outlineUpgrade ++ outlineDowngrade)).any List.isEmpty =
      true := by decide +kernel
  obtain ⟨c, hc, hempty⟩ := (Option.any_eq_true _ _).mp hruns
  rw [← Catalog.run_append, Catalog.run_of_enforced hc]
  exact hempty

theorem outlineUpgrade_nodup : (outlineUpgrade.map Ddl.name).Nodup := by decide +kernel

/-- `downgrade` drops only what `upgrade` creates. -/
theorem outlineDowngrade_names : ∀ op ∈ outlineDowngrade,
    ∃ op' ∈ outlineUpgrade, op'.kind = op.kind ∧ op'.name = op.name := by
  decide +kernel

theorem creates_upgradeHead : Catalog.Creates (upgradeHead : List (Ddl (Object F))) :=
  List.all_eq_true.mp rfl

omit [SqlReal F] in
theorem run_outline (enforced : Bool) (c : Catalog (Object F)) (ops : List (Ddl (Object F))) :
    Catalog.run enforced (c.map (Prod.map id outline)) (ops.map (Ddl.map outline)) =
      (c.run enforced ops).map (List.map (Prod.map id outline)) :=
  Catalog.run_map (f := outline) (fun _ => rfl) (fun _ => rfl) (fun _ => rfl) ops

/-- The migrations run on an empty database. -/
theorem run_upgradeHead (enforced : Bool) :
    Catalog.run enforced [] (upgradeHead : List (Ddl (Object F))) = some migrated := by
  have hrun := run_outline enforced [] (upgradeHead : List (Ddl (Object F)))
  rw [map_outline_upgradeHead, List.map_nil] at hrun
  cases hc : Catalog.run enforced [] (upgradeHead : List (Ddl (Object F))) with
  | none =>
    have hok := outlineUpgrade_runs enforced
    rw [hrun, hc] at hok
    cases hok
  | some c =>
    rw [(creates_upgradeHead.run_some hc).2]
    rfl

/-- The way back drops everything. -/
theorem run_downgradeBase (enforced : Bool) :
    Catalog.run enforced migrated (downgradeBase : List (Ddl (Object F))) = some [] := by
  have hup := run_outline enforced [] (upgradeHead : List (Ddl (Object F)))
  rw [map_outline_upgradeHead, List.map_nil, run_upgradeHead, Option.map_some] at hup
  have hdown := run_outline enforced migrated (downgradeBase : List (Ddl (Object F)))
  rw [map_outline_downgradeBase] at hdown
  have hok := outlineUpgrade_runs enforced
  rw [hup, Option.bind_some, hdown] at hok
  cases hc : Catalog.run enforced migrated (downgradeBase : List (Ddl (Object F))) with
  | none =>
    rw [hc] at hok
    cases hok
  | some c =>
    rw [hc] at hok
    simpa using hok

variable {enforced : Bool}

/-- Upgrading to the last revision succeeds exactly where none of its names is taken, and
adds its objects to those that are there. -/
theorem upgrade_iff {base c : Catalog (Object F)} (hclosed : base.Closed enforced) :
    base.run enforced upgradeHead = some c ↔
      base.Fresh (upgradeHead : List (Ddl (Object F))) ∧ c = base ++ migrated := by
  constructor
  · intro h
    exact creates_upgradeHead.run_some h
  · rintro ⟨hfresh, rfl⟩
    simpa using Catalog.run_frame hclosed hfresh (run_upgradeHead enforced)

omit [SqlReal F] in
/-- Outlines keep kinds and names. -/
theorem outline_kind_name (op : Ddl (Object F)) :
    (op.map outline).kind = op.kind ∧ (op.map outline).name = op.name := by
  cases op <;> exact ⟨rfl, rfl⟩

/-- Upgrading and downgrading restores any database that the upgrade accepts, whatever else
it holds, and whether or not the database enforces foreign keys and what views read. -/
theorem upgrade_downgrade {base : Catalog (Object F)} (hclosed : base.Closed enforced)
    (hfresh : base.Fresh (upgradeHead : List (Ddl (Object F)))) :
    base.run enforced (upgradeHead ++ downgradeBase) = some base := by
  have hdown : base.Fresh (downgradeBase : List (Ddl (Object F))) := by
    intro op hop
    obtain ⟨o, ho, hkind, hname⟩ := outlineDowngrade_names (op.map outline) <| by
      rw [← map_outline_downgradeBase (F := F)]
      exact List.mem_map_of_mem hop
    rw [← map_outline_upgradeHead (F := F)] at ho
    obtain ⟨op', hop', rfl⟩ := List.mem_map.mp ho
    rw [(outline_kind_name op').1, (outline_kind_name op).1] at hkind
    rw [(outline_kind_name op').2, (outline_kind_name op).2] at hname
    rw [← hkind, ← hname]
    exact hfresh op' hop'
  rw [Catalog.run_append, (upgrade_iff hclosed).mpr ⟨hfresh, rfl⟩, Option.bind_some,
    Catalog.run_frame hclosed hdown (run_downgradeBase enforced), List.append_nil]

/-- The table in which alembic keeps the revision, and one with an index and a view. -/
def notesCatalog : Catalog (Object ℤ) :=
  [("alembic_version", .table ⟨[column "version_num" .string], "version_num", [], [], []⟩),
    ("Notes", .table ⟨[column "id" .integer, column "author" .string], "id", [], [], ["NOTES"]⟩),
    ("ix_notes_author", .index "notes" ["author"] false),
    ("authors", .view ["notes"])]

theorem upgrade_downgrade_notes :
    notesCatalog.run true (upgradeHead ++ downgradeBase) = some notesCatalog := by
  have hclosed : notesCatalog.Closed true := by
    unfold Catalog.Closed notesCatalog
    decide +kernel
  have hfresh : ∀ op ∈ outlineUpgrade, notesCatalog.taken op.kind op.name = false := by
    decide +kernel
  apply upgrade_downgrade hclosed
  intro op hop
  have hmem : op.map outline ∈ outlineUpgrade := List.mem_map_of_mem hop
  have hfree := hfresh _ hmem
  rwa [(outline_kind_name op).1, (outline_kind_name op).2] at hfree

/-! ### The tables -/

/-- The tables of the migrated database. -/
def schema : Schema F := migrated.schema

theorem migrated_nodup : ((migrated : Catalog (Object F)).map Prod.fst).Nodup := by
  have hnames (ops : List (Ddl (Object F))) (h : Catalog.Creates ops) :
      (ops.filterMap Ddl.entry).map Prod.fst = (ops.map (Ddl.map outline)).map Ddl.name := by
    induction ops with
    | nil => rfl
    | cons op ops ih =>
      have hrest := ih fun op' hop' => h op' (List.mem_cons_of_mem _ hop')
      cases op with
      | create name object => exact congrArg (name :: ·) hrest
      | drop kind name => exact absurd (h _ List.mem_cons_self) (by simp [Ddl.entry])
      | dropIfExists kind name => exact absurd (h _ List.mem_cons_self) (by simp [Ddl.entry])
  rw [migrated, hnames _ creates_upgradeHead, map_outline_upgradeHead]
  exact outlineUpgrade_nodup

theorem mem_migrated {name : String} {object : Object F} :
    (name, object) ∈ migrated ↔ Ddl.create name object ∈ upgradeHead := by
  rw [migrated, List.mem_filterMap]
  constructor
  · rintro ⟨op, hop, hentry⟩
    cases op with
    | create n o =>
      obtain ⟨rfl, rfl⟩ := Prod.mk.inj (Option.some.inj hentry)
      exact hop
    | drop k n => cases hentry
    | dropIfExists k n => cases hentry
  · intro hop
    exact ⟨_, hop, rfl⟩

/-- Each audit table is append-only. -/
theorem appendOnly_of_mem_auditTables {name : String} (hname : name ∈ auditTables)
    {t : Table F} (ht : schema.lookup name = some t) : t.AppendOnly := by
  obtain ⟨d, -, rfl⟩ := (Catalog.lookup_schema migrated_nodup).mp ht
  have htriggers : ∀ op ∈ (createTriggers name : List (Ddl (Object F))), op ∈ upgradeHead := by
    intro op hop
    apply List.mem_append_left
    apply List.mem_append_right
    exact List.mem_flatMap.mpr ⟨name, hname, hop⟩
  apply Catalog.appendOnly_tableOf
  · exact mem_migrated.mpr (htriggers _ List.mem_cons_self)
  · exact mem_migrated.mpr (htriggers _ (List.mem_cons_of_mem _ List.mem_cons_self))

/-- The UNIQUE indexes of the migrations, by table. -/
def uniqueIndexes : List (String × String × List String) :=
  [("positions", "ix_positions_symbol", ["symbol"]),
    ("raw_tweets", "ix_raw_tweets_tweet_id", ["tweet_id"]),
    ("watched_accounts", "ix_watched_accounts_username", ["username"]),
    ("events", "ix_events_event_id", ["event_id"]),
    ("orders", "ix_orders_idempotency_key", ["idempotency_key"]),
    ("fills", "ix_fills_external_fill_id", ["external_fill_id"])]

/-- The table, the name and the columns of a UNIQUE index. -/
def uniqueIndexOf : String × Object F → Option (String × String × List String)
  | (name, .index table columns unique) => if unique then some (table, name, columns) else none
  | (_, .table _) | (_, .view _) | (_, .trigger _ _ _) => none

theorem migrated_uniqueIndexes : (migrated (F := F)).filterMap uniqueIndexOf = uniqueIndexes := by
  simp [List.filterMap_cons, uniqueIndexOf, uniqueIndexes, migrated, upgradeHead, upgradeInitial,
    upgradeTradeJournal, createAliases, createKillSwitchEvents, createPositions, createRawTweets,
    createRiskLimits, createSettings, createWatchedAccounts, createLlmDecisions, createEvents,
    createOrders, createRuleEvaluations, createFills, auditTables, createTriggers, index, Ddl.entry]

/-- A table is unique in the constraints of its CREATE and in its UNIQUE indexes. -/
theorem tableOf_uniques (name : String) (d : TableDef F) : (migrated.tableOf name d).uniques =
    d.uniques ++ uniqueIndexes.filterMap fun i => if i.1 = name then some i.2 else none := by
  have hentry (e : String × Object F) : ((e.2.uniqueOn name).map fun columns => (e.1, columns)) =
      (uniqueIndexOf e).bind fun i => if i.1 = name then some i.2 else none := by
    obtain ⟨n, object⟩ := e
    cases object with
    | index table columns unique =>
      cases unique with
      | false => rfl
      | true =>
        simp only [Object.uniqueOn, uniqueIndexOf, if_true, Option.bind_some]
        split_ifs <;> rfl
    | _ => rfl
  simp only [Catalog.tableOf, hentry, ← migrated_uniqueIndexes (F := F), List.filterMap_filterMap]

/-- The definitions of the tables, by name. -/
def tableDefs : List (String × TableDef F) :=
  upgradeHead.filterMap fun op =>
    match op with
    | .create name (.table d) => some (name, d)
    | _ => none

theorem tableDefs_eq : (tableDefs : List (String × TableDef F)) =
    [("aliases", aliasesTable), ("kill_switch_events", killSwitchEventsTable),
      ("positions", positionsTable), ("raw_tweets", rawTweetsTable),
      ("risk_limits", riskLimitsTable), ("settings", settingsTable),
      ("watched_accounts", watchedAccountsTable), ("llm_decisions", llmDecisionsTable),
      ("events", eventsTable), ("orders", ordersTable),
      ("rule_evaluations", ruleEvaluationsTable), ("fills", fillsTable)] := by
  simp [tableDefs, upgradeHead, upgradeInitial, upgradeTradeJournal, createAliases,
    createKillSwitchEvents, createPositions, createRawTweets, createRiskLimits, createSettings,
    createWatchedAccounts, createLlmDecisions, createEvents, createOrders,
    createRuleEvaluations, createFills, auditTables, createTriggers, index]

theorem lookup_schema_iff {name : String} {t : Table F} :
    schema.lookup name = some t ↔ ∃ d, (name, d) ∈ tableDefs ∧ t = migrated.tableOf name d := by
  have hdef (d : TableDef F) :
      (name, d) ∈ tableDefs ↔ Ddl.create name (Object.table d) ∈ upgradeHead := by
    rw [tableDefs, List.mem_filterMap]
    constructor
    · rintro ⟨op, hop, h⟩
      split at h
      · obtain ⟨rfl, rfl⟩ := Prod.mk.inj (Option.some.inj h)
        exact hop
      · cases h
    · intro hop
      exact ⟨_, hop, rfl⟩
  rw [schema, Catalog.lookup_schema migrated_nodup]
  simp only [hdef, mem_migrated]

end XSocialTrader.Migrations
