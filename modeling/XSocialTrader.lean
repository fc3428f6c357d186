import XSocialTrader.Lib.Json
import XSocialTrader.Lib.OrderedDict
import XSocialTrader.Lib.JsonRoundTrip
import XSocialTrader.Lib.JsonWriter
import XSocialTrader.Lib.Results
import XSocialTrader.Providers.Decision
import XSocialTrader.Providers.OpenAiCompatible
import XSocialTrader.Lib.LabelledRun
import XSocialTrader.Lib.WorkerLoop
import XSocialTrader.Lib.FixedWidth
import XSocialTrader.Lib.Outbox
import XSocialTrader.Lib.LeftJoin
import XSocialTrader.Lib.Separator
import XSocialTrader.Lib.KeyedBest
import XSocialTrader.Lib.Strip
import XSocialTrader.Lib.FirstSeen
import XSocialTrader.Core.Values
import XSocialTrader.Lib.Extended
import XSocialTrader.Core.FloatValues
import XSocialTrader.Core.Clock
import XSocialTrader.Models.Orders
import XSocialTrader.Models.Tables
import XSocialTrader.Rules.Models
import XSocialTrader.Rules.Loader
import XSocialTrader.Rules.Store
import XSocialTrader.Rules.Engine
import XSocialTrader.Rules.Evaluation
import XSocialTrader.Risk.Rules
import XSocialTrader.Risk.Manager
import XSocialTrader.Core.Text
import XSocialTrader.Core.JsonValues
import XSocialTrader.KillSwitch.Service
import XSocialTrader.KillSwitch.Interleaving
import XSocialTrader.KillSwitch.Coherence
import XSocialTrader.Execution.Context
import XSocialTrader.Execution.AccountData
import XSocialTrader.Execution.Executor
import XSocialTrader.Execution.Fills
import XSocialTrader.Services.RulePipeline
import XSocialTrader.Services.RuleIsolation
import XSocialTrader.Services.OrderSchemas
import XSocialTrader.Services.OrderKeys
import XSocialTrader.Models.Decisions
import XSocialTrader.Models.TradeJournal
import XSocialTrader.Services.Aliases
import XSocialTrader.Services.AliasOrder
import XSocialTrader.Services.AliasForms
import XSocialTrader.Services.AliasUnion
import XSocialTrader.Services.LlmPipeline
import XSocialTrader.Services.EventPublishing
import XSocialTrader.Services.EventSources
import XSocialTrader.Execution.Workers
import XSocialTrader.Execution.SoloRun
import XSocialTrader.Execution.KillRace
import XSocialTrader.Execution.DoubleOrder
import XSocialTrader.Services.OrderRecords
import XSocialTrader.Services.OrderDelivery
import XSocialTrader.Services.OrderLimits
import XSocialTrader.Services.AuditTrail
import XSocialTrader.Services.Replay
import XSocialTrader.Services.LlmIteration
import XSocialTrader.Services.Ingestion
import XSocialTrader.Services.IngestionRun
import XSocialTrader.Services.LlmBudget
import XSocialTrader.Services.LlmOvershoot
import XSocialTrader.Services.JournalRuns
import XSocialTrader.Lib.Reconcile
import XSocialTrader.Services.WatchedAccounts
import XSocialTrader.Services.PositionsSync
import XSocialTrader.Lib.QueueRun
import XSocialTrader.Services.LlmRun
import XSocialTrader.Services.QueueEntries
import XSocialTrader.Lib.Backoff
import XSocialTrader.Providers.TwitterApiIo
import XSocialTrader.Lib.PatternSub
import XSocialTrader.Lib.PatternShape
import XSocialTrader.Core.Logging
import XSocialTrader.Lib.SqlTable
import XSocialTrader.Lib.SqlStore
import XSocialTrader.Lib.SqlCatalog
import XSocialTrader.Lib.Retry
import XSocialTrader.Lib.SharedLog
import XSocialTrader.Lib.Counters
import XSocialTrader.Models.Schema
import XSocialTrader.Models.AuditStore
import XSocialTrader.Models.StoredRows
import XSocialTrader.Models.StoredTweets
import XSocialTrader.Models.StoredEvents
import XSocialTrader.Providers.Ib
import XSocialTrader.Providers.IbReads
import XSocialTrader.Providers.TwitterApiClient
import XSocialTrader.Services.MonitorSync
import XSocialTrader.Services.RuleReports
import XSocialTrader.Services.LlmReports
import XSocialTrader.Services.BudgetLedgers
import XSocialTrader.Lib.SqlSeed
import XSocialTrader.Models.Seed
import XSocialTrader.Services.OrderLineage
import XSocialTrader.Services.JournalWrites
import XSocialTrader.Services.FeedCapture
import XSocialTrader.KillSwitch.Shutdown
import XSocialTrader.Lib.Admission
import XSocialTrader.Services.Shutdown
