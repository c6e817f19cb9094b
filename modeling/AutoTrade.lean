import AutoTrade.Paper.Proofs.Simulated
import AutoTrade.Paper.Proofs.VerdictRuns
import AutoTrade.Pipelines.CallBudget
import AutoTrade.Pipelines.Proofs.ValidationRecord
import AutoTrade.Pipelines.Proofs.RecordedSteps
import AutoTrade.Pipelines.Proofs.ValidateAllowance
import AutoTrade.Pipelines.Proofs.SessionResume
import AutoTrade.Environment.Proofs.Executor
import AutoTrade.Environment.Proofs.Solvency
import AutoTrade.Environment.Proofs.IdentityRuns
import AutoTrade.Ops.Proofs.LoginGateway
import AutoTrade.DataSources.Tushare.Proofs.CronUpdate
import AutoTrade.Environment.Proofs.LotPath
import AutoTrade.Environment.Proofs.DailyMarketData
import AutoTrade.Environment.Proofs.FillPrices
import AutoTrade.Environment.Proofs.DailyReplayEngine
import AutoTrade.Paper.Proofs.VerdictReadings
import AutoTrade.DataSources.Tushare.Proofs.Retention
import AutoTrade.Pipelines.Proofs.GuardedEvaluation
import AutoTrade.Pipelines.Proofs.SeedReplicates
import AutoTrade.Environment.Proofs.NullDraws
import AutoTrade.Environment.Proofs.TradeSkeleton
import AutoTrade.Environment.Proofs.SellableAtExit
import AutoTrade.Environment.Proofs.TimeviewParts
import AutoTrade.Ops.Proofs.SafeNext
import AutoTrade.Environment.Tools.Proofs.Files
import AutoTrade.Environment.Tools.Proofs.Base
import AutoTrade.Environment.Tools.Proofs.Search
import AutoTrade.Environment.Llm.Proofs.ToolCalls
import AutoTrade.Environment.Llm.Proofs.CutStreams
import AutoTrade.Environment.Tools.Proofs.Workspace
import AutoTrade.Environment.Proofs.RevisionValues
import AutoTrade.DataSources.Tushare.Proofs.Frames
import AutoTrade.DataSources.Tushare.Proofs.Deduplicate
import AutoTrade.DataSources.Tushare.Proofs.WindowRefresh
import AutoTrade.DataSources.Tushare.Proofs.MisreadWindow
import AutoTrade.Environment.Proofs.EventPruning
import AutoTrade.Pipelines.Proofs.InboxPending
import AutoTrade.Pipelines.Proofs.LedgerRuns
import AutoTrade.Pipelines.Proofs.Calendar
import AutoTrade.Environment.Proofs.TimeBudget
import AutoTrade.Environment.Proofs.Contracts
import AutoTrade.Environment.Proofs.Stats
import AutoTrade.Webui.Proofs.Memory
import AutoTrade.Pipelines.Proofs.SkillLibrary
import AutoTrade.Agent.Proofs.Compact
import AutoTrade.Environment.Proofs.NodeReferences
import AutoTrade.Environment.Proofs.TraceRuns
import AutoTrade.Paper.Proofs.Reruns
import AutoTrade.DataSources.Tushare.Proofs.Commits
