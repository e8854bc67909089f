import AiTrader.Agent.CallPairing
import AiTrader.Agent.DebateProtocol
import AiTrader.Agent.DeclareTrade
import AiTrader.Agent.IdempotentCommits
import AiTrader.Agent.Ladder
import AiTrader.Agent.PlanParity
import AiTrader.Agent.PrunedHistory
import AiTrader.Agent.ReasoningMarkup
import AiTrader.Agent.Recommendations
import AiTrader.Agent.SessionBudget
import AiTrader.Agent.Stances
import AiTrader.Agent.TextCallSharing
import AiTrader.Backtest.Agreement
import AiTrader.Backtest.NoLookahead
import AiTrader.CandleStore.Backfill
import AiTrader.Compliance.Recorders
import AiTrader.Entitlement.Keys
import AiTrader.Events.Assessment
import AiTrader.Identity.Acceptance
import AiTrader.Ingestion.Frame
import AiTrader.Ingestion.Subscriptions
import AiTrader.Journal.SingleTarget
import AiTrader.Journal.SlidingWindow
import AiTrader.Journal.Weights
import AiTrader.Library.Table
import AiTrader.Library.Transition
import AiTrader.MarketData.CandleAgreement
import AiTrader.MarketData.CandleFold
import AiTrader.MarketData.Decision
import AiTrader.MarketData.VolumeConservation
import AiTrader.MarketSession.PhaseMinutes
import AiTrader.OptionChain.CrossProduct
import AiTrader.OptionChain.Freshness
import AiTrader.Options.Buildup
import AiTrader.Options.ImpliedVol
import AiTrader.Options.MaxPain
import AiTrader.QuantCore.ChartPatterns.Analyze
import AiTrader.QuantCore.GhostLine
import AiTrader.QuantCore.Swings
import AiTrader.ServiceMetrics.Refresh
import AiTrader.Session.Cancellation
import AiTrader.Session.ConcurrentAppends
import AiTrader.Session.Deleted
import AiTrader.Session.Isolation
import AiTrader.Session.Pagination
import AiTrader.Session.Reattach
import AiTrader.Session.Reconcile
import AiTrader.Session.RunOutcome
import AiTrader.Session.Truncation
import AiTrader.Stream.Turns
import AiTrader.Telemetry.Counting
import AiTrader.Telemetry.ReportFigures
import AiTrader.Telemetry.RoundTrip
import AiTrader.Telemetry.StoredReport
import AiTrader.Telemetry.Suspended
import AiTrader.TradeManager.BoundedLoss
import AiTrader.TradeManager.NoLookahead
import AiTrader.TradeManager.SizeConservation
import AiTrader.TradeManager.ValidatedReward
import AiTrader.VolumeProfile.Profile
import AiTrader.Watch.Heartbeats
