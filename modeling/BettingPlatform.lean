import BettingPlatform.Foundations.Bytes
import BettingPlatform.Foundations.Runs
import BettingPlatform.Foundations.Interleaving
import BettingPlatform.Foundations.OffsetLog
import BettingPlatform.Foundations.Table
import BettingPlatform.Foundations.RowLocks
import BettingPlatform.Foundations.Serializability
import BettingPlatform.Foundations.Uuid
import BettingPlatform.Foundations.Decimal
import BettingPlatform.Foundations.DecimalRounding
import BettingPlatform.Foundations.DecimalSum
import BettingPlatform.Foundations.Python
import BettingPlatform.Foundations.DecimalText
import BettingPlatform.Foundations.Binary64
import BettingPlatform.Foundations.JsonText
import BettingPlatform.Foundations.JsonDumps
import BettingPlatform.RiskEngine.ConsumeLoop
import BettingPlatform.RiskEngine.Parser
import BettingPlatform.RiskEngine.Engine
import BettingPlatform.RiskEngine.AtomicSteps
import BettingPlatform.Ingress.Bets
import BettingPlatform.Wire.EngineReader
import BettingPlatform.Wire.Submitted
import BettingPlatform.Wire.WrittenObjects
import BettingPlatform.Wire.Results
import BettingPlatform.Wire.AcceptedBets
import BettingPlatform.Settlement.RunWorker
import BettingPlatform.Settlement.Models
import BettingPlatform.Settlement.Worker
import BettingPlatform.Settlement.Messages
import BettingPlatform.Settlement.Outcome
import BettingPlatform.Settlement.Mpesa
import BettingPlatform.Settlement.Journal
import BettingPlatform.Settlement.Credits
import BettingPlatform.Settlement.Versions
import BettingPlatform.Settlement.WorkerRaces
import BettingPlatform.Settlement.WorkerRuns
import BettingPlatform.Settlement.CallbackRaces
import BettingPlatform.Settlement.CallbackRuns
import BettingPlatform.Settlement.PushRaces
import BettingPlatform.Settlement.Pushes
import BettingPlatform.Platform.WalletCover
import BettingPlatform.RiskEngine.QuotedFields
import BettingPlatform.RiskEngine.ResultSchema
import BettingPlatform.Foundations.Redelivery
import BettingPlatform.RiskEngine.PairOrders
import BettingPlatform.RiskEngine.Redelivery
import BettingPlatform.Foundations.FirstUse
import BettingPlatform.Platform.PromisedPayout
import BettingPlatform.Settlement.OperationOrder
import BettingPlatform.SettlementJava.Agreement
import BettingPlatform.SettlementJava.ServiceRaces
import BettingPlatform.SettlementJava.ServiceRuns
import BettingPlatform.Foundations.ExpiringStore
import BettingPlatform.Foundations.Unwinding
import BettingPlatform.Ingress.OtpGuesses
import BettingPlatform.Ingress.Tokens
import BettingPlatform.Odds.ConnectionManager
import BettingPlatform.Odds.FanoutOrder
import BettingPlatform.Platform.MoneyArithmetic
import BettingPlatform.RiskEngine.Decisions
import BettingPlatform.RiskEngine.Encodings
import BettingPlatform.Settlement.Settled
import BettingPlatform.Settlement.NewResults
import BettingPlatform.Settlement.OutcomeRaces
import BettingPlatform.Settlement.OutcomeRuns
import BettingPlatform.Foundations.JoinedText
import BettingPlatform.Foundations.KeyedFold
import BettingPlatform.Foundations.FloatArithmetic
import BettingPlatform.Foundations.FloatOrder
import BettingPlatform.Foundations.FloatTruncation
import BettingPlatform.Foundations.JavaScript
import BettingPlatform.Ingress.TimestampDrift
import BettingPlatform.Ingress.IdempotencyKeys
import BettingPlatform.Odds.Ticks
import BettingPlatform.Frontend.OddsMarkets
import BettingPlatform.Frontend.BetSlip
import BettingPlatform.Settlement.OAuthCache
import BettingPlatform.Foundations.Trimming
import BettingPlatform.Ingress.PhoneNumbers
import BettingPlatform.Foundations.CheckedScan
import BettingPlatform.RiskEngine.Scanner
import BettingPlatform.Settlement.CallbackShapes
import BettingPlatform.Foundations.GrowingRows
import BettingPlatform.Settlement.History
import BettingPlatform.RiskEngine.BalanceSeeds
import BettingPlatform.RiskEngine.Benchmark
import BettingPlatform.RiskEngine.Sessions
import BettingPlatform.Settlement.Refusals
import BettingPlatform.Wire.DecidedBets
import BettingPlatform.Platform.Pipeline
import BettingPlatform.Platform.PipelineRuns
import BettingPlatform.Odds.Simulator
import BettingPlatform.Odds.Feed
import BettingPlatform.Frontend.OddsFeed
import BettingPlatform.Foundations.Base64
import BettingPlatform.Ingress.Passwords
import BettingPlatform.Ingress.Accounts
import BettingPlatform.Ingress.StoredTexts
