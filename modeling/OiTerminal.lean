import OiTerminal.Lib.Transition
import OiTerminal.Lib.Rounding
import OiTerminal.Collector.Aggregator
import OiTerminal.Collector.LiveFeed
import OiTerminal.Exchanges.Enrichment
import OiTerminal.Storage.Wal
import OiTerminal.Core.Rfc3339
import OiTerminal.Lib.MessagePack
import OiTerminal.Storage.BarCodec
import OiTerminal.Storage.WalNode
import OiTerminal.Storage.WalNoLoss
import OiTerminal.Replication.Failover
import OiTerminal.Storage.WalEras
import OiTerminal.Core.DecimalText
import OiTerminal.Core.Funding
import OiTerminal.Lib.ReplacingTable
import OiTerminal.Storage.ClickHouse
import OiTerminal.Lib.ReplayQueue
import OiTerminal.Storage.ClickHouseReads
import OiTerminal.Storage.HalfOpen
import OiTerminal.Storage.WalReplay
import OiTerminal.Collector.FundingSweep
import OiTerminal.Exchanges.Ws
import OiTerminal.Lib.Backoff
import OiTerminal.Exchanges.Supervisor
import OiTerminal.Lib.Register
import OiTerminal.Exchanges.BybitStream
import OiTerminal.Lib.Scientific
import OiTerminal.Exchanges.JsonNumber
import OiTerminal.Lib.Batch
import OiTerminal.Exchanges.Rest
import OiTerminal.Exchanges.BatchIsolation
import OiTerminal.Storage.Composite
import OiTerminal.Replication.LeaseFlag
import OiTerminal.Collector.Scheduler
import OiTerminal.Collector.PriceProvider
import OiTerminal.Collector.ExchangeLoop
import OiTerminal.Collector.RestMinute
import OiTerminal.Collector.LatePricing
import OiTerminal.Collector.FlushRace
import OiTerminal.Storage.WalPower
import OiTerminal.Api.Subscribe
import OiTerminal.Storage.Decorators
import OiTerminal.Collector.Alignment
import OiTerminal.Api.Range
import OiTerminal.Api.RangeBatch
import OiTerminal.Api.Columns
import OiTerminal.Api.Grpc
import OiTerminal.Lib.Ohlc
import OiTerminal.Lib.EarlyExit
import OiTerminal.Lib.Crc
import OiTerminal.Core.BarFold
import OiTerminal.Core.BarOrigins
import OiTerminal.Collector.SampleCount
import OiTerminal.Exchanges.Okx
import OiTerminal.Exchanges.UsdClose
import OiTerminal.Api.Auth
import OiTerminal.Api.Server
import OiTerminal.Storage.WalDir
import OiTerminal.Storage.WalCalls
import OiTerminal.Storage.DrainOnce
import OiTerminal.Storage.Quarantine
import OiTerminal.Storage.WalFormat
import OiTerminal.Lib.Numeral
import OiTerminal.Storage.PendingOrder
import OiTerminal.Storage.Reaper
import OiTerminal.Lib.Forward
import OiTerminal.Lib.Reader
import OiTerminal.Storage.SplitSql
import OiTerminal.Collector.FundingDerivation
import OiTerminal.Collector.SweepPool
import OiTerminal.Collector.HistorySweep
import OiTerminal.Api.RunBatch
import OiTerminal.Lib.Scan
import OiTerminal.Collector.PriceFallback
import OiTerminal.Collector.Discovery
import OiTerminal.Lib.Broadcast
import OiTerminal.Storage.PubSub
import OiTerminal.Api.Broadcast
import OiTerminal.Api.GrpcStream
import OiTerminal.Lib.Chunks
import OiTerminal.Exchanges.Handlers
import OiTerminal.Exchanges.LiveStreams
import OiTerminal.Collector.LiveNode
import OiTerminal.Lib.Gather
import OiTerminal.Exchanges.FetchPool
import OiTerminal.Exchanges.FundingIntervals
import OiTerminal.Lib.MaxRegister
import OiTerminal.Api.SysMetrics
import OiTerminal.Lib.Spaced
import OiTerminal.Collector.SweepLoop
import OiTerminal.Exchanges.Http
import OiTerminal.Exchanges.HistoryCalls
import OiTerminal.Collector.WafBan
import OiTerminal.Lib.Pages
import OiTerminal.Exchanges.Discovery
import OiTerminal.Collector.Metadata
import OiTerminal.Lib.Expiring
import OiTerminal.Storage.HotCache
import OiTerminal.Lib.Outbox
import OiTerminal.Api.Reads
