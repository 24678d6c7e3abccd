import SolanaBench.Lib.Splits
import SolanaBench.Lib.EventMachine
import SolanaBench.Lib.WhileLoop
import SolanaBench.Lib.SortedMap
import SolanaBench.Lib.AListWeight
import SolanaBench.Lib.BatchWriter
import SolanaBench.Lib.Effect
import SolanaBench.Lib.Trace
import SolanaBench.Lib.OnceGuard
import SolanaBench.Lib.ValueLease
import SolanaBench.Lib.ChannelScan
import SolanaBench.Lib.BoundOnce
import SolanaBench.Lib.History
import SolanaBench.EntrySources.Observation
import SolanaBench.EntrySources.ShredStreamGrpc
import SolanaBench.EntrySources.EntryIndices
import SolanaBench.EntrySources.CodecDiscovery
import SolanaBench.Nonce.Manager
import SolanaBench.Nonce.Allocation
import SolanaBench.Nonce.RpcPoller
import SolanaBench.Nonce.Freshness
import SolanaBench.TickTrigger.Merger
import SolanaBench.TickTrigger.MergerDedup
import SolanaBench.TickTrigger.MergerPayload
import SolanaBench.TickTrigger.PohSupervisor
import SolanaBench.TickTrigger.PohSlotMoves
import SolanaBench.TickTrigger.PohLifetimes
import SolanaBench.TickTrigger.PohLifecycle
import SolanaBench.TickTrigger.PohOrder
import SolanaBench.TickTrigger.PohTicks
import SolanaBench.TickTrigger.PohConservation
import SolanaBench.TickTrigger.PohReorder
import SolanaBench.TickTrigger.PohSequence
import SolanaBench.TickTrigger.PohTransparency
import SolanaBench.TickTrigger.LocalCompute
import SolanaBench.TickTrigger.TriggerEngine
import SolanaBench.TickTrigger.TriggerFiring
import SolanaBench.TickTrigger.Recorder
import SolanaBench.TickTrigger.RecorderOutcome
import SolanaBench.TickTrigger.RecorderAccounting
import SolanaBench.TickTrigger.Preparer
import SolanaBench.TickTrigger.NoncePipeline
import SolanaBench.TickTrigger.HashPipeline
import SolanaBench.TickTrigger.HashFreshness
import SolanaBench.TickTrigger.NonceExclusivity
import SolanaBench.FanOut.SlotHashCache
import SolanaBench.FanOut.Matcher
import SolanaBench.FanOut.MatcherRun
import SolanaBench.FanOut.MatcherIndex
import SolanaBench.FanOut.SiblingResolution
import SolanaBench.FanOut.NonceRestore
import SolanaBench.FanOut.Schedule
import SolanaBench.FanOut.Preparer
import SolanaBench.FanOut.Dispatcher
import SolanaBench.FanOut.NonceAttribution
import SolanaBench.Lib.Pipe
import SolanaBench.Lib.Projection
import SolanaBench.Lib.AListRetain
import SolanaBench.Lib.Gather
import SolanaBench.Lib.Feeds
import SolanaBench.Lib.FilterSum
import SolanaBench.EntrySources.FecTracker
import SolanaBench.EntrySources.FecSets
import SolanaBench.EntrySources.Deshred
import SolanaBench.EntrySources.SlotLayout
import SolanaBench.EntrySources.EntryPositions
import SolanaBench.EntryComparator.Correlator
import SolanaBench.EntryComparator.CorrelatorRecords
import SolanaBench.EntryComparator.Writer
import SolanaBench.EntryComparator.Report
import SolanaBench.TickTriggerBench.Finalizer
import SolanaBench.TickTriggerBench.FinalRecords
import SolanaBench.TxCutoff.AbortLoop
import SolanaBench.TxCutoff.Engine
import SolanaBench.TxCutoff.Tracker
import SolanaBench.TxCutoff.Report
import SolanaBench.TxCutoff.Schedule
import SolanaBench.TxCutoff.Resolution
import SolanaBench.TxCutoff.Inclusion
import SolanaBench.TxCutoff.Balance
import SolanaBench.Lib.Streak
import SolanaBench.TxCutoff.Abort
import SolanaBench.TickTrigger.RecorderAttempt
import SolanaBench.TickTrigger.Jito
import SolanaBench.Lib.ShardScan
import SolanaBench.FanOut.PoolRace
import SolanaBench.Lib.AListEach
import SolanaBench.TxCutoff.Coverage
import SolanaBench.TickTrigger.TipAccounts
import SolanaBench.TickTrigger.PoolMiss
import SolanaBench.Lib.WindowCount
import SolanaBench.EntrySources.PohSlot
import SolanaBench.FanOut.Merger
import SolanaBench.FanOut.MergedTicks
import SolanaBench.FanOut.Observer
import SolanaBench.TickTriggerBench.Observer
import SolanaBench.FanOut.ObserverTicks
import SolanaBench.TickTriggerBench.ObserverTicks
import SolanaBench.FanOut.ObserverStream
import SolanaBench.TickTrigger.PohTimeout
import SolanaBench.Nonce.RoundRobin
import SolanaBench.TxCutoff.TrackerRuns
import SolanaBench.TxCutoff.Wallet
import SolanaBench.TxCutoff.WalletSequence
import SolanaBench.Lib.WordOps
import SolanaBench.TxCutoff.ScheduleWords
import SolanaBench.TickTrigger.SlotHashWindow
import SolanaBench.Lib.RollingWindow
import SolanaBench.FanOut.SlotHashOrder
import SolanaBench.TickTrigger.Ordering
import SolanaBench.TickTrigger.OrderingReports
import SolanaBench.Lib.Tally
import SolanaBench.LeaderMap.Aggregate
import SolanaBench.LeaderMap.Conservation
import SolanaBench.TickTrigger.Triton
import SolanaBench.TickTrigger.Warmup
import SolanaBench.FanOut.SchedulePump
import SolanaBench.TickTrigger.Schedule
import SolanaBench.Lib.Text
import SolanaBench.TickTrigger.Memo
import SolanaBench.Lib.BatchNumbers
import SolanaBench.TickTriggerBench.Preparer
import SolanaBench.TickTriggerBench.PreSigned
import SolanaBench.TickTriggerBench.ObserverStream
import SolanaBench.TickTriggerBench.Deltas
import SolanaBench.TickTrigger.RecorderRows
import SolanaBench.TickTrigger.FinalReport
import SolanaBench.Lib.Custody
import SolanaBench.FanOut.StatusQueues
import SolanaBench.TickTriggerBench.RpcFallback
import SolanaBench.Lib.Json
import SolanaBench.Lib.BoundedChannel
import SolanaBench.FanOut.JsonRpc
import SolanaBench.TickTrigger.Replies
import SolanaBench.TxCutoff.Rpc
import SolanaBench.TickTrigger.PohCounters
import SolanaBench.TickTrigger.PohIndices
import SolanaBench.TickTrigger.PipelineFiring
import SolanaBench.TickTrigger.TriggerPipeline
import SolanaBench.FanOut.ParquetSink
import SolanaBench.TickTriggerBench.RunCustody
import SolanaBench.TickTriggerBench.RunAccounts
import SolanaBench.FanOut.ScheduleBridge
import SolanaBench.FanOut.TipAccounts
import SolanaBench.FanOut.SenderAttribution
import SolanaBench.TxCutoff.Preflight
import SolanaBench.TxCutoff.Budget
import SolanaBench.TickTrigger.Phase3Rows
import SolanaBench.LeaderMap.Cache
import SolanaBench.LeaderMap.CacheStore
