import Illuminator.Machine.Actions
import Illuminator.Machine.Arenas
import Illuminator.Machine.BoundedReads
import Illuminator.Machine.Components
import Illuminator.Machine.Descriptors
import Illuminator.Machine.Histories
import Illuminator.Machine.Insertions
import Illuminator.Machine.Interleaving
import Illuminator.Machine.KeyedTable
import Illuminator.Machine.Mutex
import Illuminator.Machine.PriorityQueue
import Illuminator.Machine.Regions
import Illuminator.Machine.Reports
import Illuminator.Machine.Transactions
import Illuminator.Model.ApiRoutes
import Illuminator.Model.Arena
import Illuminator.Model.AsyncChannel
import Illuminator.Model.BatchViews
import Illuminator.Model.BioLatency
import Illuminator.Model.BpfResources
import Illuminator.Model.BroadcastThreads
import Illuminator.Model.ChannelCalls
import Illuminator.Model.CollectRequests
import Illuminator.Model.ConfigValue
import Illuminator.Model.ContendedPipeline
import Illuminator.Model.CpuProfiler
import Illuminator.Model.CpuStatsAggregator
import Illuminator.Model.CpuUtilization
import Illuminator.Model.Daemon
import Illuminator.Model.DataBatch
import Illuminator.Model.Delivery
import Illuminator.Model.DiffView
import Illuminator.Model.ElfSymbolCache
import Illuminator.Model.FileExportSink
import Illuminator.Model.FlameGraph
import Illuminator.Model.GlobalConfig
import Illuminator.Model.InternalMetrics
import Illuminator.Model.Interning
import Illuminator.Model.Json
import Illuminator.Model.JsonDocument
import Illuminator.Model.JsonSerializer
import Illuminator.Model.KernelSymbols
import Illuminator.Model.LocalStorageSink
import Illuminator.Model.LockFreeQueue
import Illuminator.Model.MemTracer
import Illuminator.Model.OffcpuProfiler
import Illuminator.Model.OtlpExportSink
import Illuminator.Model.Pages
import Illuminator.Model.Pipeline
import Illuminator.Model.PipelineController
import Illuminator.Model.PipelineLifecycle
import Illuminator.Model.PluginManager
import Illuminator.Model.PoolThreads
import Illuminator.Model.PprofExportSink
import Illuminator.Model.ProcMaps
import Illuminator.Model.ProcReader
import Illuminator.Model.ProcStat
import Illuminator.Model.ProcessCpu
import Illuminator.Model.Processors
import Illuminator.Model.PrometheusSink
import Illuminator.Model.PushSource
import Illuminator.Model.QueueCalls
import Illuminator.Model.QueueWords
import Illuminator.Model.RawQuery
import Illuminator.Model.Scanf
import Illuminator.Model.SchedAnalyzer
import Illuminator.Model.SchedEvents
import Illuminator.Model.SourceStart
import Illuminator.Model.SqliteBackend
import Illuminator.Model.SqlitePrune
import Illuminator.Model.SqliteQuery
import Illuminator.Model.SqliteThreads
import Illuminator.Model.StackMerger
import Illuminator.Model.StackTraceUtil
import Illuminator.Model.Status
import Illuminator.Model.Streams
import Illuminator.Model.StringUtil
import Illuminator.Model.Strings
import Illuminator.Model.ThreadPool
import Illuminator.Model.TimeSeries
import Illuminator.Model.TimerWheel
import Illuminator.Model.WebSocketCodec
import Illuminator.Model.WebSocketHandshake
import Illuminator.Model.WebSocketLocks
import Illuminator.Model.WebSocketManager
import Illuminator.Model.WebSocketSinkStore
import Illuminator.Model.WsManager
import Illuminator.Soundness.AggregatorWindows
import Illuminator.Soundness.ArenaRegions
import Illuminator.Soundness.AsyncChannelConservation
import Illuminator.Soundness.BackpressureReports
import Illuminator.Soundness.BioAttribution
import Illuminator.Soundness.BpfReleases
import Illuminator.Soundness.BroadcastIsolation
import Illuminator.Soundness.ChannelHysteresis
import Illuminator.Soundness.ChartUpdates
import Illuminator.Soundness.CloseFrames
import Illuminator.Soundness.CollectCalls
import Illuminator.Soundness.ConfigFlattening
import Illuminator.Soundness.ConnectionRuns
import Illuminator.Soundness.ConnectionTable
import Illuminator.Soundness.ContendedMoves
import Illuminator.Soundness.ControllerMoves
import Illuminator.Soundness.ControllerThreads
import Illuminator.Soundness.CpuAverages
import Illuminator.Soundness.CpuShares
import Illuminator.Soundness.DirectDelivery
import Illuminator.Soundness.ElfReads
import Illuminator.Soundness.ExposedFields
import Illuminator.Soundness.FailedDeliveries
import Illuminator.Soundness.FailedStarts
import Illuminator.Soundness.FileExports
import Illuminator.Soundness.FlameWeights
import Illuminator.Soundness.FlushDelivery
import Illuminator.Soundness.FoldedStacks
import Illuminator.Soundness.HandshakeAccept
import Illuminator.Soundness.HarmlessRequests
import Illuminator.Soundness.HeaderExtraction
import Illuminator.Soundness.HttpProcessing
import Illuminator.Soundness.InsertedRequests
import Illuminator.Soundness.InternedStrings
import Illuminator.Soundness.KernelLookup
import Illuminator.Soundness.LeakTable
import Illuminator.Soundness.LiveFeed
import Illuminator.Soundness.LocalStorageWrites
import Illuminator.Soundness.LockDiscipline
import Illuminator.Soundness.LockFreeQueueSafety
import Illuminator.Soundness.LockRuns
import Illuminator.Soundness.MapsLines
import Illuminator.Soundness.MergedFlames
import Illuminator.Soundness.OffcpuConfiguration
import Illuminator.Soundness.OffcpuDelivery
import Illuminator.Soundness.OffcpuIntervals
import Illuminator.Soundness.OtlpPayload
import Illuminator.Soundness.PidLists
import Illuminator.Soundness.PipelineMoves
import Illuminator.Soundness.PipelineShutdown
import Illuminator.Soundness.PluginLoading
import Illuminator.Soundness.PoolRuns
import Illuminator.Soundness.PoolTasks
import Illuminator.Soundness.PoolWakeups
import Illuminator.Soundness.ProcessShares
import Illuminator.Soundness.ProcessTable
import Illuminator.Soundness.ProcessorMemory
import Illuminator.Soundness.ProfileCounts
import Illuminator.Soundness.ProfileDiffs
import Illuminator.Soundness.PrunedRows
import Illuminator.Soundness.PullShutdown
import Illuminator.Soundness.PushStart
import Illuminator.Soundness.QueryEffects
import Illuminator.Soundness.QueryIsolation
import Illuminator.Soundness.QueueFifo
import Illuminator.Soundness.RecordSeries
import Illuminator.Soundness.RetentionTimer
import Illuminator.Soundness.SchedAccounts
import Illuminator.Soundness.SchedLogs
import Illuminator.Soundness.SelfMetrics
import Illuminator.Soundness.Sha1Refinement
import Illuminator.Soundness.SinkWrites
import Illuminator.Soundness.SqliteAtomicity
import Illuminator.Soundness.SqliteRoundTrip
import Illuminator.Soundness.StackCounts
import Illuminator.Soundness.StackDurations
import Illuminator.Soundness.StackGroups
import Illuminator.Soundness.StackLookup
import Illuminator.Soundness.StartStop
import Illuminator.Soundness.StatLines
import Illuminator.Soundness.StoreIsolation
import Illuminator.Soundness.SwitchLatency
import Illuminator.Soundness.SymbolFreshness
import Illuminator.Soundness.SymbolLookup
import Illuminator.Soundness.TimerPasses
import Illuminator.Soundness.TimerRuns
import Illuminator.Soundness.TimerSeries
import Illuminator.Soundness.TotalJiffies
import Illuminator.Soundness.UserAddresses
import Illuminator.Soundness.UtilizationHistory
import Illuminator.Soundness.ViewOwnership
import Illuminator.Soundness.WebSocketFrames
import Illuminator.Soundness.WebSocketInput
import Illuminator.Soundness.WebSocketRoundTrip
import Illuminator.Soundness.WebSocketStream
import Illuminator.Soundness.WindowStatistics
import Illuminator.Soundness.WsRuns
import Illuminator.Soundness.WsSubscriptions
import Illuminator.Standards.Base64
import Illuminator.Standards.JsonScanning
import Illuminator.Standards.JsonText
import Illuminator.Standards.PrometheusText
import Illuminator.Standards.Sha1
import Illuminator.Standards.UnescapedJson
import Illuminator.ToMathlib.BigEndian
import Illuminator.ToMathlib.Delimited
import Illuminator.ToMathlib.FallibleLoops
import Illuminator.ToMathlib.Gather
import Illuminator.ToMathlib.Interpolation
import Illuminator.ToMathlib.LastEntries
import Illuminator.ToMathlib.NamedTrees
import Illuminator.ToMathlib.SeparatedPaths
