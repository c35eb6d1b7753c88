import PerlLsp.AnchorLocations
import PerlLsp.BoundedLruCache
import PerlLsp.Breakpoints
import PerlLsp.CancellationRegistry
import PerlLsp.CheckpointLookups
import PerlLsp.CheckpointRetention
import PerlLsp.CommandArgs
import PerlLsp.CommandLineLossless
import PerlLsp.CompletionPath
import PerlLsp.CoreIncremental
import PerlLsp.DebuggerLiteral
import PerlLsp.DiagnosticDedup
import PerlLsp.DiagnosticsSink
import PerlLsp.DocumentChange
import PerlLsp.EditSet
import PerlLsp.HeredocCollector
import PerlLsp.IncomingRequests
import PerlLsp.IncrementalDocument
import PerlLsp.LexicalSnapshot
import PerlLsp.LineIndexLookups
import PerlLsp.ModuleExports
import PerlLsp.OperationBroker
import PerlLsp.OutboundDelivery
import PerlLsp.PackageHistory
import PerlLsp.PackageTraversal
import PerlLsp.ParseWorker
import PerlLsp.ParserTokens
import PerlLsp.QuoteParts
import PerlLsp.RegionMarkers
import PerlLsp.RuntimeInterleavings
import PerlLsp.SafeEvalAgreement
import PerlLsp.SafeEvalAssignments
import PerlLsp.SafeEvalCalls
import PerlLsp.SchedulerReplies
import PerlLsp.SemanticSegments
import PerlLsp.SemanticTokens
import PerlLsp.SequentialReader
import PerlLsp.ShardReplacement
import PerlLsp.SnippetFallback
import PerlLsp.SourceLines
import PerlLsp.Strict
import PerlLsp.StructuredReading
import PerlLsp.SymbolSearch
import PerlLsp.SynchronousChange
import PerlLsp.TextDoc
import PerlLsp.UriKeyTwice
import PerlLsp.ValueSoundness
import PerlLsp.VarRef
import PerlLsp.WatcherSchedule
import PerlLsp.WhitespaceGeometry
import PerlLsp.WorkspaceBatch
import PerlLsp.WorkspaceCommits
import PerlLsp.WorkspaceLive
import PerlLsp.WorkspaceSymbols
import PerlLsp.WorkspaceTornReads
