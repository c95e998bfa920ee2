import SilkChiffon.Lib.Lists
import SilkChiffon.Lib.Liveness
import SilkChiffon.Lib.Machine
import SilkChiffon.Lib.Duration
import SilkChiffon.Lib.Chunking
import SilkChiffon.Lib.Emit
import SilkChiffon.Lib.Trace
import SilkChiffon.Lib.Worklist
import SilkChiffon.Lib.Fallible
import SilkChiffon.Lib.Effects
import SilkChiffon.Lib.LruCache
import SilkChiffon.Lib.Keyed
import SilkChiffon.Lib.Lexicographic
import SilkChiffon.Lib.ThreeValued
import SilkChiffon.Lib.Scanner
import SilkChiffon.Lib.Percent
import SilkChiffon.Lib.Text
import SilkChiffon.Lib.Segments
import SilkChiffon.Lib.Glob
import SilkChiffon.Lib.EncodedText
import SilkChiffon.Lib.KeyClaims
import SilkChiffon.Lib.Grouping
import SilkChiffon.Lib.Intervals
import SilkChiffon.Lib.Float64
import SilkChiffon.Lib.FloatValues
import SilkChiffon.Lib.Rounding
import SilkChiffon.Lib.Calendar
import SilkChiffon.Arrow.Schema
import SilkChiffon.Arrow.RecordBatch
import SilkChiffon.Core.MemoryPool
import SilkChiffon.Core.CommonOrdering
import SilkChiffon.Cli.MemoryBudget
import SilkChiffon.Cli.BudgetArithmetic
import SilkChiffon.Cli.SortSpec
import SilkChiffon.Core.InputStoreView
import SilkChiffon.Core.SchemaComparison
import SilkChiffon.Transform.ColumnReference
import SilkChiffon.Transform.FileInput
import SilkChiffon.Transform.SortMemory
import SilkChiffon.FileOutput.PartitionRuns
import SilkChiffon.FileOutput.History
import SilkChiffon.FileOutput.Delivery
import SilkChiffon.FileOutput.Writer
import SilkChiffon.FileOutput.Strategies
import SilkChiffon.FileOutput.Guarantees
import SilkChiffon.FileOutput.Selection
import SilkChiffon.FileOutput.SortedFiles
import SilkChiffon.Parquet.Ingestion
import SilkChiffon.Parquet.RowGroupEncoding
import SilkChiffon.Parquet.Pipeline
import SilkChiffon.Parquet.Failures
import SilkChiffon.Parquet.Settling
import SilkChiffon.Parquet.Completeness
import SilkChiffon.Parquet.LeafColumns
import SilkChiffon.Parquet.WriterProperties
import SilkChiffon.Parquet.BaseProperties
import SilkChiffon.Parquet.SortMetadata
import SilkChiffon.Parquet.ColumnPolicies
import SilkChiffon.Parquet.RowGroupProperties
import SilkChiffon.Parquet.EncodingDecisions
import SilkChiffon.Parquet.ColumnEncodings
import SilkChiffon.Parquet.ColumnOptions
import SilkChiffon.Parquet.CardinalityAnalysis
import SilkChiffon.BigQuery.Backoff
import SilkChiffon.BigQuery.BackoffGrowth
import SilkChiffon.BigQuery.RetryBudget
import SilkChiffon.BigQuery.Classification
import SilkChiffon.BigQuery.StatusDetails
import SilkChiffon.BigQuery.Payload
import SilkChiffon.BigQuery.ReadStream
import SilkChiffon.BigQuery.Delivery
import SilkChiffon.BigQuery.Deadlines
import SilkChiffon.BigQuery.RetryWindow
import SilkChiffon.BigQuery.SustainedProgress
import SilkChiffon.BigQuery.Pushdown
import SilkChiffon.BigQuery.GoogleSql
import SilkChiffon.BigQuery.PushdownText
import SilkChiffon.BigQuery.DecimalText
import SilkChiffon.BigQuery.Restriction
import SilkChiffon.BigQuery.QuotedText
import SilkChiffon.BigQuery.TemporalText
import SilkChiffon.BigQuery.FloatText
import SilkChiffon.BigQuery.FloatPushdown
import SilkChiffon.Arrow.FieldEquality
import SilkChiffon.Arrow.FileLayout
import SilkChiffon.Arrow.FileRanges
import SilkChiffon.Arrow.StreamScan
import SilkChiffon.Arrow.StreamMessages
import SilkChiffon.Arrow.WholeFiles
import SilkChiffon.Arrow.SampleStatistics
import SilkChiffon.Arrow.ExactRows
import SilkChiffon.Arrow.StreamWalk
import SilkChiffon.BigQuery.Projection
import SilkChiffon.BigQuery.ArrowIpc
import SilkChiffon.BigQuery.Framing
import SilkChiffon.BigQuery.Decoding
import SilkChiffon.BigQuery.FrameLength
import SilkChiffon.BigQuery.SessionSchema
import SilkChiffon.BigQuery.Snapshot
import SilkChiffon.BigQuery.AdmissionBound
import SilkChiffon.Storage.Location
import SilkChiffon.Storage.Patterns
import SilkChiffon.Storage.PatternDecoding
import SilkChiffon.Storage.ListingPrefix
import SilkChiffon.Storage.MatchedUrls
import SilkChiffon.Storage.OutputTargets
import SilkChiffon.Storage.TargetOwnership
import SilkChiffon.FileOutput.TargetTemplate
import SilkChiffon.FileOutput.PartitionKeys
import SilkChiffon.FileOutput.PartitionTargets
import SilkChiffon.FileOutput.DistinctTargets
import SilkChiffon.FileOutput.PathStructure
import SilkChiffon.Registration.CommandKeys
import SilkChiffon.Registration.Registries
import SilkChiffon.Registration.Detection
import SilkChiffon.Registration.Assembly
import SilkChiffon.Registration.Clashes
import SilkChiffon.Storage.Upload
import SilkChiffon.Storage.Lifecycle
import SilkChiffon.Storage.Progress
import SilkChiffon.Storage.Fidelity
import SilkChiffon.Lib.Producer
import SilkChiffon.Storage.UploadTask
import SilkChiffon.Arrow.Sink
import SilkChiffon.Vortex.Sink
import SilkChiffon.FileOutput.Blocks
import SilkChiffon.BigQuery.Sessions
import SilkChiffon.BigQuery.SessionRetries
import SilkChiffon.BigQuery.Scan
import SilkChiffon.Lib.Gather
import SilkChiffon.Core.FileGroups
import SilkChiffon.Core.FileTables
import SilkChiffon.FileOutput.Exact
import SilkChiffon.FileOutput.Binding
import SilkChiffon.FileOutput.BoundWrites
