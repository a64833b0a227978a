import SparkCache.Replication.Credit
import SparkCache.Replication.Retransmission
import SparkCache.Lib.Crc32
import SparkCache.Lib.Patchwork
import SparkCache.Lib.References
import SparkCache.Maintenance.Inventory
import SparkCache.Maintenance.Outcome
import SparkCache.Maintenance.Pass
import SparkCache.Maintenance.Retention
import SparkCache.Maintenance.Selection
import SparkCache.Pages.Layout
import SparkCache.Pages.CaptureDelta
import SparkCache.Pages.ComposedHistory
import SparkCache.Pages.Composition
import SparkCache.Pages.Delta
import SparkCache.Pages.DeltaRoundTrip
import SparkCache.Pages.History
import SparkCache.Pages.Snapshot
import SparkCache.Lib.Files
import SparkCache.Store.SourceRuns
import SparkCache.Streaming.GatheredPages
import SparkCache.Rows.Copied
import SparkCache.Loading.Deferrals
import SparkCache.Store.MediaDigest
import SparkCache.RowStream.Agreement
import SparkCache.Replication.Fragments
import SparkCache.Replication.Escapes
import SparkCache.Streaming.PageSelection
import SparkCache.Placement.PageScatter
import SparkCache.Placement.Accepted
import SparkCache.Placement.Copies
import SparkCache.Restore.Splits
import SparkCache.Attribution
import SparkCache.Lib.Holdings
import SparkCache.RowStream.Coordinator
import SparkCache.RowStream.RingRuns
import SparkCache.Streaming.ReadLeases
import SparkCache.Streaming.LeaseThreads
import SparkCache.Loading.BaseReadThreads
import SparkCache.Streaming.JournalRuns
import SparkCache.Streaming.PreemptedCaptures
import SparkCache.Streaming.DelayedFrees
import SparkCache.Lib.Paging
import SparkCache.Quorum.Reports
import SparkCache.Quorum.Mirror
import SparkCache.Quorum.Following
import SparkCache.Quorum.Truth
import SparkCache.Quorum.Agreement
import SparkCache.Quorum.Convergence
import SparkCache.Quorum.Unchanged
import SparkCache.SharedRestore.FlightTable
import SparkCache.SharedRestore.Callbacks
import SparkCache.SharedRestore.Consistency
import SparkCache.SharedRestore.Runs
import SparkCache.SharedRestore.Bounds
import SparkCache.SharedRestore.Writes
