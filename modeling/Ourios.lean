import Ourios.Foundation.BucketTrie
import Ourios.Core.Text
import Ourios.Core.Audit
import Ourios.Miner.Tokenize
import Ourios.Core.Record
import Ourios.Miner.Mask
import Ourios.Miner.Template
import Ourios.Miner.Tree
import Ourios.Foundation.AssocMap
import Ourios.Miner.Upstream
import Ourios.Miner.Plan
import Ourios.Miner.Cluster
import Ourios.Miner.PlanSpec
import Ourios.Foundation.Machine
import Ourios.Miner.Step
import Ourios.Miner.Ingest
import Ourios.Miner.Bookkeeping
import Ourios.Miner.Run
import Ourios.Querier.Registry
import Ourios.Querier.Faithful
import Ourios.Miner.AuditTrail
import Ourios.Foundation.Sorting
import Ourios.Miner.Snapshot
import Ourios.Miner.Persist
import Ourios.Foundation.FallibleFold
import Ourios.Miner.RestoreSpec
import Ourios.Miner.Placement
import Ourios.Miner.Descent
import Ourios.Miner.Twin
import Ourios.Miner.Congruence
import Ourios.Miner.Recoverable
import Ourios.Miner.Recovery
import Ourios.Miner.Resumption
import Ourios.Foundation.Bytes
import Ourios.Wal.Format
import Ourios.Wal.Writer
import Ourios.Wal.WriterSpec
import Ourios.Wal.Chronology
import Ourios.Wal.Replay
import Ourios.Wal.Durability
import Ourios.Foundation.Escaping
import Ourios.Foundation.Kleene
import Ourios.Querier.Attributes
import Ourios.Querier.Filter
import Ourios.Querier.Meaning
import Ourios.Querier.SchemaGap
import Ourios.Querier.Execute
import Ourios.Querier.Masking
import Ourios.Foundation.Interleaving
import Ourios.Parquet.Manifest
import Ourios.Parquet.Partition
import Ourios.Parquet.Invariant
import Ourios.Parquet.Conduct
import Ourios.Parquet.Requests
import Ourios.Parquet.Readers
import Ourios.Parquet.Saturation
import Ourios.Miner.Allocator
import Ourios.Miner.Routing
import Ourios.Foundation.Schedules
import Ourios.Receiver.Commit
import Ourios.Receiver.CommitSpec
import Ourios.Receiver.CommitLive
import Ourios.Foundation.Aggregate
import Ourios.Wal.Ledger
import Ourios.Wal.LedgerSpec
import Ourios.Wal.LedgerCalls
import Ourios.Foundation.Buffer
import Ourios.Foundation.OrderedMap
import Ourios.Wal.Reclaim
import Ourios.Wal.ReclaimCodec
import Ourios.Wal.ReclaimRoundTrip
import Ourios.Wal.ReclaimDecode
import Ourios.Wal.ReclaimStore
import Ourios.Wal.ReclaimRun
import Ourios.Wal.Payload
import Ourios.Wal.Rebuild
import Ourios.Wal.ReclaimAccepts
import Ourios.Wal.LedgerPlans
import Ourios.Wal.Reconcile
import Ourios.Wal.Housekeeping
import Ourios.Wal.MergePlan
import Ourios.Wal.HousekeepingSpec
import Ourios.Foundation.Ranking
import Ourios.Replicated.Placement
import Ourios.Querier.RegistryOrder
import Ourios.Foundation.Grammar
import Ourios.Miner.MaskGrammar
import Ourios.Parquet.ExternalSort
import Ourios.Querier.BodyEquality
import Ourios.Querier.StringLiteral
