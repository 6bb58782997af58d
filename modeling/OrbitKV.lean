import OrbitKV.Catalog.Index
import OrbitKV.Catalog.Membership
import OrbitKV.Channel.Arena
import OrbitKV.Channel.CacheProtocol
import OrbitKV.Channel.Completion
import OrbitKV.Channel.Descriptor
import OrbitKV.Channel.RestoreSession
import OrbitKV.Cluster.Coordinator
import OrbitKV.Cluster.Credit
import OrbitKV.Cluster.Registration
import OrbitKV.Cluster.Scope
import OrbitKV.Cluster.Stream
import OrbitKV.Cluster.Watch
import OrbitKV.Gpu.Codec
import OrbitKV.Lib.Bisect
import OrbitKV.Lib.ChangeLog
import OrbitKV.Lib.Chunks
import OrbitKV.Lib.Discipline
import OrbitKV.Lib.Ends
import OrbitKV.Lib.FirstFit
import OrbitKV.Lib.Keyed
import OrbitKV.Lib.Lru
import OrbitKV.Lib.Machine
import OrbitKV.Lib.MapSum
import OrbitKV.Lib.Moves
import OrbitKV.Lib.Multiples
import OrbitKV.Lib.Mvcc
import OrbitKV.Lib.OrderedMap
import OrbitKV.Lib.Process
import OrbitKV.Lib.Ranges
import OrbitKV.Lib.Ring
import OrbitKV.Lib.Segmentation
import OrbitKV.Lib.Sorted
import OrbitKV.Lib.Text
import OrbitKV.Lib.Watch
import OrbitKV.Lib.Wire
import OrbitKV.Lib.Word
import OrbitKV.Peer.Execute
import OrbitKV.Planning.Peer
import OrbitKV.Planning.Replica
import OrbitKV.Proof.Advertised
import OrbitKV.Proof.CacheCodec
import OrbitKV.Proof.CacheFormats
import OrbitKV.Proof.CacheMessages
import OrbitKV.Proof.CacheQueries
import OrbitKV.Proof.CacheRequests
import OrbitKV.Proof.CufilePlans
import OrbitKV.Proof.CufileRoundTrip
import OrbitKV.Proof.DecodeRanges
import OrbitKV.Proof.DeltaProgress
import OrbitKV.Proof.DescriptorCalls
import OrbitKV.Proof.DescriptorLockstep
import OrbitKV.Proof.DescriptorTraffic
import OrbitKV.Proof.DramClasses
import OrbitKV.Proof.DramCoherence
import OrbitKV.Proof.FetchExecution
import OrbitKV.Proof.FetchPlan
import OrbitKV.Proof.FetchSegments
import OrbitKV.Proof.FrameCredit
import OrbitKV.Proof.IndexAccounting
import OrbitKV.Proof.IndexBlocks
import OrbitKV.Proof.IndexBytes
import OrbitKV.Proof.IndexCoherence
import OrbitKV.Proof.IndexCounters
import OrbitKV.Proof.IndexRecords
import OrbitKV.Proof.IndexRejections
import OrbitKV.Proof.InventoryHistory
import OrbitKV.Proof.InventoryJournal
import OrbitKV.Proof.LeaseShares
import OrbitKV.Proof.LocalRestoreDrain
import OrbitKV.Proof.MembershipInterval
import OrbitKV.Proof.PlanBank
import OrbitKV.Proof.QueryCancellation
import OrbitKV.Proof.QueryLedger
import OrbitKV.Proof.RecoveryBoundaries
import OrbitKV.Proof.RecoveryDemand
import OrbitKV.Proof.RecoveryRanges
import OrbitKV.Proof.RegistrationEpochs
import OrbitKV.Proof.Replication
import OrbitKV.Proof.RestoreAccesses
import OrbitKV.Proof.RestoreCancel
import OrbitKV.Proof.RestoreExclusive
import OrbitKV.Proof.RestoreGrants
import OrbitKV.Proof.RestoreLedger
import OrbitKV.Proof.RestoreOnce
import OrbitKV.Proof.RestoreResults
import OrbitKV.Proof.RestoreRuns
import OrbitKV.Proof.RestoreSources
import OrbitKV.Proof.RestoreText
import OrbitKV.Proof.RestoreWords
import OrbitKV.Proof.ScopeCodec
import OrbitKV.Proof.SsdAdvertised
import OrbitKV.Proof.SsdRing
import OrbitKV.Proof.SsdSafety
import OrbitKV.Proof.SsdWriters
import OrbitKV.Proof.StreamReceiver
import OrbitKV.Proof.StreamSource
import OrbitKV.Proof.TaskDrain
import OrbitKV.Proof.UringCompletion
import OrbitKV.Proof.WatchAgreement
import OrbitKV.Python.LocalRestore
import OrbitKV.Query.Budget
import OrbitKV.Query.Lease
import OrbitKV.Server.ActiveTasks
import OrbitKV.Server.QueryControl
import OrbitKV.Server.Restore
import OrbitKV.State.Record
import OrbitKV.State.Recovery
import OrbitKV.Storage.Block
import OrbitKV.Storage.Cufile
import OrbitKV.Storage.Dram
import OrbitKV.Storage.Inventory
import OrbitKV.Storage.Ssd
import OrbitKV.Storage.SsdIndex
import OrbitKV.Storage.Uring
