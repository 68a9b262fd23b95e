import DistributedFileStorage.Lifecycle.CollectionSafety
import DistributedFileStorage.Lifecycle.ConcurrentCollection
import DistributedFileStorage.Lifecycle.ConcurrentPruning
import DistributedFileStorage.Lifecycle.Undercounts
import DistributedFileStorage.Versioning.Numbering
import DistributedFileStorage.Placement.Membership
import DistributedFileStorage.Upload.ConcurrentCleanup
import DistributedFileStorage.Access.Noninterference
import DistributedFileStorage.Access.Lifetimes
import DistributedFileStorage.Access.Revocation
import DistributedFileStorage.Gateway.DeleteRequests
import DistributedFileStorage.Services.SharedClient
import DistributedFileStorage.Replication.VerifiedWrites
import DistributedFileStorage.Async.OwnCalls
import DistributedFileStorage.Caching.LruCache
import DistributedFileStorage.Caching.Recency
import DistributedFileStorage.Deduplication.ConcurrentReferences
import DistributedFileStorage.Delivery.CDNGateway
import DistributedFileStorage.Delivery.LeastRecentlyUsed
import DistributedFileStorage.Upload.Exclusivity
import DistributedFileStorage.Upload.SessionHistory
import DistributedFileStorage.Versioning.ConcurrentVersions
import DistributedFileStorage.Background.ExpiredSessions
import DistributedFileStorage.Replication.Availability
import DistributedFileStorage.Replication.Repair
import DistributedFileStorage.Background.ReplicaIntegrity
import DistributedFileStorage.Replication.Eligibility
import DistributedFileStorage.Replication.RepairChoices
import DistributedFileStorage.Placement.RingWalk
import DistributedFileStorage.Replication.ZoneSpread
import DistributedFileStorage.Services.ConnectionAccounting
import DistributedFileStorage.Nodes.ChunkMap
import DistributedFileStorage.Delivery.EdgeRequests
import DistributedFileStorage.Delivery.Invalidation
import DistributedFileStorage.Delivery.ReadIntegrity
import DistributedFileStorage.ErrorHandling.CircuitBreaker
import DistributedFileStorage.ErrorHandling.OverlappingCalls
import DistributedFileStorage.Gateway.HandleRequest
import DistributedFileStorage.Store.RecordMapping
import DistributedFileStorage.Chunking.Assembly
import DistributedFileStorage.Versioning.Retention
import DistributedFileStorage.Delivery.ByteRanges
import DistributedFileStorage.Upload.Acknowledgements
import DistributedFileStorage.Upload.PartialFinalization
import DistributedFileStorage.Background.PartialCollection
import DistributedFileStorage.Replication.ReportedLocations
import DistributedFileStorage.Replication.RepairFixpoint
import DistributedFileStorage.Nodes.ChunkCount
import DistributedFileStorage.Performance.NodeSelection
import DistributedFileStorage.Store.RecordUpdates
import DistributedFileStorage.Nodes.StorageServer
import DistributedFileStorage.Performance.ParallelChunkOps
import DistributedFileStorage.Nodes.ConcurrentChunks
import DistributedFileStorage.Upload.SerialSessions
import DistributedFileStorage.Nodes.StoredFiles
import DistributedFileStorage.Nodes.ServerRuns
import DistributedFileStorage.Upload.ResumedUploads
import DistributedFileStorage.ErrorHandling.RetriedCalls
import DistributedFileStorage.Replication.Durability
import DistributedFileStorage.Access.RecentAnswers
import DistributedFileStorage.Delivery.RecentChunks
import DistributedFileStorage.Async.StableAssertions
import DistributedFileStorage.Background.ConcurrentRepairs
import DistributedFileStorage.Lifecycle.StorageAccounting
import DistributedFileStorage.Async.Interpretation
import DistributedFileStorage.Background.NodeLiveness
import DistributedFileStorage.Gateway.AuthorizedRequests
import DistributedFileStorage.Versioning.StableVersions
