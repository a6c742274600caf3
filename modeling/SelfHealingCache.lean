import SelfHealingCache.Dict
import SelfHealingCache.Clockwise
import SelfHealingCache.HashRing
import SelfHealingCache.RingDisruption
import SelfHealingCache.RingHistory
import SelfHealingCache.ClusterManager
import SelfHealingCache.ClusterRouting
import SelfHealingCache.ClusterNodes
import SelfHealingCache.ClusterHealing
import SelfHealingCache.ClusterRecords
import SelfHealingCache.ClusterTopology
import SelfHealingCache.FailureDetection
import SelfHealingCache.CircuitBreaker
import SelfHealingCache.BreakerHistory
import SelfHealingCache.BreakerProbes
import SelfHealingCache.ZoneRouter
import SelfHealingCache.Links
import SelfHealingCache.CacheEntry
import SelfHealingCache.LruMemory
import SelfHealingCache.LruNodes
import SelfHealingCache.LruCache
import SelfHealingCache.LruRefinement
import SelfHealingCache.LruInvariant
import SelfHealingCache.LruHistory
import SelfHealingCache.LruFreshness
import SelfHealingCache.LruRetention
import SelfHealingCache.CacheWire
import SelfHealingCache.Gateway
import SelfHealingCache.GatewaySteps
import SelfHealingCache.GatewayReads
import SelfHealingCache.GatewayFailures
import SelfHealingCache.GatewayDetection
import SelfHealingCache.PercentEncoding
import SelfHealingCache.KeyPath
import SelfHealingCache.CacheTransfer
import SelfHealingCache.Grouping
import SelfHealingCache.LruAccounting
import SelfHealingCache.LruContents
import SelfHealingCache.RebalanceSteps
import SelfHealingCache.RebalanceClients
import SelfHealingCache.RebalancePlan
import SelfHealingCache.RebalanceViews
import SelfHealingCache.RebalanceFaultFree
import SelfHealingCache.RebalanceFaults
import SelfHealingCache.Relocation
import SelfHealingCache.LruExpiry
import SelfHealingCache.Bytearray
import SelfHealingCache.BloomFilter
import SelfHealingCache.NodeJson
import SelfHealingCache.CacheServer
import SelfHealingCache.ServerAtomicity
import SelfHealingCache.ServerExport
import SelfHealingCache.ServerReplies
import SelfHealingCache.HeartbeatRoute
import SelfHealingCache.NodeWire
import SelfHealingCache.NodeMigration
import SelfHealingCache.TtlPath
import SelfHealingCache.RebalanceRetry
import SelfHealingCache.RebalanceHistory
import SelfHealingCache.PinHistory
import SelfHealingCache.EventLog
import SelfHealingCache.ClusterStats
import SelfHealingCache.RingClockwise
import SelfHealingCache.LruObservers
import SelfHealingCache.LruMigration
import SelfHealingCache.LruAllocation
import SelfHealingCache.RebalanceEndpoints
import SelfHealingCache.Linearizability
import SelfHealingCache.ClusterSystem
import SelfHealingCache.ClusterRegister
import SelfHealingCache.ClusterCalls
import SelfHealingCache.ClusterSingleCopy
import SelfHealingCache.ClusterFailover
import SelfHealingCache.RebalanceTermination
import SelfHealingCache.RebalanceBystanders
import SelfHealingCache.GatewayStaleness
import SelfHealingCache.LruLifetime
import SelfHealingCache.GatewayHealth
import SelfHealingCache.ClusterViews
import SelfHealingCache.ServerLifecycle
import SelfHealingCache.ServerShutdown
import SelfHealingCache.MovingAverage
import SelfHealingCache.Exchange
import SelfHealingCache.RingBalance
import SelfHealingCache.GatewayLatency
import SelfHealingCache.RingShares
import SelfHealingCache.ServerMetrics
import SelfHealingCache.DecimalText
import SelfHealingCache.ServerBoot
