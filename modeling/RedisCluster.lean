import RedisCluster.Guarantees.Arguments
import RedisCluster.Guarantees.AsyncCompletion
import RedisCluster.Guarantees.AsyncService
import RedisCluster.Guarantees.CallTimes
import RedisCluster.Guarantees.CheckDedup
import RedisCluster.Guarantees.ChildOrder
import RedisCluster.Guarantees.City
import RedisCluster.Guarantees.ClientVersion
import RedisCluster.Guarantees.Connections
import RedisCluster.Guarantees.DelayStamp
import RedisCluster.Guarantees.ExactSweep
import RedisCluster.Guarantees.Exclusion
import RedisCluster.Guarantees.ExtData
import RedisCluster.Guarantees.Followers
import RedisCluster.Guarantees.Frames
import RedisCluster.Guarantees.FrontEnds
import RedisCluster.Guarantees.HealthNames
import RedisCluster.Guarantees.Linearizable
import RedisCluster.Guarantees.LoadRequests
import RedisCluster.Guarantees.LockRelease
import RedisCluster.Guarantees.LossyRuns
import RedisCluster.Guarantees.MalformedMessages
import RedisCluster.Guarantees.Master
import RedisCluster.Guarantees.MultiComplete
import RedisCluster.Guarantees.OfflineReports
import RedisCluster.Guarantees.OnlineReads
import RedisCluster.Guarantees.PackedAddresses
import RedisCluster.Guarantees.Partition
import RedisCluster.Guarantees.Publication
import RedisCluster.Guarantees.ReadPaths
import RedisCluster.Guarantees.ReadYourWrites
import RedisCluster.Guarantees.Recovery
import RedisCluster.Guarantees.Routing
import RedisCluster.Guarantees.RoutingTable
import RedisCluster.Guarantees.ScriptLoad
import RedisCluster.Guarantees.SecondCheck
import RedisCluster.Guarantees.Serial
import RedisCluster.Guarantees.SessionIndex
import RedisCluster.Guarantees.StoredFields
import RedisCluster.Guarantees.SweptSessions
import RedisCluster.Guarantees.SyncAsync
import RedisCluster.Guarantees.SynchronousWait
import RedisCluster.Guarantees.Watch
import RedisCluster.Guarantees.WriteRanking
