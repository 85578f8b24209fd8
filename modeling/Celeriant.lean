import Celeriant.Cache.ExactlyOnce
import Celeriant.Cache.LoadRaces
import Celeriant.Cache.LoadingCoordinator
import Celeriant.Cache.Permanence
import Celeriant.Cache.Requests
import Celeriant.Distributed.CatchupFlights
import Celeriant.Distributed.FallbackGate
import Celeriant.Distributed.FollowedEpoch
import Celeriant.Distributed.GrantedTtl
import Celeriant.Distributed.MembershipRegistration
import Celeriant.Distributed.Routing
import Celeriant.Distributed.SchemaCoordination
import Celeriant.Distributed.SingleLeader
import Celeriant.Distributed.StaleFence
import Celeriant.Distributed.TakeoverRuns
import Celeriant.Listing.ListAggregates
import Celeriant.Listing.SetSketches
import Celeriant.Replication.Divergence
import Celeriant.Replication.FallbackFiles
import Celeriant.Replication.FollowerParking
import Celeriant.Shard.AckBarrier
import Celeriant.Shard.Clients
import Celeriant.Shard.CommitRules
import Celeriant.Shard.Coordinator
import Celeriant.Shard.Demotion
import Celeriant.Shard.PromotionCommit
import Celeriant.Shard.ReadPath
import Celeriant.Wal.CrashAtomicity
import Celeriant.Wal.CullCursor
import Celeriant.Wal.SegmentWrites
import Celeriant.Wire.SerialisedDatablock
