import TemporalStore.Wal.Guarantees
import TemporalStore.Wal.Repair
import TemporalStore.Raft.Votes
import TemporalStore.Shard.Seen
import TemporalStore.Shard.Selection
import TemporalStore.Shard.Dedup
import TemporalStore.Raft.LogBarrier
import TemporalStore.Raft.LogCrash
import TemporalStore.Raft.WalProto
import TemporalStore.Raft.Joint
import TemporalStore.Raft.CatchUp
import TemporalStore.Raft.Propose
import TemporalStore.Raft.Split
import TemporalStore.LogWalk
import TemporalStore.Shared.Cursor
import TemporalStore.Shared.DataNode
import TemporalStore.Shared.ObjectRaces
import TemporalStore.Shard.Handover
import TemporalStore.Shared.Runs
import TemporalStore.Shared.LazyRestore
import TemporalStore.Redis.Protocol
import TemporalStore.Engine.ElementName
import TemporalStore.EngineWal.RoundTrip
import TemporalStore.EngineWal.Append
import TemporalStore.IndexLog.Sequences
import TemporalStore.IndexLog.BlockRefKey
import TemporalStore.Shard.Sweeps
import TemporalStore.RecordFraming
