import Mathlib.Algebra.GroupWithZero.Nat
import TemporalStore.Lib.Ballot
import TemporalStore.Lib.Word

/-! # The raft cluster view and its log (`raft.rs`, `raft/cluster_inner.rs`) -/

namespace TemporalStore.Raft

open Lib

abbrev RaftNodeId := ℕ

abbrev ShardId := ℕ

inductive RaftRole where
  | leader
  | follower
  deriving DecidableEq

inductive RaftReplicaRole where
  | voter
  | learner
  | witness
  deriving DecidableEq

def RaftReplicaRole.participatesInQuorum : RaftReplicaRole → Bool
  | .voter | .witness => true
  | .learner => false

def RaftReplicaRole.canServeData : RaftReplicaRole → Bool
  | .voter | .learner => true
  | .witness => false

def RaftReplicaRole.canBeLeader : RaftReplicaRole → Bool
  | .voter => true
  | .learner | .witness => false

inductive RaftError where
  | leaderUnavailable
  | noMajority (live required : ℕ)
  | nodeNotFound (id : RaftNodeId)
  | nodeAlreadyExists (id : RaftNodeId)
  | cannotRemoveLastNode
  | logEntryTooLarge (bytes limit : ℕ)
  | appendBackpressure (id : RaftNodeId)
      (inflightEntries inflightBytes entryBytes entryLimit byteLimit : ℕ)
  | jointConsensusInProgress
  | electionProhibited
  | snapshotShardMismatch (snapshotShardId clusterShardId : ShardId)
  | staleSnapshot (snapshotIndex localCommitIndex : ℕ)
  | snapshotEncoding (message : String)
  | invalidSnapshotChunk (message : String)
  deriving DecidableEq

def RaftError.toString : RaftError → String
  | .leaderUnavailable => "leader is not available"
  | .noMajority live required =>
    s!"not enough live replicas for majority: live={live}, required={required}"
  | .nodeNotFound id => s!"node not found: {id}"
  | .nodeAlreadyExists id => s!"node already exists: {id}"
  | .cannotRemoveLastNode => "cannot remove the last node"
  | .logEntryTooLarge bytes limit => s!"raft log entry too large: bytes={bytes}, limit={limit}"
  | .appendBackpressure id inflightEntries inflightBytes entryBytes entryLimit byteLimit =>
    s!"raft append pipeline backpressure for node {id}: entry_bytes={entryBytes} does not fit " ++
      s!"in what is left of byte_limit={byteLimit} (inflight_entries={inflightEntries}, " ++
      s!"inflight_bytes={inflightBytes}, entry_limit={entryLimit})"
  | .jointConsensusInProgress => "joint consensus is already in progress"
  | .electionProhibited => "election is prohibited by raft config"
  | .snapshotShardMismatch snapshotShardId clusterShardId =>
    s!"snapshot shard mismatch: snapshot={snapshotShardId}, cluster={clusterShardId}"
  | .staleSnapshot snapshotIndex localCommitIndex =>
    "stale snapshot cannot overwrite newer local raft state: " ++
      s!"snapshot_index={snapshotIndex}, local_commit_index={localCommitIndex}"
  | .snapshotEncoding message => s!"snapshot serialization failed: {message}"
  | .invalidSnapshotChunk message => s!"invalid snapshot chunk: {message}"

/-- A log entry, with its command in the encoding its size is taken from. -/
structure RaftLogEntry where
  index : ℕ
  term : ℕ
  command : List UInt8
  deriving DecidableEq

structure RaftSnapshot where
  shardId : ShardId
  lastIncludedTerm : ℕ
  lastIncludedIndex : ℕ
  entries : List RaftLogEntry
  stateImage : Option (List UInt8)
  deriving DecidableEq

structure RaftNode where
  id : RaftNodeId
  role : RaftRole
  replicaRole : RaftReplicaRole
  currentTerm : ℕ
  votedFor : Option RaftNodeId
  commitIndex : ℕ
  alive : Bool
  log : List RaftLogEntry
  installedSnapshot : Option RaftSnapshot
  reorderQueueDepth : ℕ
  deriving DecidableEq

def newNode (id : RaftNodeId) (role : RaftRole) : RaftNode :=
  ⟨id, role, .voter, 1, none, 0, true, [], none, 0⟩

variable (node : RaftNode)

/-- What the node has promised: its term and its vote. -/
def RaftNode.ballot : Ballot ℕ RaftNodeId := ⟨node.currentTerm, node.votedFor⟩

def nodeLastLogOrSnapshotIndex : ℕ :=
  match node.log.getLast? with
  | some entry => entry.index
  | none => (node.installedSnapshot.map (·.lastIncludedIndex)).getD 0

def nodeTermAtLogOrSnapshotIndex (index : ℕ) : Option ℕ :=
  if index = 0 then some 0
  else match node.log.find? (·.index == index) with
    | some entry => some entry.term
    | none =>
      (node.installedSnapshot.filter (·.lastIncludedIndex == index)).map (·.lastIncludedTerm)

/-- The term and the index of the end of the node's log. -/
def RaftNode.tail : ℕ × ℕ :=
  ((nodeTermAtLogOrSnapshotIndex node (nodeLastLogOrSnapshotIndex node)).getD 0,
    nodeLastLogOrSnapshotIndex node)

/-- The comparison of `(term, index)` pairs. -/
def upToDate (candidate voter : ℕ × ℕ) : Bool :=
  decide (voter.1 < candidate.1 ∨ voter.1 = candidate.1 ∧ voter.2 ≤ candidate.2)

structure RaftConfig where
  prohibitsElection : Bool
  enableReorderQueue : Bool
  reorderWindowSize : ℕ
  maxApplyBatchBytes : ℕ
  maxInflightsApplyTask : ℕ

structure JointConsensusMembership where
  oldVoters : List RaftNodeId
  newVoters : List RaftNodeId

structure RaftHardState where
  currentTerm : ℕ
  votedFor : Option RaftNodeId
  commitIndex : ℕ
  deriving DecidableEq

structure RaftWalRecord where
  hardState : RaftHardState
  leaderId : RaftNodeId
  replicaRole : RaftReplicaRole
  installedSnapshot : Option RaftSnapshot
  reorderQueueDepth : ℕ
  entries : List RaftLogEntry
  deriving DecidableEq

/-- What decides whether a record has to be written again. The entries count through their number
and through the first and the last of them. The code keeps a hash of it. -/
structure Fingerprint where
  hardState : RaftHardState
  leaderId : RaftNodeId
  replicaRole : RaftReplicaRole
  installedSnapshot : Option RaftSnapshot
  entriesLen : ℕ
  ends : List (ℕ × ℕ)
  deriving DecidableEq

def raftDurableFingerprint (record : RaftWalRecord) : Fingerprint :=
  ⟨record.hardState, record.leaderId, record.replicaRole, record.installedSnapshot,
    record.entries.length,
    (record.entries.head?.toList ++ record.entries.getLast?.toList).map fun e => (e.index, e.term)⟩

structure PendingSnapshotChunks where
  shardId : ShardId
  lastIncludedTerm : ℕ
  lastIncludedIndex : ℕ
  chunks : List (Option (List RaftLogEntry))
  stateImage : Option (List UInt8)

/-- The view of one process, with the log it writes to. `ids` are the keys of the node map; what
`nodeAt` holds elsewhere is never read. -/
structure Cluster where
  shardId : ShardId
  leaderId : RaftNodeId
  ids : List RaftNodeId
  nodeAt : RaftNodeId → RaftNode
  config : RaftConfig
  jointMembership : Option JointConsensusMembership
  localNodeId : Option RaftNodeId
  pendingSnapshots : RaftNodeId × String → Option PendingSnapshotChunks
  wal : RaftNodeId → Option RaftWalRecord
  lastDurableFingerprint : RaftNodeId → Option Fingerprint

/-- What the handlers ask of the engine: whether one can be built from a snapshot, and by how much a
node's commit index is ahead of what it has applied once it has applied what it can. -/
structure Engine where
  buildInstalledEngine : RaftSnapshot → Except String Unit
  backlog : RaftNode → ℕ

namespace Cluster

variable (c : Cluster) (id : RaftNodeId)

def get? : Option RaftNode :=
  if id ∈ c.ids then some (c.nodeAt id) else none

def set (node : RaftNode) : Cluster :=
  { c with nodeAt := Function.update c.nodeAt id node }

def modify (f : RaftNode → RaftNode) : Cluster :=
  match c.get? id with
  | some node => c.set id (f node)
  | none => c

def mapNodes (f : RaftNode → RaftNode) : Cluster :=
  { c with nodeAt := fun id => f (c.nodeAt id) }

def values : List RaftNode := c.ids.map c.nodeAt

def maxTerm : ℕ := (c.values.map (·.currentTerm)).foldl max 0

def votingNodeIds : List RaftNodeId :=
  (c.values.filter (·.replicaRole.participatesInQuorum)).map (·.id)

def majority (replicaCount : ℕ) : ℕ := replicaCount / 2 + 1

def requiredMajority : ℕ :=
  match c.jointMembership with
  | some membership =>
    max (majority membership.oldVoters.length) (majority membership.newVoters.length)
  | none => majority c.votingNodeIds.length

def liveVotersIn (voters : List RaftNodeId) : ℕ :=
  voters.countP fun id =>
    (c.get? id).any fun node => node.alive && node.replicaRole.participatesInQuorum

def jointMajorityFailure : Option (ℕ × ℕ) :=
  match c.jointMembership with
  | none => none
  | some membership =>
    if c.liveVotersIn membership.oldVoters < majority membership.oldVoters.length then
      some (c.liveVotersIn membership.oldVoters, majority membership.oldVoters.length)
    else if c.liveVotersIn membership.newVoters < majority membership.newVoters.length then
      some (c.liveVotersIn membership.newVoters, majority membership.newVoters.length)
    else none

def walRecordFor : Option RaftWalRecord :=
  (c.get? id).map fun node =>
    ⟨⟨node.currentTerm, node.votedFor, node.commitIndex⟩, c.leaderId, node.replicaRole,
      node.installedSnapshot, node.reorderQueueDepth, node.log⟩

/-- One node's turn of `stage_configured_wal`, with its barrier. -/
def persistNode : Cluster :=
  match c.walRecordFor id with
  | none => c
  | some record =>
    if c.lastDurableFingerprint id = some (raftDurableFingerprint record) then c
    else { c with
      wal := Function.update c.wal id (some record)
      lastDurableFingerprint :=
        Function.update c.lastDurableFingerprint id (some (raftDurableFingerprint record)) }

/-- A deployed process writes the record of its own node, a process that hosts every node writes
them all. -/
def persistConfiguredWal : Cluster :=
  match c.localNodeId with
  | some localId => c.persistNode localId
  | none => c.ids.foldl persistNode c

/-- `refresh_all_pipeline_states`, as far as the reorder queues go. -/
def refreshAllPipelineStates (engine : Engine) (c : Cluster) (leaderId : RaftNodeId) : Cluster :=
  if leaderId ∈ c.ids then
    c.mapNodes fun node =>
      { node with reorderQueueDepth :=
          if c.config.enableReorderQueue then engine.backlog node else 0 }
  else c

def restoreNode (record : Option RaftWalRecord) (id : RaftNodeId) : RaftNode :=
  match record with
  | none => newNode id .follower
  | some record =>
    let node := { newNode id (if record.leaderId = id then .leader else .follower) with
      replicaRole := record.replicaRole
      currentTerm := record.hardState.currentTerm
      votedFor := record.hardState.votedFor
      commitIndex := record.hardState.commitIndex
      reorderQueueDepth := record.reorderQueueDepth }
    let node := match record.installedSnapshot with
      | none => node
      | some snapshot =>
        { node with
          votedFor :=
            -- only the replicas that serve data install it through `publish_snapshot_state`
            if record.replicaRole.canServeData ∧ node.currentTerm < snapshot.lastIncludedTerm then
              none
            else node.votedFor
          currentTerm := max node.currentTerm snapshot.lastIncludedTerm
          commitIndex := max node.commitIndex snapshot.lastIncludedIndex
          installedSnapshot := some snapshot }
    { node with log := record.entries }

/-- The leader the records name, the first node of the map when there is no record. -/
def restoredLeader : RaftNodeId :=
  match c.ids.findSome? c.wal with
  | some record => record.leaderId
  | none => c.ids.head?.getD 1

/-- A restart: `restore_single_shard_from_wal` with the same members. -/
def restoreSingleShardFromWal (engine : Engine) (c : Cluster) : Cluster :=
  let leaderId := c.restoredLeader
  let restored := { c with
    leaderId := leaderId
    nodeAt := fun id =>
      let node := restoreNode (c.wal id) id
      if id = leaderId then { node with role := .leader } else node
    pendingSnapshots := fun _ => none
    lastDurableFingerprint := fun _ => none }
  restored.refreshAllPipelineStates engine leaderId

def start (shardId : ShardId) (ids : List RaftNodeId) (roles : RaftNodeId → RaftReplicaRole)
    (config : RaftConfig) (jointMembership : Option JointConsensusMembership)
    (localNodeId : Option RaftNodeId) : Cluster where
  shardId := shardId
  leaderId := ids.head?.getD 1
  ids := ids
  nodeAt := fun id =>
    { newNode id (if ids.head? = some id then .leader else .follower) with replicaRole := roles id }
  config := config
  jointMembership := jointMembership
  localNodeId := localNodeId
  pendingSnapshots := fun _ => none
  wal := fun _ => none
  lastDurableFingerprint := fun _ => none

end Cluster

end TemporalStore.Raft
