import TemporalStore.Raft.Apply

/-! # Append requests between replicas (`raft/cluster_replication.rs`) -/

namespace TemporalStore.Raft

open Lib

/-- What a leader keeps about one peer. -/
structure PipelineState where
  matchIndex : ℕ
  nextIndex : ℕ
  inflightEntries : ℕ
  inflightBytes : ℕ
  deriving DecidableEq

structure ReplicateLimits where
  maxInflightsReplicate : ℕ
  maxMemoryReplicateLogBytes : ℕ
  maxInflightsApplyTask : ℕ

/-- The loop over the unsent entries, with what it has taken so far. The first entry is taken
whatever its size. -/
def batchWithin (availableEntries availableBytes : ℕ) :
    ℕ → ℕ → List RaftLogEntry → List RaftLogEntry
  | _, _, [] => []
  | count, bytes, entry :: rest =>
    if availableEntries ≤ count then []
    else if 0 < count ∧ availableBytes < saturatingAdd bytes entry.command.length then []
    else
      entry :: batchWithin availableEntries availableBytes (count + 1)
        (saturatingAdd bytes entry.command.length) rest

/-- The index the request resumes after. -/
def prevLogIndexFor (leader target : RaftNode) (pipeline : PipelineState) : ℕ :=
  if 0 < pipeline.nextIndex then min (pipeline.nextIndex - 1) (nodeLastLogOrSnapshotIndex leader)
  else min (nodeLastLogOrSnapshotIndex target) (nodeLastLogOrSnapshotIndex leader)

/-- The window is empty once the peer has what the leader commits. -/
def PipelineState.drain (leader target : RaftNode) (pipeline : PipelineState) : PipelineState :=
  if leader.commitIndex ≤ target.commitIndex then
    { pipeline with inflightEntries := 0, inflightBytes := 0 }
  else pipeline

def buildAppendEntriesRequest (limits : ReplicateLimits) (shardId : ShardId)
    (leader target : RaftNode) (pipeline : PipelineState) :
    PipelineState × Except RaftError AppendEntriesRequest :=
  let entryLimit := max limits.maxInflightsReplicate 1
  let byteLimit := max limits.maxMemoryReplicateLogBytes 1
  let pipeline := pipeline.drain leader target
  -- a full window still lets one entry through
  let probeOnly := decide (pipeline.nextIndex ≤ nodeLastLogOrSnapshotIndex leader ∧
    (entryLimit ≤ pipeline.inflightEntries ∨ byteLimit ≤ pipeline.inflightBytes))
  let availableEntries := if probeOnly then 1
    else min (entryLimit - pipeline.inflightEntries) (max limits.maxInflightsApplyTask 1)
  let availableBytes := if probeOnly then byteLimit else byteLimit - pipeline.inflightBytes
  let prevLogIndex := prevLogIndexFor leader target pipeline
  let unsent := leader.log.dropWhile (·.index < prevLogIndex + 1)
  match unsent.head?.filter fun entry =>
      decide (0 < availableEntries ∧ availableBytes < entry.command.length ∧
        0 < pipeline.inflightBytes) && !probeOnly with
  | some entry =>
    (pipeline, .error (.appendBackpressure target.id pipeline.inflightEntries
      pipeline.inflightBytes entry.command.length entryLimit byteLimit))
  | none =>
    let entries := batchWithin availableEntries availableBytes 0 0 unsent
    ({ matchIndex := target.commitIndex
       nextIndex := prevLogIndex + 1
       inflightEntries := saturatingAdd pipeline.inflightEntries entries.length
       inflightBytes := saturatingAdd pipeline.inflightBytes
         (entries.map (·.command.length)).sum },
      .ok {
        shardId := shardId
        term := leader.currentTerm
        leaderId := leader.id
        targetId := target.id
        prevLogIndex := prevLogIndex
        prevLogTerm := (nodeTermAtLogOrSnapshotIndex leader prevLogIndex).getD 0
        entries := entries
        leaderCommit := leader.commitIndex })

namespace Replica

variable (config : RaftConfig) (durable : ℕ → Bool) (request : AppendEntriesRequest) (r : Replica)

/-- The entries are appended and the commit index is raised as far as they reach. -/
def extend : Replica :=
  let r := { r with
    votedFor := if r.currentTerm < request.term then none else r.votedFor
    currentTerm := request.term
    role := .follower }
  let r := request.entries.foldl appendEntry r
  let lastNewEntryIndex := ((request.entries.map (·.index)).max?).getD request.prevLogIndex
  { r with commitIndex := max r.commitIndex (min request.leaderCommit lastNewEntryIndex) }

/-- Only a replica that serves data applies. -/
def applyServing : Replica × List RaftLogEntry :=
  if r.replicaRole.canServeData then r.applyCommitted durable else (r, [])

/-- The target of an accepted request, with the batch it ran. -/
def acceptEntries : Replica × List RaftLogEntry :=
  let (r, batch) := (r.extend request).applyServing durable
  ({ r with reorderQueueDepth :=
      if config.enableReorderQueue then r.commitIndex - r.appliedIndex else 0 }, batch)

def refusal : Option String :=
  let lastIndex := nodeLastLogOrSnapshotIndex r.toRaftNode
  let receivedEntries := request.entries.length
  if request.term < r.currentTerm then some "stale_term"
  else if 0 < request.prevLogIndex ∧
      nodeTermAtLogOrSnapshotIndex r.toRaftNode request.prevLogIndex ≠ some request.prevLogTerm then
    if config.enableReorderQueue ∧ 0 < request.prevLogIndex - lastIndex then
      if config.reorderWindowSize < request.prevLogIndex - lastIndex then
        some "reorder_window_timeout"
      else some "out_of_order_append_queued"
    else some "log_mismatch"
  else if config.maxApplyBatchBytes < (request.entries.map (·.command.length)).sum then
    some "apply_batch_backpressure"
  else if max config.maxInflightsApplyTask 1 < receivedEntries then
    some "apply_inflight_backpressure"
  else if config.enableReorderQueue ∧ 0 < receivedEntries ∧
      config.reorderWindowSize < saturatingAdd r.reorderQueueDepth receivedEntries then
    some "reorder_window_exceeded"
  else none

/-- `receive_append_entries` as the target sees it, with the batch it ran. -/
def receiveAppendEntries : (Replica × List RaftLogEntry) × AppendEntriesResponse :=
  match r.refusal config request with
  | some reason =>
    (({ r with reorderQueueDepth :=
        if reason = "out_of_order_append_queued" then
          saturatingAdd r.reorderQueueDepth (max request.entries.length 1)
        else r.reorderQueueDepth }, []),
      ⟨r.currentTerm, false, nodeLastLogOrSnapshotIndex r.toRaftNode, some reason⟩)
  | none =>
    let accepted := r.acceptEntries config durable request
    (accepted, ⟨accepted.1.currentTerm, true, nodeLastLogOrSnapshotIndex accepted.1.toRaftNode,
      none⟩)

lemma toRaftNode_applyServing : (r.applyServing durable).1.toRaftNode = r.toRaftNode := by
  unfold applyServing
  split
  · exact toRaftNode_applyCommitted durable r
  · rfl

/-- The replica's node is what the view of its process makes of it, if the view's measure of the
backlog is the replica's. -/
lemma toRaftNode_acceptEntries (engine : Engine) (config : RaftConfig) (durable : ℕ → Bool)
    (request : AppendEntriesRequest) (r : Replica)
    (hbacklog : ∀ node, engine.backlog node = node.commitIndex -
      (r.acceptEntries config durable request).1.appliedIndex) :
    (r.acceptEntries config durable request).1.toRaftNode =
      Cluster.acceptEntries engine config request r.toRaftNode := by
  unfold Cluster.acceptEntries
  simp only [hbacklog]
  unfold acceptEntries
  simp only [toRaftNode_applyServing]
  unfold extend
  simp only [toRaftNode_foldl_appendEntry]

lemma get?_heard (c : Cluster) (leaderId targetId : RaftNodeId) (heard : Prop) [Decidable heard] :
    (if heard ∧ leaderId ≠ targetId then
        c.modify leaderId fun node => { node with alive := true } else c).get? targetId =
      c.get? targetId ∧
    (if heard ∧ leaderId ≠ targetId then
        c.modify leaderId fun node => { node with alive := true } else c).config = c.config := by
  split
  case isFalse => exact ⟨rfl, rfl⟩
  case isTrue h =>
    unfold Cluster.modify
    split
    · refine ⟨?_, rfl⟩
      unfold Cluster.get? Cluster.set
      dsimp only
      rw [Function.update_of_ne h.2.symm]
    · exact ⟨rfl, rfl⟩

lemma receiveAppendEntries_answer (engine : Engine) (c : Cluster) (durable : ℕ → Bool)
    (request : AppendEntriesRequest) (r : Replica) (hshard : request.shardId = c.shardId)
    (htarget : c.get? request.targetId = some r.toRaftNode) :
    (c.receiveAppendEntries engine request).2 =
      .ok (r.receiveAppendEntries c.config durable request).2 := by
  -- the answer does not depend on how the view measures the backlog
  let measured : Engine := { engine with
    backlog := fun node => node.commitIndex -
      (r.acceptEntries c.config durable request).1.appliedIndex }
  have hnode := toRaftNode_acceptEntries measured c.config durable request r fun _ => rfl
  have hterm : (Cluster.acceptEntries engine c.config request r.toRaftNode).currentTerm =
      (r.acceptEntries c.config durable request).1.currentTerm := by rw [hnode]; rfl
  have hlast : nodeLastLogOrSnapshotIndex
        (Cluster.acceptEntries engine c.config request r.toRaftNode) =
      nodeLastLogOrSnapshotIndex (r.acceptEntries c.config durable request).1.toRaftNode := by
    rw [hnode]; rfl
  obtain ⟨hget, hconfig⟩ := get?_heard c request.leaderId request.targetId
    ((c.get? request.targetId).any fun node => decide (node.currentTerm ≤ request.term))
  unfold Cluster.receiveAppendEntries
  rw [if_neg (not_not.mpr hshard)]
  dsimp only
  rw [hget, htarget]
  rw [htarget] at hconfig
  dsimp only
  rw [hconfig, hterm, hlast]
  unfold receiveAppendEntries refusal
  dsimp only
  split_ifs <;> rfl

end Replica

end TemporalStore.Raft
