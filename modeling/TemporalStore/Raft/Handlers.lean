import TemporalStore.Raft.Cluster

/-! # Requests and campaigns
(`raft/cluster_replication.rs`, `cluster_election.rs`, `cluster_snapshot.rs`) -/

namespace TemporalStore.Raft

open Lib

structure VoteRequest where
  shardId : ShardId
  term : ℕ
  candidateId : RaftNodeId
  targetId : RaftNodeId
  lastLogIndex : ℕ
  lastLogTerm : ℕ
  preVote : Bool

structure VoteResponse where
  term : ℕ
  voteGranted : Bool
  rejectReason : Option String
  deriving DecidableEq

structure AppendEntriesRequest where
  shardId : ShardId
  term : ℕ
  leaderId : RaftNodeId
  targetId : RaftNodeId
  prevLogIndex : ℕ
  prevLogTerm : ℕ
  entries : List RaftLogEntry
  leaderCommit : ℕ

structure AppendEntriesResponse where
  term : ℕ
  success : Bool
  matchIndex : ℕ
  rejectReason : Option String
  deriving DecidableEq

structure InstallSnapshotRequest where
  shardId : ShardId
  term : ℕ
  targetId : RaftNodeId
  snapshot : RaftSnapshot

structure InstallSnapshotResponse where
  term : ℕ
  success : Bool
  lastIncludedIndex : ℕ
  rejectReason : Option String
  deriving DecidableEq

structure InstallSnapshotChunkRequest where
  shardId : ShardId
  term : ℕ
  targetId : RaftNodeId
  snapshotId : String
  lastIncludedTerm : ℕ
  lastIncludedIndex : ℕ
  chunkIndex : ℕ
  chunkCount : ℕ
  entries : List RaftLogEntry
  stateImage : Option (List UInt8)

structure InstallSnapshotChunkResponse where
  term : ℕ
  success : Bool
  snapshotComplete : Bool
  receivedChunks : ℕ
  lastIncludedIndex : ℕ
  rejectReason : Option String
  deriving DecidableEq

namespace Cluster

variable (term : ℕ) (node : RaftNode) (engine : Engine) (c : Cluster) (candidateId id : RaftNodeId)

/-- The term rises: the vote of the term before is cleared. -/
def adoptHigherTerm : RaftNode :=
  if node.currentTerm < term then
    { node with currentTerm := term, votedFor := none, role := .follower }
  else node

def receiveVoteRequest (request : VoteRequest) : Cluster × Except RaftError VoteResponse :=
  if request.shardId ≠ c.shardId then (c, .ok ⟨0, false, some "shard_mismatch"⟩)
  else if ¬ (c.get? request.candidateId).any (·.replicaRole.canBeLeader) then
    (c, .ok ⟨0, false, some "candidate_not_voter"⟩)
  else match c.get? request.targetId with
    | none => (c, .error (.nodeNotFound request.targetId))
    | some node =>
      if ¬ node.replicaRole.participatesInQuorum then
        (c, .ok ⟨node.currentTerm, false, some "target_not_voter"⟩)
      else if request.preVote then
        -- answered without adopting the term, recording a vote or writing the log
        let wouldGrant := decide (node.currentTerm < request.term) &&
          upToDate (request.lastLogTerm, request.lastLogIndex) node.tail
        (c, .ok ⟨node.currentTerm, wouldGrant,
          if wouldGrant then none else some "pre_vote_declined"⟩)
      else if request.term < node.currentTerm then
        (c, .ok ⟨node.currentTerm, false, some "stale_term"⟩)
      else
        let node := adoptHigherTerm request.term node
        let adopted := c.set request.targetId node
        if ¬ upToDate (request.lastLogTerm, request.lastLogIndex) node.tail then
          (adopted.persistConfiguredWal,
            .ok ⟨node.currentTerm, false, some "candidate_log_behind"⟩)
        else if node.votedFor.isSome ∧ node.votedFor ≠ some request.candidateId then
          (adopted.persistConfiguredWal, .ok ⟨node.currentTerm, false, some "already_voted"⟩)
        else
          let node := { node with
            currentTerm := request.term
            votedFor := some request.candidateId
            role := .follower }
          ((c.set request.targetId node).persistConfiguredWal, .ok ⟨node.currentTerm, true, none⟩)

/-- Whether the node may stand for election. -/
def mayCampaign : Bool :=
  (c.get? candidateId).any fun node => node.alive && node.replicaRole.canBeLeader

def standAt : RaftNode :=
  { node with currentTerm := term, votedFor := some id }

def prepareCampaign : Cluster × Except RaftError VoteRequest :=
  if c.config.prohibitsElection then (c, .error .electionProhibited)
  else if ¬ c.mayCampaign candidateId then (c, .error (.nodeNotFound candidateId))
  else
    let term := saturatingSucc c.maxTerm
    let tail := (c.nodeAt candidateId).tail
    let candidate := { standAt term (c.nodeAt candidateId) candidateId with role := .follower }
    ((c.set candidateId candidate).persistConfiguredWal,
      .ok ⟨c.shardId, term, candidateId, candidateId, tail.2, tail.1, false⟩)

def buildVoteRequest (targetId : RaftNodeId) : Cluster × Except RaftError VoteRequest :=
  match c.get? candidateId with
  | none => (c, .error (.nodeNotFound candidateId))
  | some node =>
    let term := saturatingSucc node.currentTerm
    ((c.set candidateId (standAt term node candidateId)).persistConfiguredWal,
      .ok ⟨c.shardId, term, candidateId, targetId, node.tail.2, node.tail.1, false⟩)

def promoteElectedLeader (term : ℕ) : Cluster :=
  let raised := { c with leaderId := id }.mapNodes fun node => { node with
    role := if node.id = id then .leader else .follower
    currentTerm := max node.currentTerm term }
  raised.modify id fun node => { node with alive := true, votedFor := some id }

def concludeCampaign (term grants : ℕ) : Cluster × Bool :=
  if ¬ (c.get? candidateId).any fun node =>
      node.currentTerm == term && node.votedFor == some candidateId then (c, false)
  else if grants < c.requiredMajority then
    ((c.modify candidateId fun node => { node with role := .follower }).persistConfiguredWal, false)
  else ((c.promoteElectedLeader candidateId term).persistConfiguredWal, true)

def observeHigherTerm (term : ℕ) : Cluster × Except RaftError Unit :=
  match c.get? id with
  | none => (c, .error (.nodeNotFound id))
  | some node =>
    if node.currentTerm < term then
      ((c.set id (adoptHigherTerm term node)).persistConfiguredWal, .ok ())
    else (c, .ok ())

def stepDownLocal : Cluster × Except RaftError Unit :=
  match c.get? id with
  | none => (c, .error (.nodeNotFound id))
  | some node =>
    if node.role = .leader then
      ((c.set id { node with role := .follower }).persistConfiguredWal, .ok ())
    else (c, .ok ())

/-- One voter's answer in `elect_leader`, with whether it grants. -/
def answerElection (tail : ℕ × ℕ) (node : RaftNode) : RaftNode × Bool :=
  if ¬ node.alive then ({ node with currentTerm := max node.currentTerm term }, false)
  else if ¬ (node.currentTerm = term ∧ node.votedFor.isSome ∧ node.votedFor ≠ some candidateId) ∧
      upToDate tail node.tail then
    ({ standAt term node candidateId with role := .follower }, true)
  else ({ node with currentTerm := max node.currentTerm term }, false)

/-- The voters in turn; those that granted are collected. -/
def collectVotes (term : ℕ) (candidateId : RaftNodeId) (tail : ℕ × ℕ) :
    List RaftNodeId → Cluster → Cluster × List RaftNodeId
  | [], c => (c, [])
  | id :: rest, c =>
    let answer := answerElection term candidateId tail (c.nodeAt id)
    let (c, granted) := collectVotes term candidateId tail rest (c.set id answer.1)
    (c, if answer.2 then id :: granted else granted)

/-- `elect_leader` with the barrier its callers take when it succeeds. The answer names the voters
that granted, which the code counts. -/
def electLeader : Cluster × Except RaftError (List RaftNodeId) :=
  if c.config.prohibitsElection then (c, .error .electionProhibited)
  else match c.jointMajorityFailure with
    | some (live, required) => (c, .error (.noMajority live required))
    | none =>
      if ¬ c.mayCampaign id then (c, .error (.nodeNotFound id))
      else
        let term := saturatingSucc c.maxTerm
        let tail := (c.nodeAt id).tail
        let standing := c.set id (standAt term (c.nodeAt id) id)
        let voters := standing.ids.filter fun voter =>
          (standing.nodeAt voter).replicaRole.participatesInQuorum && voter != id
        let (polled, granted) := collectVotes term id tail voters standing
        if granted.length + 1 < polled.requiredMajority then
          (polled.modify id fun node => { node with role := .follower },
            .error (.noMajority (granted.length + 1) polled.requiredMajority))
        else
          (({ polled with leaderId := id }.mapNodes fun node =>
              { node with
                role := if node.id = id then .leader else .follower }).persistConfiguredWal,
            .ok granted)

def appendEntry (entry : RaftLogEntry) : RaftNode :=
  if node.installedSnapshot.any (entry.index ≤ ·.lastIncludedIndex) then node
  else match node.log.find? (·.index == entry.index) with
    | some existing =>
      if existing.term = entry.term then node
      else if entry.index ≤ node.commitIndex then node
      else { node with log := node.log.filter (·.index < entry.index) ++ [entry] }
    | none => { node with log := node.log ++ [entry] }

/-- The target of an accepted append: the vote is cleared when the term rises. -/
def acceptEntries (config : RaftConfig) (request : AppendEntriesRequest) (node : RaftNode) :
    RaftNode :=
  let node := { node with
    votedFor := if node.currentTerm < request.term then none else node.votedFor
    currentTerm := request.term
    role := .follower }
  let node := request.entries.foldl appendEntry node
  let lastNewEntryIndex := ((request.entries.map (·.index)).max?).getD request.prevLogIndex
  let node := { node with
    commitIndex := max node.commitIndex (min request.leaderCommit lastNewEntryIndex) }
  { node with reorderQueueDepth := if config.enableReorderQueue then engine.backlog node else 0 }

/-- The leader as the view of an accepting process shows it. -/
def shadowLeader (request : AppendEntriesRequest) (node : RaftNode) : RaftNode :=
  let node := { node with
    alive := true, role := .leader, currentTerm := max node.currentTerm request.term }
  let node := request.entries.foldl appendEntry node
  { node with
    commitIndex :=
      max node.commitIndex (min request.leaderCommit (nodeLastLogOrSnapshotIndex node)) }

def receiveAppendEntries (request : AppendEntriesRequest) :
    Cluster × Except RaftError AppendEntriesResponse :=
  let receivedEntries := request.entries.length
  let receivedBytes := (request.entries.map (·.command.length)).sum
  if request.shardId ≠ c.shardId then (c, .ok ⟨0, false, 0, some "shard_mismatch"⟩)
  else
    let heardFromTheLeader := (c.get? request.targetId).any (·.currentTerm ≤ request.term)
    let c := if heardFromTheLeader ∧ request.leaderId ≠ request.targetId then
        c.modify request.leaderId fun node => { node with alive := true }
      else c
    match c.get? request.targetId with
    | none => (c, .error (.nodeNotFound request.targetId))
    | some node =>
      let lastIndex := nodeLastLogOrSnapshotIndex node
      let reject (c : Cluster) (reason : String) :
          Cluster × Except RaftError AppendEntriesResponse :=
        (c, .ok ⟨node.currentTerm, false, lastIndex, some reason⟩)
      if request.term < node.currentTerm then reject c "stale_term"
      else if 0 < request.prevLogIndex ∧
          nodeTermAtLogOrSnapshotIndex node request.prevLogIndex ≠ some request.prevLogTerm then
        if c.config.enableReorderQueue ∧ 0 < request.prevLogIndex - lastIndex then
          if c.config.reorderWindowSize < request.prevLogIndex - lastIndex then
            reject c.persistConfiguredWal "reorder_window_timeout"
          else
            let depth := saturatingAdd node.reorderQueueDepth (max receivedEntries 1)
            reject (c.set request.targetId { node with reorderQueueDepth := depth
              }).persistConfiguredWal "out_of_order_append_queued"
        else reject c "log_mismatch"
      else if c.config.maxApplyBatchBytes < receivedBytes then
        reject c.persistConfiguredWal "apply_batch_backpressure"
      else if max c.config.maxInflightsApplyTask 1 < receivedEntries then
        reject c.persistConfiguredWal "apply_inflight_backpressure"
      else if c.config.enableReorderQueue ∧ 0 < receivedEntries ∧
          c.config.reorderWindowSize < saturatingAdd node.reorderQueueDepth receivedEntries then
        reject c.persistConfiguredWal "reorder_window_exceeded"
      else
        let accepted := acceptEntries engine c.config request node
        let c := { c.set request.targetId accepted with leaderId := request.leaderId }
        let c := c.mapNodes fun node =>
          if node.id ≠ request.leaderId ∧ node.role = .leader then { node with role := .follower }
          else node
        let c := if request.leaderId ≠ request.targetId then
            c.modify request.leaderId (shadowLeader request)
          else c
        ((c.refreshAllPipelineStates engine request.leaderId).persistConfiguredWal,
          .ok ⟨accepted.currentTerm, true, nodeLastLogOrSnapshotIndex accepted, none⟩)

/-- What `record_append_entries_response` does to the terms: a reply from a newer term makes the
leader step down. -/
def recordAppendEntriesResponse (targetId : RaftNodeId) (response : AppendEntriesResponse) :
    Cluster × Except RaftError Unit :=
  let steppedDown := (c.get? c.leaderId).any (·.currentTerm < response.term)
  let c := c.modify c.leaderId (adoptHigherTerm response.term)
  match c.get? targetId with
  | none => (c, .error (.nodeNotFound targetId))
  | some target =>
    if steppedDown then
      ((c.set targetId { target with
        currentTerm := max target.currentTerm response.term }).persistConfiguredWal, .ok ())
    else (c.persistConfiguredWal, .ok ())

/-- The start of an install, whole or by chunks. -/
def followInstaller : RaftNode :=
  { node with currentTerm := term, role := .follower, votedFor := none }

/-- The first stretch of `receive_install_snapshot`. Without an answer the install goes on. -/
def beginInstallSnapshot (request : InstallSnapshotRequest) :
    Cluster × Option (Except RaftError InstallSnapshotResponse) :=
  if request.shardId ≠ c.shardId then (c, some (.ok ⟨0, false, 0, some "shard_mismatch"⟩))
  else match c.get? request.targetId with
    | none => (c, some (.error (.nodeNotFound request.targetId)))
    | some node =>
      if request.term < node.currentTerm then
        (c.persistConfiguredWal, some (.ok ⟨node.currentTerm, false, 0, some "stale_term"⟩))
      else (c.set request.targetId (followInstaller request.term node), none)

/-- The node moves onto the snapshot. The tail of its log stays when its entry at the boundary is
the snapshot's. -/
def publishSnapshot (snapshot : RaftSnapshot) (node : RaftNode) : RaftNode :=
  let boundaryMatches := (node.log.find? (·.index == snapshot.lastIncludedIndex)).any
    (·.term == snapshot.lastIncludedTerm)
  { node with
    votedFor := if node.currentTerm < snapshot.lastIncludedTerm then none else node.votedFor
    currentTerm := max node.currentTerm snapshot.lastIncludedTerm
    commitIndex := snapshot.lastIncludedIndex
    log := if boundaryMatches then node.log.filter (snapshot.lastIncludedIndex < ·.index) else []
    installedSnapshot := some snapshot }

def installSnapshot (snapshot : RaftSnapshot) : Cluster × Except RaftError Unit :=
  if snapshot.shardId ≠ c.shardId then
    (c, .error (.snapshotShardMismatch snapshot.shardId c.shardId))
  else match c.get? id with
    | none => (c, .error (.nodeNotFound id))
    | some node =>
      if snapshot.lastIncludedIndex < node.commitIndex then
        (c, .error (.staleSnapshot snapshot.lastIncludedIndex node.commitIndex))
      else match engine.buildInstalledEngine snapshot with
        | .error message => (c, .error (.snapshotEncoding message))
        | .ok () => ((c.set id (publishSnapshot snapshot node)).persistConfiguredWal, .ok ())

/-- The request without others in between. -/
def receiveInstallSnapshot (request : InstallSnapshotRequest) :
    Cluster × Except RaftError InstallSnapshotResponse :=
  match c.beginInstallSnapshot request with
  | (c, some answer) => (c, answer)
  | (c, none) =>
    let (c, result) := c.installSnapshot engine request.targetId request.snapshot
    let c := c.persistConfiguredWal
    let term := ((c.get? request.targetId).map (·.currentTerm)).getD request.term
    match result with
    | .ok () => (c, .ok ⟨term, true, request.snapshot.lastIncludedIndex, none⟩)
    | .error err => (c, .ok ⟨term, false, 0, some err.toString⟩)

/-- The first stretch of `receive_install_snapshot_chunk`: the answer, or the snapshot that the
chunk completes. -/
def receiveChunk (request : InstallSnapshotChunkRequest) :
    Cluster × (Except RaftError InstallSnapshotChunkResponse ⊕ RaftSnapshot) :=
  if request.shardId ≠ c.shardId then
    (c, .inl (.ok ⟨0, false, false, 0, 0, some "shard_mismatch"⟩))
  else if request.chunkCount = 0 ∨ request.chunkCount ≤ request.chunkIndex then
    (c, .inl (.error (.invalidSnapshotChunk "chunk index is outside chunk count")))
  else match c.get? request.targetId with
    | none => (c, .inl (.error (.nodeNotFound request.targetId)))
    | some node =>
      if request.term < node.currentTerm then
        (c.persistConfiguredWal,
          .inl (.ok ⟨node.currentTerm, false, false, 0, 0, some "stale_term"⟩))
      else
        let c := c.set request.targetId (followInstaller request.term node)
        let key := (request.targetId, request.snapshotId)
        let pending := (c.pendingSnapshots key).getD
          ⟨request.shardId, request.lastIncludedTerm, request.lastIncludedIndex,
            List.replicate request.chunkCount none, none⟩
        if pending.shardId ≠ request.shardId ∨
            pending.lastIncludedTerm ≠ request.lastIncludedTerm ∨
            pending.lastIncludedIndex ≠ request.lastIncludedIndex ∨
            pending.chunks.length ≠ request.chunkCount then
          ({ c with pendingSnapshots := Function.update c.pendingSnapshots key none
              }.persistConfiguredWal,
            .inl (.error (.invalidSnapshotChunk "chunk metadata changed within snapshot")))
        else
          let pending := { pending with
            chunks := pending.chunks.set request.chunkIndex (some request.entries)
            stateImage := if request.stateImage.isSome then request.stateImage
              else pending.stateImage }
          let receivedChunks := pending.chunks.countP (·.isSome)
          if receivedChunks < request.chunkCount then
            ({ c with pendingSnapshots := Function.update c.pendingSnapshots key (some pending)
                }.persistConfiguredWal,
              .inl (.ok ⟨request.term, true, false, receivedChunks, 0, none⟩))
          else
            ({ c with pendingSnapshots := Function.update c.pendingSnapshots key none },
              .inr ⟨request.shardId, request.lastIncludedTerm, request.lastIncludedIndex,
                pending.chunks.flatMap (·.getD []), pending.stateImage⟩)

/-- The request without others in between. -/
def receiveInstallSnapshotChunk (request : InstallSnapshotChunkRequest) :
    Cluster × Except RaftError InstallSnapshotChunkResponse :=
  match c.receiveChunk request with
  | (c, .inl answer) => (c, answer)
  | (c, .inr snapshot) =>
    let (c, result) := c.installSnapshot engine request.targetId snapshot
    let c := c.persistConfiguredWal
    match result with
    | .error err => (c, .error err)
    | .ok () =>
      let term := ((c.get? request.targetId).map (·.currentTerm)).getD request.term
      (c, .ok ⟨term, true, true, request.chunkCount, request.lastIncludedIndex, none⟩)

end Cluster

end TemporalStore.Raft
