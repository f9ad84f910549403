import TemporalStore.Lib.Majority
import TemporalStore.Raft.Handlers

/-! # Commits by counting (`raft/cluster_inner.rs`) -/

namespace TemporalStore.Raft

open Lib

namespace Cluster

def quorumIds (c : Cluster) : List RaftNodeId :=
  c.ids.filter fun id => (c.nodeAt id).replicaRole.participatesInQuorum

/-- How far a voter has the leader's log, for all that the leader knows. -/
def progress (c : Cluster) (leader : RaftNode) (matchIndex : RaftNodeId → ℕ)
    (id : RaftNodeId) : ℕ :=
  if id = c.leaderId then nodeLastLogOrSnapshotIndex leader else matchIndex id

/-- `maybe_advance_quorum_commit`, and whether it advances. `matchIndex` is of the pipelines. -/
def maybeAdvanceQuorumCommit (c : Cluster) (matchIndex : RaftNodeId → ℕ) : Cluster × Bool :=
  match c.get? c.leaderId with
  | none => (c, false)
  | some leader =>
    if leader.role ≠ .leader ∨ ¬ leader.alive then (c, false)
    else
      let matched := c.quorumIds.map (c.progress leader matchIndex)
      match (matched.insertionSort (· ≥ ·))[c.requiredMajority - 1]? with
      | none => (c, false)
      | some candidate =>
        if candidate ≤ leader.commitIndex then (c, false)
        else if nodeTermAtLogOrSnapshotIndex leader candidate ≠ some leader.currentTerm then
          (c, false)
        else (c.set c.leaderId { leader with commitIndex := candidate }, true)

lemma of_maybeAdvanceQuorumCommit {c c' : Cluster} {matchIndex : RaftNodeId → ℕ}
    (h : c.maybeAdvanceQuorumCommit matchIndex = (c', true)) :
    ∃ leader candidate, c.get? c.leaderId = some leader ∧ leader.role = .leader ∧
      leader.commitIndex < candidate ∧
      nodeTermAtLogOrSnapshotIndex leader candidate = some leader.currentTerm ∧ c.requiredMajority ≤
        (c.quorumIds.filter (candidate ≤ c.progress leader matchIndex ·)).length ∧
      c' = c.set c.leaderId { leader with commitIndex := candidate } := by
  unfold maybeAdvanceQuorumCommit at h
  split at h
  · cases h
  rename_i leader hldr
  split at h
  · cases h
  rename_i hrole
  dsimp only at h
  split at h
  · cases h
  rename_i candidate hcand
  split at h
  · cases h
  rename_i hcom
  split at h
  · cases h
  rename_i hterm
  cases h
  refine ⟨leader, candidate, hldr, ?_, Nat.lt_of_not_le hcom, not_not.mp hterm, ?_, rfl⟩
  · by_contra hnot
    exact hrole (.inl hnot)
  · have hcount := lt_countP_of_insertionSort hcand
    rw [List.countP_map, List.countP_eq_length_filter] at hcount
    exact Nat.le_of_pred_lt hcount

end Cluster

end TemporalStore.Raft
