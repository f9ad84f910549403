import TemporalStore.Raft.Quorum

namespace TemporalStore.Raft

open Lib List

namespace Cluster

variable (membership : JointConsensusMembership) (voters : Finset RaftNodeId)

/-- A majority of the old voters and a majority of the new ones. -/
def Supported (support : Finset RaftNodeId) : Prop :=
  majority membership.oldVoters.length ≤ (support ∩ membership.oldVoters.toFinset).card ∧
    majority membership.newVoters.length ≤ (support ∩ membership.newVoters.toFinset).card

instance (support : Finset RaftNodeId) : Decidable (Supported membership support) :=
  inferInstanceAs (Decidable (_ ∧ _))

/-- A view in the middle of a change, with the nodes that count in its quorums. -/
structure Joint (c : Cluster) : Prop where
  membership : c.jointMembership = some membership
  ids : c.ids.Nodup
  voters : c.quorumIds.toFinset = voters

/-- What the joint change requires of the three places that count. The supporters of an election
are the candidate and those that granted it their vote, the supporters of a commit those that have
the log up to it. -/
structure JointLaw : Prop where
  elects : ∀ (c c' : Cluster) (id : RaftNodeId) (granted : List RaftNodeId),
    c.Joint membership voters → c.electLeader id = (c', .ok granted) →
    Supported membership (insert id granted.toFinset)
  concludes : ∀ (c : Cluster) (candidateId : RaftNodeId) (term : ℕ)
    (support : Finset RaftNodeId), c.Joint membership voters → candidateId ∈ support →
    support ⊆ voters → (c.concludeCampaign candidateId term support.card).2 = true →
    Supported membership support
  commits : ∀ (c c' : Cluster) (leader : RaftNode) (matchIndex : RaftNodeId → ℕ),
    c.Joint membership voters → c.maybeAdvanceQuorumCommit matchIndex = (c', true) →
    c.get? c.leaderId = some leader →
    Supported membership (voters.filter fun id =>
      (c'.nodeAt c.leaderId).commitIndex ≤ c.progress leader matchIndex id)

/-- The number the code compares with. -/
def jointRequired : ℕ :=
  max (majority membership.oldVoters.length) (majority membership.newVoters.length)

variable {c : Cluster} {membership voters}

lemma Joint.requiredMajority (h : c.Joint membership voters) :
    c.requiredMajority = jointRequired membership := by
  unfold Cluster.requiredMajority
  rw [h.membership]
  rfl

lemma Joint.quorumIds_nodup (h : c.Joint membership voters) : c.quorumIds.Nodup :=
  h.ids.filter _

variable {id : RaftNodeId}

section

variable {term : ℕ} {tail : ℕ × ℕ} (voters : List RaftNodeId) (c : Cluster)

lemma collectVotes_sublist : ((collectVotes term id tail voters c).2).Sublist voters := by
  induction voters generalizing c with
  | nil => exact List.Sublist.slnil
  | cons voter voters ih =>
    unfold collectVotes
    dsimp only
    split
    · exact (ih _).cons_cons voter
    · exact (ih _).cons voter

lemma jointMembership_collectVotes :
    (collectVotes term id tail voters c).1.jointMembership = c.jointMembership := by
  induction voters generalizing c with
  | nil => rfl
  | cons voter voters ih => exact ih _

end

variable {c' : Cluster} {granted : List RaftNodeId}

lemma of_electLeader (hjoint : c.Joint membership voters)
    (h : c.electLeader id = (c', .ok granted)) :
    c.mayCampaign id ∧ granted.Sublist (c.quorumIds.filter (· != id)) ∧
      jointRequired membership ≤ granted.length + 1 := by
  unfold electLeader at h
  split at h
  · cases h
  split at h
  · cases h
  split at h
  · cases h
  rename_i hmay
  dsimp only at h
  split at h
  · cases h
  rename_i hcount
  cases h
  have hvoters : ((c.set id (standAt (saturatingSucc c.maxTerm) (c.nodeAt id) id)).ids.filter
      fun voter => ((c.set id (standAt (saturatingSucc c.maxTerm) (c.nodeAt id) id)).nodeAt
        voter).replicaRole.participatesInQuorum && voter != id) =
      c.quorumIds.filter (· != id) := by
    unfold quorumIds
    rw [filter_filter]
    apply filter_congr
    intro voter _
    by_cases hid : voter = id
    · simp [hid]
    · have hnode : (c.set id (standAt (saturatingSucc c.maxTerm) (c.nodeAt id) id)).nodeAt voter =
          c.nodeAt voter := Function.update_of_ne hid _ _
      rw [hnode, Bool.and_comm]
  refine ⟨not_not.mp hmay, hvoters ▸ collectVotes_sublist _ _, ?_⟩
  have hreq := Nat.le_of_not_lt hcount
  unfold Cluster.requiredMajority at hreq
  have hmemb : (c.set id (standAt (saturatingSucc c.maxTerm) (c.nodeAt id)
    id)).jointMembership = some membership := hjoint.membership
  rw [jointMembership_collectVotes, hmemb] at hreq
  exact hreq

/-- What is left of the required number without the voters outside a set is a majority of it. -/
def CloseVoters (membership : JointConsensusMembership) (voters : Finset RaftNodeId) : Prop :=
  majority membership.oldVoters.length ≤
      jointRequired membership - (voters \ membership.oldVoters.toFinset).card ∧
    majority membership.newVoters.length ≤
      jointRequired membership - (voters \ membership.newVoters.toFinset).card

instance (membership : JointConsensusMembership) (voters : Finset RaftNodeId) :
    Decidable (CloseVoters membership voters) :=
  inferInstanceAs (Decidable (_ ∧ _))

variable {support : Finset RaftNodeId}

lemma supported_of_card (hclose : CloseVoters membership voters) (hsupp : support ⊆ voters)
    (hcard : jointRequired membership ≤ support.card) : Supported membership support := by
  obtain ⟨hold, hnew⟩ := hclose
  have hinOld := card_le_inter_add hsupp membership.oldVoters.toFinset
  have hinNew := card_le_inter_add hsupp membership.newVoters.toFinset
  exact ⟨by omega, by omega⟩

lemma support_of_electLeader (hjoint : c.Joint membership voters)
    (h : c.electLeader id = (c', .ok granted)) : insert id granted.toFinset ⊆ voters ∧
      jointRequired membership ≤ (insert id granted.toFinset).card := by
  obtain ⟨hmay, hsublist, hcount⟩ := of_electLeader hjoint h
  have hnot : id ∉ granted.toFinset := by
    intro hmem
    have := mem_filter.mp (hsublist.subset (mem_toFinset.mp hmem))
    simp at this
  have hnodup : granted.Nodup := (hjoint.quorumIds_nodup.filter _).sublist hsublist
  have hid : id ∈ c.quorumIds := by
    unfold mayCampaign get? at hmay
    split at hmay
    · rename_i hmem
      rw [Option.any_some, Bool.and_eq_true] at hmay
      refine mem_filter.mpr ⟨hmem, ?_⟩
      cases hrole : (c.nodeAt id).replicaRole with
      | voter => rfl
      | learner =>
        rw [hrole] at hmay
        cases hmay.2
      | witness => rfl
    · cases hmay
  refine ⟨?_, ?_⟩
  · rw [← hjoint.voters]
    refine Finset.insert_subset (mem_toFinset.mpr hid) ?_
    intro voter hvoter
    exact mem_toFinset.mpr (mem_of_mem_filter (hsublist.subset (mem_toFinset.mp hvoter)))
  · rw [Finset.card_insert_of_notMem hnot, toFinset_card_of_nodup hnodup]
    exact hcount

lemma support_of_commit (hjoint : c.Joint membership voters) {matchIndex : RaftNodeId → ℕ}
    {leader : RaftNode} (h : c.maybeAdvanceQuorumCommit matchIndex = (c', true))
    (hldr : c.get? c.leaderId = some leader) : jointRequired membership ≤ (voters.filter fun id =>
      (c'.nodeAt c.leaderId).commitIndex ≤ c.progress leader matchIndex id).card := by
  obtain ⟨_, candidate, hget, -, -, -, hcount, rfl⟩ := of_maybeAdvanceQuorumCommit h
  rw [hldr] at hget
  cases hget
  have hcom : ((c.set c.leaderId { leader with commitIndex := candidate }).nodeAt
      c.leaderId).commitIndex = candidate := by
    change (Function.update c.nodeAt c.leaderId _ c.leaderId).commitIndex = candidate
    rw [Function.update_self]
  rw [hcom, ← hjoint.voters, ← hjoint.requiredMajority]
  have hnodup := hjoint.quorumIds_nodup.filter
    fun id => decide (candidate ≤ c.progress leader matchIndex id)
  rw [← toFinset_card_of_nodup hnodup] at hcount
  simpa using hcount

def campaignView (membership : JointConsensusMembership) (ids : List RaftNodeId)
    (candidateId : RaftNodeId) : Cluster where
  shardId := 0
  leaderId := 0
  ids := ids
  nodeAt := fun id => { newNode id .follower with votedFor := some candidateId }
  config := ⟨false, false, 0, 0, 0⟩
  jointMembership := some membership
  localNodeId := none
  pendingSnapshots := fun _ => none
  wal := fun _ => none
  lastDurableFingerprint := fun _ => none

lemma JointLaw.supported (h : JointLaw membership voters) (hsupp : support ⊆ voters)
    (hcard : support.card = jointRequired membership) : Supported membership support := by
  have hpos : 0 < support.card := by
    rw [hcard]
    exact Nat.lt_of_lt_of_le (Nat.succ_pos _) (Nat.le_max_left _ _)
  obtain ⟨candidateId, hcand⟩ := Finset.card_pos.mp hpos
  obtain ⟨ids, hnodup, hids⟩ := Finset.exists_list_nodup_eq voters
  have hjoint : (campaignView membership ids candidateId).Joint membership voters := by
    refine ⟨rfl, hnodup, ?_⟩
    rw [← hids]
    congr 1
    exact filter_eq_self.mpr fun _ _ => rfl
  apply h.concludes _ candidateId 1 support hjoint hcand hsupp
  have hmem : candidateId ∈ (campaignView membership ids candidateId).ids := by
    rw [← mem_toFinset]
    exact hids ▸ hsupp hcand
  unfold concludeCampaign get?
  rw [if_pos hmem, hjoint.requiredMajority, hcard]
  simp [campaignView, newNode]

end Cluster

open Cluster

/-- During a joint change the counts mean a majority of both sets exactly if there are too few
voters for any count, or the voters are close to each of the two sets. -/
theorem jointLaw_iff (membership : JointConsensusMembership) (voters : Finset RaftNodeId) :
    JointLaw membership voters ↔
      voters.card < jointRequired membership ∨ CloseVoters membership voters := by
  constructor
  · intro h
    rcases Nat.lt_or_ge voters.card (jointRequired membership) with hfew | henough
    · exact .inl hfew
    · right
      obtain ⟨support, hsupport, hcard, hold⟩ :=
        exists_support henough membership.oldVoters.toFinset
      obtain ⟨support', hsupport', hcard', hnew⟩ :=
        exists_support henough membership.newVoters.toFinset
      refine ⟨?_, ?_⟩
      · rw [← hold]
        exact (h.supported hsupport hcard).1
      · rw [← hnew]
        exact (h.supported hsupport' hcard').2
  · intro hcondition
    have hsupported : ∀ support ⊆ voters, jointRequired membership ≤ support.card →
        Supported membership support := by
      intro support hsupport hcard
      rcases hcondition with hfew | hclose
      · have := Finset.card_le_card hsupport
        omega
      · exact supported_of_card hclose hsupport hcard
    refine ⟨?_, ?_, ?_⟩
    · intro c c' id granted hjoint helect
      obtain ⟨hsubset, hcard⟩ := support_of_electLeader hjoint helect
      exact hsupported _ hsubset hcard
    · intro c candidateId term support hjoint _ hsubset hconclude
      apply hsupported support hsubset
      unfold concludeCampaign at hconclude
      split at hconclude
      · cases hconclude
      split at hconclude
      · cases hconclude
      rename_i hcount
      rw [hjoint.requiredMajority] at hcount
      exact Nat.le_of_not_lt hcount
    · intro c c' leader matchIndex hjoint hcommit hleader
      exact hsupported _ (Finset.filter_subset _ _) (support_of_commit hjoint hcommit hleader)

/-- Three voters hand over to three, one of which stays. -/
def handover : JointConsensusMembership := ⟨[1, 2, 3], [3, 4, 5]⟩

def handoverView (log : RaftNodeId → List RaftLogEntry) : Cluster where
  shardId := 0
  leaderId := 1
  ids := [1, 2, 3, 4, 5]
  nodeAt := fun id => { newNode id (if id = 1 then .leader else .follower) with log := log id }
  config := ⟨false, false, 0, 0, 0⟩
  jointMembership := some handover
  localNodeId := none
  pendingSnapshots := fun _ => none
  wal := fun _ => none
  lastDurableFingerprint := fun _ => none

lemma joint_handoverView (log : RaftNodeId → List RaftLogEntry) :
    (handoverView log).Joint handover {1, 2, 3, 4, 5} := by
  refine ⟨rfl, ?_, ?_⟩
  · change [1, 2, 3, 4, 5].Nodup
    decide
  · rfl

/-- With the support of two old voters alone, and of no new one, a leader is elected and an entry is
committed. -/
theorem not_supported_handover :
    (∃ c', ((handoverView fun id => if id < 3 then [] else [⟨1, 1, []⟩]).electLeader 1) =
        (c', .ok [2])) ∧ ¬ Supported handover (insert 1 [2].toFinset) ∧
    (∃ c', (handoverView fun id => if id < 3 then [⟨1, 1, []⟩] else []).maybeAdvanceQuorumCommit
        (fun id => if id = 2 then 1 else 0) = (c', true) ∧ (c'.nodeAt 1).commitIndex = 1) ∧
    ¬ Supported handover {1, 2} ∧ ¬ JointLaw handover {1, 2, 3, 4, 5} := by
  have hnot : ¬ Supported handover {1, 2} := by decide
  refine ⟨⟨_, rfl⟩, hnot, ⟨_, rfl, rfl⟩, hnot, ?_⟩
  intro hlaw
  exact hnot (hlaw.elects _ _ 1 [2] (joint_handoverView fun id =>
    if id < 3 then [] else [⟨1, 1, []⟩]) rfl)

end TemporalStore.Raft
