import TemporalStore.Lib.Lists
import TemporalStore.Raft.Handlers

namespace TemporalStore.Raft

open Lib List Ballot Cluster

/-- What reaches a process, one stretch under the lock at a time. `installRequest` and
`installChunk` are the first stretches of the two kinds of install; `installSnapshot` and `persist`
are the others, which may come later. -/
inductive Op where
  | vote (request : VoteRequest)
  | prepareCampaign (id : RaftNodeId)
  | concludeCampaign (id : RaftNodeId) (term grants : ℕ)
  | buildVoteRequest (candidateId targetId : RaftNodeId)
  | electLeader (id : RaftNodeId)
  | observeHigherTerm (id : RaftNodeId) (term : ℕ)
  | stepDownLocal (id : RaftNodeId)
  | appendEntries (request : AppendEntriesRequest)
  | appendResponse (targetId : RaftNodeId) (response : AppendEntriesResponse)
  | installRequest (request : InstallSnapshotRequest)
  | installChunk (request : InstallSnapshotChunkRequest)
  | installSnapshot (id : RaftNodeId) (snapshot : RaftSnapshot)
  | persist
  | restart

abbrev NodeVote := RaftNodeId × Cast ℕ RaftNodeId

namespace Cluster

/-- The vote in the answer to a request, if there is one: a pre-vote is none. -/
def grantedVote (request : VoteRequest) : Except RaftError VoteResponse → List NodeVote
  | .ok response =>
    if response.voteGranted ∧ ¬ request.preVote then
      [(request.targetId, ⟨response.term, request.candidateId⟩)]
    else []
  | .error _ => []

def ownVote : Except RaftError VoteRequest → List NodeVote
  | .ok request => [(request.candidateId, ⟨request.term, request.candidateId⟩)]
  | .error _ => []

def step (engine : Engine) (c : Cluster) : Op → Cluster × List NodeVote
  | .vote request =>
    ((c.receiveVoteRequest request).1, grantedVote request (c.receiveVoteRequest request).2)
  | .prepareCampaign id => ((c.prepareCampaign id).1, ownVote (c.prepareCampaign id).2)
  | .concludeCampaign id term grants => ((c.concludeCampaign id term grants).1, [])
  | .buildVoteRequest candidateId targetId =>
    ((c.buildVoteRequest candidateId targetId).1,
      ownVote (c.buildVoteRequest candidateId targetId).2)
  | .electLeader id =>
    ((c.electLeader id).1, match (c.electLeader id).2 with
      | .ok granted => (id :: granted).map fun voter => (voter, ⟨saturatingSucc c.maxTerm, id⟩)
      | .error _ => [])
  | .observeHigherTerm id term => ((c.observeHigherTerm id term).1, [])
  | .stepDownLocal id => ((c.stepDownLocal id).1, [])
  | .appendEntries request => ((c.receiveAppendEntries engine request).1, [])
  | .appendResponse targetId response => ((c.recordAppendEntriesResponse targetId response).1, [])
  | .installRequest request => ((c.beginInstallSnapshot request).1, [])
  | .installChunk request => ((c.receiveChunk request).1, [])
  | .installSnapshot id snapshot => ((c.installSnapshot engine id snapshot).1, [])
  | .persist => (c.persistConfiguredWal, [])
  | .restart => (c.restoreSingleShardFromWal engine, [])

/-- The votes cast along the requests. -/
def run (engine : Engine) : Cluster → List Op → Cluster × List NodeVote
  | c, [] => (c, [])
  | c, op :: ops =>
    let (c, votes) := c.step engine op
    let (c, later) := run engine c ops
    (c, votes ++ later)

end Cluster

def votesBy (n : RaftNodeId) (votes : List NodeVote) : List (Cast ℕ RaftNodeId) :=
  (votes.filter fun v => v.1 = n).map Prod.snd

lemma mem_votesBy {n : RaftNodeId} {votes : List NodeVote} {v : Cast ℕ RaftNodeId} :
    v ∈ votesBy n votes ↔ (n, v) ∈ votes := by
  simp [votesBy]

namespace Cluster

/-- The ballot a restart finds for the node. -/
def logBallot (c : Cluster) (n : RaftNodeId) : Ballot ℕ RaftNodeId :=
  match c.wal n with
  | some record => ⟨record.hardState.currentTerm, record.hardState.votedFor⟩
  | none => ⟨1, none⟩

/-- The process writes the node's record. -/
def Owns (c : Cluster) (n : RaftNodeId) : Prop := c.localNodeId = none ∨ c.localNodeId = some n

/-- The steps after which the node's vote still stands: no campaign starts when the terms have run
out, and no install comes in the term the node has voted in. -/
def Allows (n : RaftNodeId) (c : Cluster) : Op → Prop
  | .prepareCampaign _ | .electLeader _ => c.maxTerm < u64Max
  | .buildVoteRequest id _ => n = id → (c.nodeAt id).currentTerm < u64Max
  | .installRequest request =>
    n = request.targetId → request.term = (c.nodeAt request.targetId).currentTerm →
      (c.nodeAt request.targetId).votedFor = none
  | .installChunk request =>
    n = request.targetId → request.term = (c.nodeAt request.targetId).currentTerm →
      (c.nodeAt request.targetId).votedFor = none
  | _ => True

/-- The records that would not be written again are in the log. -/
def Kept (c : Cluster) : Prop :=
  ∀ id fingerprint, c.lastDurableFingerprint id = some fingerprint →
    ∃ record, c.wal id = some record ∧ raftDurableFingerprint record = fingerprint

/-- What the node has promised develops from what its log holds. -/
structure Held (n : RaftNodeId) (c : Cluster) : Prop where
  durable : c.logBallot n ≤ (c.nodeAt n).ballot
  kept : c.Kept

/-- A stretch of code keeps what the node and its log hold, and the log develops. -/
structure Advances (n : RaftNodeId) (c c' : Cluster) : Prop where
  held : Held n c'
  log : c.logBallot n ≤ c'.logBallot n
  ids : c'.ids = c.ids
  localNodeId : c'.localNodeId = c.localNodeId

section

variable {n : RaftNodeId} {c c' : Cluster}

lemma Held.refl (h : Held n c) : Advances n c c := ⟨h, le_rfl, rfl, rfl⟩

lemma Advances.trans {c'' : Cluster} (h : Advances n c c') (h' : Advances n c' c'') :
    Advances n c c'' :=
  ⟨h'.held, h.log.trans h'.log, h'.ids.trans h.ids, h'.localNodeId.trans h.localNodeId⟩

lemma Held.nodes (h : Held n c) (hwal : c'.wal = c.wal)
    (hkept : c'.lastDurableFingerprint = c.lastDurableFingerprint) (hids : c'.ids = c.ids)
    (hlocal : c'.localNodeId = c.localNodeId)
    (hbal : (c.nodeAt n).ballot ≤ (c'.nodeAt n).ballot) : Advances n c c' := by
  have hlog : c'.logBallot n = c.logBallot n := by
    unfold logBallot
    rw [hwal]
  refine ⟨⟨?_, ?_⟩, hlog.ge, hids, hlocal⟩
  · rw [hlog]
    exact h.durable.trans hbal
  · unfold Kept
    rw [hkept, hwal]
    exact h.kept

variable {id : RaftNodeId} {node : RaftNode}

lemma Held.set (h : Held n c) (hbal : n = id → (c.nodeAt id).ballot ≤ node.ballot) :
    Advances n c (c.set id node) := by
  refine h.nodes (rfl : (c.set id node).wal = c.wal) rfl rfl rfl ?_
  by_cases hid : n = id
  · subst hid
    simpa [set] using hbal rfl
  · simp [Cluster.set, hid]

lemma get?_eq_some : c.get? id = some node ↔ id ∈ c.ids ∧ c.nodeAt id = node := by
  unfold get?
  split <;> simp_all

variable {f : RaftNode → RaftNode}

lemma Held.modify (h : Held n c) (hbal : (c.nodeAt id).ballot ≤ (f (c.nodeAt id)).ballot) :
    Advances n c (c.modify id f) := by
  unfold Cluster.modify
  split
  case h_1 node hnode =>
    obtain ⟨-, rfl⟩ := get?_eq_some.mp hnode
    exact h.set fun _ => hbal
  case h_2 => exact h.refl

lemma Held.mapNodes (h : Held n c) (hbal : ∀ node : RaftNode, node.ballot ≤ (f node).ballot) :
    Advances n c (c.mapNodes f) :=
  h.nodes (rfl : (c.mapNodes f).wal = c.wal) rfl rfl rfl (hbal _)

/-- A write to the log: the nodes stay, and a record that changes is the node's own. -/
structure Writes (c c' : Cluster) : Prop where
  nodeAt : c'.nodeAt = c.nodeAt
  ids : c'.ids = c.ids
  localNodeId : c'.localNodeId = c.localNodeId
  log : ∀ n, c'.logBallot n = c.logBallot n ∨ c'.logBallot n = (c.nodeAt n).ballot
  kept : c.Kept → c'.Kept

lemma Writes.refl (c : Cluster) : Writes c c := ⟨rfl, rfl, rfl, fun _ => Or.inl rfl, id⟩

lemma Writes.trans {c'' : Cluster} (h : Writes c c') (h' : Writes c' c'') : Writes c c'' where
  nodeAt := h'.nodeAt.trans h.nodeAt
  ids := h'.ids.trans h.ids
  localNodeId := h'.localNodeId.trans h.localNodeId
  log n := by
    rcases h'.log n with hlog | hlog
    · rw [hlog]
      exact h.log n
    · exact Or.inr (h.nodeAt ▸ hlog)
  kept hkept := h'.kept (h.kept hkept)

lemma Writes.advances (h : Writes c c') (hheld : Held n c) : Advances n c c' := by
  have hdur := hheld.durable
  refine ⟨⟨?_, h.kept hheld.kept⟩, ?_, h.ids, h.localNodeId⟩
  · rw [h.nodeAt]
    rcases h.log n with hlog | hlog
    · exact hlog ▸ hdur
    · exact hlog.le
  · rcases h.log n with hlog | hlog
    · exact hlog.ge
    · exact hlog ▸ hdur

variable {record : RaftWalRecord}

lemma logBallot_update {wal : RaftNodeId → Option RaftWalRecord}
    (hwal : c'.wal = Function.update wal id (some record))
    (hrec : c.walRecordFor id = some record) : c'.logBallot id = (c.nodeAt id).ballot := by
  obtain ⟨node, hnode, rfl⟩ := Option.map_eq_some_iff.mp hrec
  obtain ⟨-, rfl⟩ := get?_eq_some.mp hnode
  simp [logBallot, hwal, RaftNode.ballot]

lemma writes_update (hwal : c'.wal = Function.update c.wal id (some record))
    (hrec : c.walRecordFor id = some record) (hnodes : c'.nodeAt = c.nodeAt)
    (hids : c'.ids = c.ids) (hlocal : c'.localNodeId = c.localNodeId) (hkept : c.Kept → c'.Kept) :
    Writes c c' := by
  refine ⟨hnodes, hids, hlocal, fun m => ?_, hkept⟩
  by_cases hm : m = id
  · subst hm
    exact Or.inr (logBallot_update hwal hrec)
  · exact Or.inl (by simp [logBallot, hwal, hm])

lemma persistNode_writes (c : Cluster) (id : RaftNodeId) : Writes c (c.persistNode id) := by
  unfold persistNode
  split
  case h_1 => exact Writes.refl c
  case h_2 record hrec =>
    split
    · exact Writes.refl c
    · refine writes_update rfl hrec rfl rfl rfl fun hkept m fingerprint hm => ?_
      by_cases hid : m = id
      · subst hid
        simpa using hm
      · simpa [hid] using hkept m fingerprint (by simpa [hid] using hm)

lemma logBallot_persistNode (hkept : c.Kept) (hmem : n ∈ c.ids) :
    (c.persistNode n).logBallot n = (c.nodeAt n).ballot := by
  have hrec : ∃ record, c.walRecordFor n = some record := by
    simp [walRecordFor, get?, hmem]
  obtain ⟨record, hrec⟩ := hrec
  unfold persistNode
  rw [hrec]
  dsimp only
  split
  case isFalse => exact logBallot_update rfl hrec
  case isTrue hsame =>
    -- the record in the log has the fingerprint, and with it the hard state
    obtain ⟨old, hold, hfing⟩ := hkept n _ hsame
    have hhard : old.hardState = record.hardState := congrArg Fingerprint.hardState hfing
    obtain ⟨node, hnode, rfl⟩ := Option.map_eq_some_iff.mp hrec
    obtain ⟨-, rfl⟩ := get?_eq_some.mp hnode
    simp [logBallot, hold, hhard, RaftNode.ballot]

lemma foldl_persistNode_writes (ids : List RaftNodeId) (c : Cluster) :
    Writes c (ids.foldl persistNode c) := by
  induction ids generalizing c with
  | nil => exact Writes.refl c
  | cons id ids ih => exact (persistNode_writes c id).trans (ih _)

lemma persistConfiguredWal_writes (c : Cluster) : Writes c c.persistConfiguredWal := by
  unfold persistConfiguredWal
  split
  · exact persistNode_writes c _
  · exact foldl_persistNode_writes c.ids c

lemma logBallot_foldl_persistNode {ids : List RaftNodeId} (hkept : c.Kept)
    (hmem : n ∈ c.ids) (hn : n ∈ ids) :
    (ids.foldl persistNode c).logBallot n = (c.nodeAt n).ballot := by
  induction ids generalizing c with
  | nil => cases hn
  | cons id ids ih =>
    have hfirst := persistNode_writes c id
    by_cases hlater : n ∈ ids
    · exact (ih (hfirst.kept hkept) (hfirst.ids.symm ▸ hmem) hlater).trans (by rw [hfirst.nodeAt])
    · -- the node's turn is now, and no later one takes its record back
      obtain rfl : n = id := by simpa [hlater] using hn
      rcases (foldl_persistNode_writes ids (c.persistNode n)).log n with hlog | hlog
      · exact hlog.trans (logBallot_persistNode hkept hmem)
      · exact hlog.trans (by rw [hfirst.nodeAt])

lemma logBallot_persistConfiguredWal (hkept : c.Kept) (howns : c.Owns n) (hmem : n ∈ c.ids) :
    c.persistConfiguredWal.logBallot n = (c.nodeAt n).ballot := by
  unfold persistConfiguredWal
  rcases howns with hlocal | hlocal
  · rw [hlocal]
    exact logBallot_foldl_persistNode hkept hmem hmem
  · rw [hlocal]
    exact logBallot_persistNode hkept hmem

lemma Advances.persist (h : Advances n c c') : Advances n c c'.persistConfiguredWal :=
  h.trans ((persistConfiguredWal_writes c').advances h.held)

lemma Advances.logBallot_persist (h : Advances n c c') (howns : c.Owns n) (hmem : n ∈ c.ids) :
    c'.persistConfiguredWal.logBallot n = (c'.nodeAt n).ballot := by
  refine logBallot_persistConfiguredWal h.held.kept ?_ (h.ids.symm ▸ hmem)
  unfold Owns
  rw [h.localNodeId]
  exact howns

/-- The log develops, and a vote that the node casts is the one its log holds afterwards. -/
def Casts (n : RaftNodeId) (c : Cluster) (step : Cluster × List NodeVote) : Prop :=
  Advances n c step.1 ∧ ∀ v ∈ votesBy n step.2, v.ballot = step.1.logBallot n

lemma Advances.casts (h : Advances n c c') {votes : List NodeVote} (hnone : votesBy n votes = []) :
    Casts n c (c', votes) :=
  ⟨h, fun v hv => absurd (hnone ▸ hv : v ∈ []) not_mem_nil⟩

/-- The record of a member is replaced and written, and the node votes as its own record says. -/
lemma Held.cast (h : Held n c) (howns : c.Owns n) (hmem : id ∈ c.ids)
    (hbal : n = id → (c.nodeAt id).ballot ≤ node.ballot) {votes : List NodeVote}
    (hvotes : ∀ v ∈ votesBy n votes, n = id ∧ v.ballot = node.ballot) :
    Casts n c ((c.set id node).persistConfiguredWal, votes) := by
  have hset := h.set hbal
  refine ⟨hset.persist, fun v hv => ?_⟩
  dsimp only at hv ⊢
  obtain ⟨rfl, hv⟩ := hvotes v hv
  rw [hset.logBallot_persist howns hmem, hv]
  simp [Cluster.set]

lemma ballot_le_adoptHigherTerm (term : ℕ) (node : RaftNode) :
    node.ballot ≤ (adoptHigherTerm term node).ballot := by
  unfold adoptHigherTerm
  split
  case isTrue h => exact le_of_lt h
  case isFalse => exact le_rfl

variable {term : ℕ}

lemma currentTerm_adoptHigherTerm (h : node.currentTerm ≤ term) :
    (adoptHigherTerm term node).currentTerm = term := by
  unfold adoptHigherTerm
  split
  · rfl
  · exact le_antisymm h (by omega)

/-- A vote goes to the candidate the ballot names already, or to the first one in the term. -/
lemma ballot_le_vote {candidateId : RaftNodeId} (hterm : node.currentTerm = term)
    (hfree : ¬(node.votedFor.isSome ∧ node.votedFor ≠ some candidateId)) :
    node.ballot ≤ ⟨term, some candidateId⟩ := by
  refine Or.inr ⟨hterm, ?_⟩
  cases hvote : node.votedFor with
  | none => exact Or.inl hvote
  | some other =>
    have hsame : some other = some candidateId := by simpa [hvote] using hfree
    exact Or.inr (hvote.trans hsame)

variable {v : Cast ℕ RaftNodeId}

variable (engine : Engine)

lemma casts_vote (h : Held n c) (howns : c.Owns n) (request : VoteRequest) :
    Casts n c (c.step engine (.vote request)) := by
  have hnone : ∀ {answer : VoteResponse}, answer.voteGranted = false →
      votesBy n (grantedVote request (.ok answer)) = [] := by
    intro answer hans
    simp [grantedVote, hans, votesBy]
  simp only [step, receiveVoteRequest]
  split
  · exact h.refl.casts (hnone rfl)
  split
  · exact h.refl.casts (hnone rfl)
  split
  · exact h.refl.casts rfl
  case h_2 node hnode =>
    obtain ⟨hmem, rfl⟩ := get?_eq_some.mp hnode
    split
    · exact h.refl.casts (hnone rfl)
    split
    case isTrue hpre => exact h.refl.casts (by simp [grantedVote, hpre, votesBy])
    split
    · exact h.refl.casts (hnone rfl)
    case isFalse hterm =>
      have hadopt := ballot_le_adoptHigherTerm request.term (c.nodeAt request.targetId)
      have hset := h.set fun _ => hadopt
      split
      · exact hset.persist.casts (hnone rfl)
      split
      · exact hset.persist.casts (hnone rfl)
      case isFalse hfree =>
        have hvote := ballot_le_vote (currentTerm_adoptHigherTerm (not_lt.mp hterm)) hfree
        apply h.cast howns hmem
        · exact fun _ => hadopt.trans hvote
        · intro v hv
          obtain ⟨-, rfl, rfl⟩ : _ ∧ n = _ ∧ v = _ := by
            simpa [grantedVote] using mem_votesBy.mp hv
          exact ⟨rfl, rfl⟩

lemma le_maxTerm (hid : id ∈ c.ids) : (c.nodeAt id).currentTerm ≤ c.maxTerm := by
  apply le_foldl_max_of_mem
  simp only [values, map_map, mem_map]
  exact ⟨id, hid, rfl⟩

lemma mem_ids_of_mayCampaign (h : c.mayCampaign id) : id ∈ c.ids := by
  unfold mayCampaign at h
  cases hnode : c.get? id with
  | none => simp [hnode] at h
  | some node => exact (get?_eq_some.mp hnode).1

lemma votesBy_ownVote {request : VoteRequest} (hv : v ∈ votesBy n (ownVote (.ok request))) :
    n = request.candidateId ∧ v.ballot = ⟨request.term, some request.candidateId⟩ := by
  obtain ⟨rfl, rfl⟩ : n = _ ∧ v = _ := by simpa [ownVote] using mem_votesBy.mp hv
  exact ⟨rfl, rfl⟩

lemma casts_prepareCampaign (h : Held n c) (howns : c.Owns n) (hmax : c.maxTerm < u64Max)
    (id : RaftNodeId) : Casts n c (c.step engine (.prepareCampaign id)) := by
  simp only [step, prepareCampaign]
  split
  · exact h.refl.casts rfl
  split
  · exact h.refl.casts rfl
  case isFalse hmay =>
    have hid := mem_ids_of_mayCampaign (not_not.mp hmay)
    have hrise : (c.nodeAt id).currentTerm < saturatingSucc c.maxTerm := by
      rw [saturatingSucc_of_lt hmax]
      exact Nat.lt_succ_of_le (le_maxTerm hid)
    apply h.cast howns hid
    · exact fun _ => le_of_lt hrise
    · exact fun v hv => votesBy_ownVote hv

lemma casts_buildVoteRequest (h : Held n c) (howns : c.Owns n) (id targetId : RaftNodeId)
    (hmax : c.Allows n (.buildVoteRequest id targetId)) :
    Casts n c (c.step engine (.buildVoteRequest id targetId)) := by
  simp only [step, buildVoteRequest]
  split
  · exact h.refl.casts rfl
  case h_2 node hnode =>
    obtain ⟨hid, rfl⟩ := get?_eq_some.mp hnode
    refine h.cast howns hid (fun hn => Ballot.le_of_lt ?_) fun v hv => votesBy_ownVote hv
    have hrise := saturatingSucc_of_lt (hmax hn)
    exact hrise.symm ▸ Nat.lt_succ_self _

lemma ballot_appendEntry (node : RaftNode) (entry : RaftLogEntry) :
    (appendEntry node entry).ballot = node.ballot := by
  unfold appendEntry
  split
  · rfl
  split
  · split
    · rfl
    · split <;> rfl
  · rfl

lemma ballot_foldl_appendEntry (entries : List RaftLogEntry) (node : RaftNode) :
    (entries.foldl appendEntry node).ballot = node.ballot := by
  induction entries generalizing node with
  | nil => rfl
  | cons entry entries ih => exact (ih _).trans (ballot_appendEntry node entry)

lemma ballot_le_acceptEntries (config : RaftConfig) {request : AppendEntriesRequest}
    (h : node.currentTerm ≤ request.term) :
    node.ballot ≤ (acceptEntries engine config request node).ballot := by
  have hbal : (acceptEntries engine config request node).ballot =
      ⟨request.term, if node.currentTerm < request.term then none else node.votedFor⟩ :=
    ballot_foldl_appendEntry request.entries _
  rw [hbal]
  split
  case isTrue hlt => exact le_of_lt hlt
  case isFalse => exact le_of_term_le h rfl

lemma ballot_le_shadowLeader (request : AppendEntriesRequest) (node : RaftNode) :
    node.ballot ≤ (shadowLeader request node).ballot := by
  have hbal : (shadowLeader request node).ballot =
      ⟨max node.currentTerm request.term, node.votedFor⟩ :=
    ballot_foldl_appendEntry request.entries _
  rw [hbal]
  exact le_of_term_le (le_max_left _ _) rfl

lemma ballot_le_followInstaller (hterm : node.currentTerm ≤ term)
    (hfree : term = node.currentTerm → node.votedFor = none) :
    node.ballot ≤ (followInstaller term node).ballot := by
  rcases hterm.lt_or_eq with hlt | heq
  · exact le_of_lt hlt
  · exact Or.inr ⟨heq, Or.inl (hfree heq.symm)⟩

lemma ballot_le_publishSnapshot (snapshot : RaftSnapshot) (node : RaftNode) :
    node.ballot ≤ (publishSnapshot snapshot node).ballot := by
  unfold publishSnapshot RaftNode.ballot
  split
  case isTrue hlt => exact le_of_lt (lt_of_lt_of_le hlt (le_max_right _ _))
  case isFalse => exact le_of_term_le (le_max_left _ _) rfl

section

variable (h : Held n c) (id : RaftNodeId)
include h

lemma concludeCampaign_advances (term grants : ℕ) :
    Advances n c (c.concludeCampaign id term grants).1 := by
  unfold concludeCampaign
  split
  · exact h.refl
  case isFalse hlive =>
    split
    · exact (h.modify le_rfl).persist
    · have hown : (c.nodeAt id).currentTerm = term ∧ (c.nodeAt id).votedFor = some id := by
        cases hnode : c.get? id with
        | none => simp [hnode] at hlive
        | some node =>
          obtain ⟨-, rfl⟩ := get?_eq_some.mp hnode
          simpa [hnode] using hlive
      have hraise : Advances n c ({ c with leaderId := id }.mapNodes fun node => { node with
          role := if node.id = id then .leader else .follower
          currentTerm := max node.currentTerm term }) :=
        h.nodes rfl rfl rfl rfl (le_of_term_le (le_max_left _ _) rfl)
      refine Advances.persist (hraise.trans (hraise.held.modify ?_))
      refine le_of_term_le le_rfl ?_
      exact hown.2.symm

lemma observeHigherTerm_advances (term : ℕ) : Advances n c (c.observeHigherTerm id term).1 := by
  unfold observeHigherTerm
  split
  · exact h.refl
  case h_2 node hnode =>
    obtain ⟨-, rfl⟩ := get?_eq_some.mp hnode
    split
    · exact (h.set fun _ => ballot_le_adoptHigherTerm term _).persist
    · exact h.refl

lemma stepDownLocal_advances : Advances n c (c.stepDownLocal id).1 := by
  unfold stepDownLocal
  split
  · exact h.refl
  case h_2 node hnode =>
    obtain ⟨-, rfl⟩ := get?_eq_some.mp hnode
    split
    · refine Advances.persist (h.set fun _ => ?_)
      exact le_of_term_le le_rfl rfl
    · exact h.refl

lemma recordAppendEntriesResponse_advances (response : AppendEntriesResponse) :
    Advances n c (c.recordAppendEntriesResponse id response).1 := by
  have hldr : Advances n c (c.modify c.leaderId (adoptHigherTerm response.term)) :=
    h.modify (ballot_le_adoptHigherTerm _ _)
  unfold recordAppendEntriesResponse
  dsimp only
  split
  · exact hldr
  case h_2 target htarget =>
    obtain ⟨-, rfl⟩ := get?_eq_some.mp htarget
    split
    · refine Advances.persist (hldr.trans (hldr.held.set fun _ => ?_))
      exact le_of_term_le (le_max_left _ _) rfl
    · exact hldr.persist

lemma refreshAllPipelineStates_advances : Advances n c (c.refreshAllPipelineStates engine id) := by
  unfold refreshAllPipelineStates
  split
  · exact h.mapNodes fun _ => le_rfl
  · exact h.refl

lemma receiveAppendEntries_advances (request : AppendEntriesRequest) :
    Advances n c (c.receiveAppendEntries engine request).1 := by
  unfold receiveAppendEntries
  dsimp only
  split
  · exact h.refl
  generalize hheard : (if (c.get? request.targetId).any (·.currentTerm ≤ request.term) = true ∧
      request.leaderId ≠ request.targetId then
    c.modify request.leaderId fun node => { node with alive := true } else c) = heard
  have hc : Advances n c heard := by
    rw [← hheard]
    split
    · exact h.modify le_rfl
    · exact h.refl
  split
  · exact hc
  case h_2 node hnode =>
    obtain ⟨-, rfl⟩ := get?_eq_some.mp hnode
    split
    · exact hc
    case isFalse hterm =>
      split
      · split
        · split
          · exact hc.persist
          · refine Advances.persist (hc.trans (hc.held.set fun _ => ?_))
            exact le_of_term_le le_rfl rfl
        · exact hc
      split
      · exact hc.persist
      split
      · exact hc.persist
      split
      · exact hc.persist
      · -- accepted: the target follows, the view shows the leader
        have htarget := hc.trans (hc.held.set fun _ =>
          ballot_le_acceptEntries engine heard.config (not_lt.mp hterm))
        have hldr : Advances n c { heard.set request.targetId
            (acceptEntries engine heard.config request (heard.nodeAt request.targetId)) with
              leaderId := request.leaderId } :=
          htarget.trans (htarget.held.nodes rfl rfl rfl rfl le_rfl)
        have hroles := hldr.trans (hldr.held.mapNodes (f := fun node =>
            if node.id ≠ request.leaderId ∧ node.role = .leader then
              { node with role := .follower }
            else node) fun node => by split <;> exact le_rfl)
        generalize mapNodes _ _ = demoted at hroles ⊢
        have hshadow : Advances n c (if request.leaderId ≠ request.targetId then
            demoted.modify request.leaderId (shadowLeader request) else demoted) := by
          split
          · exact hroles.trans (hroles.held.modify (ballot_le_shadowLeader request _))
          · exact hroles
        exact (hshadow.trans
          (refreshAllPipelineStates_advances engine hshadow.held request.leaderId)).persist

lemma beginInstallSnapshot_advances (request : InstallSnapshotRequest)
    (hfree : c.Allows n (.installRequest request)) :
    Advances n c (c.beginInstallSnapshot request).1 := by
  unfold beginInstallSnapshot
  split
  · exact h.refl
  split
  · exact h.refl
  case h_2 node hnode =>
    obtain ⟨-, rfl⟩ := get?_eq_some.mp hnode
    split
    · exact h.refl.persist
    case isFalse hterm =>
      exact h.set fun hn => ballot_le_followInstaller (not_lt.mp hterm) (hfree hn)

lemma receiveChunk_advances (request : InstallSnapshotChunkRequest)
    (hfree : c.Allows n (.installChunk request)) : Advances n c (c.receiveChunk request).1 := by
  unfold receiveChunk
  split
  · exact h.refl
  split
  · exact h.refl
  split
  · exact h.refl
  case h_2 node hnode =>
    obtain ⟨-, rfl⟩ := get?_eq_some.mp hnode
    split
    · exact h.refl.persist
    case isFalse hterm =>
      have hfollow := h.set fun hn => ballot_le_followInstaller (not_lt.mp hterm) (hfree hn)
      have hpend : ∀ pending, Advances n c { c.set request.targetId
          (followInstaller request.term (c.nodeAt request.targetId)) with
            pendingSnapshots := pending } := fun pending =>
        hfollow.trans (hfollow.held.nodes rfl rfl rfl rfl le_rfl)
      dsimp only
      split
      · exact (hpend _).persist
      split
      · exact (hpend _).persist
      · exact hpend _

lemma installSnapshot_advances (snapshot : RaftSnapshot) :
    Advances n c (c.installSnapshot engine id snapshot).1 := by
  unfold installSnapshot
  split
  · exact h.refl
  split
  · exact h.refl
  case h_2 node hnode =>
    obtain ⟨-, rfl⟩ := get?_eq_some.mp hnode
    split
    · exact h.refl
    split
    · exact h.refl
    · exact (h.set fun _ => ballot_le_publishSnapshot snapshot _).persist

end

variable {tail : ℕ × ℕ}

lemma ballot_le_answerElection (hterm : node.currentTerm ≤ term) :
    node.ballot ≤ (answerElection term id tail node).1.ballot := by
  unfold answerElection
  split
  · exact le_of_term_le (le_max_left _ _) rfl
  split
  case isTrue hgrant =>
    rcases hterm.lt_or_eq with hlt | heq
    · exact le_of_lt hlt
    · exact ballot_le_vote heq fun hother => hgrant.1 ⟨heq, hother⟩
  case isFalse => exact le_of_term_le (le_max_left _ _) rfl

lemma currentTerm_answerElection (hterm : node.currentTerm ≤ term) :
    (answerElection term id tail node).1.currentTerm = term := by
  unfold answerElection
  split
  · exact max_eq_right hterm
  split
  · rfl
  · exact max_eq_right hterm

lemma ballot_of_granted (h : (answerElection term id tail node).2 = true) :
    (answerElection term id tail node).1.ballot = ⟨term, some id⟩ := by
  unfold answerElection at h ⊢
  split at h
  · cases h
  split at h
  case isTrue halive hgrant => rw [if_neg halive, if_pos hgrant]; rfl
  case isFalse => cases h

lemma mem_of_granted {m : RaftNodeId} {voters : List RaftNodeId}
    (h : m ∈ (collectVotes term id tail voters c).2) : m ∈ voters := by
  induction voters generalizing c with
  | nil => exact h
  | cons voter voters ih =>
    simp only [collectVotes] at h
    split at h
    · rcases mem_cons.mp h with rfl | h
      · exact mem_cons_self
      · exact mem_cons_of_mem voter (ih h)
    · exact mem_cons_of_mem voter (ih h)

lemma ballot_eq_of_le {b : Ballot ℕ RaftNodeId} (h : ⟨term, some id⟩ ≤ b)
    (hterm : b.term ≤ term) : b = ⟨term, some id⟩ := by
  rcases h with hlt | ⟨heq, hvote | hvote⟩
  · exact absurd hterm (not_le.mpr hlt)
  · cases hvote
  · exact Ballot.ext heq.symm hvote.symm

/-- The round of an election: every ballot develops, the terms stay within the election's, and who
grants votes for the candidate. -/
lemma collectVotes_spec (voters : List RaftNodeId) :
    ∀ {c : Cluster}, Held n c → (∀ m ∈ c.ids, (c.nodeAt m).currentTerm ≤ term) →
      (∀ voter ∈ voters, voter ∈ c.ids) → Advances n c (collectVotes term id tail voters c).1 ∧
      (c.nodeAt n).ballot ≤ ((collectVotes term id tail voters c).1.nodeAt n).ballot ∧
      (∀ m ∈ c.ids, ((collectVotes term id tail voters c).1.nodeAt m).currentTerm ≤ term) ∧
      (n ∈ (collectVotes term id tail voters c).2 →
        ((collectVotes term id tail voters c).1.nodeAt n).ballot = ⟨term, some id⟩) := by
  induction voters with
  | nil =>
    intro c h hterm _
    refine ⟨h.refl, le_rfl, hterm, fun hn => ?_⟩
    simp [collectVotes] at hn
  | cons voter voters ih =>
    intro c h hterm hmem
    have hvoter : voter ∈ c.ids := hmem voter mem_cons_self
    have hle : (c.nodeAt voter).ballot ≤ (answerElection term id tail (c.nodeAt voter)).1.ballot :=
      ballot_le_answerElection (hterm voter hvoter)
    have hset : Advances n c (c.set voter (answerElection term id tail (c.nodeAt voter)).1) :=
      h.set fun _ => hle
    have hterm' : ∀ m ∈ c.ids, ((c.set voter
        (answerElection term id tail (c.nodeAt voter)).1).nodeAt m).currentTerm ≤ term := by
      intro m hm
      by_cases hv : m = voter
      · subst hv
        simp [set, currentTerm_answerElection (hterm m hm)]
      · simpa [set, hv] using hterm m hm
    have hown : (c.nodeAt n).ballot ≤ ((c.set voter
        (answerElection term id tail (c.nodeAt voter)).1).nodeAt n).ballot := by
      by_cases hv : n = voter
      · subst hv
        simpa [set] using hle
      · simp [set, hv]
    obtain ⟨hrest, hrestBallot, hrestTerm, hrestGranted⟩ :=
      ih hset.held hterm' fun m hm => hmem m (mem_cons_of_mem voter hm)
    refine ⟨hset.trans hrest, hown.trans hrestBallot, hrestTerm, fun hn => ?_⟩
    simp only [collectVotes] at hn
    split at hn
    case isFalse => exact hrestGranted hn
    case isTrue hgrant =>
      rcases mem_cons.mp hn with rfl | hn
      · have hcast := ballot_of_granted hgrant
        refine ballot_eq_of_le ?_ (hrestTerm n hvoter)
        refine le_trans (le_of_eq ?_) hrestBallot
        simpa [set] using hcast.symm
      · exact hrestGranted hn

lemma casts_electLeader (h : Held n c) (howns : c.Owns n) (hmax : c.maxTerm < u64Max)
    (id : RaftNodeId) : Casts n c (c.step engine (.electLeader id)) := by
  simp only [step, electLeader]
  split
  · exact h.refl.casts rfl
  split
  · exact h.refl.casts rfl
  split
  · exact h.refl.casts rfl
  case isFalse hmay =>
    have hid := mem_ids_of_mayCampaign (not_not.mp hmay)
    have hsucc := saturatingSucc_of_lt hmax
    have hstand : Advances n c
        (c.set id (standAt (saturatingSucc c.maxTerm) (c.nodeAt id) id)) := by
      refine h.set fun _ => Ballot.le_of_lt ?_
      exact hsucc.symm ▸ Nat.lt_succ_of_le (le_maxTerm hid)
    have hterm : ∀ m ∈ c.ids, ((c.set id
        (standAt (saturatingSucc c.maxTerm) (c.nodeAt id) id)).nodeAt m).currentTerm ≤
          saturatingSucc c.maxTerm := by
      intro m hm
      by_cases hm' : m = id
      · subst hm'
        simp [set, standAt]
      · have hle := le_maxTerm hm
        simp only [set, Function.update_of_ne hm']
        omega
    have hown : n = id → ((c.set id
        (standAt (saturatingSucc c.maxTerm) (c.nodeAt id) id)).nodeAt n).ballot =
          ⟨saturatingSucc c.maxTerm, some id⟩ := by
      rintro rfl
      simp [set, standAt, RaftNode.ballot]
    generalize hvoters : filter _ _ = voters
    have hmem : ∀ voter ∈ voters, voter ∈ c.ids := by
      intro voter hvoter
      rw [← hvoters] at hvoter
      exact mem_of_mem_filter hvoter
    generalize hpolled : collectVotes _ _ _ _ _ = polled
    obtain ⟨hpoll, hbal, hpollTerm, hgranted⟩ := hpolled ▸
      collectVotes_spec voters hstand.held (hstand.ids.symm ▸ hterm) (hstand.ids.symm ▸ hmem)
    have hfinal := hstand.trans hpoll
    split
    · exact (hfinal.trans (hfinal.held.modify le_rfl)).casts rfl
    · have hlead : Advances n c ({ polled.1 with leaderId := id }.mapNodes fun node =>
          { node with role := if node.id = id then .leader else .follower }) :=
        hfinal.trans (hfinal.held.nodes rfl rfl rfl rfl le_rfl)
      refine ⟨hlead.persist, fun v hv => ?_⟩
      obtain ⟨voter, hn, heq⟩ := mem_map.mp (mem_votesBy.mp hv)
      obtain ⟨hvoter, rfl⟩ := Prod.mk.inj heq
      rw [hvoter] at hn
      -- the candidate stands for itself, and nobody asks it again
      have hcast : (polled.1.nodeAt n).ballot = ⟨saturatingSucc c.maxTerm, some id⟩ := by
        rcases mem_cons.mp hn with hn | hn
        · exact ballot_eq_of_le (hown hn ▸ hbal) (hpollTerm n (hstand.ids.symm ▸ hn ▸ hid))
        · exact hgranted hn
      have hmemIds : n ∈ c.ids := by
        rcases mem_cons.mp hn with hn | hn
        · exact hn ▸ hid
        · exact hmem n (mem_of_granted (hpolled ▸ hn))
      exact ((hlead.logBallot_persist howns hmemIds).trans hcast).symm

lemma ballot_le_restoreNode (c : Cluster) (n : RaftNodeId) :
    c.logBallot n ≤ (restoreNode (c.wal n) n).ballot := by
  unfold logBallot restoreNode
  cases c.wal n with
  | none => exact le_rfl
  | some record =>
    cases hsnap : record.installedSnapshot with
    | none => simp only [hsnap]; exact le_rfl
    | some snapshot =>
      simp only [hsnap, RaftNode.ballot]
      split
      case isTrue h => exact le_of_lt (lt_of_lt_of_le h.2 (le_max_right _ _))
      case isFalse => exact le_of_term_le (le_max_left _ _) rfl

lemma restoreSingleShardFromWal_advances (c : Cluster) (n : RaftNodeId) :
    Advances n c (c.restoreSingleShardFromWal engine) := by
  have hresto : Advances n c { c with
      leaderId := c.restoredLeader
      nodeAt := fun id =>
        if id = c.restoredLeader then { restoreNode (c.wal id) id with role := .leader }
        else restoreNode (c.wal id) id
      pendingSnapshots := fun _ => none
      lastDurableFingerprint := fun _ => none } := by
    refine ⟨⟨?_, fun _ _ h => by cases h⟩, le_rfl, rfl, rfl⟩
    have hbal := ballot_le_restoreNode c n
    dsimp only
    split <;> exact hbal
  exact hresto.trans (refreshAllPipelineStates_advances engine hresto.held _)

def AllowsAll (engine : Engine) (n : RaftNodeId) : Cluster → List Op → Prop
  | _, [] => True
  | c, op :: ops => c.Allows n op ∧ AllowsAll engine n (c.step engine op).1 ops

lemma step_spec (h : Held n c) (howns : c.Owns n) {op : Op} (hallows : c.Allows n op) :
    Casts n c (c.step engine op) := by
  cases op with
  | vote request => exact casts_vote engine h howns request
  | prepareCampaign id => exact casts_prepareCampaign engine h howns hallows id
  | concludeCampaign id term grants => exact (concludeCampaign_advances h id term grants).casts rfl
  | buildVoteRequest id targetId => exact casts_buildVoteRequest engine h howns id targetId hallows
  | electLeader id => exact casts_electLeader engine h howns hallows id
  | observeHigherTerm id term => exact (observeHigherTerm_advances h id term).casts rfl
  | stepDownLocal id => exact (stepDownLocal_advances h id).casts rfl
  | appendEntries request => exact (receiveAppendEntries_advances engine h request).casts rfl
  | appendResponse targetId response =>
    exact (recordAppendEntriesResponse_advances h targetId response).casts rfl
  | installRequest request => exact (beginInstallSnapshot_advances h request hallows).casts rfl
  | installChunk request => exact (receiveChunk_advances h request hallows).casts rfl
  | installSnapshot id snapshot => exact (installSnapshot_advances engine h id snapshot).casts rfl
  | persist => exact h.refl.persist.casts rfl
  | restart => exact (restoreSingleShardFromWal_advances engine c n).casts rfl

/-- A whole run: what was cast before it and what is cast along it name one candidate a term. -/
lemma run_consistent {votes : List (Cast ℕ RaftNodeId)} (hvotes : Cast.Consistent votes)
    {ops : List Op} (h : Held n c) (howns : c.Owns n)
    (hcast : ∀ v ∈ votes, v.ballot ≤ c.logBallot n) (hallows : AllowsAll engine n c ops) :
    Cast.Consistent (votes ++ votesBy n (c.run engine ops).2) := by
  induction ops generalizing c votes with
  | nil => simpa [run, votesBy] using hvotes
  | cons op ops ih =>
    obtain ⟨hadv, hnew⟩ := step_spec engine h howns hallows.1
    have hold : ∀ v ∈ votes, v.ballot ≤ (c.step engine op).1.logBallot n := fun v hv =>
      (hcast v hv).trans hadv.log
    have hall : ∀ v ∈ votes ++ votesBy n (c.step engine op).2,
        v.ballot ≤ (c.step engine op).1.logBallot n := by
      intro v hv
      rcases mem_append.mp hv with hv | hv
      · exact hold v hv
      · exact (hnew v hv).le
    have howns' : (c.step engine op).1.Owns n := by
      unfold Owns
      rw [hadv.localNodeId]
      exact howns
    have hrun := ih (hvotes.append hold hnew) hadv.held howns' hall hallows.2
    simpa [run, votesBy] using hrun

lemma receiveInstallSnapshot_eq_run (c : Cluster) (request : InstallSnapshotRequest) :
    (c.receiveInstallSnapshot engine request).1 = (c.run engine [.installRequest request]).1 ∨
    (c.receiveInstallSnapshot engine request).1 = (c.run engine [.installRequest request,
        .installSnapshot request.targetId request.snapshot, .persist]).1 := by
  unfold receiveInstallSnapshot
  simp only [run, step]
  rcases c.beginInstallSnapshot request with ⟨begun, answer | _⟩
  · right
    dsimp only
    split <;> rfl
  · exact Or.inl rfl

lemma receiveInstallSnapshotChunk_eq_run (c : Cluster) (request : InstallSnapshotChunkRequest) :
    (c.receiveInstallSnapshotChunk engine request).1 = (c.run engine [.installChunk request]).1 ∨
    ∃ snapshot, (c.receiveInstallSnapshotChunk engine request).1 =
      (c.run engine [.installChunk request, .installSnapshot request.targetId snapshot,
        .persist]).1 := by
  unfold receiveInstallSnapshotChunk
  simp only [run, step]
  rcases c.receiveChunk request with ⟨begun, answer | snapshot⟩
  · exact Or.inl rfl
  · right
    refine ⟨snapshot, ?_⟩
    dsimp only
    split <;> rfl

def threeVoters : Cluster :=
  start 1 [1, 2, 3] (fun _ => .voter) ⟨false, false, 0, 1048576, 64⟩ none (some 1)

def idleEngine : Engine := ⟨fun _ => .ok (), fun _ => 0⟩

/-- A request for the first node's vote, from a candidate whose log ends in term 4. -/
def requestFrom (candidateId term : ℕ) : Op := .vote ⟨1, term, candidateId, 1, 7, 4, false⟩

def smallSnapshot : RaftSnapshot := ⟨1, 4, 7, [], some []⟩

end

end Cluster

end TemporalStore.Raft
