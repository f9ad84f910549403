import TemporalStore.Lib.Lists
import TemporalStore.Raft.ApplyRuns

/-! # Proposals and the answers they return (`raft.rs`, `raft/follower_pipeline.rs`) -/

namespace TemporalStore.Raft

open Lib List Option Replica

/-- The answer of an engine that has run `ran` to an entry, or the answer that says nothing. -/
inductive CommandResponse where
  | empty
  | of (ran : List RaftLogEntry) (entry : RaftLogEntry)
  deriving DecidableEq

/-- A proposer that waits. `observed` says that it has seen the commit index reach its entry. -/
structure Proposal where
  entry : RaftLogEntry
  observed : Bool
  deriving DecidableEq

/-- A process with its own replica, its view of the others, and its proposers. `committed` collects
what the replica has held at or below its commit index, `answers` what was returned as a success. -/
structure ProposerView where
  localId : RaftNodeId
  leaderId : RaftNodeId
  replica : Replica
  shadows : RaftNodeId → RaftNode
  responseWaiters : Finset ℕ
  pendingResponses : ℕ → Option CommandResponse
  proposals : ℕ → Option Proposal
  committed : List RaftLogEntry
  answers : List (RaftLogEntry × CommandResponse)

/-- The answers of the runs that reached storage, kept for the indexes somebody waits for. -/
def recordAnswers (waiters : Finset ℕ) :
    List RaftLogEntry → List RaftLogEntry → (ℕ → Option CommandResponse) →
      ℕ → Option CommandResponse
  | _, [], pending => pending
  | ran, entry :: rest, pending =>
    recordAnswers waiters (ran ++ [entry]) rest
      (if entry.index ∈ waiters then Function.update pending entry.index (some (.of ran entry))
        else pending)

def Replica.applyCommittedRecording (durable : ℕ → Bool) (waiters : Finset ℕ)
    (pending : ℕ → Option CommandResponse) (r : Replica) : Replica × (ℕ → Option CommandResponse) :=
  let (applied, batch) := r.applyCommitted durable
  (applied, recordAnswers waiters r.engine (batch.takeWhile (durable ·.index)) pending)

inductive ProposeEvent where
  | propose (thread : ℕ) (command : List UInt8)
  | advance (candidate : ℕ) (durable : ℕ → Bool)
  | append (config : RaftConfig) (request : AppendEntriesRequest) (durable : ℕ → Bool)
  | install (term : ℕ) (snapshot : BuiltSnapshot)
  | compact (shardId : ShardId) (bytes : List UInt8)
  | promote (term : ℕ)
  | adopt (term : ℕ)
  | observe (thread : ℕ)
  | expire (thread : ℕ)
  | finish (thread : ℕ) (flushed : Bool)

namespace ProposerView

variable (s : ProposerView) (thread : ℕ) (image : Image)

/-- The commit index `wait_for_quorum_commit` looks at. -/
def leaderCommit : ℕ :=
  if s.leaderId = s.localId then s.replica.commitIndex else (s.shadows s.leaderId).commitIndex

def leading : Bool :=
  s.leaderId == s.localId && s.replica.role == .leader && s.replica.alive

/-- The append of `propose_pipelined_concurrent`. -/
def propose (command : List UInt8) : ProposerView :=
  if s.leading ∧ s.proposals thread = none then
    let entry : RaftLogEntry :=
      ⟨nodeLastLogOrSnapshotIndex s.replica.toRaftNode + 1, s.replica.currentTerm, command⟩
    { s with
      replica := s.replica.appendEntry entry
      responseWaiters := insert entry.index s.responseWaiters
      proposals := Function.update s.proposals thread (some ⟨entry, false⟩) }
  else s

/-- `maybe_advance_quorum_commit`, with the index its count gives. -/
def advance (candidate : ℕ) (durable : ℕ → Bool) : ProposerView :=
  if s.leading ∧ s.replica.commitIndex < candidate ∧
      nodeTermAtLogOrSnapshotIndex s.replica.toRaftNode candidate = some s.replica.currentTerm then
    let raised := { s.replica with commitIndex := candidate }
    if s.replica.replicaRole.canServeData then
      let (replica, pending) :=
        raised.applyCommittedRecording durable s.responseWaiters s.pendingResponses
      { s with replica := replica, pendingResponses := pending }
    else { s with replica := raised }
  else s

def append (config : RaftConfig) (request : AppendEntriesRequest) (durable : ℕ → Bool) :
    ProposerView :=
  let answered := s.replica.receiveAppendEntries config durable request
  if answered.2.success then
    { s with
      replica := answered.1.1
      leaderId := request.leaderId
      shadows := if request.leaderId ≠ s.localId then
          Function.update s.shadows request.leaderId
            (Cluster.shadowLeader request (s.shadows request.leaderId))
        else s.shadows }
  else { s with replica := answered.1.1 }

def install (term : ℕ) (snapshot : RaftSnapshot) : ProposerView :=
  if term < s.replica.currentTerm then s
  else
    let following : Replica :=
      { s.replica with currentTerm := term, role := .follower, votedFor := none }
    { s with replica := (following.installSnapshot image snapshot).getD following }

def compact (shardId : ShardId) (bytes : List UInt8) : ProposerView :=
  match s.replica.ownSnapshot shardId bytes with
  | none => s
  | some snapshot =>
    let engine := rebuildSnapshotEngine image snapshot
    { s with replica := s.replica.publishSnapshotState snapshot engine }

def promote (term : ℕ) : ProposerView :=
  if s.replica.currentTerm ≤ term ∧ s.replica.replicaRole.canBeLeader then
    { s with
      leaderId := s.localId
      replica := { s.replica with
        currentTerm := term, role := .leader, alive := true, votedFor := some s.localId } }
  else s

def adopt (term : ℕ) : ProposerView :=
  { s with replica := { s.replica with
      toRaftNode := Cluster.adoptHigherTerm term s.replica.toRaftNode } }

def observe : ProposerView :=
  match s.proposals thread with
  | none => s
  | some proposal =>
    if proposal.entry.index ≤ s.leaderCommit then
      let seen := { proposal with observed := true }
      { s with proposals := Function.update s.proposals thread (some seen) }
    else s

def leave (index : ℕ) : ProposerView :=
  { s with
    responseWaiters := s.responseWaiters.erase index
    pendingResponses := Function.update s.pendingResponses index none
    proposals := Function.update s.proposals thread none }

def expire : ProposerView :=
  match s.proposals thread with
  | none => s
  | some proposal => if proposal.observed then s else s.leave thread proposal.entry.index

/-- The proposer takes its answer. It is returned if the barrier of its record succeeded. -/
def finish (flushed : Bool) : ProposerView :=
  match s.proposals thread with
  | none => s
  | some proposal =>
    if proposal.observed then
      let response := (s.pendingResponses proposal.entry.index).getD .empty
      let left := s.leave thread proposal.entry.index
      if flushed then { left with answers := left.answers ++ [(proposal.entry, response)] }
      else left
    else s

def perform (s : ProposerView) : ProposeEvent → ProposerView
  | .propose thread command => s.propose thread command
  | .advance candidate durable => s.advance candidate durable
  | .append config request durable => s.append config request durable
  | .install term snapshot => s.install image term snapshot.toRaftSnapshot
  | .compact shardId bytes => s.compact image shardId bytes
  | .promote term => s.promote term
  | .adopt term => s.adopt term
  | .observe thread => s.observe thread
  | .expire thread => s.expire thread
  | .finish thread flushed => s.finish thread flushed

/-- What the replica now holds at or below its commit index is committed. -/
def collectCommitted : ProposerView :=
  { s with committed := s.committed ++ s.replica.log.filter (·.index ≤ s.replica.commitIndex) }

def step (s : ProposerView) (event : ProposeEvent) : ProposerView :=
  (s.perform image event).collectCommitted

def run (events : List ProposeEvent) (s : ProposerView) : ProposerView :=
  events.foldl (step image) s

def start (localId leaderId : RaftNodeId) (role : RaftReplicaRole) : ProposerView where
  localId := localId
  leaderId := leaderId
  replica := { newReplica localId .follower with replicaRole := role }
  shadows := fun id => newNode id .follower
  responseWaiters := ∅
  pendingResponses := fun _ => none
  proposals := fun _ => none
  committed := []
  answers := []

/-- The answer is the one to the proposer's own command, and its entry is committed. -/
def OwnAnswer (answer : RaftLogEntry × CommandResponse) : Prop :=
  (∃ ran, answer.2 = .of ran answer.1) ∧ answer.1 ∈ s.committed

end ProposerView

namespace Replica

/-- What has been run is committed, and what is committed is in the log or below it. -/
structure Settled (r : Replica) : Prop extends Orderly r where
  floor_commit : r.maxAppliedIndex ≤ r.commitIndex
  commit_last : r.commitIndex ≤ r.boundary + r.log.length

section

variable {r : Replica} {entry : RaftLogEntry} {entries : List RaftLogEntry}

lemma commit_le_appendEntry (h : r.Settled) (hpos : 0 < entry.index)
    (hnext : entry.index ≤ r.boundary + r.log.length + 1) :
    r.commitIndex ≤ r.boundary + (r.appendEntry entry).log.length := by
  have hreach := (numbered_appendEntry h.log hpos hnext).2
  have hlast := h.commit_last
  by_cases hlt : r.commitIndex < entry.index
  · omega
  · -- at or below the commit index nothing is cut
    have hkept : r.log.length ≤ (r.appendEntry entry).log.length := by
      unfold appendEntry
      split
      · exact le_rfl
      · split
        · split
          · exact le_rfl
          · split
            · exact le_rfl
            · omega
        · rw [length_append]
          exact Nat.le_add_right _ _
    omega

lemma foldl_appendEntry_frame (entries : List RaftLogEntry) (r : Replica) :
    ∃ log applied cursor, entries.foldl appendEntry r =
      { r with log := log, applied := applied, appliedIndex := cursor } := by
  induction entries generalizing r with
  | nil => exact ⟨r.log, r.applied, r.appliedIndex, rfl⟩
  | cons entry rest ih =>
    obtain ⟨_, _, _, heq⟩ := r.appendEntry_frame entry
    obtain ⟨log, applied, cursor, heq'⟩ := ih (r.appendEntry entry)
    refine ⟨log, applied, cursor, ?_⟩
    rw [foldl_cons, heq', heq]

lemma acceptEntries_follows (config : RaftConfig) (durable : ℕ → Bool)
    (request : AppendEntriesRequest) (r : Replica) :
    (r.acceptEntries config durable request).1.currentTerm = request.term ∧
      (r.acceptEntries config durable request).1.role = .follower := by
  have hnode := congrArg RaftNode.currentTerm (toRaftNode_applyServing durable (r.extend request))
  have hrole := congrArg RaftNode.role (toRaftNode_applyServing durable (r.extend request))
  have hextend : (r.extend request).currentTerm = request.term ∧
      (r.extend request).role = .follower := by
    unfold extend
    obtain ⟨log, applied, cursor, heq⟩ := foldl_appendEntry_frame request.entries { r with
      votedFor := if r.currentTerm < request.term then none else r.votedFor
      currentTerm := request.term
      role := .follower }
    dsimp only
    rw [heq]
    exact ⟨rfl, rfl⟩
  exact ⟨hnode.trans hextend.1, hrole.trans hextend.2⟩

lemma appendEntry_next (h : Numbered RaftLogEntry.index (r.boundary + 1) r.log)
    (hidx : entry.index = r.boundary + r.log.length + 1) :
    r.appendEntry entry = { r with log := r.log ++ [entry] } := by
  have hpos : 0 < entry.index := by omega
  have hcov : ¬ r.installedSnapshot.any (entry.index ≤ ·.lastIncludedIndex) = true := by
    rw [covered_iff hpos]
    omega
  have habs : r.log.find? (·.index == entry.index) = none := by
    rw [find?_eq_none]
    intro other hother
    have := h.key_of_mem hother
    rw [beq_iff_eq]
    omega
  rw [appendEntry, if_neg hcov, habs]

lemma Settled.appendEntry (h : r.Settled) (hpos : 0 < entry.index)
    (hnext : entry.index ≤ r.boundary + r.log.length + 1) : (r.appendEntry entry).Settled := by
  obtain ⟨log, applied, cursor, heq⟩ := r.appendEntry_frame entry
  have hcom : (r.appendEntry entry).commitIndex = r.commitIndex := by rw [heq]
  refine ⟨h.toOrderly.appendEntry hpos hnext, ?_, ?_⟩
  · rw [hcom, maxAppliedIndex_appendEntry]
    exact h.floor_commit
  · rw [hcom, boundary_appendEntry]
    exact commit_le_appendEntry h hpos hnext

lemma lastNewEntry_le {prev : ℕ} (hents : Numbered RaftLogEntry.index (prev + 1) entries) :
    ((entries.map (·.index)).max?).getD prev ≤ prev + entries.length := by
  cases hmax : (entries.map (·.index)).max? with
  | none => exact Nat.le_add_right _ _
  | some greatest =>
    have hmem := max?_mem hmax
    obtain ⟨entry, hent, rfl⟩ := mem_map.mp hmem
    have := hents.key_of_mem hent
    simp only [getD_some]
    omega

variable {request : AppendEntriesRequest}

lemma Settled.inTerm {term : ℕ} {role : RaftRole} {alive : Bool} {votedFor : Option RaftNodeId}
    (h : r.Settled) : Settled { r with
      currentTerm := term, role := role, alive := alive, votedFor := votedFor } :=
  { h with }

lemma Settled.extend (h : r.Settled) (hcont : request.Continuous)
    (hprev : request.prevLogIndex ≤ r.boundary + r.log.length) : (r.extend request).Settled := by
  have hbase : Settled { r with
      votedFor := if r.currentTerm < request.term then none else r.votedFor
      currentTerm := request.term
      role := .follower } := h.inTerm
  obtain ⟨hfolded, hbnd, hreach⟩ :=
    foldl_appendEntry_induction (·.log) Settled.appendEntry hbase hcont hprev
  have hlast := lastNewEntry_le hcont
  have hcom := hfolded.commit_last
  refine ⟨⟨hfolded.log, hfolded.floor, hfolded.commit.trans (le_max_left _ _), hfolded.cursor,
    hfolded.applied⟩, hfolded.floor_commit.trans (le_max_left _ _), ?_⟩
  refine max_le hcom ?_
  refine (min_le_right _ _).trans (hlast.trans ?_)
  rw [← hbnd] at hreach
  exact hreach

variable {durable : ℕ → Bool}

lemma Settled.applyCommitted (h : r.Settled) : (r.applyCommitted durable).1.Settled := by
  have hnode := toRaftNode_applyCommitted durable r
  have hfloor := ApplyRun.maxAppliedIndex_applyCommitted durable h.toOrderly
  have hcom : (r.applyCommitted durable).1.commitIndex = r.commitIndex := by rw [hnode]
  have hlog : (r.applyCommitted durable).1.log = r.log := by rw [hnode]
  have hbnd : (r.applyCommitted durable).1.boundary = r.boundary := by rw [hnode]
  refine ⟨ApplyRun.orderly_applyCommitted h.toOrderly, ?_, ?_⟩
  · have hreached := (isPrefix_reached durable r.boundary r).length_le
    have hdue : (r.due r.boundary).length ≤ r.commitIndex - r.maxAppliedIndex := by
      unfold due
      rw [length_drop, length_take]
      omega
    have := h.floor_commit
    omega
  · rw [hcom, hbnd, hlog]
    exact h.commit_last

lemma Settled.applyServing (h : r.Settled) : (r.applyServing durable).1.Settled := by
  unfold Replica.applyServing
  split
  · exact h.applyCommitted
  · exact h

lemma Settled.withDepth {depth : ℕ} (h : r.Settled) :
    Settled { r with reorderQueueDepth := depth } :=
  ⟨h.toOrderly.withDepth, h.floor_commit, h.commit_last⟩

lemma Settled.receiveAppendEntries {config : RaftConfig} (h : r.Settled)
    (hcont : request.Continuous) : (r.receiveAppendEntries config durable request).1.1.Settled := by
  unfold Replica.receiveAppendEntries
  cases href : r.refusal config request with
  | some reason => exact h.withDepth
  | none =>
    have hprev := prev_le_of_accepted h.log href
    exact (h.extend hcont hprev).applyServing.withDepth

variable {snapshot : RaftSnapshot}

lemma Settled.installSnapshot {image : Image} {r' : Replica}
    (h : r.Settled) (hcove : ∀ entry ∈ snapshot.entries, entry.index ≤ snapshot.lastIncludedIndex)
    (hsome : r.installSnapshot image snapshot = some r') : r'.Settled := by
  have hord := h.toOrderly.installSnapshot hcove hsome
  obtain ⟨hge, ⟨⟩⟩ := Option.ite_none_left_eq_some.mp hsome
  exact ⟨hord, max_le (h.floor_commit.trans (Nat.not_lt.mp hge)) le_rfl, Nat.le_add_right _ _⟩

lemma Settled.publishOwn {shardId : ShardId} {bytes : List UInt8} {engine : List RaftLogEntry}
    (h : r.Settled) (hsome : r.ownSnapshot shardId bytes = some snapshot) :
    (r.publishSnapshotState snapshot engine).Settled ∧
      snapshot.lastIncludedIndex = r.appliedIndex := by
  obtain ⟨hgt, ⟨⟩⟩ := Option.ite_none_left_eq_some.mp hsome
  have hge := (Nat.lt_of_not_le hgt).le
  have hfloor := h.floor_commit
  have hlast := h.commit_last
  refine ⟨⟨h.toOrderly.publishSnapshotState hge ?_, max_le ?_ ?_, ?_⟩, rfl⟩
  · exact fun entry hent => absurd hent not_mem_nil
  · exact hfloor.trans (le_max_left _ _)
  · exact le_max_right _ _
  · -- nothing above the cursor is dropped
    dsimp only [publishSnapshotState, RaftNode.boundary, map_some, getD_some]
    rw [h.log.filter, length_drop]
    omega

end

end Replica

lemma recordAnswers_of_notMem {waiters : Finset ℕ} {i : ℕ} (reached : List RaftLogEntry)
    (ran : List RaftLogEntry) (pending : ℕ → Option CommandResponse)
    (hne : ∀ entry ∈ reached, entry.index ≠ i) :
    recordAnswers waiters ran reached pending i = pending i := by
  induction reached generalizing ran pending with
  | nil => rfl
  | cons entry rest ih =>
    have hrest : ∀ other ∈ rest, other.index ≠ i :=
      fun other hother => hne other (mem_cons_of_mem _ hother)
    rw [recordAnswers, ih _ _ hrest]
    split
    · exact Function.update_of_ne (hne entry mem_cons_self).symm _ _
    · rfl

lemma recordAnswers_of_mem {waiters : Finset ℕ} {entry : RaftLogEntry}
    (reached : List RaftLogEntry) (ran : List RaftLogEntry) (pending : ℕ → Option CommandResponse)
    (hnodup : (reached.map (·.index)).Nodup) (hmem : entry ∈ reached)
    (hwaits : entry.index ∈ waiters) :
    ∃ before, recordAnswers waiters ran reached pending entry.index = some (.of before entry) := by
  induction reached generalizing ran pending with
  | nil => exact absurd hmem not_mem_nil
  | cons first rest ih =>
    rw [map_cons, nodup_cons] at hnodup
    rcases mem_cons.mp hmem with rfl | hrest
    · -- nothing behind it has the same index
      have hne : ∀ other ∈ rest, other.index ≠ entry.index :=
        fun other hother heq => hnodup.1 (heq ▸ mem_map_of_mem hother)
      rw [recordAnswers, recordAnswers_of_notMem rest _ _ hne, if_pos hwaits, Function.update_self]
      exact ⟨ran, rfl⟩
    · exact ih _ _ hnodup.2 hrest

namespace ProposerView

/-- What a waiting proposer of the current term can rely on: the node leads, the entry is in its log
until it is committed, and from then on the answer lies under its index. -/
structure Held (s : ProposerView) (proposal : Proposal) : Prop where
  leads : s.leaderId = s.localId
  waits : proposal.entry.index ∈ s.responseWaiters
  above : s.replica.commitIndex < proposal.entry.index → proposal.entry ∈ s.replica.log
  below : proposal.entry.index ≤ s.replica.commitIndex →
    proposal.entry.index ≤ s.replica.maxAppliedIndex ∧ proposal.entry ∈ s.committed ∧
      ∃ ran, s.pendingResponses proposal.entry.index = some (.of ran proposal.entry)
  observed : proposal.observed → proposal.entry.index ≤ s.replica.commitIndex

structure Inv (s : ProposerView) : Prop where
  settled : s.replica.Settled
  serves : s.replica.role = .leader → s.replica.replicaRole.canServeData
  terms : ∀ thread proposal, s.proposals thread = some proposal →
    proposal.entry.term ≤ s.replica.currentTerm
  held : ∀ thread proposal, s.proposals thread = some proposal →
    proposal.entry.term = s.replica.currentTerm → s.Held proposal
  apart : ∀ thread proposal thread' proposal', s.proposals thread = some proposal →
    s.proposals thread' = some proposal' → thread ≠ thread' →
    proposal.entry.term = s.replica.currentTerm → proposal'.entry.index ≠ proposal.entry.index
  answered : ∀ answer ∈ s.answers, s.OwnAnswer answer

/-- What the steps have to meet. An append or snapshot request never carries the term of a proposal
that waits, and its entries follow the place it names. A proposal is made at an index nobody waits
for. What a commit advance runs reaches storage. A proposal returns in the term it was made in. -/
def CarefulStep (s : ProposerView) : ProposeEvent → Prop
  | .propose _ _ => ∀ thread proposal, s.proposals thread = some proposal →
      proposal.entry.index ≠ nodeLastLogOrSnapshotIndex s.replica.toRaftNode + 1
  | .advance candidate durable => ∀ i, s.replica.maxAppliedIndex < i → i ≤ candidate → durable i
  | .append _ request _ => request.Continuous ∧
      ∀ thread proposal, s.proposals thread = some proposal → proposal.entry.term ≠ request.term
  | .install term _ =>
      ∀ thread proposal, s.proposals thread = some proposal → proposal.entry.term ≠ term
  | .finish thread _ => ∀ proposal, s.proposals thread = some proposal →
      proposal.entry.term = s.replica.currentTerm
  | _ => True

def Careful (image : Image) : List ProposeEvent → ProposerView → Prop
  | [], _ => True
  | event :: rest, s => CarefulStep s event ∧ Careful image rest (step image s event)

section

variable {s s' : ProposerView} {proposal : Proposal}

lemma OwnAnswer.mono {answer : RaftLogEntry × CommandResponse} (h : s.OwnAnswer answer)
    (hsub : s.committed ⊆ s'.committed) : s'.OwnAnswer answer :=
  ⟨h.1, hsub h.2⟩

lemma inv_collectCommitted (h : s.Inv) : s.collectCommitted.Inv := by
  have hsub : s.committed ⊆ s.collectCommitted.committed := subset_append_left _ _
  refine { h with
    held := fun thread proposal hprop hterm => ?_
    answered := fun answer hans => (h.answered answer hans).mono hsub }
  have hheld := h.held thread proposal hprop hterm
  refine { hheld with below := fun hle => ?_ }
  obtain ⟨hfloor, hcomd, hpend⟩ := hheld.below hle
  exact ⟨hfloor, hsub hcomd, hpend⟩

lemma inv_of_newTerm {replica : Replica} {leaderId : RaftNodeId}
    {shadows : RaftNodeId → RaftNode} (h : s.Inv) (hset : replica.Settled)
    (hserv : replica.role = .leader → replica.replicaRole.canServeData)
    (hterm : s.replica.currentTerm ≤ replica.currentTerm)
    (hnew : ∀ thread proposal, s.proposals thread = some proposal →
      proposal.entry.term ≠ replica.currentTerm) :
    Inv { s with replica := replica, leaderId := leaderId, shadows := shadows } where
  settled := hset
  serves := hserv
  terms := fun thread proposal hprop => (h.terms thread proposal hprop).trans hterm
  held := fun thread proposal hprop heq => absurd heq (hnew thread proposal hprop)
  apart := fun thread proposal _ _ hprop _ _ heq => absurd heq (hnew thread proposal hprop)
  answered := h.answered

lemma term_ne_of_lt (h : s.Inv) {term thread : ℕ} (hlt : s.replica.currentTerm < term)
    (hprop : s.proposals thread = some proposal) : proposal.entry.term ≠ term :=
  ((h.terms thread proposal hprop).trans_lt hlt).ne

lemma inv_of_kept (h : s.Inv) (hset : s'.replica.Settled)
    (hserv : s'.replica.role = .leader → s'.replica.replicaRole.canServeData)
    (hterm : s'.replica.currentTerm = s.replica.currentTerm)
    (hkept : ∀ t p, s'.proposals t = some p → ∃ old, s.proposals t = some old ∧
      old.entry = p.entry ∧ (old.entry.term = s.replica.currentTerm → s.Held old → s'.Held p))
    (hansw : ∀ answer ∈ s'.answers, s'.OwnAnswer answer) : s'.Inv := by
  refine ⟨hset, hserv, fun t p hp => ?_, fun t p hp hcurr => ?_,
    fun t p t' p' hp hp' hne hcurr => ?_, hansw⟩
  all_goals obtain ⟨old, hold, hent, hheld⟩ := hkept t p hp
  · rw [hterm, ← hent]
    exact h.terms t old hold
  · rw [hterm, ← hent] at hcurr
    exact hheld hcurr (h.held t old hold hcurr)
  · obtain ⟨old', hold', hent', -⟩ := hkept t' p' hp'
    rw [hterm, ← hent] at hcurr
    rw [← hent, ← hent']
    exact h.apart t old t' old' hold hold' hne hcurr

variable {thread : ℕ}

lemma inv_propose {command : List UInt8} (h : s.Inv)
    (hcare : CarefulStep s (.propose thread command)) : (s.propose thread command).Inv := by
  unfold propose
  split
  case isFalse => exact h
  case isTrue hguard =>
    obtain ⟨hlead, hfree⟩ := hguard
    unfold leading at hlead
    rw [Bool.and_eq_true, Bool.and_eq_true, beq_iff_eq] at hlead
    have hcom := h.settled.commit_last
    have hlast := nodeLast_eq h.settled.log
    generalize hent : (⟨nodeLastLogOrSnapshotIndex s.replica.toRaftNode + 1,
      s.replica.currentTerm, command⟩ : RaftLogEntry) = entry
    have hidx : entry.index = s.replica.boundary + s.replica.log.length + 1 := by
      rw [← hent, hlast]
    have hterm : entry.term = s.replica.currentTerm := by rw [← hent]
    have hfresh : ∀ t p, s.proposals t = some p → p.entry.index ≠ entry.index := by
      rw [← hent]
      exact hcare
    have hset : (s.replica.appendEntry entry).Settled := h.settled.appendEntry (by omega) (by omega)
    dsimp only
    rw [appendEntry_next h.settled.log hidx] at hset ⊢
    refine ⟨hset, h.serves, ?_, ?_, ?_, h.answered⟩
    · intro t p hp
      rcases update_eq_iff.mp hp with ⟨-, hnew⟩ | ⟨-, hold⟩
      · cases hnew
        exact hterm.le
      · exact h.terms t p hold
    · intro t p hp hcurr
      rcases update_eq_iff.mp hp with ⟨-, hnew⟩ | ⟨-, hold⟩
      · cases hnew
        refine ⟨hlead.1.1, Finset.mem_insert_self _ _, fun _ => ?_, fun hle => ?_, nofun⟩
        · exact mem_append_right _ (mem_singleton.mpr rfl)
        · change entry.index ≤ s.replica.commitIndex at hle
          omega
      · have hheld := h.held t p hold hcurr
        exact ⟨hheld.leads, Finset.mem_insert_of_mem hheld.waits,
          fun hlt => mem_append_left _ (hheld.above hlt), hheld.below, hheld.observed⟩
    · intro t p t' p' hp hp' hne hcurr
      rcases update_eq_iff.mp hp with ⟨rfl, hnew⟩ | ⟨-, hold⟩
      · rcases update_eq_iff.mp hp' with ⟨rfl, -⟩ | ⟨-, hold'⟩
        · exact absurd rfl hne
        · cases hnew
          exact hfresh t' p' hold'
      · rcases update_eq_iff.mp hp' with ⟨-, hnew'⟩ | ⟨-, hold'⟩
        · cases hnew'
          exact (hfresh t p hold).symm
        · exact h.apart t p t' p' hold hold' hne hcurr

variable {durable : ℕ → Bool}

lemma reached_of_durable {r : Replica} (h : r.Settled)
    (hdur : ∀ i, r.maxAppliedIndex < i → i ≤ r.commitIndex → durable i) :
    r.reached durable r.boundary = r.due r.boundary ∧
      (r.applyCommitted durable).1.maxAppliedIndex = r.commitIndex := by
  have hwhole : r.reached durable r.boundary = r.due r.boundary := by
    rw [reached, takeWhile_eq_self_iff]
    intro entry hent
    obtain ⟨-, hlow, hhigh⟩ := (mem_due h.log).mp hent
    exact hdur entry.index hlow hhigh
  refine ⟨hwhole, ?_⟩
  have hfloor := h.floor
  have hfloorCommit := h.floor_commit
  have hlast := h.commit_last
  rw [ApplyRun.maxAppliedIndex_applyCommitted durable h.toOrderly, hwhole, due,
    length_drop, length_take]
  omega

/-- The quorum count moves the commit index, and the waiting proposers it reaches get their
answers. -/
lemma inv_advance {candidate : ℕ} (h : s.Inv)
    (hdur : ∀ i, s.replica.maxAppliedIndex < i → i ≤ candidate → durable i) :
    (s.advance candidate durable).collectCommitted.Inv := by
  unfold advance
  split
  case isFalse => exact inv_collectCommitted h
  case isTrue hguard =>
    obtain ⟨hlead, hlt, hterm⟩ := hguard
    unfold leading at hlead
    rw [Bool.and_eq_true, Bool.and_eq_true, beq_iff_eq, beq_iff_eq] at hlead
    rw [if_pos (h.serves hlead.1.2)]
    let raised : Replica := { s.replica with commitIndex := candidate }
    have hraised : raised.Settled :=
      ⟨⟨h.settled.log, h.settled.floor, h.settled.commit.trans hlt.le, h.settled.cursor,
        h.settled.applied⟩, h.settled.floor_commit.trans hlt.le,
        le_of_nodeTerm h.settled.log hterm⟩
    obtain ⟨hwhole, hfloor⟩ := reached_of_durable hraised hdur
    have hnode := toRaftNode_applyCommitted durable raised
    have hbatch : (raised.applyCommitted durable).2 = raised.due raised.boundary :=
      applyCommitted_snd hraised.log hraised.cursor hraised.applied
    have hrec : raised.applyCommittedRecording durable s.responseWaiters s.pendingResponses =
        ((raised.applyCommitted durable).1, recordAnswers s.responseWaiters s.replica.engine
          (raised.due raised.boundary) s.pendingResponses) := by
      unfold applyCommittedRecording
      dsimp only
      rw [hbatch]
      exact congrArg (fun reached => ((raised.applyCommitted durable).1,
        recordAnswers s.responseWaiters s.replica.engine reached s.pendingResponses)) hwhole
    rw [hrec]
    have hcom : (raised.applyCommitted durable).1.commitIndex = candidate := by rw [hnode]
    have hlog : (raised.applyCommitted durable).1.log = s.replica.log := by rw [hnode]
    have hcurr : (raised.applyCommitted durable).1.currentTerm = s.replica.currentTerm := by
      rw [hnode]
    have hsub : s.committed ⊆ s.committed ++ (raised.applyCommitted durable).1.log.filter
        (·.index ≤ (raised.applyCommitted durable).1.commitIndex) := subset_append_left _ _
    refine inv_of_kept h hraised.applyCommitted (fun _ => ?_) hcurr (fun t p hp =>
      ⟨p, hp, rfl, fun _ hheld => ?_⟩) fun answer hans => (h.answered answer hans).mono hsub
    · dsimp only [collectCommitted]
      rw [hnode]
      exact h.serves hlead.1.2
    · refine ⟨hheld.leads, hheld.waits, fun habove => ?_, fun hle => ?_, fun hobs => ?_⟩
      · dsimp only [collectCommitted] at habove ⊢
        rw [hcom] at habove
        rw [hlog]
        exact hheld.above (hlt.trans habove)
      · dsimp only [collectCommitted] at hle ⊢
        rw [hcom] at hle
        refine ⟨hfloor ▸ hle, ?_⟩
        by_cases hold : p.entry.index ≤ s.replica.commitIndex
        · -- answered before: what is run now lies above
          obtain ⟨hrun, hcomd, ran, hpend⟩ := hheld.below hold
          refine ⟨hsub hcomd, ran, ?_⟩
          rw [recordAnswers_of_notMem _ _ _ ?_]
          · exact hpend
          · intro entry hent heq
            have := ((mem_due hraised.log).mp hent).2.1
            change s.replica.maxAppliedIndex < entry.index at this
            omega
        · have hent := hheld.above (Nat.lt_of_not_le hold)
          have hfloorCommit := h.settled.floor_commit
          have hdue : p.entry ∈ raised.due raised.boundary := by
            apply (mem_due hraised.log).mpr
            refine ⟨hent, ?_, hle⟩
            change s.replica.maxAppliedIndex < p.entry.index
            omega
          refine ⟨mem_append_right _ (mem_filter.mpr ⟨?_, ?_⟩), ?_⟩
          · rw [hlog]
            exact hent
          · rw [hcom]
            exact decide_eq_true hle
          · exact recordAnswers_of_mem _ _ _ (numbered_due hraised.log).nodup hdue hheld.waits
      · dsimp only [collectCommitted]
        rw [hcom]
        exact (hheld.observed hobs).trans hlt.le

lemma inv_append {config : RaftConfig} {request : AppendEntriesRequest} (h : s.Inv)
    (hcare : CarefulStep s (.append config request durable)) :
    (s.append config request durable).Inv := by
  obtain ⟨hcont, hnew⟩ := hcare
  have hset : (s.replica.receiveAppendEntries config durable request).1.1.Settled :=
    h.settled.receiveAppendEntries hcont
  unfold append receiveAppendEntries at *
  cases href : s.replica.refusal config request with
  | some reason =>
    rw [href] at hset
    exact inv_of_kept h hset h.serves rfl (fun t p hp =>
      ⟨p, hp, rfl, fun _ hheld => { hheld with }⟩)
      h.answered
  | none =>
    rw [href] at hset
    obtain ⟨hterm, hrole⟩ := acceptEntries_follows config durable request s.replica
    have hle : s.replica.currentTerm ≤ request.term := by
      by_contra hlt
      unfold refusal at href
      simp only [if_pos (Nat.lt_of_not_le hlt)] at href
      cases href
    apply inv_of_newTerm h hset
    · intro hldr
      rw [hrole] at hldr
      cases hldr
    · rw [hterm]
      exact hle
    · intro t p hp
      rw [hterm]
      exact hnew t p hp

variable {image : Image} {term : ℕ}

section

variable (h : s.Inv)
include h

lemma inv_install {snapshot : BuiltSnapshot} (hcare : CarefulStep s (.install term snapshot)) :
    (s.install image term snapshot.toRaftSnapshot).Inv := by
  unfold install
  split
  case isTrue => exact h
  case isFalse hge =>
    have hle := Nat.not_lt.mp hge
    let following : Replica :=
      { s.replica with currentTerm := term, role := .follower, votedFor := none }
    have hfoll : following.Settled := h.settled.inTerm
    change Inv { s with replica :=
      (following.installSnapshot image snapshot.toRaftSnapshot).getD following }
    cases hinst : following.installSnapshot image snapshot.toRaftSnapshot with
    | none => exact inv_of_newTerm h hfoll nofun hle hcare
    | some installed =>
      have hset := hfoll.installSnapshot snapshot.covers hinst
      have hnode : installed.role = .follower ∧
          installed.currentTerm = max term snapshot.lastIncludedTerm := by
        unfold installSnapshot at hinst
        split at hinst
        · cases hinst
        · cases hinst
          exact ⟨rfl, rfl⟩
      apply inv_of_newTerm h hset
      · intro hldr
        rw [hnode.1] at hldr
        cases hldr
      · rw [hnode.2]
        exact hle.trans (le_max_left _ _)
      · intro t p hp
        have hpropo := h.terms t p hp
        have hother := hcare t p hp
        omega

lemma inv_compact {shardId : ShardId} {bytes : List UInt8} :
    (s.compact image shardId bytes).Inv := by
  unfold compact
  split
  case h_1 => exact h
  case h_2 snapshot hsome =>
    obtain ⟨hset, hidx⟩ : (s.replica.publishSnapshotState snapshot
        (rebuildSnapshotEngine image snapshot)).Settled ∧
          snapshot.lastIncludedIndex = s.replica.appliedIndex := h.settled.publishOwn hsome
    by_cases hraised : s.replica.currentTerm < snapshot.lastIncludedTerm
    · exact inv_of_newTerm h hset h.serves (le_max_left _ _) fun t p =>
        term_ne_of_lt h (hraised.trans_le (le_max_right _ _))
    · have hterm : max s.replica.currentTerm snapshot.lastIncludedTerm = s.replica.currentTerm :=
        max_eq_left (Nat.not_lt.mp hraised)
      have hfloor := h.settled.floor_commit
      have hcur := h.settled.cursor
      have hcom : max s.replica.commitIndex snapshot.lastIncludedIndex =
          s.replica.commitIndex := by omega
      refine inv_of_kept h hset h.serves hterm (fun t p hp =>
        ⟨p, hp, rfl, fun _ hheld => ?_⟩) h.answered
      refine ⟨hheld.leads, hheld.waits, fun habove => ?_, fun hle => ?_, fun hobs => ?_⟩
      · change max s.replica.commitIndex snapshot.lastIncludedIndex < p.entry.index at habove
        rw [hcom] at habove
        exact mem_filter.mpr ⟨hheld.above habove, decide_eq_true (by omega)⟩
      · change p.entry.index ≤ max s.replica.commitIndex snapshot.lastIncludedIndex at hle
        rw [hcom] at hle
        obtain ⟨hrun, hrest⟩ := hheld.below hle
        exact ⟨hrun.trans (le_max_left _ _), hrest⟩
      · exact (hheld.observed hobs).trans (le_max_left _ _)

lemma inv_promote : (s.promote term).Inv := by
  unfold promote
  split
  case isFalse => exact h
  case isTrue hguard =>
    obtain ⟨hle, hvoter⟩ := hguard
    have hserv : s.replica.replicaRole.canServeData := by
      revert hvoter
      cases s.replica.replicaRole <;> simp [RaftReplicaRole.canBeLeader,
        RaftReplicaRole.canServeData]
    have hset : Replica.Settled { s.replica with
        currentTerm := term, role := .leader, alive := true, votedFor := some s.localId } :=
      h.settled.inTerm
    rcases hle.lt_or_eq with hlt | heq
    · exact inv_of_newTerm h hset (fun _ => hserv) hle fun t p => term_ne_of_lt h hlt
    · refine inv_of_kept h hset (fun _ => hserv) heq.symm (fun t p hp => ?_) h.answered
      exact ⟨p, hp, rfl, fun _ hheld => { hheld with leads := rfl }⟩

lemma inv_adopt : (s.adopt term).Inv := by
  unfold adopt Cluster.adoptHigherTerm
  split
  case isFalse => exact h
  case isTrue hlt =>
    have hset : Replica.Settled { s.replica with
        currentTerm := term, votedFor := none, role := .follower } := h.settled.inTerm
    exact inv_of_newTerm h hset nofun hlt.le fun t p => term_ne_of_lt h hlt

lemma inv_observe : (s.observe thread).Inv := by
  unfold observe
  split
  case h_1 => exact h
  case h_2 waiting hwaiting =>
    split
    case isFalse => exact h
    case isTrue hreached =>
      refine inv_of_kept h h.settled h.serves rfl (fun t p hp => ?_) h.answered
      rcases update_eq_iff.mp hp with ⟨rfl, hnew⟩ | ⟨-, hold⟩
      · cases hnew
        refine ⟨waiting, hwaiting, rfl, fun _ hheld => ?_⟩
        refine { hheld with observed := fun _ => ?_ }
        -- the commit index it saw is the node's own
        rw [leaderCommit, if_pos hheld.leads] at hreached
        exact hreached
      · exact ⟨p, hold, rfl, fun _ hheld => { hheld with }⟩

lemma inv_leave (hprop : s.proposals thread = some proposal) :
    (s.leave thread proposal.entry.index).Inv := by
  refine inv_of_kept h h.settled h.serves rfl (fun t p hp => ?_) h.answered
  rcases update_eq_iff.mp hp with ⟨-, hnew⟩ | ⟨hne, hold⟩
  · cases hnew
  · refine ⟨p, hold, rfl, fun hcurr hheld => ?_⟩
    have hapart := h.apart t p thread proposal hold hprop hne hcurr
    refine ⟨hheld.leads, Finset.mem_erase.mpr ⟨hapart.symm, hheld.waits⟩, hheld.above,
      fun hle => ?_, hheld.observed⟩
    obtain ⟨hrun, hcomd, ran, hpend⟩ := hheld.below hle
    exact ⟨hrun, hcomd, ran, (Function.update_of_ne hapart.symm _ _).trans hpend⟩

lemma inv_expire : (s.expire thread).Inv := by
  unfold expire
  split
  case h_1 => exact h
  case h_2 waiting hwaiting =>
    split
    · exact h
    · exact inv_leave h hwaiting

lemma inv_finish {flushed : Bool} (hcare : CarefulStep s (.finish thread flushed)) :
    (s.finish thread flushed).Inv := by
  unfold finish
  split
  case h_1 => exact h
  case h_2 waiting hwaiting =>
    split
    case isFalse => exact h
    case isTrue hobs =>
      have hleft := inv_leave h hwaiting
      have hheld := h.held thread waiting hwaiting (hcare waiting hwaiting)
      obtain ⟨-, hcomd, ran, hpend⟩ := hheld.below (hheld.observed hobs)
      split
      case isFalse => exact hleft
      case isTrue =>
        refine { hleft with
          held := fun t p hp hcurr => { hleft.held t p hp hcurr with }
          answered := fun answer hans => ?_ }
        · rcases mem_append.mp hans with hold | hnew
          · exact h.answered answer hold
          · rw [mem_singleton.mp hnew, hpend]
            exact ⟨⟨ran, rfl⟩, hcomd⟩

lemma inv_step {event : ProposeEvent} (hcare : CarefulStep s event) : (s.step image event).Inv := by
  cases event with
  | propose thread command => exact inv_collectCommitted (inv_propose h hcare)
  | advance candidate durable => exact inv_advance h hcare
  | append config request durable => exact inv_collectCommitted (inv_append h hcare)
  | install term snapshot => exact inv_collectCommitted (inv_install h hcare)
  | compact shardId bytes => exact inv_collectCommitted (inv_compact h)
  | promote term => exact inv_collectCommitted (inv_promote h)
  | adopt term => exact inv_collectCommitted (inv_adopt h)
  | observe thread => exact inv_collectCommitted (inv_observe h)
  | expire thread => exact inv_collectCommitted (inv_expire h)
  | finish thread flushed => exact inv_collectCommitted (inv_finish h hcare)

end

lemma inv_start (localId leaderId : RaftNodeId) (role : RaftReplicaRole) :
    (start localId leaderId role).Inv where
  settled := ⟨⟨numbered_nil, le_rfl, le_rfl, le_rfl,
    fun i hi => absurd hi (Finset.notMem_empty i)⟩, le_rfl, le_rfl⟩
  serves := nofun
  terms := nofun
  held := nofun
  apart := nofun
  answered := fun _ hans => absurd hans not_mem_nil

lemma inv_run {events : List ProposeEvent} (h : s.Inv) (hcare : Careful image events s) :
    (s.run image events).Inv := by
  induction events generalizing s with
  | nil => exact h
  | cons event rest ih => exact ih (inv_step h hcare.1) hcare.2

end

/-- Every proposal that returned a success returned the answer to its own command, and its entry is
committed, in every run whose steps meet the conditions. -/
theorem ownAnswer_run (image : Image) (localId leaderId : RaftNodeId)
    (role : RaftReplicaRole) (events : List ProposeEvent)
    (hcareful : Careful image events (start localId leaderId role)) :
    ∀ answer ∈ ((start localId leaderId role).run image events).answers,
      ((start localId leaderId role).run image events).OwnAnswer answer :=
  (inv_run (inv_start localId leaderId role) hcareful).answered

/-- A proposal that is committed and returned in the term it was made in. -/
def steadyRun : List ProposeEvent :=
  [.promote 2, .propose 0 [7], .advance 1 (fun _ => true), .observe 0, .finish 0 true]

theorem ownAnswer_steadyRun : ((start 1 1 .voter).run (fun _ => []) steadyRun).answers =
        [(⟨1, 2, [7]⟩, .of [] ⟨1, 2, [7]⟩)] ∧
      ∀ answer ∈ ((start 1 1 .voter).run (fun _ => []) steadyRun).answers,
        ((start 1 1 .voter).run (fun _ => []) steadyRun).OwnAnswer answer :=
  ⟨rfl, ownAnswer_run (fun _ => []) 1 1 .voter steadyRun
    ⟨trivial, nofun, fun _ _ _ => rfl, trivial, fun proposal hproposal => by
      cases hproposal
      rfl, trivial⟩⟩

/-- Node 2 wins the next term while the proposal waits, and overwrites its entry with one of its own
that it commits. -/
def overwrittenRun : List ProposeEvent :=
  [.promote 2, .propose 0 [7],
    .append openConfig ⟨0, 3, 2, 1, 0, 0, [⟨1, 3, [8]⟩], 1⟩ (fun _ => true), .observe 0,
    .finish 0 true]

/-- The proposal returns a success without an answer, and its entry is lost. -/
theorem not_ownAnswer_overwrittenRun :
    ¬ ∀ answer ∈ ((start 1 1 .voter).run (fun _ => []) overwrittenRun).answers,
      ((start 1 1 .voter).run (fun _ => []) overwrittenRun).OwnAnswer answer := by
  intro hall
  obtain ⟨-, hcommitted⟩ := hall (⟨1, 2, [7]⟩, .empty) (by decide)
  exact absurd hcommitted (by decide)

end ProposerView

end TemporalStore.Raft
