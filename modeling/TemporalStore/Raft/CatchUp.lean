import TemporalStore.Raft.Apply

/-! # Bringing replicas up to the leader (`raft/cluster_membership.rs`, `raft/cluster_inner.rs`) -/

namespace TemporalStore.Raft

open Lib List Nat Replica RaftLogEntry

/-- The engines of the group: what an image stands for, and which runs reach storage. -/
structure Machine extends Engine where
  image : Image
  durable : RaftNodeId → ℕ → Bool

namespace Cluster

/-- The order in which followers are preferred as the next leader. -/
def preferred (a b : RaftNode) : Bool :=
  decide (b.commitIndex < a.commitIndex ∨ b.commitIndex = a.commitIndex ∧
    (nodeLastLogOrSnapshotIndex b < nodeLastLogOrSnapshotIndex a ∨
      nodeLastLogOrSnapshotIndex b = nodeLastLogOrSnapshotIndex a ∧ a.id < b.id))

def bestLiveCandidate (c : Cluster) : Option RaftNode :=
  (c.values.filter fun node => node.alive && node.replicaRole.canBeLeader).foldl
    (fun best node => match best with
      | none => some node
      | some other => if preferred node other then some node else some other)
    none

def hasLiveLeader (c : Cluster) : Bool :=
  (c.get? c.leaderId).any fun node => node.alive && node.role == .leader

def ensureLiveLeader (c : Cluster) : Cluster × Except RaftError Unit :=
  if c.hasLiveLeader then (c, .ok ())
  else match c.bestLiveCandidate with
    | none => (c, .error .leaderUnavailable)
    | some candidate =>
      let (c, result) := c.electLeader candidate.id
      (c, result.map fun _ => ())

end Cluster

namespace Replica

variable (machine : Machine) (leader : RaftNode) (r : Replica)

/-- The leader's snapshot, taken when it reaches past the end of the replica's log. -/
def takeSnapshot : Replica :=
  match leader.installedSnapshot with
  | none => r
  | some snapshot =>
    if nodeLastLogOrSnapshotIndex r.toRaftNode < snapshot.lastIncludedIndex then
      installSnapshotStateForRole machine.image snapshot r
    else r

def applyIfServing : Replica :=
  if r.replicaRole.canServeData then (r.applyCommitted (machine.durable r.id)).1 else r

def installLeaderSnapshotTail : Replica :=
  let r := r.takeSnapshot machine leader
  -- a replica that has run more than the leader has committed is left alone
  if leader.commitIndex < r.maxAppliedIndex then r
  else applyIfServing machine { r with
    log := leader.log
    commitIndex := max r.commitIndex leader.commitIndex }

/-- How far one bounded pass takes the replica. The sum wraps as in a release build. -/
def boundedTarget (maxEntries : ℕ) (r : Replica) : ℕ :=
  max (min leader.commitIndex ((r.commitIndex + maxEntries) % 2 ^ 64))
    (min leader.boundary leader.commitIndex)

def catchUpBounded (maxEntries : ℕ) (r : Replica) : Replica :=
  let target := r.boundedTarget leader maxEntries
  let r := r.takeSnapshot machine leader
  applyIfServing machine { r with
    log := leader.log.filter (·.index ≤ target)
    commitIndex := target }

end Replica

structure Group where
  cluster : Cluster
  applyAt : RaftNodeId → ApplyState

namespace Group

variable (machine : Machine) (id : RaftNodeId) (g : Group) (r : Replica)

def replica (id : RaftNodeId) : Replica := ⟨g.cluster.nodeAt id, g.applyAt id⟩

def leader : RaftNode := g.cluster.nodeAt g.cluster.leaderId

def set (id : RaftNodeId) (r : Replica) : Group :=
  ⟨g.cluster.set id r.toRaftNode, Function.update g.applyAt id r.toApplyState⟩

def insert (id : RaftNodeId) (r : Replica) : Group :=
  ⟨{ g.cluster.set id r.toRaftNode with ids := g.cluster.ids.orderedInsert (· ≤ ·) id },
    Function.update g.applyAt id r.toApplyState⟩

def mapReplicas (f : Replica → Replica) : Group :=
  ⟨{ g.cluster with nodeAt := fun id => (f (g.replica id)).toRaftNode },
    fun id => (f (g.replica id)).toApplyState⟩

def persist : Group := { g with cluster := g.cluster.persistConfiguredWal }

def ensureLiveLeader : Group × Except RaftError Unit :=
  ({ g with cluster := g.cluster.ensureLiveLeader.1 }, g.cluster.ensureLiveLeader.2)

def addNodeWithRole (role : RaftReplicaRole) (g : Group) : Group × Except RaftError Unit :=
  if id ∈ g.cluster.ids then (g, .error (.nodeAlreadyExists id))
  else match g.ensureLiveLeader with
    | (g, .error err) => (g, .error err)
    | (g, .ok ()) =>
      let node := { newReplica id .follower with
        replicaRole := role, currentTerm := g.leader.currentTerm }
      ((g.insert id (node.installLeaderSnapshotTail machine g.leader)).persist, .ok ())

/-- Whether the node is held for another process to see. -/
def shadow (id : RaftNodeId) : Bool := g.cluster.localNodeId.any (· != id)

def catchUp : Group × Except RaftError Unit :=
  if g.cluster.leaderId ∉ g.cluster.ids then (g, .error .leaderUnavailable)
  else if id ∉ g.cluster.ids then (g, .error (.nodeNotFound id))
  else
    let r := { g.replica id with log := g.leader.log, commitIndex := g.leader.commitIndex }
    let g := g.set id (if g.shadow id then r else r.applyIfServing machine)
    ({ g with cluster :=
        g.cluster.refreshAllPipelineStates machine.toEngine g.cluster.leaderId }.persist, .ok ())

/-- Whether the loop of `catch_up_live_followers` gives the replica the leader's log. -/
def behind : Bool :=
  r.alive && r.id != g.cluster.leaderId &&
    decide (r.commitIndex < g.leader.commitIndex ∨
      nodeLastLogOrSnapshotIndex r.toRaftNode < (g.leader.log.getLast?.map (·.index)).getD 0)

/-- The answer names the followers that are caught up. -/
def catchUpLiveFollowers : Group × Except RaftError (List RaftNodeId) :=
  match g.ensureLiveLeader with
  | (g, .error err) => (g, .error err)
  | (g, .ok ()) =>
    let caught := g.mapReplicas fun r =>
      if g.behind r then r.installLeaderSnapshotTail machine g.leader else r
    (caught.persist, .ok (((caught.cluster.values.filter fun node =>
      node.alive && node.id != g.cluster.leaderId &&
        decide (g.leader.commitIndex ≤ node.commitIndex)).map (·.id))))

def lagging : Bool :=
  r.alive && r.id != g.cluster.leaderId && decide (r.commitIndex < g.leader.commitIndex)

/-- The answer is the number of entries replayed. -/
def catchUpLiveFollowersBounded (maxEntries : ℕ) (g : Group) : Group × Except RaftError ℕ :=
  match g.ensureLiveLeader with
  | (g, .error err) => (g, .error err)
  | (g, .ok ()) =>
    let caught := g.mapReplicas fun r =>
      if g.lagging r then r.catchUpBounded machine g.leader maxEntries else r
    (caught.persist, .ok ((g.cluster.ids.map fun id =>
      (caught.replica id).commitIndex - (g.replica id).commitIndex).sum))

/-- The new voters that are not in the view, given the leader's log. -/
def joinVoters (machine : Machine) (leader : RaftNode) : List RaftNodeId → Group → Group
  | [], g => g
  | id :: rest, g =>
    joinVoters machine leader rest <|
      if id ∈ g.cluster.ids then g
      else
        let node := { newReplica id .follower with
          currentTerm := leader.currentTerm, log := leader.log, commitIndex := leader.commitIndex }
        g.insert id (node.applyCommitted (machine.durable id)).1

def beginJointConsensus (newVoters : List RaftNodeId) (g : Group) : Group × Except RaftError Unit :=
  if g.cluster.jointMembership.isSome then (g, .error .jointConsensusInProgress)
  else match g.ensureLiveLeader with
    | (g, .error err) => (g, .error err)
    | (g, .ok ()) =>
      let oldVoters := g.cluster.votingNodeIds.insertionSort (· ≤ ·)
      let newVoters := (newVoters.insertionSort (· ≤ ·)).dedup
      if newVoters = [] then (g, .error .cannotRemoveLastNode)
      else
        let g := joinVoters machine g.leader newVoters g
        ({ g with cluster := { g.cluster with
            jointMembership := some ⟨oldVoters, newVoters⟩ } }.persist, .ok ())

end Group

/-- The engine has run the history up to the cursor, each entry once. -/
def ApplyState.Reflects (history : List RaftLogEntry) (state : ApplyState) : Prop :=
  state.engine = history.take state.appliedIndex

/-- The leader's log and snapshot hold the committed history; its own commit index may lag. -/
structure RaftNode.Leads (image : Image) (history : List RaftLogEntry) (leader : RaftNode) :
    Prop where
  numbered : Numbered index 1 history
  boundary_le : leader.boundary ≤ leader.commitIndex
  commit_le : leader.commitIndex ≤ history.length
  log : ∃ uncommitted, leader.log = history.drop leader.boundary ++ uncommitted ∧
    Numbered index (history.length + 1) uncommitted
  snapshot : ∀ snapshot ∈ leader.installedSnapshot,
    rebuildSnapshotEngine image snapshot = history.take snapshot.lastIncludedIndex ∧
      ∀ entry ∈ snapshot.entries, entry.index ≤ snapshot.lastIncludedIndex

/-- The engine has run the history up to the floor. The cursor may have been set back. -/
structure ApplyState.Ran (history : List RaftLogEntry) (state : ApplyState) : Prop where
  engine : state.engine = history.take state.maxAppliedIndex
  floor_le : state.maxAppliedIndex ≤ history.length
  cursor : state.appliedIndex ≤ state.maxAppliedIndex
  applied : ∀ i ∈ state.applied, i ≤ state.maxAppliedIndex

/-- A follower's log may hold anything, and reaches at least as far as it has run. -/
structure Replica.Follows (history : List RaftLogEntry) (r : Replica) : Prop where
  ran : r.Ran history
  floor_last : r.maxAppliedIndex ≤ nodeLastLogOrSnapshotIndex r.toRaftNode
  commit_le : r.commitIndex ≤ history.length

/-- Whether a pass over a log that starts after `base`, up to `commit`, leaves the replica on the
history. If there is something to run, nothing may be missing between the floor and the log, and
what is run must reach storage. If there is not, the cursor is at the floor or is carried to it. -/
def Replica.Resumes (durable : ℕ → Bool) (base commit : ℕ) (r : Replica) : Prop :=
  if max r.maxAppliedIndex base < commit then
    base ≤ r.maxAppliedIndex ∧ ∀ i, r.maxAppliedIndex < i → i ≤ commit → durable i
  else r.appliedIndex = r.maxAppliedIndex ∨ base < r.maxAppliedIndex ∧ r.maxAppliedIndex ≤ commit

namespace Replica

section

variable {history : List RaftLogEntry} {r : Replica} {base : ℕ} {durable : ℕ → Bool}
  (hlog : Numbered index (base + 1) r.log)
  (hagree : r.log.take (r.commitIndex - base) = (history.take r.commitIndex).drop base)
  (hcom : r.commitIndex ≤ history.length) (hran : r.Ran history)

lemma due_eq_drop
    (hagree : r.log.take (r.commitIndex - base) = (history.take r.commitIndex).drop base) :
    r.due base = (history.take r.commitIndex).drop (max r.maxAppliedIndex base) := by
  rw [due, hagree, drop_drop]
  congr 1
  omega

include hlog hagree hcom

lemma cursorBelow_eq :
    r.cursorBelow = if min r.maxAppliedIndex r.commitIndex ≤ max r.appliedIndex base
      then r.appliedIndex else min r.maxAppliedIndex r.commitIndex := by
  have hreach := congrArg length hagree
  rw [length_take, length_drop, length_take] at hreach
  have hnum := numbered_pending hlog
  have hpend : r.pending.length = r.commitIndex - max r.appliedIndex base := by
    rw [pending_eq hlog, length_take, length_drop]
    omega
  have htake := hnum.filter_le r.maxAppliedIndex
  rw [cursorBelow, htake, (hnum.take _).foldl_max (lt_succ_of_le (le_max_left r.appliedIndex base)),
    length_take]
  split <;> split <;> omega

include hran

lemma reflects_idle_iff (hidle : r.commitIndex ≤ max r.maxAppliedIndex base) :
    (applyCommitted durable r).1.Reflects history ↔ r.appliedIndex = r.maxAppliedIndex ∨
        base < r.maxAppliedIndex ∧ r.maxAppliedIndex ≤ r.commitIndex := by
  have hcur := hran.cursor
  have hfloor := hran.floor_le
  have hdue : r.due base = [] := by
    apply drop_eq_nil_of_le
    rw [length_take]
    omega
  have hreached : r.reached durable base = [] := by rw [reached, hdue, takeWhile_nil]
  have hle := cursorBelow_le hran.cursor
  have hsame : history.take r.maxAppliedIndex = history.take r.cursorBelow ↔
      r.cursorBelow = r.maxAppliedIndex := by
    rw [take_eq_take_iff]
    omega
  rw [applyCommitted_fst hlog hran.cursor hran.applied]
  simp only [ApplyState.Reflects, hdue, hreached, length_nil, if_true, append_nil, hran.engine]
  rw [hsame, cursorBelow_eq hlog hagree hcom]
  split <;> omega

lemma reflects_busy_iff (hnumb : Numbered index 1 history)
    (hbusy : max r.maxAppliedIndex base < r.commitIndex) :
    (applyCommitted durable r).1.Reflects history ↔
      base ≤ r.maxAppliedIndex ∧ ∀ i, r.maxAppliedIndex < i → i ≤ r.commitIndex → durable i := by
  have hdue := due_eq_drop hagree
  have hlen : (r.due base).length = r.commitIndex - max r.maxAppliedIndex base := by
    rw [hdue, length_drop, length_take]
    omega
  have hreachedLe : (r.reached durable base).length ≤ (r.due base).length :=
    (isPrefix_reached durable base r).length_le
  have hcursorLe := cursorBelow_le hran.cursor
  rw [applyCommitted_fst hlog hran.cursor hran.applied]
  simp only [ApplyState.Reflects]
  constructor
  · intro heq
    have hcount := congrArg length heq
    rw [length_append, hran.engine, length_take, length_take] at hcount
    have hnum := numbered_due hlog
    -- the first entry run stands in the history where the engine was
    have hbase : base ≤ r.maxAppliedIndex := by
      have hdrop := congrArg (drop r.maxAppliedIndex) heq
      rw [drop_left' (by rw [hran.engine, length_take]; omega)] at hdrop
      have hplace : Numbered index (1 + r.maxAppliedIndex) (r.due base) := by
        rw [hdrop]
        exact (hnumb.take _).drop _
      have hne : r.due base ≠ [] := ne_nil_of_length_pos (by omega)
      have hfirst := head?_eq_some_head hne
      have hidx := hnum.key_head hfirst
      have hidx' := hplace.key_head hfirst
      omega
    have hall : (r.reached durable base).length = (r.due base).length := by
      split at hcount <;> omega
    refine ⟨hbase, fun i hlow hhigh => ?_⟩
    have hwhole : r.reached durable base = r.due base :=
      (isPrefix_reached durable base r).eq_of_length hall
    obtain ⟨entry, hent, rfl⟩ := hnum.exists_key (i := i) (by omega) (by omega)
    exact takeWhile_eq_self_iff.mp hwhole entry hent
  · rintro ⟨hbase, hdur⟩
    have hmax : max r.maxAppliedIndex base = r.maxAppliedIndex := max_eq_left hbase
    have hwhole : r.reached durable base = r.due base := by
      rw [reached, takeWhile_eq_self_iff]
      intro entry hent
      have hkey := (numbered_due hlog).key_of_mem hent
      exact hdur _ (by omega) (by omega)
    have htake : history.take r.maxAppliedIndex =
        (history.take r.commitIndex).take r.maxAppliedIndex := by
      rw [take_take, min_eq_left (by omega)]
    rw [hwhole, if_neg (by omega), hran.engine, hdue, hmax, htake, take_append_drop,
      length_drop, length_take]
    congr 1
    omega

lemma reflects_applyCommitted_iff (hnumb : Numbered index 1 history) :
    (applyCommitted durable r).1.Reflects history ↔ r.Resumes durable base r.commitIndex := by
  unfold Resumes
  split
  · exact reflects_busy_iff hlog hagree hcom hran hnumb ‹_›
  · exact reflects_idle_iff hlog hagree hcom hran (not_lt.mp ‹_›)

end

end Replica

section

variable {machine : Machine} {history : List RaftLogEntry} {leader : RaftNode} {r : Replica}

lemma RaftNode.Leads.numbered_log {image : Image}
    (h : leader.Leads image history) : Numbered index (leader.boundary + 1) leader.log := by
  obtain ⟨uncommitted, hlog, hnum⟩ := h.log
  have hbnd := h.boundary_le.trans h.commit_le
  rw [hlog, add_comm]
  apply (h.numbered.drop _).append
  rw [length_drop]
  convert hnum using 1
  omega

lemma RaftNode.Leads.take_log {image : Image} {commit : ℕ}
    (h : leader.Leads image history) (hcom : commit ≤ history.length) :
    leader.log.take (commit - leader.boundary) = (history.take commit).drop leader.boundary := by
  obtain ⟨uncommitted, hlog, -⟩ := h.log
  rw [hlog, take_append_of_le_length, drop_take]
  rw [length_drop]
  omega

namespace Replica

lemma reflects_given_iff {commit : ℕ} {log : List RaftLogEntry}
    (hleads : leader.Leads machine.image history) (hran : r.Ran history)
    (hserves : r.replicaRole.canServeData) (hcom : commit ≤ history.length)
    (hlog : log = leader.log ∨ log = leader.log.filter (·.index ≤ commit)) :
    ({ r with log := log, commitIndex := commit }.applyIfServing machine).Reflects history ↔
      r.Resumes (machine.durable r.id) leader.boundary commit := by
  have hwhole := hleads.numbered_log
  have hfilter : leader.log.filter (·.index ≤ commit) =
      leader.log.take (commit - leader.boundary) := by
    rw [hwhole.filter_le, Nat.add_sub_add_right]
  have hnum : Numbered index (leader.boundary + 1) log := by
    rcases hlog with rfl | rfl
    · exact hwhole
    · rw [hfilter]
      exact hwhole.take _
  have hagree : log.take (commit - leader.boundary) =
      (history.take commit).drop leader.boundary := by
    rw [← hleads.take_log hcom]
    rcases hlog with rfl | rfl
    · rfl
    · rw [hfilter, take_take, min_self]
  let given : Replica := { r with log := log, commitIndex := commit }
  have hserving : given.applyIfServing machine =
      (given.applyCommitted (machine.durable r.id)).1 := if_pos hserves
  rw [hserving]
  exact reflects_applyCommitted_iff hnum hagree hcom hran hleads.numbered

lemma takeSnapshot_of_le (hle : leader.boundary ≤ nodeLastLogOrSnapshotIndex r.toRaftNode) :
    r.takeSnapshot machine leader = r := by
  unfold takeSnapshot
  unfold RaftNode.boundary at hle
  cases hs : leader.installedSnapshot with
  | none => rfl
  | some snapshot =>
    rw [hs] at hle
    exact if_neg (not_lt.mpr hle)

lemma reflects_iff_of_ran {state : ApplyState} (hran : state.Ran history) :
    state.Reflects history ↔ state.appliedIndex = state.maxAppliedIndex := by
  have hcur := hran.cursor
  have hfloor := hran.floor_le
  unfold ApplyState.Reflects
  rw [hran.engine, take_eq_take_iff]
  omega

/-- Whether the snapshot is installed, or the replica continues from its floor. -/
def TailResumes (durable : ℕ → Bool) (leader : RaftNode) (commit : ℕ) (r : Replica) : Prop :=
  if nodeLastLogOrSnapshotIndex r.toRaftNode < leader.boundary then
    ∀ i, leader.boundary < i → i ≤ commit → durable i
  else r.Resumes durable leader.boundary commit

/-- The same for the path that leaves alone what has run past the leader's commit index. -/
def SnapshotTailResumes (durable : ℕ → Bool) (leader : RaftNode) (r : Replica) : Prop :=
  if leader.boundary ≤ nodeLastLogOrSnapshotIndex r.toRaftNode ∧
      leader.commitIndex < r.maxAppliedIndex then
    r.appliedIndex = r.maxAppliedIndex
  else r.TailResumes durable leader (max r.commitIndex leader.commitIndex)

section

variable (hleads : leader.Leads machine.image history) (hfol : r.Follows history)
  (hserves : r.replicaRole.canServeData)
include hleads hfol hserves

lemma takeSnapshot_of_lt (hlt : nodeLastLogOrSnapshotIndex r.toRaftNode < leader.boundary) :
    (r.takeSnapshot machine leader).Ran history ∧
      (r.takeSnapshot machine leader).appliedIndex = leader.boundary ∧
      (r.takeSnapshot machine leader).maxAppliedIndex = leader.boundary ∧
      (r.takeSnapshot machine leader).commitIndex = max r.commitIndex leader.boundary ∧
      (r.takeSnapshot machine leader).replicaRole = r.replicaRole ∧
      (r.takeSnapshot machine leader).id = r.id := by
  unfold takeSnapshot
  unfold RaftNode.boundary at hlt ⊢
  cases hs : leader.installedSnapshot with
  | none => rw [hs] at hlt; exact absurd hlt (not_lt_zero _)
  | some snapshot =>
    rw [hs] at hlt
    change nodeLastLogOrSnapshotIndex r.toRaftNode < snapshot.lastIncludedIndex at hlt
    have hbnd := hleads.boundary_le.trans hleads.commit_le
    rw [RaftNode.boundary, hs] at hbnd
    obtain ⟨hengine, hents⟩ := hleads.snapshot snapshot hs
    have hfloor : max r.maxAppliedIndex snapshot.lastIncludedIndex = snapshot.lastIncludedIndex :=
      max_eq_right (hfol.floor_last.trans hlt.le)
    simp only [if_pos hlt, installSnapshotStateForRole, if_pos hserves, publishSnapshotState,
      hfloor, Option.map_some, Option.getD_some, and_self, and_true]
    refine ⟨hengine, hbnd, le_rfl, fun i hi => ?_⟩
    simp only [mem_toFinset, mem_map] at hi
    obtain ⟨entry, hent, rfl⟩ := hi
    exact hents entry hent

lemma reflects_tail_iff {commit : ℕ} {log : List RaftLogEntry} (hcom : commit ≤ history.length)
    (hlog : log = leader.log ∨ log = leader.log.filter (·.index ≤ commit)) :
    ({ r.takeSnapshot machine leader with
        log := log, commitIndex := commit }.applyIfServing machine).Reflects history ↔
      r.TailResumes (machine.durable r.id) leader commit := by
  unfold TailResumes
  split
  case isTrue hlt =>
    obtain ⟨hran, hcur, hfloor, -, hrole, hid⟩ := takeSnapshot_of_lt hleads hfol hserves hlt
    rw [reflects_given_iff hleads hran (hrole ▸ hserves) hcom hlog, hid]
    unfold Resumes
    rw [hcur, hfloor]
    -- from the compaction point on nothing is missing
    split
    case isTrue => exact ⟨And.right, fun h => ⟨le_rfl, h⟩⟩
    case isFalse hidle =>
      refine ⟨fun _ i hlow hhigh => ?_, fun _ => Or.inl rfl⟩
      omega
  case isFalse hge =>
    rw [takeSnapshot_of_le (not_lt.mp hge)]
    exact reflects_given_iff hleads hfol.ran hserves hcom hlog

lemma reflects_installLeaderSnapshotTail_iff :
    (r.installLeaderSnapshotTail machine leader).Reflects history ↔
      r.SnapshotTailResumes (machine.durable r.id) leader := by
  have hcom : max r.commitIndex leader.commitIndex ≤ history.length :=
    max_le hfol.commit_le hleads.commit_le
  have htail := reflects_tail_iff hleads hfol hserves hcom (Or.inl rfl)
  unfold SnapshotTailResumes
  rw [← htail]
  unfold installLeaderSnapshotTail
  by_cases hlt : nodeLastLogOrSnapshotIndex r.toRaftNode < leader.boundary
  · obtain ⟨-, -, hfloor, hidx, -, -⟩ := takeSnapshot_of_lt hleads hfol hserves hlt
    have hmax : max (max r.commitIndex leader.boundary) leader.commitIndex =
        max r.commitIndex leader.commitIndex := by
      have := hleads.boundary_le
      omega
    have hgiven : ¬ leader.commitIndex < (r.takeSnapshot machine leader).maxAppliedIndex := by
      rw [hfloor]
      exact not_lt.mpr hleads.boundary_le
    have htaken : ¬ (leader.boundary ≤ nodeLastLogOrSnapshotIndex r.toRaftNode ∧
        leader.commitIndex < r.maxAppliedIndex) := fun h => not_le.mpr hlt h.1
    rw [if_neg hgiven, if_neg htaken, hidx, hmax]
  · have hle := not_lt.mp hlt
    rw [takeSnapshot_of_le hle]
    by_cases hahead : leader.commitIndex < r.maxAppliedIndex
    · rw [if_pos hahead, if_pos ⟨hle, hahead⟩]
      exact reflects_iff_of_ran hfol.ran
    · have htaken : ¬ (leader.boundary ≤ nodeLastLogOrSnapshotIndex r.toRaftNode ∧
          leader.commitIndex < r.maxAppliedIndex) := fun h => hahead h.2
      rw [if_neg htaken, if_neg hahead]

lemma reflects_catchUpBounded_iff {maxEntries : ℕ} :
    (r.catchUpBounded machine leader maxEntries).Reflects history ↔
      r.TailResumes (machine.durable r.id) leader (r.boundedTarget leader maxEntries) := by
  have htarget : r.boundedTarget leader maxEntries ≤ history.length := by
    have := hleads.commit_le
    unfold boundedTarget
    omega
  exact reflects_tail_iff hleads hfol hserves htarget (Or.inr rfl)

end

lemma follows_joining (id : RaftNodeId) (role : RaftReplicaRole) (term : ℕ) :
    Follows history { newReplica id .follower with replicaRole := role, currentTerm := term } where
  ran := ⟨rfl, zero_le _, le_rfl, fun i hi => absurd hi (Finset.notMem_empty i)⟩
  floor_last := zero_le _
  commit_le := zero_le _

end Replica

end

inductive CatchUpOp where
  | addNode (id : RaftNodeId) (role : RaftReplicaRole)
  | catchUp (id : RaftNodeId)
  | liveFollowers
  | liveFollowersBounded (maxEntries : ℕ)
  | joint (newVoters : List RaftNodeId)

namespace CatchUpOp

def perform (machine : Machine) (g : Group) : CatchUpOp → Group × Except RaftError Unit
  | addNode id role => g.addNodeWithRole machine id role
  | catchUp id => g.catchUp machine id
  | liveFollowers =>
    let (g, result) := g.catchUpLiveFollowers machine
    (g, result.map fun _ => ())
  | liveFollowersBounded maxEntries =>
    let (g, result) := g.catchUpLiveFollowersBounded machine maxEntries
    (g, result.map fun _ => ())
  | joint newVoters => g.beginJointConsensus machine newVoters

/-- The group with the leader the operation works from. -/
def inForce (g : Group) : CatchUpOp → Group
  | catchUp _ => g
  | _ => g.ensureLiveLeader.1

/-- Whether the operation gives the node a log that it serves data from. -/
def Touches (g : Group) (id : RaftNodeId) : CatchUpOp → Prop
  | addNode newId role => id = newId ∧ role.canServeData
  | catchUp target => id = target ∧ (g.replica id).replicaRole.canServeData ∧ ¬ g.shadow id
  | liveFollowers =>
    id ∈ g.cluster.ids ∧ (g.replica id).replicaRole.canServeData ∧ g.behind (g.replica id)
  | liveFollowersBounded _ =>
    id ∈ g.cluster.ids ∧ (g.replica id).replicaRole.canServeData ∧ g.lagging (g.replica id)
  | joint newVoters => id ∈ newVoters ∧ id ∉ g.cluster.ids

/-- Whether what the node is given continues what it has run. -/
def Resumes (machine : Machine) (g : Group) (id : RaftNodeId) : CatchUpOp → Prop
  | addNode _ _ => (newReplica id .follower).SnapshotTailResumes (machine.durable id) g.leader
  | catchUp _ => (g.replica id).Resumes (machine.durable (g.replica id).id) g.leader.boundary
      g.leader.commitIndex
  | liveFollowers => (g.replica id).SnapshotTailResumes (machine.durable (g.replica id).id) g.leader
  | liveFollowersBounded maxEntries =>
    (g.replica id).TailResumes (machine.durable (g.replica id).id) g.leader
      ((g.replica id).boundedTarget g.leader maxEntries)
  | joint _ => (newReplica id .follower).Resumes (machine.durable id) g.leader.boundary
      g.leader.commitIndex

end CatchUpOp

/-- The leader holds the committed history, and what serves data has run a part of it. -/
structure Group.Coherent (image : Image) (history : List RaftLogEntry) (g : Group) : Prop where
  leads : g.leader.Leads image history
  follows : ∀ id ∈ g.cluster.ids, (g.replica id).replicaRole.canServeData →
    (g.replica id).Follows history

namespace Group

section

variable {machine : Machine} {history : List RaftLogEntry} {g : Group} {id : RaftNodeId}

/-- A replica that the operation touches reflects the history exactly if what it is given continues
what it had run. -/
def Exact (machine : Machine) (history : List RaftLogEntry) (g : Group) (op : CatchUpOp) : Prop :=
  (op.perform machine g).2 = .ok () → (op.inForce g).Coherent machine.image history →
    ∀ id, op.Touches (op.inForce g) id →
      (((op.perform machine g).1.applyAt id).Reflects history ↔
        op.Resumes machine (op.inForce g) id)

lemma exact_addNode (newId : RaftNodeId) (role : RaftReplicaRole) :
    Exact machine history g (.addNode newId role) := by
  rintro hok hcoherent id ⟨rfl, hserves⟩
  simp only [CatchUpOp.perform, addNodeWithRole] at hok ⊢
  split at hok
  case isTrue => exact absurd hok (by simp)
  case isFalse habs =>
    rw [if_neg habs]
    revert hcoherent hok
    simp only [CatchUpOp.inForce, CatchUpOp.Resumes]
    rcases g.ensureLiveLeader with ⟨led, err | ⟨⟩⟩
    · exact fun _ hok => absurd hok (by simp)
    · intro hcoherent _
      have hstate := reflects_installLeaderSnapshotTail_iff hcoherent.leads
        (follows_joining id role led.leader.currentTerm) hserves
      dsimp only [insert, persist]
      rw [Function.update_self]
      exact hstate

lemma exact_catchUp (target : RaftNodeId) : Exact machine history g (.catchUp target) := by
  rintro hok hcoherent id ⟨rfl, hserves, hlocal⟩
  simp only [CatchUpOp.perform, catchUp] at hok ⊢
  split at hok
  case isTrue => exact absurd hok (by simp)
  case isFalse hldr =>
    rw [if_neg hldr]
    split at hok
    case isTrue => exact absurd hok (by simp)
    case isFalse hpres =>
      have hfol := hcoherent.follows id (Decidable.not_not.mp hpres) hserves
      have hstate := reflects_given_iff hcoherent.leads hfol.ran hserves
        hcoherent.leads.commit_le (Or.inl rfl)
      rw [if_neg hpres]
      dsimp only [set, persist]
      rw [Function.update_self, if_neg (show ¬g.shadow id from hlocal)]
      exact hstate

lemma exact_live {op : CatchUpOp}
    (hop : op = .liveFollowers ∨ ∃ maxEntries, op = .liveFollowersBounded maxEntries) :
    Exact machine history g op := by
  intro hok hcoherent id htouches
  rcases hop with rfl | ⟨maxEntries, rfl⟩
  all_goals
    simp only [CatchUpOp.perform, catchUpLiveFollowers, catchUpLiveFollowersBounded] at hok ⊢
    revert hok hcoherent htouches
    simp only [CatchUpOp.inForce, CatchUpOp.Touches, CatchUpOp.Resumes]
    rcases g.ensureLiveLeader with ⟨led, err | ⟨⟩⟩
    · exact fun hok => absurd hok (by simp [Except.map])
    rintro - hcoherent ⟨hmem, hserves, hbehind⟩
    have hfollows := hcoherent.follows id hmem hserves
    dsimp only [persist, mapReplicas]
    rw [if_pos hbehind]
  · exact reflects_installLeaderSnapshotTail_iff hcoherent.leads hfollows hserves
  · exact reflects_catchUpBounded_iff hcoherent.leads hfollows hserves

lemma applyAt_joinVoters_of_mem {leader : RaftNode} (voters : List RaftNodeId) (g : Group)
    (hmem : id ∈ g.cluster.ids) :
    (joinVoters machine leader voters g).applyAt id = g.applyAt id := by
  induction voters generalizing g with
  | nil => rfl
  | cons voter rest ih =>
    rw [joinVoters]
    split
    case isTrue => exact ih g hmem
    case isFalse habs =>
      have hne : id ≠ voter := fun heq => habs (heq ▸ hmem)
      rw [ih _ ((mem_orderedInsert _).mpr (Or.inr hmem))]
      exact Function.update_of_ne hne _ _

/-- A voter that was not in the view gets the leader's log, and runs what is committed of it. -/
lemma applyAt_joinVoters {leader : RaftNode} (voters : List RaftNodeId) (g : Group)
    (hmem : id ∈ voters) (habs : id ∉ g.cluster.ids) :
    (joinVoters machine leader voters g).applyAt id = ({ newReplica id .follower with
        currentTerm := leader.currentTerm, log := leader.log, commitIndex := leader.commitIndex
        }.applyIfServing machine).toApplyState := by
  induction voters generalizing g with
  | nil => exact absurd hmem not_mem_nil
  | cons voter rest ih =>
    rw [joinVoters]
    by_cases heq : id = voter
    · subst heq
      rw [if_neg habs, applyAt_joinVoters_of_mem rest _ ((mem_orderedInsert _).mpr (Or.inl rfl))]
      exact Function.update_self _ _ _
    · have hrest : id ∈ rest := (mem_cons.mp hmem).resolve_left heq
      split
      case isTrue => exact ih g hrest habs
      case isFalse =>
        apply ih _ hrest
        intro hins
        rcases (mem_orderedInsert _).mp hins with hvoter | hold
        · exact heq hvoter
        · exact habs hold

lemma exact_joint (newVoters : List RaftNodeId) : Exact machine history g (.joint newVoters) := by
  rintro hok hcoherent id ⟨hmem, habs⟩
  have hsort : id ∈ (newVoters.insertionSort (· ≤ ·)).dedup :=
    mem_dedup.mpr ((perm_insertionSort _ _).mem_iff.mpr hmem)
  simp only [CatchUpOp.perform, beginJointConsensus] at hok ⊢
  split at hok
  case isTrue => exact absurd hok (by simp)
  case isFalse hidle =>
    rw [if_neg hidle]
    revert hcoherent habs hok
    simp only [CatchUpOp.inForce, CatchUpOp.Resumes]
    rcases g.ensureLiveLeader with ⟨led, err | ⟨⟩⟩
    · exact fun _ _ hok => absurd hok (by simp)
    · intro hcoherent habs _
      have hfol : Replica.Follows history
          { newReplica id .follower with currentTerm := led.leader.currentTerm } :=
        follows_joining id .voter led.leader.currentTerm
      have hstate := reflects_given_iff hcoherent.leads hfol.ran rfl hcoherent.leads.commit_le
        (Or.inl rfl)
      dsimp only
      rw [if_neg (ne_nil_of_mem hsort)]
      dsimp only [persist]
      rw [applyAt_joinVoters _ _ hsort habs]
      exact hstate

end

end Group

/-- After an operation every replica it gives a log and that serves data has run the committed
history up to its cursor, exactly when what it is given continues what it had run: the paths that
skip the snapshot, or decide on it by the end of the replica's log, leave a hole. -/
theorem caughtUp_iff (machine : Machine) (history : List RaftLogEntry) (g : Group) (op : CatchUpOp)
    (hok : (op.perform machine g).2 = .ok ())
    (hcoherent : (op.inForce g).Coherent machine.image history) :
    (∀ id, op.Touches (op.inForce g) id → ((op.perform machine g).1.applyAt id).Reflects history) ↔
      ∀ id, op.Touches (op.inForce g) id → op.Resumes machine (op.inForce g) id := by
  have hexact : Group.Exact machine history g op := by
    cases op with
    | addNode newId role => exact Group.exact_addNode newId role
    | catchUp target => exact Group.exact_catchUp target
    | liveFollowers => exact Group.exact_live (.inl rfl)
    | liveFollowersBounded maxEntries => exact Group.exact_live (.inr ⟨maxEntries, rfl⟩)
    | joint newVoters => exact Group.exact_joint newVoters
  exact forall_congr' fun id => forall_congr' fun htouches => hexact hok hcoherent id htouches

def flawlessMachine : Machine where
  buildInstalledEngine := fun _ => .ok ()
  backlog := fun _ => 0
  image := fun _ => []
  durable := fun _ _ => true

/-- The compacted leader has run both entries; the two other nodes hold nothing. -/
def compactedGroup : Group where
  cluster := { Cluster.start 0 [1, 2, 3] (fun _ => .voter) openConfig none none with
    nodeAt := fun id =>
      if id = 1 then compactedLeader else newNode id .follower }
  applyAt := fun id =>
    if id = 1 then ⟨{1, 2}, 2, 2, [plainEntry 1, plainEntry 2]⟩ else ⟨∅, 0, 0, []⟩

lemma coherent_compactedGroup :
    compactedGroup.Coherent flawlessMachine.image [plainEntry 1, plainEntry 2] where
  leads := {
    numbered := rfl
    boundary_le := by decide
    commit_le := by decide
    log := ⟨[], rfl, rfl⟩
    snapshot := by
      intro snapshot hsnap
      cases hsnap
      exact ⟨rfl, by decide⟩ }
  follows := by
    intro id hid _
    rcases mem_cons.mp hid with rfl | hid
    · exact ⟨⟨rfl, by decide, by decide, by decide⟩, by decide, by decide⟩
    · have hne : id ≠ 1 := by
        rintro rfl
        exact absurd hid (by decide)
      unfold Group.replica compactedGroup
      simp only [if_neg hne]
      exact ⟨⟨rfl, zero_le _, le_rfl, fun i hi => absurd hi (Finset.notMem_empty i)⟩,
        zero_le _, zero_le _⟩

/-- A node that is added to the group installs the snapshot first. -/
theorem reflects_added :
    (((CatchUpOp.addNode 4 .voter).perform flawlessMachine compactedGroup).1.applyAt 4).Reflects
      [plainEntry 1, plainEntry 2] :=
  (caughtUp_iff flawlessMachine [plainEntry 1, plainEntry 2] compactedGroup (.addNode 4 .voter) rfl
    coherent_compactedGroup).mpr (fun id htouches => by
      exact fun _ _ _ => rfl) 4 ⟨rfl, rfl⟩

/-- A voter that a joint change brings in runs the second entry without the first. -/
theorem not_reflects_joined :
    ((CatchUpOp.joint [1, 4]).perform flawlessMachine compactedGroup).2 = .ok () ∧
      ((CatchUpOp.joint [1, 4]).inForce compactedGroup).Coherent flawlessMachine.image
        [plainEntry 1, plainEntry 2] ∧ ¬ ∀ id,
        (CatchUpOp.joint [1, 4]).Touches ((CatchUpOp.joint [1, 4]).inForce compactedGroup) id →
        (((CatchUpOp.joint [1, 4]).perform flawlessMachine compactedGroup).1.applyAt id).Reflects
          [plainEntry 1, plainEntry 2] := by
  refine ⟨rfl, coherent_compactedGroup, fun hall => ?_⟩
  have hjoined := hall 4 ⟨by decide, by decide⟩
  exact absurd hjoined (by unfold ApplyState.Reflects; decide)

end TemporalStore.Raft
