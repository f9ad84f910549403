import TemporalStore.Raft.Append

/-! # What a replica runs, over whole histories (`raft.rs`, `raft/cluster_replication.rs`) -/

namespace TemporalStore.Raft

open Lib List Replica Nat RaftLogEntry

/-- A request whose entries follow the place it names. -/
def AppendEntriesRequest.Continuous (request : AppendEntriesRequest) : Prop :=
  Numbered index (request.prevLogIndex + 1) request.entries

namespace Replica

/-- The log follows the compaction point without a gap, and nothing lies above the floor that has
not been run. -/
structure Orderly (r : Replica) : Prop where
  log : Numbered index (r.boundary + 1) r.log
  floor : r.boundary ≤ r.maxAppliedIndex
  commit : r.boundary ≤ r.commitIndex
  cursor : r.appliedIndex ≤ r.maxAppliedIndex
  applied : ∀ i ∈ r.applied, i ≤ r.maxAppliedIndex

lemma Orderly.withDepth {r : Replica} {depth : ℕ} (h : r.Orderly) :
    Orderly { r with reorderQueueDepth := depth } :=
  { h with }

lemma nodeLast_eq {node : RaftNode} (h : Numbered index (node.boundary + 1) node.log) :
    nodeLastLogOrSnapshotIndex node = node.boundary + node.log.length := by
  unfold nodeLastLogOrSnapshotIndex
  cases hlast : node.log.getLast? with
  | none =>
    rw [getLast?_eq_none_iff] at hlast
    rw [hlast]
    rfl
  | some entry =>
    have := h.key_getLast hlast
    dsimp only
    omega

lemma le_of_nodeTerm {node : RaftNode} {index term : ℕ}
    (h : Numbered RaftLogEntry.index (node.boundary + 1) node.log)
    (hterm : nodeTermAtLogOrSnapshotIndex node index = some term) :
    index ≤ node.boundary + node.log.length := by
  unfold nodeTermAtLogOrSnapshotIndex at hterm
  split at hterm
  case isTrue hzero => omega
  case isFalse =>
    cases hfind : node.log.find? (·.index == index) with
    | some entry =>
      have hidx := find?_some hfind
      have := h.key_of_mem (mem_of_find?_eq_some hfind)
      rw [beq_iff_eq] at hidx
      omega
    | none =>
      rw [hfind] at hterm
      cases hsnap : node.installedSnapshot with
      | none => rw [hsnap] at hterm; cases hterm
      | some snapshot =>
        rw [hsnap] at hterm
        have hbnd : node.boundary = snapshot.lastIncludedIndex := by
          rw [RaftNode.boundary, hsnap]
          rfl
        by_cases heq : snapshot.lastIncludedIndex = index
        · omega
        · rw [Option.filter_some_neg (by simpa using heq)] at hterm
          cases hterm

lemma prev_le_of_accepted {r : Replica} {config : RaftConfig} {request : AppendEntriesRequest}
    (h : Numbered index (r.boundary + 1) r.log) (hacc : r.refusal config request = none) :
    request.prevLogIndex ≤ r.boundary + r.log.length := by
  by_contra hbeyond
  have hmism : 0 < request.prevLogIndex ∧
      nodeTermAtLogOrSnapshotIndex r.toRaftNode request.prevLogIndex ≠ some request.prevLogTerm :=
    ⟨by omega, fun hterm => hbeyond (le_of_nodeTerm h hterm)⟩
  unfold refusal at hacc
  simp only [if_pos hmism] at hacc
  split_ifs at hacc

section

variable (r : Replica) (entry : RaftLogEntry)

lemma appendEntry_frame : ∃ log applied cursor,
    r.appendEntry entry = { r with log := log, applied := applied, appliedIndex := cursor } := by
  unfold appendEntry
  split
  · exact ⟨_, _, _, rfl⟩
  · split
    · split
      · exact ⟨_, _, _, rfl⟩
      · split <;> exact ⟨_, _, _, rfl⟩
    · exact ⟨_, _, _, rfl⟩

lemma maxAppliedIndex_appendEntry : (r.appendEntry entry).maxAppliedIndex = r.maxAppliedIndex := by
  obtain ⟨_, _, _, heq⟩ := r.appendEntry_frame entry
  rw [heq]

lemma boundary_appendEntry : (r.appendEntry entry).boundary = r.boundary := by
  obtain ⟨_, _, _, heq⟩ := r.appendEntry_frame entry
  rw [heq]
  rfl

end

lemma covered_iff {node : RaftNode} {index : ℕ} (hpos : 0 < index) :
    node.installedSnapshot.any (index ≤ ·.lastIncludedIndex) = true ↔ index ≤ node.boundary := by
  unfold RaftNode.boundary
  cases node.installedSnapshot with
  | none =>
    refine ⟨fun h => absurd h Bool.false_ne_true, fun h => ?_⟩
    exact absurd (hpos.trans_le h) (lt_irrefl 0)
  | some snapshot => exact decide_eq_true_iff

lemma numbered_appendEntry {r : Replica} {entry : RaftLogEntry}
    (h : Numbered index (r.boundary + 1) r.log) (hpos : 0 < entry.index)
    (hnext : entry.index ≤ r.boundary + r.log.length + 1) :
    Numbered index (r.boundary + 1) (r.appendEntry entry).log ∧
      entry.index ≤ r.boundary + (r.appendEntry entry).log.length := by
  unfold appendEntry
  split
  case isTrue hcove =>
    rw [covered_iff hpos] at hcove
    exact ⟨h, by omega⟩
  case isFalse hcove =>
    rw [covered_iff hpos] at hcove
    split
    case h_1 existing hfind =>
      have hidx := find?_some hfind
      have hkey := h.key_of_mem (mem_of_find?_eq_some hfind)
      rw [beq_iff_eq] at hidx
      split
      · exact ⟨h, by omega⟩
      · split
        · exact ⟨h, by omega⟩
        · -- the conflicting suffix goes, the entry takes its place
          have hcut := h.filter_lt entry.index
          have hlen : (r.log.take (entry.index - (r.boundary + 1))).length =
              entry.index - (r.boundary + 1) := by
            rw [length_take]
            omega
          rw [hcut]
          refine ⟨(h.take _).append_one ?_, ?_⟩
          · omega
          · rw [length_append, length_singleton]
            omega
    case h_2 hfind =>
      have hlast : entry.index = r.boundary + 1 + r.log.length := by
        by_contra hne
        obtain ⟨other, hother, heq⟩ := h.exists_key (i := entry.index) (by omega) (by omega)
        have := find?_eq_none.mp hfind other hother
        rw [beq_iff_eq] at this
        exact this heq
      refine ⟨h.append_one hlast, ?_⟩
      rw [length_append]
      omega

lemma Orderly.appendEntry {r : Replica} {entry : RaftLogEntry} (h : r.Orderly)
    (hpos : 0 < entry.index) (hnext : entry.index ≤ r.boundary + r.log.length + 1) :
    (r.appendEntry entry).Orderly := by
  have hcom : (r.appendEntry entry).commitIndex = r.commitIndex := by
    obtain ⟨_, _, _, heq⟩ := r.appendEntry_frame entry
    rw [heq]
  have hfloor := r.maxAppliedIndex_appendEntry entry
  have hbnd := r.boundary_appendEntry entry
  have hstate : (r.appendEntry entry).appliedIndex ≤ r.maxAppliedIndex ∧
      ∀ i ∈ (r.appendEntry entry).applied, i ≤ r.maxAppliedIndex := by
    unfold Replica.appendEntry
    split
    · exact ⟨h.cursor, h.applied⟩
    · split
      · split
        · exact ⟨h.cursor, h.applied⟩
        · split
          · exact ⟨h.cursor, h.applied⟩
          · -- the cursor falls back to the greatest index that is left
            have hkept : ∀ i ∈ r.applied.filter (· < entry.index), i ≤ r.maxAppliedIndex :=
              fun i hi => h.applied i (Finset.mem_filter.mp hi).1
            exact ⟨Finset.sup_le hkept, hkept⟩
      · exact ⟨h.cursor, h.applied⟩
  constructor
  · rw [hbnd]
    exact (numbered_appendEntry h.log hpos hnext).1
  · rw [hbnd, hfloor]
    exact h.floor
  · rw [hbnd, hcom]
    exact h.commit
  · rw [hfloor]
    exact hstate.1
  · rw [hfloor]
    exact hstate.2

/-- What appends that leave no gap keep, entries that start no later than the log ends keep. -/
lemma foldl_appendEntry_induction {P : Replica → Prop}
    (hlog : ∀ {r}, P r → Numbered index (r.boundary + 1) r.log)
    (hstep : ∀ {r entry}, P r → 0 < entry.index → entry.index ≤ r.boundary + r.log.length + 1 →
      P (r.appendEntry entry)) {entries : List RaftLogEntry} {r : Replica} {prev : ℕ} (h : P r)
    (hents : Numbered index (prev + 1) entries)
    (hprev : prev ≤ r.boundary + r.log.length) : P (entries.foldl appendEntry r) ∧
      (entries.foldl appendEntry r).boundary = r.boundary ∧
      prev + entries.length ≤ r.boundary + (entries.foldl appendEntry r).log.length := by
  induction entries generalizing r prev with
  | nil => exact ⟨h, rfl, hprev⟩
  | cons entry rest ih =>
    obtain ⟨hidx, hrest⟩ := hents.tail
    have hpos : 0 < entry.index := by omega
    have hnext : entry.index ≤ r.boundary + r.log.length + 1 := by omega
    have hreach := (numbered_appendEntry (hlog h) hpos hnext).2
    have hbnd := r.boundary_appendEntry entry
    obtain ⟨hkept, hsame, hlast⟩ := ih (hstep h hpos hnext) hrest (by omega)
    rw [foldl_cons, length_cons]
    exact ⟨hkept, hsame.trans hbnd, by omega⟩

/-- The applied set of a snapshot that a peer sent. -/
def installedAppliedSet (snapshot : RaftSnapshot) : Finset ℕ :=
  if snapshot.stateImage.isSome then Finset.Icc 1 snapshot.lastIncludedIndex
  else (snapshot.entries.map (·.index)).toFinset

/-- `install_snapshot`: a snapshot that a peer sent, refused below the commit index. -/
def installSnapshot (image : Image) (snapshot : RaftSnapshot) (r : Replica) : Option Replica :=
  if snapshot.lastIncludedIndex < r.commitIndex then none
  else some {
    toRaftNode := Cluster.publishSnapshot snapshot r.toRaftNode
    engine := rebuildSnapshotEngine image snapshot
    applied := installedAppliedSet snapshot
    appliedIndex := snapshot.lastIncludedIndex
    maxAppliedIndex := max r.maxAppliedIndex snapshot.lastIncludedIndex }

/-- `node_accepts_snapshot`, in the process of the node. -/
def acceptsSnapshot (snapshotIndex : ℕ) (r : Replica) : Bool :=
  r.alive && decide (r.commitIndex ≤ snapshotIndex) && decide (r.appliedIndex ≤ snapshotIndex)

/-- The snapshot a follower takes of its own state, once it has applied past the last one. -/
def ownSnapshot (shardId : ShardId) (bytes : List UInt8) (r : Replica) : Option RaftSnapshot :=
  if r.appliedIndex ≤ r.boundary then none
  else some {
    shardId := shardId
    lastIncludedTerm :=
      (nodeTermAtLogOrSnapshotIndex r.toRaftNode r.appliedIndex).getD r.currentTerm
    lastIncludedIndex := r.appliedIndex
    entries := []
    stateImage := some bytes }

lemma numbered_above {r : Replica} {index : ℕ} (h : r.Orderly) (hge : r.boundary ≤ index) :
    Numbered RaftLogEntry.index (index + 1) (r.log.filter (index < ·.index)) := by
  have hstart : r.boundary + 1 + (index + 1 - (r.boundary + 1)) = index + 1 := by omega
  have hdrop := h.log.drop (index + 1 - (r.boundary + 1))
  rw [hstart, ← h.log.filter] at hdrop
  exact hdrop

lemma Orderly.installSnapshot {image : Image} {snapshot : RaftSnapshot}
    {r r' : Replica} (h : r.Orderly)
    (hcov : ∀ entry ∈ snapshot.entries, entry.index ≤ snapshot.lastIncludedIndex)
    (hsome : r.installSnapshot image snapshot = some r') : r'.Orderly := by
  obtain ⟨hge, ⟨⟩⟩ := Option.ite_none_left_eq_some.mp hsome
  have habove : r.boundary ≤ snapshot.lastIncludedIndex := h.commit.trans (not_lt.mp hge)
  constructor
  · -- the tail is kept only behind the entry of the boundary itself
    unfold Cluster.publishSnapshot
    dsimp only [RaftNode.boundary]
    split
    case isFalse => exact numbered_nil
    case isTrue => exact numbered_above h habove
  · exact le_max_right _ _
  · exact le_rfl
  · exact le_max_right _ _
  · intro i hi
    refine le_trans ?_ (le_max_right _ _)
    unfold installedAppliedSet at hi
    split at hi
    · exact (Finset.mem_Icc.mp hi).2
    · obtain ⟨entry, hent, rfl⟩ := mem_map.mp (mem_toFinset.mp hi)
      exact hcov entry hent

lemma Orderly.publishSnapshotState {snapshot : RaftSnapshot} {engine : List RaftLogEntry}
    {r : Replica} (h : r.Orderly) (hge : r.boundary ≤ snapshot.lastIncludedIndex)
    (hcov : ∀ entry ∈ snapshot.entries, entry.index ≤ snapshot.lastIncludedIndex) :
    (r.publishSnapshotState snapshot engine).Orderly := by
  constructor
  · exact numbered_above h hge
  · exact le_max_right _ _
  · exact le_max_right _ _
  · exact le_max_right _ _
  · intro i hi
    obtain ⟨entry, hent, rfl⟩ := mem_map.mp (mem_toFinset.mp hi)
    exact (hcov entry hent).trans (le_max_right _ _)

end Replica

/-- One pass with its commit index and the outcome of each run, or a snapshot taken over. -/
inductive TraceItem where
  | pass (commit : ℕ) (runs : List (RaftLogEntry × Bool))
  | restored (index : ℕ)

/-- The index reached storage, or came with a snapshot. -/
def TraceItem.Covers (i : ℕ) : TraceItem → Prop
  | pass _ runs => ∃ run ∈ runs, run.1.index = i ∧ run.2 = true
  | restored index => i ≤ index

def Done (trace : List TraceItem) (i : ℕ) : Prop := ∃ item ∈ trace, item.Covers i

/-- Every pass runs consecutive committed indexes. It starts where everything below is done, and
runs nothing that is done. -/
def Proper (trace : List TraceItem) : Prop :=
  ∀ before commit runs after, trace = before ++ .pass commit runs :: after →
    ∃ k, runs.map (·.1.index) = range' (k + 1) runs.length ∧
      (∀ i, 0 < i → i ≤ k → Done before i) ∧
      ∀ run ∈ runs, ¬ Done before run.1.index ∧ run.1.index ≤ commit

structure ApplyRun where
  replica : Replica
  trace : List TraceItem

/-- A snapshot as a leader builds it: its entries do not go past the index it stands for. -/
structure BuiltSnapshot extends RaftSnapshot where
  covers : ∀ entry ∈ entries, entry.index ≤ lastIncludedIndex

inductive ApplyEvent where
  | append (config : RaftConfig) (request : AppendEntriesRequest) (durable : ℕ → Bool)
  | propose (command : List UInt8)
  | advance (candidate : ℕ) (durable : ℕ → Bool)
  | install (snapshot : BuiltSnapshot)
  | routine (snapshot : BuiltSnapshot)
  | compact (shardId : ShardId) (bytes : List UInt8)

/-- The pass that left the replica, as the trace keeps it. -/
def passOf (durable : ℕ → Bool) (passed : Replica × List RaftLogEntry) : TraceItem :=
  .pass passed.1.commitIndex (passed.2.map fun entry => (entry, durable entry.index))

namespace ApplyRun

def start (id : RaftNodeId) (role : RaftReplicaRole) : ApplyRun :=
  ⟨{ newReplica id .follower with replicaRole := role }, []⟩

def step (image : Image) (s : ApplyRun) : ApplyEvent → ApplyRun
  | .append config request durable =>
    let passed := (s.replica.receiveAppendEntries config durable request).1
    ⟨passed.1, s.trace ++ [passOf durable passed]⟩
  | .propose command =>
    let entry : RaftLogEntry :=
      ⟨nodeLastLogOrSnapshotIndex s.replica.toRaftNode + 1, s.replica.currentTerm, command⟩
    { s with replica := s.replica.appendEntry entry }
  | .advance candidate durable =>
    if s.replica.commitIndex < candidate then
      let passed := { s.replica with commitIndex := candidate }.applyServing durable
      ⟨passed.1, s.trace ++ [passOf durable passed]⟩
    else s
  | .install snapshot =>
    match s.replica.installSnapshot image snapshot.toRaftSnapshot with
    | none => s
    | some replica => ⟨replica, s.trace ++ [.restored snapshot.lastIncludedIndex]⟩
  | .routine snapshot =>
    if s.replica.acceptsSnapshot snapshot.lastIncludedIndex then
      ⟨s.replica.publishSnapshotState snapshot.toRaftSnapshot
          (rebuildSnapshotEngine image snapshot.toRaftSnapshot),
        s.trace ++ [.restored snapshot.lastIncludedIndex]⟩
    else s
  | .compact shardId bytes =>
    match s.replica.ownSnapshot shardId bytes with
    | none => s
    | some snapshot =>
      ⟨s.replica.publishSnapshotState snapshot (rebuildSnapshotEngine image snapshot),
        s.trace ++ [.restored snapshot.lastIncludedIndex]⟩

def run (image : Image) (events : List ApplyEvent) (s : ApplyRun) : ApplyRun :=
  events.foldl (step image) s

/-- The outcomes of a pass: once a run does not reach storage, no later one does. -/
def Ordered (durable : ℕ → Bool) (floor : ℕ) : Prop :=
  ∀ i j, floor < i → i ≤ j → durable j → durable i

/-- A request names the place its entries follow, and a pass fails as a whole from some run on. -/
def CarefulStep (s : ApplyRun) : ApplyEvent → Prop
  | .append _ request durable => request.Continuous ∧ Ordered durable s.replica.maxAppliedIndex
  | .advance _ durable => Ordered durable s.replica.maxAppliedIndex
  | _ => True

def Careful (image : Image) : List ApplyEvent → ApplyRun → Prop
  | [], _ => True
  | event :: rest, s => CarefulStep s event ∧ Careful image rest (step image s event)

/-- The indexes that are done are those up to the floor. -/
structure Sound (s : ApplyRun) : Prop where
  orderly : s.replica.Orderly
  done : ∀ i, 0 < i → (Done s.trace i ↔ i ≤ s.replica.maxAppliedIndex)
  proper : Proper s.trace

lemma done_concat {trace : List TraceItem} {item : TraceItem} {i : ℕ} :
    Done (trace ++ [item]) i ↔ Done trace i ∨ item.Covers i := by
  simp only [Done, mem_append, mem_singleton, or_and_right, exists_or, exists_eq_left]

lemma proper_concat {trace : List TraceItem} {item : TraceItem} (h : Proper trace)
    (hitem : ∀ commit runs, item = .pass commit runs →
      ∃ k, runs.map (·.1.index) = range' (k + 1) runs.length ∧ (∀ i, 0 < i → i ≤ k → Done trace i) ∧
        ∀ run ∈ runs, ¬ Done trace run.1.index ∧ run.1.index ≤ commit) :
    Proper (trace ++ [item]) := by
  intro before commit runs after heq
  rcases eq_nil_or_concat after with rfl | ⟨rest, last, rfl⟩
  · obtain ⟨rfl, hlast⟩ := append_inj' heq rfl
    exact hitem commit runs (singleton_inj.mp hlast)
  · rw [concat_eq_append, ← cons_append, ← append_assoc] at heq
    obtain ⟨rfl, -⟩ := append_inj' heq rfl
    exact h before commit runs rest rfl

section

variable {r : Replica} {durable : ℕ → Bool}

lemma maxAppliedIndex_applyCommitted (durable : ℕ → Bool) (h : r.Orderly) :
    (r.applyCommitted durable).1.maxAppliedIndex =
      r.maxAppliedIndex + (r.reached durable r.boundary).length := by
  rw [applyCommitted_fst h.log h.cursor h.applied]
  dsimp only
  rw [max_eq_left h.floor]
  split <;> omega

lemma orderly_applyCommitted (h : r.Orderly) : (r.applyCommitted durable).1.Orderly := by
  have hnode := toRaftNode_applyCommitted durable r
  have hfloor := maxAppliedIndex_applyCommitted durable h
  have hbnd : (r.applyCommitted durable).1.boundary = r.boundary := by rw [hnode]
  have hlog : (r.applyCommitted durable).1.log = r.log := by rw [hnode]
  have hcom : (r.applyCommitted durable).1.commitIndex = r.commitIndex := by rw [hnode]
  constructor
  · rw [hbnd, hlog]
    exact h.log
  · rw [hbnd, hfloor]
    exact h.floor.trans (le_add_right _ _)
  · rw [hbnd, hcom]
    exact h.commit
  · rw [hfloor, applyCommitted_fst h.log h.cursor h.applied]
    rw [max_eq_left h.floor]
    split
    · exact (cursorBelow_le h.cursor).trans (le_add_right _ _)
    · exact le_rfl
  · -- what was collected and not withdrawn lies below the new floor
    rw [hfloor, applyCommitted_fst h.log h.cursor h.applied]
    intro i hi
    obtain ⟨hcoll, hkept⟩ := Finset.mem_sdiff.mp hi
    rcases Finset.mem_union.mp hcoll with hold | hnew
    · exact (h.applied i hold).trans (le_add_right _ _)
    · obtain ⟨entry, hent, rfl⟩ := mem_map.mp (mem_toFinset.mp hnew)
      by_cases hle : entry.index ≤ r.maxAppliedIndex
      · exact hle.trans (le_add_right _ _)
      · have hdue : entry ∈ r.due r.boundary := by
          rw [← filter_pending h.log h.cursor]
          exact mem_filter.mpr ⟨hent, decide_eq_true (Nat.lt_of_not_le hle)⟩
        rw [← take_append_drop (r.reached durable r.boundary).length (r.due r.boundary)] at hdue
        rcases mem_append.mp hdue with hreached | hwith
        · have hkey := ((numbered_due h.log).take _).key_of_mem hreached
          have hlen := length_take_le (r.reached durable r.boundary).length (r.due r.boundary)
          have hfloor := h.floor
          omega
        · exact absurd (mem_toFinset.mpr (mem_map_of_mem hwith)) hkept

lemma covers_pass_iff (h : r.Orderly) (hord : Ordered durable r.maxAppliedIndex) {i : ℕ} :
    (∃ entry ∈ r.due r.boundary, entry.index = i ∧ durable entry.index = true) ↔
      r.maxAppliedIndex < i ∧ i ≤ r.maxAppliedIndex + (r.reached durable r.boundary).length := by
  have hnum := numbered_due h.log
  rw [max_eq_left h.floor] at hnum
  have htake : r.reached durable r.boundary =
      (r.due r.boundary).take (r.reached durable r.boundary).length :=
    prefix_iff_eq_take.mp (isPrefix_reached durable r.boundary r)
  have hreached : Numbered index (r.maxAppliedIndex + 1) (r.reached durable r.boundary) := by
    rw [htake]
    exact hnum.take _
  constructor
  · rintro ⟨entry, hent, rfl, hdur⟩
    have hmem : entry ∈ r.reached durable r.boundary := hnum.mem_takeWhile hord hent hdur
    have := hreached.key_of_mem hmem
    omega
  · rintro ⟨hlow, hhigh⟩
    obtain ⟨entry, hent, rfl⟩ := hreached.exists_key (i := i) (by omega) (by omega)
    refine ⟨entry, (isPrefix_reached durable r.boundary r).subset hent, rfl, ?_⟩
    have hdur := mem_takeWhile_imp hent
    exact hdur

lemma sound_idle {trace : List TraceItem} {commit : ℕ} (h : r.Orderly)
    (hdone : ∀ i, 0 < i → (Done trace i ↔ i ≤ r.maxAppliedIndex)) (hproper : Proper trace) :
    Sound ⟨r, trace ++ [.pass commit []]⟩ := by
  refine ⟨h, fun i hi => ?_, proper_concat hproper ?_⟩
  · rw [done_concat, hdone i hi]
    exact or_iff_left (fun ⟨run, hrun, _⟩ => not_mem_nil hrun)
  · rintro commit runs heq
    cases heq
    exact ⟨0, rfl, fun i hi hle => absurd hi (not_lt.mpr hle),
      fun run hrun => absurd hrun not_mem_nil⟩

lemma sound_pass {trace : List TraceItem} (h : r.Orderly)
    (hdone : ∀ i, 0 < i → (Done trace i ↔ i ≤ r.maxAppliedIndex)) (hproper : Proper trace)
    (hord : Ordered durable r.maxAppliedIndex) :
    Sound ⟨(r.applyServing durable).1, trace ++ [passOf durable (r.applyServing durable)]⟩ := by
  unfold applyServing
  split
  case isFalse => exact sound_idle h hdone hproper
  case isTrue =>
    have hbatch : (r.applyCommitted durable).2 = r.due r.boundary :=
      applyCommitted_snd h.log h.cursor h.applied
    have hnum := numbered_due h.log
    rw [max_eq_left h.floor] at hnum
    have hcom : (r.applyCommitted durable).1.commitIndex = r.commitIndex := by
      rw [toRaftNode_applyCommitted]
    have hruns : passOf durable (r.applyCommitted durable) = .pass r.commitIndex
        ((r.due r.boundary).map fun entry => (entry, durable entry.index)) := by
      unfold passOf
      rw [hbatch, hcom]
    refine ⟨orderly_applyCommitted h, fun i hi => ?_, proper_concat hproper ?_⟩
    · have hcov : (passOf durable (r.applyCommitted durable)).Covers i ↔
          ∃ entry ∈ r.due r.boundary, entry.index = i ∧ durable entry.index = true := by
        rw [hruns]
        simp only [TraceItem.Covers, mem_map, exists_exists_and_eq_and]
      rw [done_concat, hdone i hi, hcov, covers_pass_iff h hord,
        maxAppliedIndex_applyCommitted durable h]
      omega
    · rintro commit runs heq
      rw [hruns] at heq
      cases heq
      refine ⟨r.maxAppliedIndex, ?_, fun i hi hle => (hdone i hi).mpr hle, ?_⟩
      · rw [map_map, length_map]
        exact hnum
      · intro run hrun
        obtain ⟨entry, hent, rfl⟩ := mem_map.mp hrun
        have hkey := hnum.key_of_mem hent
        refine ⟨fun hdoneBefore => ?_, ?_⟩
        · have := (hdone entry.index (by omega)).mp hdoneBefore
          omega
        · have hlen : (r.due r.boundary).length ≤ r.commitIndex - r.maxAppliedIndex := by
            unfold due
            rw [length_drop, length_take]
            omega
          change entry.index ≤ r.commitIndex
          omega

end

section

variable {image : Image} {s : ApplyRun}

lemma sound_restored {r' : Replica} {index : ℕ} (h : s.Sound) (horde : r'.Orderly)
    (hfloor : r'.maxAppliedIndex = max s.replica.maxAppliedIndex index) :
    Sound ⟨r', s.trace ++ [.restored index]⟩ := by
  refine ⟨horde, fun i hi => ?_, proper_concat h.proper ?_⟩
  · rw [done_concat, h.done i hi, hfloor]
    exact le_max_iff.symm
  · intro commit runs heq
    cases heq

lemma sound_append {config : RaftConfig} {request : AppendEntriesRequest} {durable : ℕ → Bool}
    (h : s.Sound) (hcare : CarefulStep s (.append config request durable)) :
    (s.step image (.append config request durable)).Sound := by
  obtain ⟨hcont, hord⟩ := hcare
  rw [step]
  unfold receiveAppendEntries
  cases href : s.replica.refusal config request with
  | some reason =>
    exact sound_idle h.orderly.withDepth h.done h.proper
  | none =>
    have hprev := prev_le_of_accepted h.orderly.log href
    have hext : (s.replica.extend request).Orderly ∧
        (s.replica.extend request).maxAppliedIndex = s.replica.maxAppliedIndex := by
      have hbase : Replica.Orderly { s.replica with
          votedFor := if s.replica.currentTerm < request.term then none else s.replica.votedFor
          currentTerm := request.term
          role := .follower } :=
        ⟨h.orderly.log, h.orderly.floor, h.orderly.commit, h.orderly.cursor, h.orderly.applied⟩
      obtain ⟨⟨hfolded, hfloor⟩, -⟩ := foldl_appendEntry_induction
        (P := fun r => r.Orderly ∧ r.maxAppliedIndex = s.replica.maxAppliedIndex) (·.1.log)
        (fun {r entry} h hpos hnext => ⟨h.1.appendEntry hpos hnext,
          (r.maxAppliedIndex_appendEntry entry).trans h.2⟩) ⟨hbase, rfl⟩ hcont hprev
      refine ⟨⟨hfolded.log, hfolded.floor, ?_, hfolded.cursor, hfolded.applied⟩, hfloor⟩
      exact hfolded.commit.trans (le_max_left _ _)
    obtain ⟨horde, hfloor⟩ := hext
    have hpass := sound_pass horde (fun i hi => hfloor ▸ h.done i hi) h.proper (hfloor ▸ hord)
    exact ⟨hpass.orderly.withDepth, hpass.done, hpass.proper⟩

lemma sound_propose {command : List UInt8} (h : s.Sound) :
    (s.step image (.propose command)).Sound := by
  have hlast := nodeLast_eq h.orderly.log
  refine ⟨h.orderly.appendEntry (succ_pos _) ?_, fun i hi => ?_, h.proper⟩
  · rw [hlast]
  · exact (h.done i hi).trans (by rw [step, maxAppliedIndex_appendEntry])

lemma sound_advance {candidate : ℕ} {durable : ℕ → Bool} (h : s.Sound)
    (hord : Ordered durable s.replica.maxAppliedIndex) :
    (s.step image (.advance candidate durable)).Sound := by
  rw [step]
  split
  case isFalse => exact h
  case isTrue hlt =>
    have horde : Replica.Orderly { s.replica with commitIndex := candidate } :=
      ⟨h.orderly.log, h.orderly.floor, h.orderly.commit.trans hlt.le, h.orderly.cursor,
        h.orderly.applied⟩
    exact sound_pass horde h.done h.proper hord

lemma sound_install {snapshot : BuiltSnapshot} (h : s.Sound) :
    (s.step image (.install snapshot)).Sound := by
  rw [step]
  split
  case h_1 => exact h
  case h_2 replica hsome =>
    apply sound_restored h (h.orderly.installSnapshot snapshot.covers hsome)
    unfold installSnapshot at hsome
    split at hsome
    · cases hsome
    · cases hsome
      rfl

lemma sound_step {event : ApplyEvent} (h : s.Sound) (hcare : CarefulStep s event) :
    (s.step image event).Sound := by
  cases event with
  | append config request durable => exact sound_append h hcare
  | propose command => exact sound_propose h
  | advance candidate durable => exact sound_advance h hcare
  | install snapshot => exact sound_install h
  | routine snapshot =>
    rw [step]
    split
    case isFalse => exact h
    case isTrue haccepts =>
      unfold acceptsSnapshot at haccepts
      rw [Bool.and_eq_true, Bool.and_eq_true] at haccepts
      have hcom : s.replica.commitIndex ≤ snapshot.lastIncludedIndex :=
        of_decide_eq_true haccepts.1.2
      exact sound_restored h (h.orderly.publishSnapshotState (h.orderly.commit.trans hcom)
        snapshot.covers) rfl
  | compact shardId bytes =>
    rw [step]
    split
    case h_1 => exact h
    case h_2 snapshot hsome =>
      obtain ⟨hgt, ⟨⟩⟩ := Option.ite_none_left_eq_some.mp hsome
      refine sound_restored h (h.orderly.publishSnapshotState (Nat.lt_of_not_le hgt).le ?_) rfl
      exact fun entry hent => absurd hent not_mem_nil

lemma sound_start (id : RaftNodeId) (role : RaftReplicaRole) : (start id role).Sound where
  orderly := ⟨numbered_nil, le_rfl, le_rfl, le_rfl, fun i hi => absurd hi (Finset.notMem_empty i)⟩
  done := fun i hi => ⟨fun ⟨item, hitem, _⟩ => absurd hitem not_mem_nil,
    fun hle => absurd hi (not_lt.mpr hle)⟩
  proper := fun before commit runs after heq => absurd heq.symm (by simp [start])

lemma sound_run {events : List ApplyEvent} (h : s.Sound) (hcare : Careful image events s) :
    (s.run image events).Sound := by
  induction events generalizing s with
  | nil => exact h
  | cons event rest ih => exact ih (sound_step h hcare.1) hcare.2

end

/-- Whatever requests, proposals, commit advances and snapshots reach a node: if each request's
entries follow the place it names and no run reaches storage behind one that does not, the node runs
the committed indexes in order, skips none and repeats none that is done, and its cursor has passed
only what is done. -/
theorem proper_run (image : Image) (id : RaftNodeId)
    (role : RaftReplicaRole) (events : List ApplyEvent)
    (hcareful : Careful image events (start id role)) :
    Proper ((start id role).run image events).trace ∧
      ∀ i, 0 < i → i ≤ ((start id role).run image events).replica.appliedIndex →
        Done ((start id role).run image events).trace i := by
  have hsound := sound_run (sound_start id role) hcareful
  exact ⟨hsound.proper, fun i hi hle => (hsound.done i hi).mpr (hle.trans hsound.orderly.cursor)⟩

/-- Two entries of which the second does not reach storage at first. It is run again with the next
request, and the node then compacts its log. -/
def retriedRun : List ApplyEvent :=
  [.append openConfig ⟨0, 1, 1, 2, 0, 0, [plainEntry 1, plainEntry 2], 2⟩ (fun i => decide (i ≤ 1)),
    .append openConfig ⟨0, 1, 1, 2, 2, 1, [], 2⟩ (fun _ => true),
    .compact 0 []]

theorem proper_retriedRun : Proper ((start 2 .voter).run (fun _ => []) retriedRun).trace ∧
      ∀ i, 0 < i → i ≤ 2 → Done ((start 2 .voter).run (fun _ => []) retriedRun).trace i :=
  proper_run (fun _ => []) 2 .voter retriedRun
    ⟨⟨rfl, fun _ _ _ hle hj => decide_eq_true (hle.trans (of_decide_eq_true hj))⟩,
      ⟨rfl, fun _ _ _ _ _ => rfl⟩, trivial, trivial⟩

/-- What the compacted leader sends to a node from which it expects the first entry. -/
def unnamedRequest : AppendEntriesRequest := ⟨0, 1, 1, 2, 0, 0, [plainEntry 2], 2⟩

/-- The leader cannot name the place before its second entry. The new node accepts and runs it
without the first. -/
theorem not_proper_unnamedRequest :
    (buildAppendEntriesRequest ⟨8, 1024, 8⟩ 0 compactedLeader (newNode 2 .follower)
        ⟨0, 1, 0, 0⟩).2 = .ok unnamedRequest ∧ ¬ Proper ((start 2 .voter).run (fun _ => [])
        [.append openConfig unnamedRequest (fun _ => true)]).trace := by
  refine ⟨rfl, fun hproper => ?_⟩
  obtain ⟨k, hindexes, hdone, -⟩ := hproper [] 2 [(plainEntry 2, true)] [] rfl
  have hk : 2 = k + 1 := head_eq_of_cons_eq hindexes
  obtain ⟨item, hitem, -⟩ := hdone 1 one_pos (by omega)
  exact not_mem_nil hitem

end ApplyRun

end TemporalStore.Raft
