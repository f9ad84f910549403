import Mathlib.Order.Lattice.Nat
import TemporalStore.Lib.Numbered
import TemporalStore.Raft.Handlers

/-! # Applying committed entries (`raft.rs`) -/

namespace TemporalStore.Raft

open Lib List RaftLogEntry

structure ApplyState where
  applied : Finset ℕ
  appliedIndex : ℕ
  maxAppliedIndex : ℕ
  engine : List RaftLogEntry
  deriving DecidableEq

structure Replica extends RaftNode, ApplyState
  deriving DecidableEq

def newReplica (id : RaftNodeId) (role : RaftRole) : Replica :=
  { newNode id role with applied := ∅, appliedIndex := 0, maxAppliedIndex := 0, engine := [] }

/-- The index below which the node's log is compacted. -/
def RaftNode.boundary (node : RaftNode) : ℕ :=
  (node.installedSnapshot.map (·.lastIncludedIndex)).getD 0

namespace Replica

/-- `append_entry`, with what it does to the apply state. -/
def appendEntry (r : Replica) (entry : RaftLogEntry) : Replica :=
  if r.installedSnapshot.any (entry.index ≤ ·.lastIncludedIndex) then r
  else match r.log.find? (·.index == entry.index) with
    | some existing =>
      if existing.term = entry.term then r
      else if entry.index ≤ r.commitIndex then r
      else
        let applied := r.applied.filter (· < entry.index)
        { r with
          log := r.log.filter (·.index < entry.index) ++ [entry]
          applied := applied
          appliedIndex := applied.sup id }
    | none => { r with log := r.log ++ [entry] }

def pending (r : Replica) : List RaftLogEntry :=
  (r.log.dropWhile (·.index < r.appliedIndex + 1)).takeWhile (·.index ≤ r.commitIndex)

/-- The loop that collects a batch. What lies at or below the floor only moves the cursor. -/
def collect : List RaftLogEntry → Replica → Replica × List RaftLogEntry
  | [], r => (r, [])
  | entry :: rest, r =>
    if entry.index ≤ r.maxAppliedIndex then
      collect rest { r with
        appliedIndex := max r.appliedIndex entry.index
        applied := insert entry.index r.applied }
    else if entry.index ∈ r.applied then collect rest r
    else
      let (r, batch) := collect rest { r with applied := insert entry.index r.applied }
      (r, entry :: batch)

def advance (r : Replica) (entry : RaftLogEntry) : Replica :=
  { r with
    appliedIndex := entry.index
    maxAppliedIndex := max r.maxAppliedIndex entry.index }

/-- `apply_committed`, with the batch it ran. `durable` says of which indexes the run reaches
storage; the cursor moves over the entries before the first that does not. -/
def applyCommitted (durable : ℕ → Bool) (r : Replica) : Replica × List RaftLogEntry :=
  let (collected, batch) := collect r.pending r
  let reached := batch.takeWhile (durable ·.index)
  let withdrawn := (batch.drop reached.length).map (·.index)
  (reached.foldl advance { collected with
      applied := collected.applied \ withdrawn.toFinset
      engine := collected.engine ++ batch },
    batch)

/-- What the image of a state stands for. It is a parameter. -/
abbrev Image := List UInt8 → List RaftLogEntry

/-- The engine a snapshot gives. -/
def rebuildSnapshotEngine (image : Image) (snapshot : RaftSnapshot) : List RaftLogEntry :=
  match snapshot.stateImage with
  | some bytes => image bytes
  | none => snapshot.entries

def publishSnapshotState (snapshot : RaftSnapshot) (engine : List RaftLogEntry) (r : Replica) :
    Replica :=
  { r with
    engine := engine
    votedFor := if r.currentTerm < snapshot.lastIncludedTerm then none else r.votedFor
    currentTerm := max r.currentTerm snapshot.lastIncludedTerm
    commitIndex := max r.commitIndex snapshot.lastIncludedIndex
    log := r.log.filter (snapshot.lastIncludedIndex < ·.index)
    applied := (snapshot.entries.map (·.index)).toFinset
    appliedIndex := snapshot.lastIncludedIndex
    maxAppliedIndex := max r.maxAppliedIndex snapshot.lastIncludedIndex
    installedSnapshot := some snapshot }

def installSnapshotStateForRole (image : Image) (snapshot : RaftSnapshot) (r : Replica) : Replica :=
  if r.replicaRole.canServeData then
    publishSnapshotState snapshot (rebuildSnapshotEngine image snapshot) r
  else
    { r with
      currentTerm := max r.currentTerm snapshot.lastIncludedTerm
      commitIndex := max r.commitIndex snapshot.lastIncludedIndex
      log := r.log.filter (snapshot.lastIncludedIndex < ·.index)
      applied := ∅
      appliedIndex := snapshot.lastIncludedIndex
      maxAppliedIndex := max r.maxAppliedIndex snapshot.lastIncludedIndex
      installedSnapshot := some snapshot }

lemma toRaftNode_appendEntry (r : Replica) (entry : RaftLogEntry) :
    (r.appendEntry entry).toRaftNode = Cluster.appendEntry r.toRaftNode entry := by
  unfold appendEntry Cluster.appendEntry
  split
  · rfl
  · cases r.log.find? (·.index == entry.index) with
    | none => rfl
    | some existing =>
      dsimp only
      split
      · rfl
      · split <;> rfl

lemma toRaftNode_foldl_appendEntry (entries : List RaftLogEntry) (r : Replica) :
    (entries.foldl appendEntry r).toRaftNode = entries.foldl Cluster.appendEntry r.toRaftNode := by
  induction entries generalizing r with
  | nil => rfl
  | cons entry rest ih =>
    rw [foldl_cons, foldl_cons, ih, toRaftNode_appendEntry]

lemma toRaftNode_collect (l : List RaftLogEntry) (r : Replica) :
    (collect l r).1.toRaftNode = r.toRaftNode := by
  induction l generalizing r with
  | nil => rfl
  | cons entry rest ih =>
    unfold collect
    split
    · exact ih _
    · split <;> exact ih _

lemma toRaftNode_foldl_advance (l : List RaftLogEntry) (r : Replica) :
    (l.foldl advance r).toRaftNode = r.toRaftNode := by
  induction l generalizing r with
  | nil => rfl
  | cons entry rest ih => exact ih (r.advance entry)

lemma toRaftNode_applyCommitted (durable : ℕ → Bool) (r : Replica) :
    (r.applyCommitted durable).1.toRaftNode = r.toRaftNode := by
  exact (toRaftNode_foldl_advance _ _).trans (toRaftNode_collect _ _)

lemma collect_eq (l : List RaftLogEntry) (r : Replica) (hnodup : (l.map (·.index)).Nodup)
    (hfresh : ∀ entry ∈ l, r.maxAppliedIndex < entry.index → entry.index ∉ r.applied) :
    collect l r = ({ r with
        appliedIndex := ((l.filter (·.index ≤ r.maxAppliedIndex)).map (·.index)).foldl max
          r.appliedIndex
        applied := r.applied ∪ (l.map (·.index)).toFinset },
      l.filter (r.maxAppliedIndex < ·.index)) := by
  induction l generalizing r with
  | nil => simp [collect]
  | cons entry rest ih =>
    rw [map_cons, nodup_cons] at hnodup
    have hrest : ∀ other ∈ rest, r.maxAppliedIndex < other.index →
        other.index ∉ insert entry.index r.applied := by
      intro other hother hlt hmem
      rcases Finset.mem_insert.mp hmem with heq | hmem
      · exact hnodup.1 (heq ▸ mem_map_of_mem hother)
      · exact hfresh other (mem_cons_of_mem _ hother) hlt hmem
    have hset : insert entry.index r.applied ∪ (rest.map (·.index)).toFinset =
        r.applied ∪ ((entry :: rest).map (·.index)).toFinset := by
      ext i
      simp only [Finset.mem_union, Finset.mem_insert, map_cons, toFinset_cons]
      tauto
    by_cases hle : entry.index ≤ r.maxAppliedIndex
    · have hge : ¬ r.maxAppliedIndex < entry.index := Nat.not_lt.mpr hle
      rw [collect, if_pos hle, ih _ hnodup.2 hrest]
      simp only [hset, filter_cons, decide_eq_true hle, decide_eq_false hge, if_true,
        Bool.false_eq_true, if_false, map_cons, foldl_cons]
    · have hlt : r.maxAppliedIndex < entry.index := Nat.lt_of_not_le hle
      rw [collect, if_neg hle, if_neg (hfresh entry mem_cons_self hlt), ih _ hnodup.2 hrest]
      simp only [hset, filter_cons, decide_eq_false hle, decide_eq_true hlt, if_true,
        Bool.false_eq_true, if_false]

lemma foldl_advance {start : ℕ} {l : List RaftLogEntry} {r : Replica}
    (h : Numbered index start l) (hlt : r.maxAppliedIndex < start) : l.foldl advance r = { r with
      appliedIndex := if l.length = 0 then r.appliedIndex else start + l.length - 1
      maxAppliedIndex := if l.length = 0 then r.maxAppliedIndex else start + l.length - 1 } := by
  induction l generalizing r start with
  | nil => rfl
  | cons entry rest ih =>
    obtain ⟨hent, htail⟩ := h.tail
    have hmax : max r.maxAppliedIndex entry.index = start := by omega
    have hlast : (if rest.length = 0 then start else start + 1 + rest.length - 1) =
        start + (rest.length + 1) - 1 := by
      split <;> omega
    have hstep : r.advance entry = { r with appliedIndex := start, maxAppliedIndex := start } := by
      rw [advance, hmax, hent]
    rw [foldl_cons, hstep, ih htail (Nat.lt_succ_self start)]
    simp only [hlast, length_cons, Nat.succ_ne_zero, if_false]

/-- What a pass runs on a log that starts after `base`: the committed entries above the floor. -/
def due (base : ℕ) (r : Replica) : List RaftLogEntry :=
  (r.log.take (r.commitIndex - base)).drop (r.maxAppliedIndex - base)

def reached (durable : ℕ → Bool) (base : ℕ) (r : Replica) : List RaftLogEntry :=
  (r.due base).takeWhile (durable ·.index)

lemma isPrefix_reached (durable : ℕ → Bool) (base : ℕ) (r : Replica) :
    r.reached durable base <+: r.due base :=
  takeWhile_prefix _

/-- Where the entries below the floor leave the cursor. -/
def cursorBelow (r : Replica) : ℕ :=
  ((r.pending.filter (·.index ≤ r.maxAppliedIndex)).map (·.index)).foldl max r.appliedIndex

lemma cursorBelow_le {r : Replica} (hcur : r.appliedIndex ≤ r.maxAppliedIndex) :
    r.cursorBelow ≤ r.maxAppliedIndex := by
  have hbelow : ∀ i ∈ (r.pending.filter (·.index ≤ r.maxAppliedIndex)).map (·.index),
      i ≤ r.maxAppliedIndex := by
    intro i hi
    obtain ⟨entry, hent, rfl⟩ := mem_map.mp hi
    exact of_decide_eq_true (mem_filter.mp hent).2
  unfold cursorBelow
  generalize ((r.pending.filter (·.index ≤ r.maxAppliedIndex)).map (·.index)) = below at hbelow
  generalize r.appliedIndex = cursor at hcur
  induction below generalizing cursor with
  | nil => exact hcur
  | cons i rest ih =>
    have hrest : ∀ j ∈ rest, j ≤ r.maxAppliedIndex := fun j hj => hbelow j (mem_cons_of_mem _ hj)
    exact ih hrest (max cursor i) (max_le hcur (hbelow i mem_cons_self))

section

variable {r : Replica} {base : ℕ} {durable : ℕ → Bool}
  (hlog : Numbered index (base + 1) r.log)

include hlog

lemma pending_eq : r.pending = (r.log.drop (r.appliedIndex - base)).take
      (r.commitIndex - max r.appliedIndex base) := by
  have hdrop := hlog.drop (r.appliedIndex - base)
  unfold pending
  rw [hlog.dropWhile, Nat.add_sub_add_right, hdrop.takeWhile]
  congr 1
  omega

lemma numbered_pending : Numbered index (max r.appliedIndex base + 1) r.pending := by
  have hstart : max r.appliedIndex base + 1 = base + 1 + (r.appliedIndex - base) := by omega
  rw [pending_eq hlog, hstart]
  exact (hlog.drop _).take _

lemma numbered_due : Numbered index (max r.maxAppliedIndex base + 1) (r.due base) := by
  have hstart : max r.maxAppliedIndex base + 1 = base + 1 + (r.maxAppliedIndex - base) := by omega
  rw [hstart]
  exact (hlog.take _).drop _

lemma mem_due {entry : RaftLogEntry} : entry ∈ r.due base ↔
      entry ∈ r.log ∧ r.maxAppliedIndex < entry.index ∧ entry.index ≤ r.commitIndex := by
  have htake := hlog.filter_le r.commitIndex
  have hdrop := (hlog.take (r.commitIndex - base)).filter r.maxAppliedIndex
  rw [Nat.add_sub_add_right] at htake hdrop
  rw [due, ← hdrop, ← htake, mem_filter, mem_filter, decide_eq_true_eq, decide_eq_true_eq]
  tauto

variable (hcur : r.appliedIndex ≤ r.maxAppliedIndex)

include hcur

lemma filter_pending : r.pending.filter (r.maxAppliedIndex < ·.index) = r.due base := by
  rw [(numbered_pending hlog).filter, pending_eq hlog, due, drop_take, drop_drop, drop_take]
  congr 1
  · omega
  · congr 1
    omega

variable (hset : ∀ i ∈ r.applied, i ≤ r.maxAppliedIndex)

include hset

lemma collect_pending : collect r.pending r = ({ r with
        appliedIndex := r.cursorBelow
        applied := r.applied ∪ (r.pending.map (·.index)).toFinset },
      r.due base) := by
  rw [collect_eq _ _ (numbered_pending hlog).nodup, filter_pending hlog hcur, cursorBelow]
  intro entry _ hlt hmem
  exact absurd (hset _ hmem) (Nat.not_le.mpr hlt)

lemma applyCommitted_snd : (applyCommitted durable r).2 = r.due base := by
  rw [applyCommitted, collect_pending hlog hcur hset]

lemma applyCommitted_fst : (applyCommitted durable r).1 = { r with
      applied := (r.applied ∪ (r.pending.map (·.index)).toFinset) \
        (((r.due base).drop (r.reached durable base).length).map (·.index)).toFinset
      engine := r.engine ++ r.due base
      appliedIndex := if (r.reached durable base).length = 0 then r.cursorBelow
        else max r.maxAppliedIndex base + (r.reached durable base).length
      maxAppliedIndex := if (r.reached durable base).length = 0 then r.maxAppliedIndex
        else max r.maxAppliedIndex base + (r.reached durable base).length } := by
  have hnum : Numbered index (max r.maxAppliedIndex base + 1) (r.reached durable base) := by
    have htake : r.reached durable base = (r.due base).take (r.reached durable base).length :=
      prefix_iff_eq_take.mp (isPrefix_reached durable base r)
    rw [htake]
    exact (numbered_due hlog).take _
  rw [applyCommitted, collect_pending hlog hcur hset]
  refine (foldl_advance hnum ?_).trans ?_
  · exact Nat.lt_succ_of_le (le_max_left _ _)
  · have hlast : max r.maxAppliedIndex base + 1 + (r.reached durable base).length - 1 =
        max r.maxAppliedIndex base + (r.reached durable base).length := by omega
    rw [hlast]
    rfl

end

end Replica

/-- Entries of one term, told apart by their command. -/
def plainEntry (index : ℕ) : RaftLogEntry := ⟨index, 1, [UInt8.ofNat index]⟩

def openConfig : RaftConfig := ⟨false, false, 0, 1024, 16⟩

/-- A leader that has compacted its first entry and holds the second, both committed. -/
def compactedLeader : RaftNode :=
  { newNode 1 .leader with
    commitIndex := 2
    log := [plainEntry 2]
    installedSnapshot := some ⟨0, 1, 1, [plainEntry 1], none⟩ }

end TemporalStore.Raft
