import TemporalStore.Shard.Frames

/-! # The log of a shard and its replay (`engine.rs`, `engine/engine_lifecycle.rs`) -/

namespace TemporalStore.Shard

open Lib

namespace ShardState

/-- Install one item. An item that does not decode makes the recovery refuse; the commands stage
none of that kind. -/
def applyOutcomeItem (s : ShardState) : OutcomeItem → ShardState
  | .object key ttl deleted =>
    if deleted then (s.deleteRecord key).1
    else match ttl with
      | none => (s.clearEach (associatedRecordKeys key)).1
      | some expiresAt => s.expireExisting expiresAt (associatedRecordKeys key)
  | .string key value => s.putString key value
  | .stringDeleted key => s.modifyRecord key fun r => { r with string := none }
  | .hash key field value =>
    s.modifyRecord key fun r => { r with hash := Elements.install r.hash field value }
  | .hashDeleted key field =>
    s.modifyRecord key fun r => { r with hash := Elements.replayRemoveElement r.hash field }
  | .set key member =>
    s.modifyRecord key fun r => { r with set := Elements.install r.set member () }
  | .setDeleted key member =>
    s.modifyRecord key fun r => { r with set := Elements.replayRemoveElement r.set member }
  | .list key sequence value =>
    s.modifyRecord key fun r => { r with list := Elements.install r.list sequence value }
  | .listDeleted key sequence =>
    s.modifyRecord key fun r => { r with list := Elements.replayRemoveElement r.list sequence }
  | .zset key member biased =>
    s.modifyRecord key fun r => { r with zset := Elements.install r.zset member biased }
  | .zsetDeleted key member =>
    s.modifyRecord key fun r => { r with zset := Elements.replayRemoveElement r.zset member }
  | .seen key member seenAt =>
    s.modifyRecord key fun r => { r with
      seen := some (noteSeen (r.seen.getD .empty) member seenAt) }
  | .controlState key series =>
    s.modifyRecord key fun r => { r with controlStateBlock := some series }
  | .controlCounter key bucketMs total =>
    s.modifyRecord key fun r => { r with
      controlState := some ((r.controlState.getD []).put bucketMs total) }
  | .controlSelection key selectionType value ttl =>
    s.modifyRecord key fun r => { r with
      controlStateSelection := some ⟨ttl.getD 0, value, selectionType⟩ }

def applyOutcome (s : ShardState) (items : List OutcomeItem) : ShardState :=
  items.foldl applyOutcomeItem s

/-- The series of the blocks, for the counters that have none in memory. The ladders are dropped. -/
def reconcileControlState (s : ShardState) : ShardState :=
  { s with
    records := fun key =>
      let r := s.records key
      { r with controlState := r.controlState.or r.controlStateBlock }
    rollups := fun _ => none }

end ShardState

structure LogRecord where
  command : Command
  items : List OutcomeItem
  timestampMs : ℕ
  config : Config

variable (clock : ℕ) (s : ShardState)

/-- A record without a timestamp is run again at the clock of the recovery. -/
def replayRecord (record : LogRecord) : ShardState :=
  if record.items.isEmpty then
    (executeOnShard record.config (if 0 < record.timestampMs then record.timestampMs else clock) s
      record.command).shard
  else s.applyOutcome record.items

lemma replayRecord_items {record : LogRecord} (h : record.items ≠ []) :
    replayRecord clock s record = s.applyOutcome record.items := by
  unfold replayRecord
  rw [if_neg]
  simpa using h

def replayWal (log : List LogRecord) : ShardState :=
  log.foldl (replayRecord clock) s

lemma replayWal_concat (log : List LogRecord) (record : LogRecord) :
    replayWal clock s (log ++ [record]) = replayRecord clock (replayWal clock s log) record := by
  unfold replayWal
  rw [List.foldl_append]
  rfl

/-- A shard in memory, the index that was persisted last, and the log behind that. -/
structure Engine where
  shard : ShardState
  index : ShardState
  log : List LogRecord

namespace Engine

def empty : Engine := ⟨.empty, .empty, []⟩

variable (e : Engine)

/-- Execute a command; a write that changed something is logged. -/
def execute (config : Config) (now : ℕ) (command : Command) : Engine × CommandResponse :=
  let outcome := executeOnShard config now e.shard command
  let log := if isWriteCommand command && outcome.mutated then
      e.log ++ [⟨command, outcome.items, now, config⟩]
    else e.log
  (⟨outcome.shard, e.index, log⟩, outcome.response)

lemma execute_logged (config : Config) (now : ℕ) {command : Command}
    (hwrite : isWriteCommand command = true)
    (hmutated : (executeOnShard config now e.shard command).mutated = true) :
    (e.execute config now command).1 =
      ⟨(executeOnShard config now e.shard command).shard, e.index, e.log ++
        [⟨command, (executeOnShard config now e.shard command).items, now, config⟩]⟩ := by
  simp only [execute, hwrite, hmutated, Bool.and_self, if_true]

lemma execute_unlogged (config : Config) (now : ℕ) {command : Command}
    (hmutated : (executeOnShard config now e.shard command).mutated = false) :
    (e.execute config now command).1 =
      ⟨(executeOnShard config now e.shard command).shard, e.index, e.log⟩ := by
  simp only [execute, hmutated, Bool.and_false, Bool.false_eq_true, if_false]

/-- The index is persisted. Neither the ladders nor the published bound are part of it. -/
def checkpoint : Engine :=
  ⟨e.shard, { e.shard with rollups := fun _ => none, controlStateMaxSize := 0 }, []⟩

/-- Memory is lost and the log is replayed. Whether the counters are reconciled with their blocks
depends on the block index, and persisting the recovered index may fail. -/
def recover (clock : ℕ) (reconciled persisted : Bool) : Engine :=
  let shard := replayWal clock e.index e.log
  let shard := if reconciled then shard.reconcileControlState else shard
  if persisted && !e.log.isEmpty then checkpoint ⟨shard, e.index, e.log⟩
  else ⟨shard, e.index, e.log⟩

end Engine

end TemporalStore.Shard
