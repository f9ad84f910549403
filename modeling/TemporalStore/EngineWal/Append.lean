import TemporalStore.Engine.BlockInWal

/-! # Records without their command (`wal.rs`, `engine/stream_batch_methods.rs`) -/

namespace TemporalStore.EngineWal

open Lib LogCommand BlockInWal

variable {V M : Type} (dataOnly sync : Bool) (shardId sequence : ℕ)
  (metadata : WriteAheadLogRecordMetadata M) (command : Command V) (outcomes : List WalOutcomeItem)
  (stagedBlocks : List StagedBlock)

def recordCommand (blocksAreRecoverable : Bool) : Option (Command V) :=
  if outcomes.isEmpty || !dataOnly || !blocksAreRecoverable then some command else none

def everyResultCanBeFoundAgain : Bool :=
  outcomes.all fun item =>
    item.deleted || item.ttl.isSome || (item.value.map (!·.isEmpty)).getD false ||
      stagedBlocks.any fun block => block.objectId = item.objectId &&
        (block.elementName = item.elementName || block.elementName.isNone)

def appendWithSyncInner : WriteAheadLogRecord V M where
  shardId := shardId
  sequence := sequence
  metadata := some metadata
  command := recordCommand dataOnly command outcomes (sync || !stagedBlocks.isEmpty)
  stagedBlocks := stagedBlocks
  outcomes := outcomes

def appendForGroupCommit : WriteAheadLogRecord V M where
  shardId := shardId
  sequence := sequence
  metadata := some metadata
  command := recordCommand dataOnly command outcomes (!stagedBlocks.isEmpty)
  stagedBlocks := stagedBlocks
  outcomes := outcomes

def appendBatchAsOneRecord : WriteAheadLogRecord V M :=
  ⟨shardId, sequence, none, some metadata, stagedBlocks, outcomes⟩

/-- The record of a batch, or `none` if its commands are written. -/
def batchRecord : Option (WriteAheadLogRecord V M) :=
  if dataOnly && !outcomes.isEmpty && everyResultCanBeFoundAgain outcomes stagedBlocks then
    some (appendBatchAsOneRecord shardId sequence metadata outcomes stagedBlocks)
  else none

/-- The name under which the block of a result is staged, and under which the reads behind the
installed result ask for it. The block of a context node is a field of a hash, and an entity has a
key of its own below that of its collection. -/
def blockIdentity (item : WalOutcomeItem) : Option BlockKey :=
  match item.kind with
  | "hash" | "set" | "list" | "zset" =>
    some (stableBlockObjectId shardId item.kind item.objectKey, item.elementName)
  | "context_node" => some (stableBlockObjectId shardId "hash" item.objectKey, item.elementName)
  | "context_entity" => item.elementName.map fun entity =>
    (stableBlockObjectId shardId "context_entity" (item.objectKey ++ ":" ++ entity), none)
  | "string" | "control_state" | "feature" | "context_event" | "context_index" | "context_audit"
  | "context_child" | "context_summary" | "context_compression" =>
    some (stableBlockObjectId shardId item.kind item.objectKey, none)
  | _ => none

/-- The result is installed from the record's own words: a removal, a deadline, a value, or for an
object neither of them, which clears its deadline. -/
def WalOutcomeItem.Stated (item : WalOutcomeItem) : Prop :=
  item.deleted = true ∨ item.ttl ≠ none ∨ (∃ value, item.value = some value ∧ value ≠ []) ∨
    item.kind = "object"

/-- What a read of the result gets from the log after replay has registered the record. -/
def replayedBlock (item : WalOutcomeItem) : Option Bytes :=
  let restarted : Resident fun _ => some stagedBlocks := ⟨fun _ => none, [], nofun⟩
  (blockIdentity shardId item).bind fun key =>
    ((restarted.registerRecord 0 stagedBlocks).readBlock key).2

/-- Replay has the command, or installs every result from its words or has its block. -/
def Recoverable (record : WriteAheadLogRecord V M) : Prop :=
  record.command = none → ∀ item ∈ record.outcomes, item.Stated ∨
    (replayedBlock record.shardId record.stagedBlocks item).isSome

/-- The write staged the block of every result that needs one. -/
def StagedWhatIsNeeded : Prop :=
  ∀ item ∈ outcomes, ¬item.Stated → ∃ key ∈ blockIdentity shardId item,
    ∃ block ∈ stagedBlocks, block.objectId = key.1 ∧
      (block.elementName = key.2 ∨ block.elementName = none)

/-- A block that is staged under a result's own id has the name that is read for the result. The
write path stages no block under the own id of a context node or an entity. -/
def StagedAsRead : Prop :=
  ∀ item ∈ outcomes, ∀ block ∈ stagedBlocks, block.objectId = item.objectId →
    block.elementName = item.elementName ∨ block.elementName = none →
      ∃ key ∈ blockIdentity shardId item, block.objectId = key.1 ∧
        (block.elementName = key.2 ∨ block.elementName = none)

lemma replayedBlock_isSome (item : WalOutcomeItem) :
    (replayedBlock shardId stagedBlocks item).isSome ↔
      ∃ key ∈ blockIdentity shardId item, ∃ block ∈ stagedBlocks,
        block.objectId = key.1 ∧ (block.elementName = key.2 ∨ block.elementName = none) := by
  unfold replayedBlock
  cases blockIdentity shardId item with
  | none => simp
  | some key =>
    refine (Resident.readBlock_registerRecord_isSome ⟨fun _ => none, [], nofun⟩ key 0 rfl).trans ?_
    simp

-- The block of a context node, under the id of the hash.
example : replayedBlock 1 [⟨stableBlockObjectId 1 "hash" "n", some "meta", [7]⟩]
    ⟨"context_node", "n", some "meta", stableBlockObjectId 1 "context_node" "n", 0, none, none,
      none, false, false⟩ = some [7] := by decide +kernel

lemma stagedWhatIsNeeded_iff : StagedWhatIsNeeded shardId outcomes stagedBlocks ↔
    ∀ item ∈ outcomes, item.Stated ∨ (replayedBlock shardId stagedBlocks item).isSome := by
  refine forall_congr' fun item => imp_congr_right fun _ => ?_
  rw [replayedBlock_isSome, or_iff_not_imp_left]

/-- What the test of a batch asks for is what replay needs, if the blocks are staged as they are
read. -/
lemma StagedAsRead.staged (hread : StagedAsRead shardId outcomes stagedBlocks)
    (h : everyResultCanBeFoundAgain outcomes stagedBlocks) :
    StagedWhatIsNeeded shardId outcomes stagedBlocks := by
  intro item hitem hstated
  have hfound := List.all_eq_true.mp h item hitem
  have hblock : ∃ block ∈ stagedBlocks, block.objectId = item.objectId ∧
      (block.elementName = item.elementName ∨ block.elementName = none) := by
    unfold WalOutcomeItem.Stated at hstated
    cases hvalue : item.value <;> simp_all
  obtain ⟨block, hmem, hid, hname⟩ := hblock
  obtain ⟨key, hkey, hnamed⟩ := hread item hitem block hmem hid hname
  exact ⟨key, hkey, block, hmem, hnamed⟩

def stringResult (key : String) : WalOutcomeItem :=
  ⟨"string", key, none, stableBlockObjectId 1 "string" key, 0, none, none, none, false, false⟩

def stringBlock (key : String) : StagedBlock := ⟨stableBlockObjectId 1 "string" key, none, []⟩

end TemporalStore.EngineWal
