import TemporalStore.Block.Entry
import TemporalStore.Block.Record
import TemporalStore.EngineWal.Payload
import TemporalStore.LogCommand

/-! # Engine log records (`wal_proto.rs`) -/

namespace TemporalStore.EngineWal

open Lib LogCommand BlockEntry

variable {V M : Type}

structure WalOutcomeItem where
  kind : String
  objectKey : String
  elementName : Option String
  objectId : ℕ
  routingBucket : ℕ
  address : Option ElementEntry
  value : Option Bytes
  ttl : Option ℕ
  deleted : Bool
  isMeta : Bool
  deriving DecidableEq

structure StagedBlock where
  objectId : ℕ
  elementName : Option String
  bytes : Bytes
  deriving DecidableEq

/-- `M` stands for the descriptions of items, which are carried as JSON. -/
structure WriteAheadLogRecordMetadata (M : Type) where
  version : ℕ
  timestampMs : ℕ
  items : List M
  batchId : Option ℕ
  batchSize : Option ℕ
  batchIndex : Option ℕ

structure WriteAheadLogRecord (V M : Type) where
  shardId : ℕ
  sequence : ℕ
  command : Option (Command V)
  metadata : Option (WriteAheadLogRecordMetadata M)
  stagedBlocks : List StagedBlock
  outcomes : List WalOutcomeItem

def writeAheadLogFormatVersion : ℕ := 1

namespace V1

structure WalBlockAddress where
  blockSlabId : ℕ
  offset : ℕ
  length : ℕ
  blockId : Option ℕ
  objectId : Option ℕ
  generation : Option ℕ
  deriving DecidableEq

structure EngineWalItem where
  objectKey : Option String
  objectId : Option ℕ
  ttlMs : Option ℕ
  deleted : Bool
  metaLog : Bool
  elementName : Option String
  block : Option WalBlockAddress
  value : Option Bytes
  kindName : Option String
  routingBucket : Option ℕ
  timestampMs : Option ℕ
  entryId : Option ℕ
  objectDeleted : Bool
  kindCode : Option ℕ
  deriving DecidableEq

structure WalStagedBlock where
  objectId : Option ℕ
  block : Bytes
  elementName : Option String
  deriving DecidableEq

structure EngineWalMetadata where
  version : ℕ
  timestampMs : ℕ
  items : List EngineWalItem
  batchId : Option ℕ
  batchSize : Option ℕ
  batchIndex : Option ℕ
  deriving DecidableEq

structure EngineWalRecord where
  shardId : ℕ
  sequence : ℕ
  command : Option WalCommand
  metadata : Option EngineWalMetadata
  items : List EngineWalItem
  stagedBlocks : List WalStagedBlock

end V1

/-- FNV-1a of the shard, the kind and the key. -/
def stableBlockObjectId (shardId : ℕ) (kind key : String) : ℕ :=
  (decimalBytes shardId ++ utf8 ":" ++ utf8 kind ++ utf8 ":" ++ utf8 key).foldl
    (fun hash byte => (hash ^^^ byte.toNat) * 0x100000001b3 % 2 ^ 64) 0xcbf29ce484222325

/-- What the module takes from other crates and from the engine: the codecs, the compressor and the
keys that a command names. -/
structure Codecs (V M : Type) where
  message : Coding String V1.EngineWalRecord
  command : Coding String (Command V)
  metadataItems : Coding String (List M)
  zstd : Zstd
  commandObjectKeys : Command V → List String

def kindCodes : List String :=
  ["string", "hash", "set", "list", "zset", "feature", "object", "seen", "bucket", "context_event",
    "context_index", "context_audit", "context_child", "context_summary", "context_compression",
    "context_node", "context_entity", "control_state", "control_counter", "control_change",
    "control_selection"]

def kindCode (kind : String) : Option ℕ := (kindCodes.findIdx? (· == kind)).map (· + 1)

def kindFromCode (code : ℕ) : Option String := if code = 0 then none else kindCodes[code - 1]?

lemma kindFromCode_kindCode {kind : String} {code : ℕ} (h : kindCode kind = some code) :
    kindFromCode code = some kind := by
  obtain ⟨i, hi, rfl⟩ := Option.map_eq_some_iff.mp h
  obtain ⟨hlt, hkind, -⟩ := List.findIdx?_eq_some_iff_getElem.mp hi
  rw [kindFromCode, if_neg (Nat.succ_ne_zero i), Nat.add_sub_cancel, List.getElem?_eq_getElem hlt,
    beq_iff_eq.mp hkind]

/-- The kinds whose elements are named by a number. -/
def numberedKinds : List String :=
  ["feature", "context_index", "context_audit", "context_child", "context_summary",
    "context_compression", "control_counter", "control_change"]

/-- The two halves of the name of a context event. The name is split at its sixteenth byte, which
panics inside a character. -/
def eventNumbers (name : Bytes) : Except Fault (Option (ℕ × Option ℕ)) :=
  if name.length ≠ 32 then .ok none
  else if !isCharBoundary name 16 then .error .panicked
  else .ok (do
    let stored ← parseHex64 (name.take 16)
    let entry ← parseHex64 (name.drop 16)
    some (stored, some entry))

def numericElementName (kind : String) (elementName : Option String) :
    Except Fault (Option (ℕ × Option ℕ)) :=
  match elementName with
  | none => .ok none
  | some name =>
    if kind = "context_event" then eventNumbers (utf8 name)
    else if kind ∈ numberedKinds then .ok ((parseUsize (utf8 name)).map (·, none))
    else .ok none

def numericElementNameText : Option ℕ → Option ℕ → Option String
  | some stored, some entry => some (ascii (hexBytes 16 stored ++ hexBytes 16 entry))
  | some stored, none => some (ascii (decimalBytes stored))
  | none, _ => none

/-- The length that the one carried block gives to the one address. -/
def impliedBlockLength (record : WriteAheadLogRecord V M) : Option ℕ :=
  if record.outcomes.length = 1 ∧ record.stagedBlocks.length = 1 then
    record.stagedBlocks.head?.map fun block => block.bytes.length + Block.blockRecordHeaderLen
  else none

def impliedStagedObjectId (record : WriteAheadLogRecord V M) : Option ℕ :=
  if record.outcomes.length = 1 ∧ record.stagedBlocks.length = 1 then
    record.outcomes.head?.map (·.objectId)
  else none

namespace Codecs

variable (K : Codecs V M)

def commandObjectKey (command : Option (Command V)) : Option String :=
  command.bind fun command => (K.commandObjectKeys command).head?

def strippableCommandKey (record : WriteAheadLogRecord V M) : Option String :=
  if record.outcomes.length = 1 then K.commandObjectKey record.command else none

def addressToProto (address : ElementEntry) (impliedLength : Option ℕ) : V1.WalBlockAddress where
  blockSlabId := address.blockSlabId.toNat
  offset := address.offset.toNat
  length := if some address.length.toNat = impliedLength then 0 else address.length.toNat
  blockId := address.blockId.map UInt16.toNat
  objectId := none
  generation := address.generation

def addressFromProto (address : V1.WalBlockAddress) (impliedLength : Option ℕ) :
    Except Fault ElementEntry :=
  let length := if address.length = 0 then impliedLength.getD 0 else address.length
  match ElementEntry.fromParts address.blockSlabId address.offset length address.blockId with
  | some entry => .ok entry
  | none => .error .panicked

def itemObjectKeyToWrite (item : WalOutcomeItem) (commandKey : Option String) : Option String :=
  if commandKey = some item.objectKey then none else some item.objectKey

/-- The kind as the reader will spell it. -/
def itemObjectIdToWrite (item : WalOutcomeItem) (shardId : ℕ) : Option ℕ :=
  let kind := ((kindCode item.kind).bind kindFromCode).getD item.kind
  let derived := stableBlockObjectId shardId kind item.objectKey
  if item.objectId = derived then none else some item.objectId

/-- `derive_item` with the fields that `put_wal_item` takes from the item itself. -/
def itemToProto (item : WalOutcomeItem) (shardId : ℕ) (impliedLength : Option ℕ)
    (commandKey : Option String) : Except Fault V1.EngineWalItem := do
  let numeric ← numericElementName item.kind item.elementName
  .ok
    { objectKey := itemObjectKeyToWrite item commandKey
      objectId := itemObjectIdToWrite item shardId
      ttlMs := item.ttl
      deleted := item.deleted
      metaLog := item.isMeta
      elementName := if numeric.isSome then none else item.elementName
      block := item.address.map fun address => addressToProto address impliedLength
      value := item.value
      kindName := if (kindCode item.kind).isSome then none else some item.kind
      routingBucket := some item.routingBucket
      timestampMs := numeric.map (·.1)
      entryId := numeric.bind (·.2)
      objectDeleted := item.deleted && item.elementName.isNone
      kindCode := kindCode item.kind }

def itemFromProto (item : V1.EngineWalItem) (shardId : ℕ) (impliedLength : Option ℕ)
    (commandKey : Option String) : Except Fault WalOutcomeItem := do
  let kind := ((item.kindCode.bind kindFromCode).or item.kindName).getD ""
  let objectKey := (item.objectKey.or commandKey).getD ""
  let elementName := (numericElementNameText item.timestampMs item.entryId).or item.elementName
  let objectId := item.objectId.getD (stableBlockObjectId shardId kind objectKey)
  let address ← item.block.mapM fun block => addressFromProto block impliedLength
  .ok ⟨kind, objectKey, elementName, objectId, item.routingBucket.getD 0, address, item.value,
    item.ttlMs, item.deleted, item.metaLog⟩

/-- The name of the item that carries the descriptions. -/
def verbatimItems : String := "__verbatim_items"

def verbatimItem (value : Bytes) : V1.EngineWalItem :=
  ⟨none, none, none, false, false, none, none, some value, some verbatimItems, none, none, none,
    false, none⟩

/-- The current version is not written. -/
def versionToProto (version : ℕ) : ℕ := if version = writeAheadLogFormatVersion then 0 else version

def versionFromProto (version : ℕ) : ℕ :=
  if version = 0 then writeAheadLogFormatVersion else version

/-- The leader's clock is written only where replay reads it. -/
def metadataToProto (metadata : WriteAheadLogRecordMetadata M) (stampHasAReader : Bool) :
    V1.EngineWalMetadata where
  version := versionToProto metadata.version
  timestampMs := if stampHasAReader then metadata.timestampMs else 0
  items := if metadata.items.isEmpty then []
    else [verbatimItem (K.metadataItems.encode metadata.items)]
  batchId := metadata.batchId
  batchSize := metadata.batchSize
  batchIndex := metadata.batchIndex

def metadataItemsFromProto (items : List V1.EngineWalItem) : Except Fault (List M) :=
  match items.head? with
  | some carried =>
    if carried.kindName = some verbatimItems then
      (K.metadataItems.decode (carried.value.getD [])).mapError .malformed
    else .ok []
  | none => .ok []

def metadataFromProto (metadata : V1.EngineWalMetadata) :
    Except Fault (WriteAheadLogRecordMetadata M) := do
  let items ← K.metadataItemsFromProto metadata.items
  .ok ⟨versionFromProto metadata.version, metadata.timestampMs, items, metadata.batchId,
    metadata.batchSize, metadata.batchIndex⟩

def stagedBlockToProto (impliedObjectId : Option ℕ) (block : StagedBlock) : V1.WalStagedBlock where
  objectId := if impliedObjectId = some block.objectId then none else some block.objectId
  block := block.bytes
  elementName := block.elementName

def stagedBlockFromProto (impliedObjectId : Option ℕ) (block : V1.WalStagedBlock) :
    StagedBlock where
  objectId := (block.objectId.or impliedObjectId).getD 0
  elementName := block.elementName
  bytes := block.block

/-- The message that `record_parts` and `put` write. -/
def recordToProto (record : WriteAheadLogRecord V M) : Except Fault V1.EngineWalRecord := do
  let items ← record.outcomes.mapM fun item =>
    itemToProto item record.shardId (impliedBlockLength record) (K.strippableCommandKey record)
  .ok
    { shardId := record.shardId
      sequence := record.sequence
      command := record.command.map fun command => ⟨some (commandToProto K.command command)⟩
      metadata := record.metadata.map fun metadata =>
        K.metadataToProto metadata record.outcomes.isEmpty
      items := items
      stagedBlocks := record.stagedBlocks.map (stagedBlockToProto (impliedStagedObjectId record)) }

def encode (settings : Settings) (record : WriteAheadLogRecord V M) : Except Fault Bytes := do
  let message ← K.recordToProto record
  .ok (encodePayload K.zstd settings (K.message.encode message))

def impliedLengthOf (message : V1.EngineWalRecord) : Option ℕ :=
  if message.items.length = 1 ∧ message.stagedBlocks.length = 1 then
    message.stagedBlocks.head?.map fun block => block.block.length + Block.blockRecordHeaderLen
  else none

def impliedObjectIdOf (outcomes : List WalOutcomeItem) (blocks : List V1.WalStagedBlock) :
    Option ℕ :=
  if outcomes.length = 1 ∧ blocks.length = 1 then outcomes.head?.map (·.objectId) else none

def commandOf (message : V1.EngineWalRecord) : Except Fault (Option (Command V)) :=
  match message.command.bind (·.kind) with
  | none => .ok none
  | some kind => some <$> (commandFromProto K.command kind).mapError .malformed

def recordFromProto (message : V1.EngineWalRecord) : Except Fault (WriteAheadLogRecord V M) := do
  let command ← K.commandOf message
  let outcomes ← message.items.mapM fun item =>
    itemFromProto item message.shardId (impliedLengthOf message) (K.commandObjectKey command)
  let metadata ← message.metadata.mapM K.metadataFromProto
  .ok
    { shardId := message.shardId
      sequence := message.sequence
      command := command
      metadata := metadata
      stagedBlocks := message.stagedBlocks.map
        (stagedBlockFromProto (impliedObjectIdOf outcomes message.stagedBlocks))
      outcomes := outcomes }

def decode (payload : Bytes) : Except Fault (WriteAheadLogRecord V M) := do
  let bytes ← decodePayload K.zstd payload
  let message ← (K.message.decode bytes).mapError .malformed
  K.recordFromProto message

end Codecs

end TemporalStore.EngineWal
