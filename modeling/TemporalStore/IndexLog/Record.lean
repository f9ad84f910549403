import Mathlib.Tactic.DeriveEncodable
import TemporalStore.Block.Entry
import TemporalStore.Lib.Unary

/-! # Records of the served-index log (`index_log.rs`) -/

namespace TemporalStore.IndexLog

open Lib BlockEntry

inductive IndexItemKind where
  | block
  | object
  | metaItem
  deriving DecidableEq

structure IndexItem where
  kind : IndexItemKind
  routingBucket : ℕ
  blockRefKey : String
  objectKey : String
  modelId : String
  objectId : ℕ
  entry : Option ElementEntry
  deleted : Bool
  deriving DecidableEq

inductive SlabCatalogState where
  | active
  | sealed
  | delayedDestroy
  | purged
  deriving DecidableEq, Encodable

structure SlabCatalogEntry where
  blockSlabId : ℕ
  state : SlabCatalogState
  physicalBytes : ℕ
  logicalBytes : ℕ
  createdUnixMs : Option ℕ
  updatedUnixMs : Option ℕ
  firstBlockId : Option ℕ
  lastBlockId : Option ℕ
  version : ℕ
  deriving DecidableEq, Encodable

structure MetaItem where
  version : ℕ
  startWalSequence : ℕ
  timestampMs : ℕ
  slabs : List SlabCatalogEntry
  slabVersion : ℕ
  deriving DecidableEq, Encodable

/-- The states of the keys are JSON values that only the engine looks into. -/
structure IndexDeltaRecord (J : Type) where
  shardId : ℕ
  sequence : ℕ
  items : List IndexItem
  metaItem : Option MetaItem
  appliedWalSequence : Option ℕ
  upsert : Bool
  keyStates : List J
  sharedObjectKey : Option String
  deriving DecidableEq

/-- The models that a record names by a number. -/
def modelIdNumbers : List String :=
  ["string", "hash", "set", "feature", "sequence", "control_state", "context_node", "context_event",
    "context_index", "context_audit", "context_child", "context_embedding", "context_summary",
    "context_compression", "context_entity", "zset", "list"]

def modelIdPosition (modelId : String) : Option ℕ := modelIdNumbers.findIdx? (· == modelId)

lemma modelIdNumbers_position {modelId : String} {position : ℕ}
    (h : modelIdPosition modelId = some position) : modelIdNumbers[position]? = some modelId := by
  rw [modelIdPosition, List.findIdx?_eq_some_iff_getElem] at h
  obtain ⟨hlt, hmodel, -⟩ := h
  rw [List.getElem?_eq_getElem hlt, beq_iff_eq.mp hmodel]

def blockRefKeyFromParts (kind objectKey : String) (elementName : Option String)
    (blockSlabId offset length blockId generation : ℕ) : String :=
  kind ++ ":" ++ objectKey ++ ":" ++ elementName.getD "" ++ ":" ++ toString blockSlabId ++ ":" ++
    toString offset ++ ":" ++ toString length ++ ":" ++ toString blockId ++ ":" ++
      toString generation

namespace IndexItem

variable (item : IndexItem)

/-- The key of the block that the entry points at. -/
def derivedBlockRefKey (entry : ElementEntry) : String :=
  blockRefKeyFromParts item.modelId item.objectKey none entry.blockSlabId.toNat entry.offset.toNat
    entry.length.toNat ((entry.blockId.map UInt16.toNat).getD 0) (entry.generation.getD 0)

def stripBlockRefKeyRepeat : IndexItem :=
  match item.entry with
  | none => item
  | some entry =>
    if item.derivedBlockRefKey entry = item.blockRefKey then { item with blockRefKey := "" }
    else item

def restoreBlockRefKeyRepeat : IndexItem :=
  if item.blockRefKey ≠ "" then item
  else
    match item.entry with
    | none => item
    | some entry => { item with blockRefKey := item.derivedBlockRefKey entry }

lemma stripBlockRefKeyRepeat_cases : item.stripBlockRefKeyRepeat = item ∨
      ∃ entry, item.entry = some entry ∧ item.derivedBlockRefKey entry = item.blockRefKey ∧
        item.stripBlockRefKeyRepeat = { item with blockRefKey := "" } := by
  rw [stripBlockRefKeyRepeat]
  cases hent : item.entry with
  | none => exact .inl rfl
  | some entry =>
    dsimp only
    split_ifs with hderived
    · exact .inr ⟨entry, rfl, hderived, hent ▸ rfl⟩
    · exact .inl rfl

lemma restoreBlockRefKeyRepeat_of_empty {item : IndexItem} {entry : ElementEntry}
    (hkey : item.blockRefKey = "") (hent : item.entry = some entry) :
    item.restoreBlockRefKeyRepeat = { item with blockRefKey := item.derivedBlockRefKey entry } := by
  rw [restoreBlockRefKeyRepeat, if_neg (not_not_intro hkey), hent]

lemma restoreBlockRefKeyRepeat_eq_self {item : IndexItem}
    (h : item.entry.isSome → item.blockRefKey ≠ "") : item.restoreBlockRefKeyRepeat = item := by
  rw [restoreBlockRefKeyRepeat]
  split_ifs with hkey
  · rfl
  · cases hent : item.entry with
    | none => rfl
    | some entry =>
      rw [hent] at h
      exact absurd (h rfl) hkey

section ObjectId

variable (stableBlockObjectId : ℕ → String → String → ℕ)

/-- The id of an object is a hash of its shard, its model and its key. -/
def derivedObjectId (item : IndexItem) (shardId : ℕ) : ℕ :=
  stableBlockObjectId shardId item.modelId item.objectKey

def stripObjectIdRepeat (item : IndexItem) (shardId : ℕ) : IndexItem :=
  if item.objectId = item.derivedObjectId stableBlockObjectId shardId then
    { item with objectId := 0 }
  else item

def restoreObjectIdRepeat (item : IndexItem) (shardId : ℕ) : IndexItem :=
  if item.objectId = 0 then
    { item with objectId := item.derivedObjectId stableBlockObjectId shardId }
  else item

end ObjectId

def withObjectKey (objectKey : String) : IndexItem :=
  { item with objectKey := objectKey }

end IndexItem

/-- The key that all items share, if there are two at least. -/
def sharedObjectKeyOf : List IndexItem → Option String
  | first :: second :: rest =>
    if (second :: rest).all (·.objectKey == first.objectKey) then some first.objectKey else none
  | _ => none

def withSharedKey : Option String → List IndexItem → List IndexItem
  | some shared, items => items.map (·.withObjectKey shared)
  | none, items => items

section Strips

variable {J : Type} (stableBlockObjectId : ℕ → String → String → ℕ)

/-- The record of an append. The key is blanked last: the other two are derived from it. -/
def strippedRecord (shardId sequence : ℕ) (items : List IndexItem) (keyStates : List J)
    (appliedWalSequence : Option ℕ) (metaItem : Option MetaItem) (upsert : Bool) :
    IndexDeltaRecord J :=
  let items := items.map fun item =>
    item.stripBlockRefKeyRepeat.stripObjectIdRepeat stableBlockObjectId shardId
  let sharedObjectKey := sharedObjectKeyOf items
  let items := if sharedObjectKey.isSome then items.map (·.withObjectKey "") else items
  ⟨shardId, sequence, items, metaItem, appliedWalSequence, upsert, keyStates, sharedObjectKey⟩

/-- The shared key is put back first. -/
def restoredRecord (record : IndexDeltaRecord J) : IndexDeltaRecord J :=
  { record with
    items := (withSharedKey record.sharedObjectKey record.items).map fun item =>
      (item.restoreObjectIdRepeat stableBlockObjectId record.shardId).restoreBlockRefKeyRepeat }

end Strips

end TemporalStore.IndexLog
