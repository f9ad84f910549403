import TemporalStore.IndexLog.Record
import TemporalStore.Lib.Result
import TemporalStore.Lib.Stable

/-! # Delta records as protobuf messages (`index_log_wire.rs`) -/

namespace TemporalStore.IndexLog

open Lib BlockEntry List

structure ProtoIndexItem where
  objectId : ℕ
  blockId : ℕ
  address : ℕ
  size : ℕ
  inWal : Bool
  deleted : Bool
  modelId : ℕ
  objectIdWide : ℕ
  routingBucket : ℕ
  objectKey : String
  blockRefKey : String
  kind : ℕ
  noEntry : Bool
  withoutGeneration : Bool
  modelName : String
  deriving DecidableEq, Encodable

structure ProtoSlabInfo where
  slabId : ℕ
  totalBytes : ℕ
  state : ℤ
  createdTimeMs : Option ℕ
  version : ℕ
  slabIdWide : ℕ
  purged : Bool
  updatedTimeMs : Option ℕ
  logicalBytes : ℕ
  firstBlockId : Option ℕ
  lastBlockId : Option ℕ
  deriving DecidableEq, Encodable

/-- A map in the order of its keys. -/
def SlabMap : Type := { slabs : Series ℕ ProtoSlabInfo // slabs.Pairwise fun x y => x.1 < y.1 }

instance : Encodable SlabMap :=
  inferInstanceAs
    (Encodable { slabs : List (ℕ × ProtoSlabInfo) // slabs.Pairwise fun x y => x.1 < y.1 })

structure ProtoMetaItem where
  version : ℕ
  startWalId : ℕ
  slabs : SlabMap
  timestampMs : ℕ
  slabVersion : ℕ
  overflowSlabs : List ProtoSlabInfo
  deriving Encodable

structure ProtoIndexLog where
  version : ℕ
  items : List ProtoIndexItem
  metaItem : Option ProtoMetaItem
  sequence : ℕ
  walSequence : Option ℕ
  shardId : ℕ
  upsert : Bool
  sharedObjectKey : Option String
  keyStates : List Bytes
  deriving Encodable

def indexLogWireVersion : ℕ := 1

def kindToNumber : IndexItemKind → ℕ
  | .block => 0
  | .object => 1
  | .metaItem => 2

def kindFromNumber : ℕ → Except String IndexItemKind
  | 0 => .ok .block
  | 1 => .ok .object
  | 2 => .ok .metaItem
  | other => .error ("unknown index item kind " ++ toString other)

/-- The text of a `BlockAddressOutOfRange`. -/
def outOfRangeText (blockSlabId offset : ℕ) (blockId : Option ℕ) : String :=
  match blockId with
  | some blockId =>
    "block id " ++ toString blockId ++ " does not fit the block id field: a block id must be at " ++
      "most "
      ++ toString maxAddressableBlockId ++ ", which is the ceiling \x60encode_block_record\x60 " ++
      "has always enforced on the record header. Truncating it would name a different block of " ++
      "the same " ++
      "object, so this is refused rather than narrowed (slab " ++ toString blockSlabId ++
      ", offset "
      ++ toString offset ++ ")"
  | none =>
    "block address (slab " ++ toString blockSlabId ++ ", offset " ++ toString offset ++
      ") does not fit the address word: a slab id must be at most " ++
      toString maxAddressableBlockSlabId ++ " and an offset at most " ++
      toString maxAddressableBlockOffset ++
      ". Truncating either half would name a different block, " ++
      "so this is refused rather than narrowed"

def hexText (n : ℕ) : String := "0x" ++ String.ofList (Nat.toDigits 16 n)

namespace ProtoIndexItem

/-- The fields of an entry, `no_entry` where there is none. -/
def withEntry (wire : ProtoIndexItem) : Option ElementEntry → ProtoIndexItem
  | some entry =>
    { wire with
      blockId := (entry.blockId.map UInt16.toNat).getD 0
      address := entry.addressWord
      size := entry.length.toNat
      inWal := entry.logResident
      withoutGeneration := entry.generation.isNone }
  | none => { wire with noEntry := true }

def withModel (wire : ProtoIndexItem) (modelId : String) : ProtoIndexItem :=
  match modelIdPosition modelId with
  | some position => { wire with modelId := position + 1 }
  | none => { wire with modelName := modelId }

def fromItem (item : IndexItem) : ProtoIndexItem :=
  ((⟨item.objectId % 2 ^ 32, 0, 0, 0, false, item.deleted, 0, item.objectId, item.routingBucket,
    item.objectKey, item.blockRefKey, kindToNumber item.kind, false, false, ""⟩ :
      ProtoIndexItem).withModel item.modelId).withEntry item.entry

def model (self : ProtoIndexItem) : Except String String :=
  if self.modelName ≠ "" then .ok self.modelName
  else if 0 < self.modelId then
    match modelIdNumbers[self.modelId - 1]? with
    | some name => .ok name
    | none => .error ("unknown model number " ++ toString self.modelId)
  else .ok ""

def entry (self : ProtoIndexItem) : Except String (Option ElementEntry) :=
  if self.noEntry then .ok none
  else
    let slab := self.address / 2 ^ 32
    let offset := self.address % 2 ^ 32
    let blockId := if self.inWal then none else some self.blockId
    match ElementEntry.tryFromWireParts slab offset self.size blockId (!self.withoutGeneration) with
    | none =>
      let addressFits := slab ≤ maxAddressableBlockSlabId ∨ isWalResident slab
      .error (outOfRangeText slab offset (if addressFits then blockId else none))
    | some entry =>
      if entry.addressWord ≠ self.address then
        .error ("index item address " ++ hexText self.address ++
          " does not survive the split into slab " ++ toString slab ++ " and offset " ++
          toString offset)
      else .ok (some entry)

def intoItem (self : ProtoIndexItem) : Except String IndexItem := do
  let modelId ← self.model
  let entry ← self.entry
  let kind ← kindFromNumber self.kind
  .ok ⟨kind, self.routingBucket, self.blockRefKey, self.objectKey, modelId,
    if self.objectIdWide ≠ 0 then self.objectIdWide else self.objectId, entry, self.deleted⟩

end ProtoIndexItem

def slabCreated : ℤ := 1

def slabFrozen : ℤ := 2

def slabRecycled : ℤ := 4

def stateToWire : SlabCatalogState → ℤ × Bool
  | .active => (slabCreated, false)
  | .sealed => (slabFrozen, false)
  | .delayedDestroy => (slabRecycled, false)
  | .purged => (slabRecycled, true)

/-- A slab that is reserved and not yet created is read as an active one. -/
def stateFromWire (state : ℤ) (purged : Bool) : Except String SlabCatalogState :=
  if state = 0 ∨ state = slabCreated then .ok .active
  else if state = slabFrozen then .ok .sealed
  else if state = slabRecycled then .ok (if purged then .purged else .delayedDestroy)
  else .error ("unknown slab state " ++ toString state)

namespace ProtoSlabInfo

def fromEntry (entry : SlabCatalogEntry) : ProtoSlabInfo where
  slabId := entry.blockSlabId % 2 ^ 32
  totalBytes := entry.physicalBytes
  state := (stateToWire entry.state).1
  createdTimeMs := entry.createdUnixMs
  version := entry.version
  slabIdWide := if 2 ^ 32 - 1 < entry.blockSlabId then entry.blockSlabId else 0
  purged := (stateToWire entry.state).2
  updatedTimeMs := entry.updatedUnixMs
  logicalBytes := entry.logicalBytes
  firstBlockId := entry.firstBlockId
  lastBlockId := entry.lastBlockId

def intoEntry (self : ProtoSlabInfo) : Except String SlabCatalogEntry := do
  let state ← stateFromWire self.state self.purged
  .ok ⟨if self.slabIdWide ≠ 0 then self.slabIdWide else self.slabId, state, self.totalBytes,
    self.logicalBytes, self.createdTimeMs, self.updatedTimeMs, self.firstBlockId, self.lastBlockId,
    self.version⟩

end ProtoSlabInfo

namespace ProtoMetaItem

def fromMeta (item : MetaItem) : ProtoMetaItem where
  version := item.version
  startWalId := item.startWalSequence
  slabs := ⟨(file ProtoSlabInfo.slabId (item.slabs.map ProtoSlabInfo.fromEntry)).1,
    ordered_file _ _⟩
  timestampMs := item.timestampMs
  slabVersion := item.slabVersion
  overflowSlabs := (file ProtoSlabInfo.slabId (item.slabs.map ProtoSlabInfo.fromEntry)).2

def intoMeta (self : ProtoMetaItem) : Except String MetaItem := do
  let slabs ← (filed (self.slabs.1, self.overflowSlabs)).mapM ProtoSlabInfo.intoEntry
  .ok ⟨self.version, self.startWalId, self.timestampMs,
    sortByKey SlabCatalogEntry.blockSlabId slabs,
    self.slabVersion⟩

end ProtoMetaItem

/-- `prost` on the message, and `serde_json` on the states of the keys. -/
structure WireCodecs (J : Type) where
  message : Coding String ProtoIndexLog
  keyState : Coding String J

namespace WireCodecs

variable {J : Type} (K : WireCodecs J)

def fromRecord (record : IndexDeltaRecord J) : ProtoIndexLog where
  version := indexLogWireVersion
  items := record.items.map ProtoIndexItem.fromItem
  metaItem := record.metaItem.map ProtoMetaItem.fromMeta
  sequence := record.sequence
  walSequence := record.appliedWalSequence
  shardId := record.shardId
  upsert := record.upsert
  sharedObjectKey := record.sharedObjectKey
  keyStates := record.keyStates.map K.keyState.encode

def intoRecord (self : ProtoIndexLog) : Except String (IndexDeltaRecord J) := do
  let items ← self.items.mapM ProtoIndexItem.intoItem
  let keyStates ← self.keyStates.mapM K.keyState.decode
  let metaItem ← self.metaItem.mapM ProtoMetaItem.intoMeta
  .ok ⟨self.shardId, self.sequence, items, metaItem, self.walSequence, self.upsert, keyStates,
    self.sharedObjectKey⟩

def encodeDeltaRecord (record : IndexDeltaRecord J) : Bytes :=
  K.message.encode (K.fromRecord record)

def decodeDeltaRecord (bytes : Bytes) : Except String (IndexDeltaRecord J) := do
  let message ← K.message.decode bytes
  K.intoRecord message

end WireCodecs

lemma kindFromNumber_kindToNumber (kind : IndexItemKind) :
    kindFromNumber (kindToNumber kind) = .ok kind := by
  cases kind <;> rfl

/-- A generation is read back where there is a block id to derive it from. -/
def settledEntry (entry : ElementEntry) : ElementEntry :=
  { entry with hasGeneration := entry.hasGeneration && entry.blockId.isSome }

def settledItem (item : IndexItem) : IndexItem :=
  { item with entry := item.entry.map settledEntry }

lemma settledEntry_eq_iff {entry : ElementEntry} :
    settledEntry entry = entry ↔ (entry.hasGeneration → entry.blockId.isSome) := by
  obtain ⟨blockSlabId, offset, length, blockId, hasGeneration⟩ := entry
  rw [settledEntry]
  cases hasGeneration <;> simp

lemma settledItem_eq_iff {item : IndexItem} : settledItem item = item ↔
      ∀ entry, item.entry = some entry → entry.hasGeneration → entry.blockId.isSome := by
  obtain ⟨kind, routingBucket, blockRefKey, objectKey, modelId, objectId, entry, deleted⟩ := item
  rw [settledItem]
  cases entry with
  | none => simp
  | some entry => simp [settledEntry_eq_iff]

namespace ProtoIndexItem

lemma model_withEntry (wire : ProtoIndexItem) (entry : Option ElementEntry) :
    (wire.withEntry entry).model = wire.model := by
  cases entry <;> rfl

lemma model_withModel {wire : ProtoIndexItem} (hname : wire.modelName = "")
    (hnumber : wire.modelId = 0) (modelId : String) :
    (wire.withModel modelId).model = .ok modelId := by
  rw [withModel]
  cases hpos : modelIdPosition modelId with
  | some position =>
    rw [model, if_neg (not_not_intro hname), if_pos (Nat.succ_pos _), Nat.add_sub_cancel,
      modelIdNumbers_position hpos]
  | none =>
    rw [model]
    by_cases hempty : modelId = ""
    · rw [if_neg (not_not_intro hempty), if_neg (by simp [hnumber]), hempty]
    · rw [if_pos hempty]

lemma entry_withEntry {wire : ProtoIndexItem} (hnoEntry : wire.noEntry = false)
    (entry : Option ElementEntry) :
    (wire.withEntry entry).entry = .ok (entry.map settledEntry) := by
  cases entry with
  | none => rfl
  | some entry =>
    have hblockId : (if entry.logResident then none
        else some ((entry.blockId.map UInt16.toNat).getD 0)) = entry.blockId.map UInt16.toNat := by
      rw [ElementEntry.logResident]
      cases entry.blockId <;> rfl
    have hgen : (!entry.generation.isNone) = (entry.hasGeneration && entry.blockId.isSome) := by
      rw [← entry.isSome_generation, Option.not_isNone]
    have hparts := entry.tryFromWireParts_toNat entry.length.toNat (!entry.generation.isNone)
    rw [ElementEntry.narrow_toNat, hgen] at hparts
    have hword : (settledEntry entry).addressWord = entry.addressWord := rfl
    simp only [ProtoIndexItem.entry, withEntry, hnoEntry, Bool.false_eq_true, if_false,
      entry.addressWord_div, entry.addressWord_mod, hblockId, hgen, hparts]
    exact if_neg (not_not_intro hword)

lemma intoItem_fromItem (item : IndexItem) : (fromItem item).intoItem = .ok (settledItem item) := by
  have hmodel : (fromItem item).model = .ok item.modelId := by
    rw [fromItem, model_withEntry]
    exact model_withModel rfl rfl item.modelId
  have hent : (fromItem item).entry = .ok (item.entry.map settledEntry) := by
    refine entry_withEntry ?_ item.entry
    rw [withModel]
    split <;> rfl
  -- Neither the entry nor the model touches the other fields.
  have hrest : ((fromItem item).kind = kindToNumber item.kind ∧
      (fromItem item).routingBucket = item.routingBucket ∧
      (fromItem item).blockRefKey = item.blockRefKey ∧
      (fromItem item).objectKey = item.objectKey ∧ (fromItem item).deleted = item.deleted) ∧
      (fromItem item).objectIdWide = item.objectId ∧
      (fromItem item).objectId = item.objectId % 2 ^ 32 := by
    rw [fromItem, withModel]
    cases item.entry with
    | none | some entry =>
      split <;> exact ⟨⟨rfl, rfl, rfl, rfl, rfl⟩, rfl, rfl⟩
  obtain ⟨⟨hkind, hbucket, hblk, hobj, hdeleted⟩, hwide, hnarrow⟩ := hrest
  have hid : (if item.objectId ≠ 0 then item.objectId else item.objectId % 2 ^ 32) =
      item.objectId := by
    split_ifs with hzero
    · rfl
    · rw [not_not.mp hzero, Nat.zero_mod]
  rw [intoItem, hmodel, hent, hkind, kindFromNumber_kindToNumber, hbucket, hblk, hobj,
    hdeleted, hwide, hnarrow, hid]
  rfl

end ProtoIndexItem

lemma stateFromWire_stateToWire (state : SlabCatalogState) :
    stateFromWire (stateToWire state).1 (stateToWire state).2 = .ok state := by
  cases state <;> rfl

lemma ProtoSlabInfo.intoEntry_fromEntry (entry : SlabCatalogEntry) :
    (fromEntry entry).intoEntry = .ok entry := by
  have hid : (if (if 2 ^ 32 - 1 < entry.blockSlabId then entry.blockSlabId else 0) ≠ 0
      then (if 2 ^ 32 - 1 < entry.blockSlabId then entry.blockSlabId else 0)
      else entry.blockSlabId % 2 ^ 32) = entry.blockSlabId := by
    by_cases hwide : 2 ^ 32 - 1 < entry.blockSlabId
    · rw [if_pos hwide, if_pos (by omega)]
    · rw [if_neg hwide, if_neg (not_not_intro rfl), Nat.mod_eq_of_lt (by omega)]
  rw [intoEntry, fromEntry, stateFromWire_stateToWire, ok_bind, hid]

/-- The catalog in the order of the slab ids. -/
def settledMeta (item : MetaItem) : MetaItem :=
  { item with slabs := sortByKey SlabCatalogEntry.blockSlabId item.slabs }

lemma ProtoMetaItem.intoMeta_fromMeta (item : MetaItem) :
    (fromMeta item).intoMeta = .ok (settledMeta item) := by
  set slot := fun entry => (ProtoSlabInfo.fromEntry entry).slabId with hslot
  have hfiled : filed ((fromMeta item).slabs.1, (fromMeta item).overflowSlabs) =
      (filed (file slot item.slabs)).map ProtoSlabInfo.fromEntry :=
    filed_file_map ProtoSlabInfo.fromEntry item.slabs
  have hents : ((filed (file slot item.slabs)).map ProtoSlabInfo.fromEntry).mapM
      ProtoSlabInfo.intoEntry = .ok (filed (file slot item.slabs)) := by
    rw [mapM_map]
    exact (mapM_eq_ok fun entry _ => ProtoSlabInfo.intoEntry_fromEntry entry).trans
      (congrArg Except.ok (map_id _))
  -- Slabs of one id are in one slot, and there in the order of the catalog.
  have hsort : sortByKey SlabCatalogEntry.blockSlabId (filed (file slot item.slabs)) =
      sortByKey SlabCatalogEntry.blockSlabId item.slabs := by
    apply sortByKey_filed
    intro a b hab
    rw [hslot]
    dsimp only [ProtoSlabInfo.fromEntry]
    rw [hab]
  rw [intoMeta, hfiled, hents, ok_bind, hsort]
  rfl

lemma settledMeta_eq_iff {item : MetaItem} :
    settledMeta item = item ↔ KeyOrdered SlabCatalogEntry.blockSlabId item.slabs := by
  rw [← sortByKey_eq_iff]
  obtain ⟨version, startWalSequence, timestampMs, slabs, slabVersion⟩ := item
  simp [settledMeta]

/-- The record that comes back. -/
def settled {J : Type} (record : IndexDeltaRecord J) : IndexDeltaRecord J :=
  { record with
    items := record.items.map settledItem
    metaItem := record.metaItem.map settledMeta }

lemma WireCodecs.decode_encode {J : Type} (K : WireCodecs J) (record : IndexDeltaRecord J) :
    K.decodeDeltaRecord (K.encodeDeltaRecord record) = .ok (settled record) := by
  have hits : (record.items.map ProtoIndexItem.fromItem).mapM ProtoIndexItem.intoItem =
      .ok (record.items.map settledItem) := by
    rw [mapM_map]
    exact mapM_eq_ok fun item _ => ProtoIndexItem.intoItem_fromItem item
  have hstates : (record.keyStates.map K.keyState.encode).mapM K.keyState.decode =
      .ok record.keyStates := by
    rw [mapM_map]
    exact (mapM_eq_ok fun state _ => K.keyState.decode_encode state).trans
      (congrArg Except.ok (map_id _))
  have hmeta : (record.metaItem.map ProtoMetaItem.fromMeta).mapM ProtoMetaItem.intoMeta =
      .ok (record.metaItem.map settledMeta) := by
    cases record.metaItem with
    | none => rfl
    | some item =>
      change some <$> (ProtoMetaItem.fromMeta item).intoMeta = _
      rw [ProtoMetaItem.intoMeta_fromMeta]
      rfl
  rw [decodeDeltaRecord, encodeDeltaRecord, K.message.decode_encode, ok_bind, intoRecord,
    fromRecord]
  simp only [hits, hstates, hmeta, ok_bind]
  rfl

/-- A record comes back as it was if and only if its catalog is in the order of the slab ids and its
entries have a generation only beside a block id. -/
theorem WireCodecs.delta_record_reads_back_iff {J : Type} (K : WireCodecs J)
    (record : IndexDeltaRecord J) : K.decodeDeltaRecord (K.encodeDeltaRecord record) = .ok record ↔
      (∀ item, record.metaItem = some item → KeyOrdered SlabCatalogEntry.blockSlabId item.slabs) ∧
      ∀ item ∈ record.items, ∀ entry, item.entry = some entry →
        entry.hasGeneration → entry.blockId.isSome := by
  rw [K.decode_encode]
  obtain ⟨shardId, sequence, items, metaItem, applied, upsert, keyStates, shared⟩ := record
  have hitems : items.map settledItem = items ↔ ∀ item ∈ items, settledItem item = item := by
    conv_lhs => rhs; rw [← map_id items]
    exact map_inj_left
  have hmeta : metaItem.map settledMeta = metaItem ↔
      ∀ item, metaItem = some item → settledMeta item = item := by
    cases metaItem <;> simp
  simp only [settled, Except.ok.injEq, IndexDeltaRecord.mk.injEq, true_and, and_true, hitems, hmeta,
    settledItem_eq_iff, settledMeta_eq_iff]
  exact and_comm

def unaryWire : WireCodecs Bool := ⟨unary "not a message", unary "not a value"⟩

def slabWithId (blockSlabId : ℕ) : SlabCatalogEntry :=
  ⟨blockSlabId, .active, 0, 0, none, none, none, none, 0⟩

/-- An anchor whose catalog lists slab 2 before slab 1. -/
def unorderedAnchor : IndexDeltaRecord Bool :=
  ⟨1, 1, [], some ⟨1, 0, 0, [slabWithId 2, slabWithId 1], 0⟩, some 0, false, [], none⟩

theorem not_delta_record_reads_back :
    ¬unaryWire.decodeDeltaRecord (unaryWire.encodeDeltaRecord unorderedAnchor) =
      .ok unorderedAnchor := by
  rw [unaryWire.decode_encode]
  intro h
  have hmeta := congrArg IndexDeltaRecord.metaItem (Except.ok.inj h)
  have hordered := settledMeta_eq_iff.mp (Option.some.inj hmeta)
  exact absurd (rel_of_pairwise_cons hordered mem_cons_self) (by decide)

end TemporalStore.IndexLog
