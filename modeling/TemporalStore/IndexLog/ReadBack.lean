import TemporalStore.IndexLog.Payload

namespace TemporalStore.IndexLog

open Lib BlockEntry List IndexItem ElementEntry

/-- The handle that comes back. -/
def returnedHandle (blockRefKey : String) : String :=
  match parseUsize (utf8 blockRefKey) with
  | some number => toString number
  | none => blockRefKey

lemma blockRefKeyEitherShape_asNumber (blockRefKey : String) :
    blockRefKeyEitherShape (blockRefKeyAsNumber blockRefKey) = returnedHandle blockRefKey := by
  rw [blockRefKeyAsNumber, returnedHandle]
  cases parseUsize (utf8 blockRefKey) <;> rfl

lemma returnedHandle_eq_iff {blockRefKey : String} : returnedHandle blockRefKey = blockRefKey ↔
      ∀ number, parseUsize (utf8 blockRefKey) = some number → blockRefKey = toString number := by
  rw [returnedHandle]
  cases parseUsize (utf8 blockRefKey) with
  | none => simp
  | some number =>
    constructor
    · intro h other hother
      rw [← Option.some.inj hother]
      exact h.symm
    · intro h
      exact (h number rfl).symm

lemma returnedHandle_ne_empty {blockRefKey : String} (h : blockRefKey ≠ "") :
    returnedHandle blockRefKey ≠ "" := by
  rw [returnedHandle]
  cases parseUsize (utf8 blockRefKey) with
  | none => exact h
  | some number =>
    intro hempty
    have hdigits := congrArg String.toList hempty
    simp at hdigits

variable (item : IndexItem)

lemma returnedHandle_derivedBlockRefKey (entry : ElementEntry) :
    returnedHandle (item.derivedBlockRefKey entry) = item.derivedBlockRefKey entry := by
  rw [returnedHandle_eq_iff]
  intro number hparse
  have hcolon : (58 : Byte) ∈ utf8 (item.derivedBlockRefKey entry) := by
    have hone : (58 : Byte) ∈ utf8 ":" := by decide
    simp only [derivedBlockRefKey, blockRefKeyFromParts, utf8_append, mem_append, hone,
      true_or, or_true]
  exact absurd (isSome_digitValue_of_parseUsize hparse hcolon (by decide)) (by decide)

lemma modelIdEitherShape_asNumber (modelId : String) :
    modelIdEitherShape (modelIdAsNumber modelId) = .ok modelId := by
  rw [modelIdAsNumber]
  cases hpos : modelIdPosition modelId with
  | none => rfl
  | some position =>
    rw [modelIdEitherShape, modelIdNumbers_position hpos]

lemma entryOfRow_addressRow (entry : ElementEntry) :
    entryOfRow (addressRow entry) = .ok (settledEntry entry) := by
  have hslab : entry.addressWord / 2 ^ 32 % 2 ^ 32 = entry.blockSlabId.toNat := by
    rw [entry.addressWord_div, Nat.mod_eq_of_lt entry.blockSlabId.toNat_lt]
  have hagrees : ¬(entry.generation.isSome = true ∧
      entry.generation ≠ (entry.blockId.map UInt16.toNat).or none) := by
    rintro ⟨hsome, hne⟩
    rw [Option.or_none] at hne
    rw [generation] at hsome hne
    cases hbit : entry.hasGeneration with
    | false =>
      rw [hbit] at hsome
      cases hsome
    | true =>
      rw [hbit] at hne
      exact hne rfl
  have hparts := entry.tryFromWireParts_toNat entry.length.toNat entry.generation.isSome
  rw [narrow_toNat, entry.isSome_generation] at hparts
  rw [entry.isSome_generation] at hagrees
  simp only [entryOfRow, addressRow, hslab, entry.addressWord_mod, entry.isSome_generation,
    if_neg hagrees, hparts]
  rfl

def packedItem : IndexItem :=
  { settledItem item with blockRefKey := returnedHandle item.blockRefKey }

lemma itemOfRow_itemRow : itemOfRow (itemRow item) = .ok (packedItem item) := by
  have hkind : itemKindEitherShape (kindToNumber item.kind) = .ok item.kind := by
    cases item.kind <;> rfl
  have hent : (item.entry.map addressRow).mapM entryOfRow = .ok (item.entry.map settledEntry) := by
    cases item.entry with
    | none => rfl
    | some entry =>
      change some <$> entryOfRow (addressRow entry) = _
      rw [entryOfRow_addressRow]
      rfl
  simp only [itemOfRow, itemRow, hkind, hent, modelIdEitherShape_asNumber,
    blockRefKeyEitherShape_asNumber, ok_bind]
  rfl

lemma packedItem_settledItem : packedItem (settledItem item) = packedItem item := by
  have hent : (item.entry.map settledEntry).map settledEntry = item.entry.map settledEntry := by
    cases item.entry with
    | none => rfl
    | some entry => simp [settledEntry]
  rw [packedItem, packedItem, settledItem, settledItem]
  simp only [hent]

lemma deltaOfRow_deltaRow {J : Type} (record : IndexDeltaRecord J) :
    deltaOfRow (deltaRow record) = .ok { record with items := record.items.map packedItem } := by
  have hits : (record.items.map itemRow).mapM itemOfRow = .ok (record.items.map packedItem) := by
    rw [mapM_map]
    exact mapM_eq_ok fun item _ => itemOfRow_itemRow item
  rw [deltaOfRow, deltaRow, hits]
  rfl

namespace LogCodecs

variable {J : Type} (K : LogCodecs J)

variable (config : WriterConfig)

lemma encodeIndexPayload_cases (packed : Bytes) (shape : Byte) :
    K.encodeIndexPayload config packed shape =
        indexContainerByte indexLogCodecMsgpack shape :: packed ∨
      ∃ squeezed, K.squeeze packed = some squeezed ∧ K.encodeIndexPayload config packed shape =
          indexContainerByte indexLogCodecMsgpackZstd shape :: squeezed := by
  rw [encodeIndexPayload]
  split_ifs with hcomp
  · cases hsqueeze : K.squeeze packed with
    | none => exact .inl rfl
    | some squeezed =>
      dsimp only
      split_ifs with hshorter
      · exact .inr ⟨squeezed, rfl, rfl⟩
      · exact .inl rfl
  · exact .inl rfl

section

variable {α : Type} (unpack : Bytes → Except String α) (config : WriterConfig)

lemma decodeIndexPayload_encode (packed : Bytes) {shape : Byte}
    (hshape : shape = indexLogShapeWhole ∨ shape = indexLogShapeDelta ∨
      shape = indexLogShapeAnchor) :
    K.decodeIndexPayload unpack (K.encodeIndexPayload config packed shape) =
      (unpack packed).mapError .encoding := by
  have hplain : indexContainerParts (indexContainerByte indexLogCodecMsgpack shape) =
      (indexLogCodecMsgpack, shape) := by
    rcases hshape with rfl | rfl | rfl <;> rfl
  have hsque : indexContainerParts (indexContainerByte indexLogCodecMsgpackZstd shape) =
      (indexLogCodecMsgpackZstd, shape) := by
    rcases hshape with rfl | rfl | rfl <;> rfl
  rcases K.encodeIndexPayload_cases config packed shape with h | ⟨squeezed, hsqueeze, h⟩
  · rw [h, decodeIndexPayload, hplain]
    rfl
  · rw [h, decodeIndexPayload, hsque]
    change Except.mapError _ (K.unsqueeze squeezed >>= unpack) = _
    rw [K.unsqueeze_squeeze packed squeezed hsqueeze, ok_bind]

lemma decodeIndexPayload_encodeDelta (record : IndexDeltaRecord J) :
    K.decodeIndexPayload unpack (K.encodeDelta config record) = (unpack (K.delta.encode (deltaRow
        (if config.protobufEnabled then settled record else record)))).mapError .encoding := by
  rw [encodeDelta]
  split_ifs with hprot
  · change Except.mapError _ ((do
      let record ← K.decodeDeltaRecord (K.encodeDeltaRecord record)
      .ok (K.delta.encode (deltaRow record))) >>= unpack) = _
    rw [K.decode_encode, ok_bind, ok_bind]
  · exact K.decodeIndexPayload_encode unpack config _ (.inr (.inl rfl))

end

def packed (record : IndexDeltaRecord J) : IndexDeltaRecord J :=
  { record with
    items := record.items.map packedItem
    metaItem := if config.protobufEnabled then record.metaItem.map settledMeta
      else record.metaItem }

lemma decodeDelta_encodeDelta (record : IndexDeltaRecord J) :
    K.decodeDelta (K.encodeDelta config record) = .ok (packed config record) := by
  rw [decodeDelta, decodeIndexPayload_encodeDelta, K.delta.decode_encode, ok_bind,
    deltaOfRow_deltaRow, packed]
  split_ifs with hprot
  · have hits : (settled record).items.map packedItem = record.items.map packedItem := by
      rw [settled, map_map]
      exact map_congr_left fun item _ => packedItem_settledItem item
    rw [hits]
    rfl
  · rfl

lemma decodeHead_encodeDelta (record : IndexDeltaRecord J) :
    K.decodeHead (K.encodeDelta config record) =
      .ok ⟨record.shardId, record.sequence, record.appliedWalSequence⟩ := by
  rw [decodeHead, decodeIndexPayload_encodeDelta, K.head_delta]
  split_ifs <;> rfl

end LogCodecs

lemma objectKey_of_shared {items : List IndexItem} {shared : String}
    (h : sharedObjectKeyOf items = some shared) : ∀ item ∈ items, item.objectKey = shared := by
  match items, h with
  | first :: second :: rest, h =>
    rw [sharedObjectKeyOf] at h
    split_ifs at h with hall
    cases h
    intro item hitem
    rcases mem_cons.mp hitem with rfl | hitem
    · rfl
    · exact beq_iff_eq.mp (all_eq_true.mp hall item hitem)

lemma withSharedKey_packed (items : List IndexItem) : withSharedKey (sharedObjectKeyOf items)
        ((if (sharedObjectKeyOf items).isSome then items.map (·.withObjectKey "") else items).map
          packedItem) = items.map packedItem := by
  cases hshared : sharedObjectKeyOf items with
  | none => rfl
  | some shared =>
    rw [Option.isSome_some, if_pos rfl, withSharedKey, map_map, map_map]
    apply map_congr_left
    intro item hitem
    rw [← objectKey_of_shared hshared item hitem]
    rfl

section Strips

variable (stableBlockObjectId : ℕ → String → String → ℕ)

lemma objectId_restored {item : IndexItem} (shardId : ℕ) (hid : item.objectId ≠ 0)
    (stored : IndexItem) (hmodel : stored.modelId = item.modelId)
    (hkey : stored.objectKey = item.objectKey)
    (hstored : stored.objectId = (item.stripObjectIdRepeat stableBlockObjectId shardId).objectId) :
    (stored.restoreObjectIdRepeat stableBlockObjectId shardId) =
      { stored with objectId := item.objectId } := by
  rw [stripObjectIdRepeat] at hstored
  rw [restoreObjectIdRepeat]
  split_ifs at hstored with hderived
  · rw [if_pos hstored, hderived, derivedObjectId, derivedObjectId, hmodel, hkey]
  · rw [if_neg (hstored ▸ hid), ← hstored]

lemma derivedBlockRefKey_settledEntry (item : IndexItem) (entry : ElementEntry) :
    item.derivedBlockRefKey (settledEntry entry) = item.derivedBlockRefKey entry := by
  have hgen : (settledEntry entry).generation = entry.generation := by
    rw [generation, generation, settledEntry]
    cases entry.blockId <;> simp
  rw [derivedBlockRefKey, hgen]
  rfl

lemma blockRefKey_restored {item : IndexItem} (hkey : item.entry.isSome → item.blockRefKey ≠ "") :
    (packedItem item.stripBlockRefKeyRepeat).restoreBlockRefKeyRepeat = packedItem item := by
  rcases item.stripBlockRefKeyRepeat_cases with hstrip | ⟨entry, hent, hderived, hstrip⟩
  · rw [hstrip]
    apply restoreBlockRefKeyRepeat_eq_self
    intro hsome
    refine returnedHandle_ne_empty (hkey ?_)
    rw [packedItem, settledItem, Option.isSome_map] at hsome
    exact hsome
  · -- the key was left out, and is no number
    have hsome : (packedItem { item with blockRefKey := "" }).entry =
        some (settledEntry entry) := by
      rw [hent]
      rfl
    have hagain : (packedItem { item with blockRefKey := "" }).derivedBlockRefKey
        (settledEntry entry) = returnedHandle item.blockRefKey := by
      rw [derivedBlockRefKey_settledEntry, ← hderived, returnedHandle_derivedBlockRefKey]
      rfl
    rw [hstrip, restoreBlockRefKeyRepeat_of_empty rfl hsome, hagain]
    rfl

lemma restored_stripped {item : IndexItem} (shardId : ℕ) (hid : item.objectId ≠ 0)
    (hkey : item.entry.isSome → item.blockRefKey ≠ "") :
    ((packedItem (item.stripBlockRefKeyRepeat.stripObjectIdRepeat stableBlockObjectId
      shardId)).restoreObjectIdRepeat stableBlockObjectId shardId).restoreBlockRefKeyRepeat =
        packedItem item := by
  set stripped := item.stripBlockRefKeyRepeat with hstr
  have hfields : stripped.objectId = item.objectId := by
    rcases item.stripBlockRefKeyRepeat_cases with h | ⟨entry, -, -, h⟩ <;> rw [hstr, h]
  set stored := packedItem (stripped.stripObjectIdRepeat stableBlockObjectId shardId) with hstored
  have hsame : stored.modelId = stripped.modelId ∧ stored.objectKey = stripped.objectKey ∧
      { stored with objectId := stripped.objectId } = packedItem stripped := by
    rw [hstored, stripObjectIdRepeat]
    split_ifs <;> exact ⟨rfl, rfl, rfl⟩
  rw [objectId_restored stableBlockObjectId shardId (hfields ▸ hid) stored hsame.1 hsame.2.1 rfl,
    hsame.2.2]
  exact blockRefKey_restored hkey

end Strips

namespace LogCodecs

variable {J : Type} (K : LogCodecs J)

def deltaPayload (config : WriterConfig) (shardId sequence : ℕ) (items : List IndexItem)
    (keyStates : List J) (appliedWalSequence : Option ℕ) (metaItem : Option MetaItem)
    (upsert : Bool) : Bytes :=
  K.encodeDelta config (strippedRecord K.stableBlockObjectId shardId sequence items keyStates
    appliedWalSequence metaItem upsert)

lemma readDelta_deltaPayload (config : WriterConfig) (shardId sequence : ℕ)
    {items : List IndexItem} (keyStates : List J) (appliedWalSequence : Option ℕ)
    (metaItem : Option MetaItem) (upsert : Bool) (hids : ∀ item ∈ items, item.objectId ≠ 0)
    (hkeys : ∀ item ∈ items, item.entry.isSome → item.blockRefKey ≠ "") :
    (K.readDelta (K.deltaPayload config shardId sequence items keyStates appliedWalSequence metaItem
      upsert)).map (·.items) = .ok (items.map packedItem) := by
  rw [readDelta, deltaPayload, decodeDelta_encodeDelta, ok_bind, Except.map]
  simp only [restoredRecord, packed, strippedRecord, withSharedKey_packed]
  rw [map_map, map_map]
  congr 1
  apply map_congr_left
  intro item hitem
  exact restored_stripped K.stableBlockObjectId shardId (hids item hitem) (hkeys item hitem)

lemma packedItem_eq_iff {item : IndexItem} : packedItem item = item ↔
      (∀ number, parseUsize (utf8 item.blockRefKey) = some number →
        item.blockRefKey = toString number) ∧
      ∀ entry, item.entry = some entry → entry.hasGeneration → entry.blockId.isSome := by
  rw [← returnedHandle_eq_iff, ← settledItem_eq_iff]
  obtain ⟨kind, routingBucket, blockRefKey, objectKey, modelId, objectId, entry, deleted⟩ := item
  simp [packedItem, settledItem]

/-- The items of an append come back if and only if every handle that parses as a number is spelled
as that number, and every generation stands beside a block id. -/
theorem appended_items_read_back_iff (config : WriterConfig) (shardId sequence : ℕ)
    (items : List IndexItem) (keyStates : List J) (appliedWalSequence : Option ℕ)
    (metaItem : Option MetaItem) (upsert : Bool) (hids : ∀ item ∈ items, item.objectId ≠ 0)
    (hkeys : ∀ item ∈ items, item.entry.isSome → item.blockRefKey ≠ "") :
    (K.readDelta (K.deltaPayload config shardId sequence items keyStates appliedWalSequence metaItem
      upsert)).map (·.items) = .ok items ↔ ∀ item ∈ items,
      (∀ number, parseUsize (utf8 item.blockRefKey) = some number →
        item.blockRefKey = toString number) ∧
      ∀ entry, item.entry = some entry → entry.hasGeneration → entry.blockId.isSome := by
  rw [K.readDelta_deltaPayload config shardId sequence keyStates appliedWalSequence metaItem upsert
    hids hkeys, Except.ok.injEq]
  simp only [← packedItem_eq_iff]
  conv_lhs => rhs; rw [← map_id items]
  exact map_inj_left

end LogCodecs

def tombstone (blockRefKey objectKey : String) : IndexItem :=
  ⟨.block, 0, blockRefKey, objectKey, "string", 5, none, true⟩

/-- A block under its derived key, which is left out. -/
def placedItem : IndexItem :=
  ⟨.block, 0, "string:key::3:64:16:2:2", "key", "string", 5, some ⟨3, 64, 16, some 2, true⟩, false⟩

/-- A number, a text and a derived key under one object key. -/
def sharedKeyItems : List IndexItem :=
  [tombstone "7" "key", tombstone "a:b" "key", placedItem]

theorem appended_items_read_back_sharedKeyItems :
    placedItem.stripBlockRefKeyRepeat.blockRefKey = "" ∧
      (unaryLog.readDelta (unaryLog.deltaPayload plainConfig 5 1 sharedKeyItems [] none none
        true)).map (·.items) = .ok sharedKeyItems := by
  refine ⟨by decide +kernel, ?_⟩
  refine (unaryLog.appended_items_read_back_iff plainConfig 5 1 sharedKeyItems [] none none true
    (by decide) (by decide)).mpr ?_
  intro item hitem
  simp only [sharedKeyItems, mem_cons, not_mem_nil, or_false] at hitem
  refine ⟨returnedHandle_eq_iff.mp ?_, ?_⟩
  · rcases hitem with rfl | rfl | rfl <;> decide +kernel
  · rcases hitem with rfl | rfl | rfl <;> simp [tombstone, placedItem]

/-- The handle `007` comes back as `7`. -/
theorem not_appended_items_read_back :
    ¬(unaryLog.readDelta (unaryLog.deltaPayload plainConfig 5 1 [tombstone "007" "key"] [] none none
      true)).map (·.items) = .ok [tombstone "007" "key"] := by
  rw [unaryLog.readDelta_deltaPayload plainConfig 5 1 [] none none true (by simp [tombstone])
    (by simp [tombstone]), Except.ok.injEq, map_singleton]
  intro h
  have hkey : returnedHandle "007" = "007" := congrArg blockRefKey (cons.inj h).1
  exact absurd hkey (by decide)

end TemporalStore.IndexLog
