import TemporalStore.IndexLog.Wire
import TemporalStore.Lib.Text

/-! # Payloads of the served-index log (`index_log.rs`, `block_store.rs`) -/

namespace TemporalStore.IndexLog

open Lib BlockEntry

inductive TextOrNumber where
  | text (value : String)
  | number (value : ℕ)
  deriving DecidableEq, Encodable

/-- `BlockAddressWire`. -/
structure AddressRow where
  address : Option ℕ
  length : ℕ
  blockId : Option ℕ
  objectId : Option ℕ
  generation : Option ℕ
  deriving DecidableEq, Encodable

/-- `IndexItemWire`, the eleven slots. -/
structure ItemRow where
  kind : ℕ
  routingBucket : ℕ
  blockRefKey : TextOrNumber
  objectKey : String
  modelId : TextOrNumber
  objectId : ℕ
  blockId : ℕ
  address : Option AddressRow
  size : ℕ
  inLog : Bool
  deleted : Bool
  deriving DecidableEq, Encodable

structure DeltaRow (J : Type) where
  shardId : ℕ
  sequence : ℕ
  items : List ItemRow
  metaItem : Option MetaItem
  appliedWalSequence : Option ℕ
  upsert : Bool
  keyStates : List J
  sharedObjectKey : Option String
  deriving Encodable

/-- `IndexLogRecord`, with the whole index. -/
structure WholeRow (J : Type) where
  shardId : ℕ
  sequence : ℕ
  index : J
  deriving Encodable

/-- `IndexAnchorRecord`, which names an index by its digest. -/
structure AnchorRow where
  shardId : ℕ
  sequence : ℕ
  indexSha256 : Bytes
  indexLen : ℕ
  deriving Encodable

/-- What every record starts with, and the log sequence that a delta reflects. -/
structure IndexRecordHead where
  shardId : ℕ
  sequence : ℕ
  appliedWalSequence : Option ℕ
  deriving DecidableEq

def addressRow (entry : ElementEntry) : AddressRow :=
  ⟨some entry.addressWord, entry.length.toNat, entry.blockId.map UInt16.toNat, none,
    entry.generation⟩

/-- `{:?}` of an optional number. -/
def debugText : Option ℕ → String
  | none => "None"
  | some n => "Some(" ++ toString n ++ ")"

def entryOfRow (row : AddressRow) : Except String ElementEntry :=
  match row.address with
  | none => .error ("this index entry has no address word: an index written before the slab id " ++
      "and " ++
      "the offset merged spells them as two separate fields (\x60ps\x60 and \x60o\x60, or " ++
      "\x60page_segment_id\x60 and \x60offset\x60), and this binary cannot read one. Reading a " ++
      "split address as a merged word would produce a well-formed address for a different " ++
      "block, " ++
      "so it is refused. Re-dump the index with the binary that wrote it, then load it here")
  | some address =>
    let blockSlabId := address / 2 ^ 32 % 2 ^ 32
    let offset := address % 2 ^ 32
    let derived := row.blockId.or row.objectId
    if row.generation.isSome ∧ row.generation ≠ derived then
      .error ("stored address generation " ++ debugText row.generation ++
        " disagrees with block_id.or(object_id) " ++ debugText derived ++ " at slab " ++
        toString blockSlabId ++ " offset " ++ toString offset ++ ": this index was written in a " ++
        "shape this binary cannot reproduce, and loading it would recompute every page handle")
    else
      match ElementEntry.tryFromWireParts blockSlabId offset row.length row.blockId
          row.generation.isSome with
      | none =>
        let addressFits := blockSlabId ≤ maxAddressableBlockSlabId ∨ isWalResident blockSlabId
        .error (outOfRangeText blockSlabId offset (if addressFits then row.blockId else none))
      | some entry => .ok entry

/-- A handle that parses as a number is packed as the number. -/
def blockRefKeyAsNumber (value : String) : TextOrNumber :=
  match parseUsize (utf8 value) with
  | some number => .number number
  | none => .text value

def blockRefKeyEitherShape : TextOrNumber → String
  | .text value => value
  | .number value => toString value

def modelIdAsNumber (value : String) : TextOrNumber :=
  match modelIdPosition value with
  | some index => .number index
  | none => .text value

def modelIdEitherShape : TextOrNumber → Except String String
  | .text value => .ok value
  | .number value =>
    match modelIdNumbers[value]? with
    | some name => .ok name
    | none => .error ("unknown model number " ++ toString value)

def itemKindEitherShape : ℕ → Except String IndexItemKind
  | 0 => .ok .block
  | 1 => .ok .object
  | 2 => .ok .metaItem
  | other => .error ("unknown item kind number " ++ toString other)

/-- The size is never written: it is the length of the address. -/
def itemRow (item : IndexItem) : ItemRow where
  kind := kindToNumber item.kind
  routingBucket := item.routingBucket
  blockRefKey := blockRefKeyAsNumber item.blockRefKey
  objectKey := item.objectKey
  modelId := modelIdAsNumber item.modelId
  objectId := item.objectId
  blockId := ((item.entry.bind ElementEntry.blockId).map UInt16.toNat).getD 0
  address := item.entry.map addressRow
  size := 0
  inLog := (item.entry.map ElementEntry.logResident).getD false
  deleted := item.deleted

/-- The slots that repeat the address are only counted where they disagree with it. -/
def itemOfRow (row : ItemRow) : Except String IndexItem := do
  let kind ← itemKindEitherShape row.kind
  let modelId ← modelIdEitherShape row.modelId
  let entry ← row.address.mapM entryOfRow
  .ok ⟨kind, row.routingBucket, blockRefKeyEitherShape row.blockRefKey, row.objectKey, modelId,
    row.objectId, entry, row.deleted⟩

def deltaRow {J : Type} (record : IndexDeltaRecord J) : DeltaRow J :=
  ⟨record.shardId, record.sequence, record.items.map itemRow, record.metaItem,
    record.appliedWalSequence, record.upsert, record.keyStates, record.sharedObjectKey⟩

def deltaOfRow {J : Type} (row : DeltaRow J) : Except String (IndexDeltaRecord J) := do
  let items ← row.items.mapM itemOfRow
  .ok ⟨row.shardId, row.sequence, items, row.metaItem, row.appliedWalSequence, row.upsert,
    row.keyStates, row.sharedObjectKey⟩

inductive IndexLogError where
  | json (message : String)
  | corruption (message : String)
  | encoding (message : String)
  /-- No vector holds so many bytes. -/
  | capacity
  deriving DecidableEq

def indexContainerByte (codec shape : Byte) : Byte := (codec <<< 4) ||| (shape &&& 0x0f)

def indexContainerParts (byte : Byte) : Byte × Byte := (byte >>> 4, byte &&& 0x0f)

def indexLogCodecMsgpack : Byte := 1

def indexLogCodecMsgpackZstd : Byte := 2

def indexLogCodecProtobuf : Byte := 3

def indexLogShapeWhole : Byte := 0

def indexLogShapeDelta : Byte := 1

def indexLogShapeAnchor : Byte := 2

/-- Which shape a payload says it holds. -/
def indexPayloadShape : Bytes → Option Byte
  | [] => none
  | container :: _ => some (indexContainerParts container).2

/-- The switches of the writer, read from the environment. -/
structure WriterConfig where
  protobufEnabled : Bool
  compressionEnabled : Bool
  compressionMinBytes : ℕ

/-- The libraries below the log: `rmp_serde` on the rows, `zstd`, and two hashes. A row that is read
as the start of a row gives the first values of it. An anchor is not read as a delta: it has a
digest where a delta has its items. A compressed frame starts with the magic of `zstd`. -/
structure LogCodecs (J : Type) extends WireCodecs J where
  delta : Coding String (DeltaRow J)
  whole : Coding String (WholeRow J)
  anchor : Coding String AnchorRow
  head : Bytes → Except String IndexRecordHead
  head_delta : ∀ row, head (delta.encode row) =
    .ok ⟨row.shardId, row.sequence, row.appliedWalSequence⟩
  head_whole : ∀ row, head (whole.encode row) = .ok ⟨row.shardId, row.sequence, none⟩
  head_anchor : ∀ row, head (anchor.encode row) = .ok ⟨row.shardId, row.sequence, none⟩
  delta_anchor : ∀ row, ∃ message, delta.decode (anchor.encode row) = .error message
  squeeze : Bytes → Option Bytes
  unsqueeze : Bytes → Except String Bytes
  unsqueeze_squeeze : ∀ plain squeezed, squeeze plain = some squeezed →
    unsqueeze squeezed = .ok plain
  squeeze_head : ∀ plain squeezed, squeeze plain = some squeezed → squeezed.head? = some 0x28
  sha256 : Bytes → Bytes
  stableBlockObjectId : ℕ → String → String → ℕ

namespace LogCodecs

variable {J : Type} (K : LogCodecs J)

/-- A packed record is compressed where that makes it shorter. -/
def encodeIndexPayload (config : WriterConfig) (packed : Bytes) (shape : Byte) : Bytes :=
  let plain := indexContainerByte indexLogCodecMsgpack shape :: packed
  if config.compressionEnabled ∧ config.compressionMinBytes ≤ packed.length then
    match K.squeeze packed with
    | some squeezed =>
      if squeezed.length < packed.length then
        indexContainerByte indexLogCodecMsgpackZstd shape :: squeezed
      else plain
    | none => plain
  else plain

def encodeDelta (config : WriterConfig) (record : IndexDeltaRecord J) : Bytes :=
  if config.protobufEnabled then
    indexContainerByte indexLogCodecProtobuf indexLogShapeDelta :: K.encodeDeltaRecord record
  else K.encodeIndexPayload config (K.delta.encode (deltaRow record)) indexLogShapeDelta

/-- A message is packed again as a row, so that whatever reads rows reads it. -/
def unpackedBody (codec shape : Byte) (body : Bytes) : Except String Bytes :=
  if codec = indexLogCodecProtobuf then
    if shape ≠ indexLogShapeDelta then
      .error ("the protobuf codec carries delta records only, not shape " ++ toString shape.toNat)
    else do
      let record ← K.decodeDeltaRecord body
      .ok (K.delta.encode (deltaRow record))
  else if codec = indexLogCodecMsgpack then .ok body
  else if codec = indexLogCodecMsgpackZstd then K.unsqueeze body
  else .error ("unknown index-log payload codec " ++ toString codec.toNat)

def decodeIndexPayload {α : Type} (unpack : Bytes → Except String α) :
    Bytes → Except IndexLogError α
  | [] => .error (.encoding "index-log record has no container byte")
  | container :: body =>
    let (codec, shape) := indexContainerParts container
    (K.unpackedBody codec shape body >>= unpack).mapError .encoding

def decodeHead : Bytes → Except IndexLogError IndexRecordHead := K.decodeIndexPayload K.head

def decodeDelta : Bytes → Except IndexLogError (IndexDeltaRecord J) :=
  K.decodeIndexPayload fun packed => K.delta.decode packed >>= deltaOfRow

/-- One record as the fold reads it. -/
def readDelta (payload : Bytes) : Except IndexLogError (IndexDeltaRecord J) := do
  let record ← K.decodeDelta payload
  .ok (restoredRecord K.stableBlockObjectId record)

end LogCodecs

inductive AnyRow where
  | delta (row : DeltaRow Bool)
  | whole (row : WholeRow Bool)
  | anchor (row : AnchorRow)
  deriving Encodable

/-- Rows of one shape out of rows of any shape. -/
def rowsOf {α : Type} (rows : Coding String AnyRow) (put : α → AnyRow)
    (get : AnyRow → Except String α) (h : ∀ row, get (put row) = .ok row) : Coding String α where
  encode row := rows.encode (put row)
  decode bytes := rows.decode bytes >>= get
  decode_encode row := by rw [rows.decode_encode, ok_bind, h]

def AnyRow.getDelta : AnyRow → Except String (DeltaRow Bool)
  | .delta row => .ok row
  | _ => .error "invalid type"

def AnyRow.getWhole : AnyRow → Except String (WholeRow Bool)
  | .whole row => .ok row
  | _ => .error "invalid type"

def AnyRow.getAnchor : AnyRow → Except String AnchorRow
  | .anchor row => .ok row
  | _ => .error "invalid type"

def AnyRow.head : AnyRow → IndexRecordHead
  | .delta row => ⟨row.shardId, row.sequence, row.appliedWalSequence⟩
  | .whole row => ⟨row.shardId, row.sequence, none⟩
  | .anchor row => ⟨row.shardId, row.sequence, none⟩

/-- The libraries with a given codec for the rows. -/
def rowLog (rows : Coding String AnyRow) : LogCodecs Bool where
  toWireCodecs := unaryWire
  delta := rowsOf rows .delta AnyRow.getDelta fun _ => rfl
  whole := rowsOf rows .whole AnyRow.getWhole fun _ => rfl
  anchor := rowsOf rows .anchor AnyRow.getAnchor fun _ => rfl
  head bytes := AnyRow.head <$> rows.decode bytes
  head_delta row := congrArg (AnyRow.head <$> ·) (rows.decode_encode (.delta row))
  head_whole row := congrArg (AnyRow.head <$> ·) (rows.decode_encode (.whole row))
  head_anchor row := congrArg (AnyRow.head <$> ·) (rows.decode_encode (.anchor row))
  delta_anchor row :=
    ⟨"invalid type", congrArg (· >>= AnyRow.getDelta) (rows.decode_encode (.anchor row))⟩
  squeeze _ := none
  unsqueeze _ := .error "not compressed"
  unsqueeze_squeeze _ _ h := by cases h
  squeeze_head _ _ h := by cases h
  sha256 _ := []
  stableBlockObjectId shardId _ _ := shardId

def unaryLog : LogCodecs Bool := rowLog (unary "not a row")

def plainConfig : WriterConfig := ⟨false, false, 256⟩

end TemporalStore.IndexLog
