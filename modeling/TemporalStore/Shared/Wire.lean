import TemporalStore.Lib.Keyed
import TemporalStore.Lib.Layout
import TemporalStore.Lib.Stream
import TemporalStore.Lib.Word
import TemporalStore.Block.Record

/-! # The bytes of the shared log (`shared_store.rs`) -/

namespace TemporalStore.Shared.Wire

open Lib LogFraming List

inductive WireError where
  | truncatedFrameLength
  /-- A frame that would be taken for a container. -/
  | frameReachesCeiling (len : ℕ)
  | frameRangeMismatch
  | truncatedFramePayload
  | checksumMismatch
  | unsupportedFrameFormat (format : UInt32)
  | unsupportedCommandEncoding (encoding : UInt32)
  /-- `wal_command_payload` of a command without a protobuf encoding. -/
  | commandNotEncodable
  | undecodable
  | truncatedContainerLength
  | truncatedContainerBody
  | containerRangeMismatch
  | unsupportedBatchFormat (format : UInt32)
  | containerHoldsNoIndex (walIndex : UInt64)
  | truncatedMetadataLength
  | truncatedMetadataPayload
  | objectNotFound
  | rangeExceedsObject
  | invalidMetadataRange (walIndex : UInt64)
  | metadataBytesMismatch (walIndex : UInt64)
  | runReadShort
  | outsideItsRun (walIndex : UInt64)
  | pointsElsewhere (shardId walIndex : UInt64)
  /-- `ReplayGap` -/
  | replayGap (expected actual : UInt64)
  /-- An item that `wal_proto` panics on. -/
  | panicked
  /-- A loop of the model ran out of fuel. -/
  | fuel
  deriving DecidableEq

/-- A block carried by an entry. The message of one has the same fields. -/
structure StagedBlock where
  objectId : UInt64
  bytes : Bytes
  /-- The name of the element, as text. -/
  elementName : Option Bytes
  deriving DecidableEq

/-- An entry of the log: an operation, or the results of one. -/
structure WalEntry (κ ι : Type) where
  shardId : UInt64
  walIndex : UInt64
  command : Option κ
  stagedBlocks : List StagedBlock
  outcomes : List ι
  deriving DecidableEq

/-- The names of the objects of a shard's log. -/
inductive ObjectKey where
  /-- `wal_key` -/
  | walEntry (shardId walIndex : UInt64)
  /-- `wal_blob_key` -/
  | walBlob (shardId : UInt64)
  /-- `wal_offset_index_blob_key` -/
  | walOffsetIndex (shardId : UInt64)
  deriving DecidableEq

structure WalFrameProto (π : Type) where
  shardId : UInt64
  walIndex : UInt64
  commandPayload : Bytes
  commandByteSize : UInt64
  commandSha256 : Bytes
  commandEncoding : UInt32
  stagedBlocks : List StagedBlock
  items : List π
  commandDigest : Bytes
  frameFormat : UInt32
  commandCrc32c : UInt32

structure WalBatchEntryProto (π : Type) where
  commandPayload : Bytes
  commandCrc32c : UInt32
  commandEncodingPlusOne : UInt32
  walIndexPlusOne : UInt64
  stagedBlocks : List StagedBlock
  items : List π

structure WalBatchProto (π : Type) where
  batchFormat : UInt32
  shardId : UInt64
  firstWalIndex : UInt64
  commandEncoding : UInt32
  entries : List (WalBatchEntryProto π)

structure WalOffsetMetadataProto where
  shardId : UInt64
  walIndex : UInt64
  /-- `none` is the empty text. -/
  walBlobKey : Option ObjectKey
  walBlobStartOffset : UInt64
  walBlobEndOffset : UInt64
  walBlobBytesWritten : UInt64
  walBlobObjectLength : UInt64
  commandByteSize : UInt64
  commandEncoding : UInt32
  walBlobPhysicalSlabCount : UInt64
  walBlobFirstPhysicalOffset : Option UInt64

/-- What the log takes from outside: the protobuf of its messages and the payload of a command, each
with its round trip, the items of a record, and the digest of older frames. -/
structure LogCodec (κ ι π : Type) where
  /-- `wal_command_payload` -/
  commandPayload : κ → Except WireError Bytes
  /-- `v1::Command::decode` and `sdk_command_to_types` -/
  sdkCommand : Bytes → Except WireError κ
  /-- `serde_json::from_slice`, for logs of older builds -/
  jsonCommand : Bytes → Except WireError κ
  /-- The first of `command_object_keys` -/
  commandObjectKey : κ → Option String
  itemToProto : ι → UInt64 → Option ℕ → Option String → Except WireError π
  itemFromProto : π → UInt64 → Option ℕ → Option String → Except WireError ι
  sha256Hex : Bytes → Bytes
  frame : Coding WireError (WalFrameProto π)
  batch : Coding WireError (WalBatchProto π)
  offsetMetadata : Coding WireError WalOffsetMetadataProto
  sdkCommand_commandPayload :
    ∀ c payload, commandPayload c = .ok payload → sdkCommand payload = .ok c
  /-- Ten numbers of at most eleven bytes each, and no text. -/
  offsetMetadata_length : ∀ m : WalOffsetMetadataProto, m.walBlobKey = none →
    (offsetMetadata.encode m).length < 2 ^ 32

variable {κ ι π : Type}

def commandEncodingJsonSerde : UInt32 := 0

def commandEncodingSdkProto : UInt32 := 1

/-- The length that a carried block implies for its address. -/
def impliedLength (items : ℕ) (stagedBlocks : List StagedBlock) : Option ℕ :=
  match items, stagedBlocks with
  | 1, [block] => some (block.bytes.length + Block.blockRecordHeaderLen)
  | _, _ => none

namespace LogCodec

variable (codec : LogCodec κ ι π)

def commandKey (command : Option κ) : Option String := command.bind codec.commandObjectKey

/-- The payload of an entry's command and the tag that says how it is encoded. -/
def commandParts (entry : WalEntry κ ι) : Except WireError (Bytes × UInt32) :=
  match entry.command with
  -- no operation to carry: the entry states results instead
  | none => .ok ([], commandEncodingJsonSerde)
  | some command => do
    let payload ← codec.commandPayload command
    .ok (payload, commandEncodingSdkProto)

def itemsToProto (entry : WalEntry κ ι) : Except WireError (List π) :=
  entry.outcomes.mapM fun item => codec.itemToProto item entry.shardId
    (impliedLength entry.outcomes.length entry.stagedBlocks) (codec.commandKey entry.command)

def walCommandFromPayload (payload : Bytes) (encoding : UInt32) (hasItems : Bool) :
    Except WireError (Option κ) :=
  if encoding = commandEncodingJsonSerde ∧ payload = [] ∧ hasItems then .ok none
  else if encoding = commandEncodingSdkProto then do
    let command ← codec.sdkCommand payload
    .ok (some command)
  else if encoding = commandEncodingJsonSerde then do
    let command ← codec.jsonCommand payload
    .ok (some command)
  else .error (.unsupportedCommandEncoding encoding)

def walEntryFromParts (shardId walIndex : UInt64) (command : Option κ)
    (stagedBlocks : List StagedBlock) (items : List π) : Except WireError (WalEntry κ ι) := do
  let outcomes ← items.mapM fun item => codec.itemFromProto item shardId
    (impliedLength items.length stagedBlocks) (codec.commandKey command)
  .ok ⟨shardId, walIndex, command, stagedBlocks, outcomes⟩

end LogCodec

/-- An entry says something: an operation or results. -/
def WalEntry.Carries (entry : WalEntry κ ι) : Prop := entry.command ≠ none ∨ entry.outcomes ≠ []

/-- An entry that can come back as it is: it says something, and each of its results that is written
is read as it was. -/
structure LogCodec.ReadsBack (codec : LogCodec κ ι π) (entry : WalEntry κ ι) : Prop where
  carries : entry.Carries
  items : ∀ item ∈ entry.outcomes, ∀ message,
    codec.itemToProto item entry.shardId (impliedLength entry.outcomes.length entry.stagedBlocks)
      (codec.commandKey entry.command) = .ok message →
    codec.itemFromProto message entry.shardId
      (impliedLength entry.outcomes.length entry.stagedBlocks) (codec.commandKey entry.command) =
        .ok item

section Parts

variable (codec : LogCodec κ ι π)

lemma walEntryFromParts_itemsToProto {entry : WalEntry κ ι} {items : List π}
    (h : codec.itemsToProto entry = .ok items) (hback : codec.ReadsBack entry) :
    codec.walEntryFromParts entry.shardId entry.walIndex entry.command entry.stagedBlocks items =
      .ok entry := by
  have hitems : items.mapM (fun item => codec.itemFromProto item entry.shardId
      (impliedLength items.length entry.stagedBlocks) (codec.commandKey entry.command)) =
        .ok entry.outcomes := by
    rw [length_of_mapM_eq_ok h]
    conv_rhs => rw [← map_id entry.outcomes]
    exact mapM_of_mapM_eq_ok h hback.items
  rw [LogCodec.walEntryFromParts, hitems]
  rfl

section

variable {entry : WalEntry κ ι} {payload : Bytes} {encoding : UInt32}
    (h : codec.commandParts entry = .ok (payload, encoding))
include h

lemma commandParts_encoding : encoding = 0 ∨ encoding = 1 := by
  rw [LogCodec.commandParts] at h
  split at h
  · cases h
    exact .inl rfl
  · obtain ⟨_, _, h⟩ := bind_eq_ok h
    cases h
    exact .inr rfl

/-- An operation is read back from its payload, and the absence of one from an empty payload beside
results. -/
lemma walCommandFromPayload_commandParts (hcarr : entry.Carries) {items : List π}
    (hitems : codec.itemsToProto entry = .ok items) :
    codec.walCommandFromPayload payload encoding (!items.isEmpty) = .ok entry.command := by
  have hlen : items.length = entry.outcomes.length := length_of_mapM_eq_ok hitems
  rw [LogCodec.commandParts] at h
  rw [LogCodec.walCommandFromPayload]
  split at h
  · next hnone =>
    cases h
    have hits : entry.outcomes ≠ [] := hcarr.resolve_left (not_not.mpr hnone)
    have hne : items ≠ [] := by
      rw [← length_pos_iff, hlen]
      exact length_pos_iff.mpr hits
    rw [if_pos ⟨rfl, rfl, by simpa using hne⟩, hnone]
  · next c hsome =>
    obtain ⟨p, hp, h⟩ := bind_eq_ok h
    cases h
    have hdec := codec.sdkCommand_commandPayload c payload hp
    rw [if_neg (fun h => absurd h.1 (by decide)), if_pos rfl, hdec, ok_bind, hsome]

end

end Parts

def frameFormatHexDigest : UInt32 := 0

def frameFormatRawDigest : UInt32 := 2

def frameFormatCrc32c : UInt32 := 3

def frameFormatNoSize : UInt32 := 4

def frameLengthCeiling : ℕ := 0xff000000

def batchContainerMarker : Byte := 0xff

def hexDigitValue (b : Byte) : Option ℕ :=
  if 48 ≤ b.toNat ∧ b.toNat ≤ 57 then some (b.toNat - 48)
  else if 97 ≤ b.toNat ∧ b.toNat ≤ 102 then some (b.toNat - 87)
  else if 65 ≤ b.toNat ∧ b.toNat ≤ 70 then some (b.toNat - 55)
  else none

/-- `u8::from_str_radix` of two characters in base 16, which takes a plus sign for a sign. -/
def parseHexPair (a b : Byte) : Option Byte :=
  if a = 43 then (hexDigitValue b).map UInt8.ofNat
  else do
    let high ← hexDigitValue a
    let low ← hexDigitValue b
    some (UInt8.ofNat (16 * high + low))

def parseHexPairs : Bytes → Option Bytes
  | a :: b :: rest => do
    let byte ← parseHexPair a b
    let bytes ← parseHexPairs rest
    some (byte :: bytes)
  | _ => some []

def hexEncode (bytes : Bytes) : Bytes := bytes.flatMap fun b => hexBytes 2 b.toNat

/-- A digest in hexadecimal as its own bytes, if these give the same text back. -/
def digestTextToBytes (digest : Bytes) : Option Bytes :=
  if digest = [] ∨ digest.length % 2 ≠ 0 then none
  else (parseHexPairs digest).filter fun bytes => hexEncode bytes = digest

/-- The digest of a payload in the field that the format names. -/
structure PayloadCheck where
  sha256 : Bytes
  digest : Bytes
  crc32c : UInt32
  frameFormat : UInt32

/-- `[4-byte big-endian length][body]` -/
def lengthPrefixed (body : Bytes) : Bytes := beBytes 4 body.length ++ body

namespace LogCodec

variable (codec : LogCodec κ ι π)

/-- How a frame checks its payload. A format that is not known is written as the oldest one. -/
def payloadCheck (payload : Bytes) (frameFormat : UInt32) : PayloadCheck :=
  let hexDigest : PayloadCheck := ⟨codec.sha256Hex payload, [], 0, frameFormatHexDigest⟩
  if frameFormat = frameFormatNoSize then ⟨[], [], crc32c payload, frameFormatNoSize⟩
  else if frameFormat = frameFormatCrc32c then ⟨[], [], crc32c payload, frameFormatCrc32c⟩
  else if frameFormat = frameFormatRawDigest then
    match digestTextToBytes (codec.sha256Hex payload) with
    | some raw => ⟨[], raw, 0, frameFormatRawDigest⟩
    | none => hexDigest
  else hexDigest

def frameProto (entry : WalEntry κ ι) (frameFormat : UInt32) :
    Except WireError (WalFrameProto π) := do
  let (payload, encoding) ← codec.commandParts entry
  let check := codec.payloadCheck payload frameFormat
  let items ← codec.itemsToProto entry
  .ok
    { shardId := entry.shardId
      walIndex := entry.walIndex
      commandPayload := payload
      commandByteSize :=
        if check.frameFormat = frameFormatNoSize then 0 else UInt64.ofNat payload.length
      commandSha256 := check.sha256
      commandEncoding := encoding
      stagedBlocks := entry.stagedBlocks
      items := items
      commandDigest := check.digest
      frameFormat := check.frameFormat
      commandCrc32c := check.crc32c }

def encodeWalProtoFrame (entry : WalEntry κ ι) (frameFormat : UInt32) : Except WireError Bytes := do
  let frame ← codec.frameProto entry frameFormat
  .ok (lengthPrefixed (codec.frame.encode frame))

def verifyCrc32c (bytes : Bytes) (declaredSize : Option UInt64) (expected : UInt32) :
    Except WireError Unit :=
  if declaredSize.any (· ≠ UInt64.ofNat bytes.length) ∨ crc32c bytes ≠ expected then
    .error .checksumMismatch
  else .ok ()

def verifyChecksum (bytes : Bytes) (expectedSize : UInt64) (expectedSha256 : Bytes) :
    Except WireError Unit :=
  if UInt64.ofNat bytes.length ≠ expectedSize ∨ codec.sha256Hex bytes ≠ expectedSha256 then
    .error .checksumMismatch
  else .ok ()

/-- The check that a frame declares for its payload. -/
def verifyFrame (frame : WalFrameProto π) : Except WireError Unit :=
  if frame.frameFormat = frameFormatHexDigest then
    codec.verifyChecksum frame.commandPayload frame.commandByteSize frame.commandSha256
  else if frame.frameFormat = frameFormatRawDigest then
    codec.verifyChecksum frame.commandPayload frame.commandByteSize (hexEncode frame.commandDigest)
  else if frame.frameFormat = frameFormatCrc32c then
    verifyCrc32c frame.commandPayload (some frame.commandByteSize) frame.commandCrc32c
  else if frame.frameFormat = frameFormatNoSize then
    verifyCrc32c frame.commandPayload none frame.commandCrc32c
  else .error (.unsupportedFrameFormat frame.frameFormat)

def decodeWalProtoFrameExact (bytes : Bytes) : Except WireError (WalEntry κ ι) :=
  if bytes.length < 4 then .error .truncatedFrameLength
  else
    let len := beNat (bytes.take 4)
    if frameLengthCeiling ≤ len then .error (.frameReachesCeiling len)
    else if bytes.length ≠ len + 4 then .error .frameRangeMismatch
    else do
      let frame ← codec.frame.decode (bytes.drop 4)
      codec.verifyFrame frame
      let command ← codec.walCommandFromPayload frame.commandPayload frame.commandEncoding
        (!frame.items.isEmpty)
      codec.walEntryFromParts frame.shardId frame.walIndex command frame.stagedBlocks frame.items

end LogCodec

def batchFormatHoisted : UInt32 := 1

def batchContainerMaxBody : ℕ := 0x00ffffff

/-- The index that the header implies for the entry at a position. -/
def impliedIndex (firstWalIndex : UInt64) (position : ℕ) : UInt64 :=
  UInt64.ofNat (saturatingAdd firstWalIndex.toNat position)

def walBatchEntryIndex (container : WalBatchProto π) (position : ℕ) (entry : WalBatchEntryProto π) :
    UInt64 :=
  if entry.walIndexPlusOne = 0 then impliedIndex container.firstWalIndex position
  else entry.walIndexPlusOne - 1

def walBatchEntryEncoding (container : WalBatchProto π) (entry : WalBatchEntryProto π) : UInt32 :=
  if entry.commandEncodingPlusOne = 0 then container.commandEncoding
  else entry.commandEncodingPlusOne - 1

def isWalBatchContainer (bytes : Bytes) : Bool := bytes.head? = some batchContainerMarker

def walBatchContainerBodyLen (bytes : Bytes) : Except WireError ℕ :=
  if bytes.length < 4 then .error .truncatedContainerLength
  else .ok (beNat ((bytes.drop 1).take 3))

namespace LogCodec

variable (codec : LogCodec κ ι π)

/-- One entry of a container: a zero for what the header implies. -/
def packEntry (firstWalIndex : UInt64) (headerEncoding : UInt32) (position : ℕ)
    (entry : WalEntry κ ι) : Except WireError (WalBatchEntryProto π) := do
  let (payload, encoding) ← codec.commandParts entry
  let items ← codec.itemsToProto entry
  .ok
    { commandPayload := payload
      commandCrc32c := crc32c payload
      commandEncodingPlusOne :=
        if encoding = headerEncoding then 0
        else UInt32.ofNat (min (encoding.toNat + 1) (2 ^ 32 - 1))
      walIndexPlusOne :=
        if entry.walIndex = impliedIndex firstWalIndex position then 0
        else UInt64.ofNat (saturatingAdd entry.walIndex.toNat 1)
      stagedBlocks := entry.stagedBlocks
      items := items }

/-- A whole batch as one record, or `none` if it does not fit in one. -/
def encodeWalBatchContainer : List (WalEntry κ ι) → Except WireError (Option Bytes)
  | [] => .ok none
  | first :: rest => do
    let (_, headerEncoding) ← codec.commandParts first
    let packed ← (first :: rest).zipIdx.mapM fun x =>
      codec.packEntry first.walIndex headerEncoding x.2 x.1
    let body := codec.batch.encode
      { batchFormat := batchFormatHoisted
        shardId := first.shardId
        firstWalIndex := first.walIndex
        commandEncoding := headerEncoding
        entries := packed }
    .ok (if batchContainerMaxBody < body.length then none
      else some (batchContainerMarker :: (beBytes 3 body.length ++ body)))

def decodeWalBatchContainerHeader (body : Bytes) : Except WireError (WalBatchProto π) := do
  let container ← codec.batch.decode body
  if container.batchFormat ≠ batchFormatHoisted then
    .error (.unsupportedBatchFormat container.batchFormat)
  else .ok container

def walBatchEntryToRecord (container : WalBatchProto π) (position : ℕ)
    (entry : WalBatchEntryProto π) : Except WireError (WalEntry κ ι) := do
  verifyCrc32c entry.commandPayload none entry.commandCrc32c
  let command ← codec.walCommandFromPayload entry.commandPayload
    (walBatchEntryEncoding container entry) (!entry.items.isEmpty)
  codec.walEntryFromParts container.shardId (walBatchEntryIndex container position entry) command
    entry.stagedBlocks entry.items

def decodeWalBatchContainerBody (body : Bytes) : Except WireError (List (WalEntry κ ι)) := do
  let container ← codec.decodeWalBatchContainerHeader body
  container.entries.zipIdx.mapM fun x => codec.walBatchEntryToRecord container x.2 x.1

def decodeWalBatchContainerEntryExact (bytes : Bytes) (walIndex : UInt64) :
    Except WireError (WalEntry κ ι) := do
  let len ← walBatchContainerBodyLen bytes
  if bytes.length ≠ len + 4 then .error .containerRangeMismatch
  else
    let container ← codec.decodeWalBatchContainerHeader (bytes.drop 4)
    match container.entries.zipIdx.find?
      fun x => walBatchEntryIndex container x.2 x.1 = walIndex with
    | none => .error (.containerHoldsNoIndex walIndex)
    | some x => codec.walBatchEntryToRecord container x.2 x.1

/-- The next record of the log object, whichever shape it has. -/
def readWalRecord (bytes : Bytes) : Except WireError (Option Bytes) :=
  if bytes = [] then .ok none
  else if isWalBatchContainer bytes then do
    let len ← walBatchContainerBodyLen bytes
    if bytes.length - 4 < len then .error .truncatedContainerBody
    else .ok (some (bytes.take (4 + len)))
  else if bytes.length < 4 then .error .truncatedFrameLength
  else
    let len := beNat (bytes.take 4)
    if bytes.length - 4 < len then .error .truncatedFramePayload
    else .ok (some (bytes.take (4 + len)))

def decodeWalRecord (record : Bytes) : Except WireError (List (WalEntry κ ι)) :=
  if isWalBatchContainer record then codec.decodeWalBatchContainerBody (record.drop 4)
  else do
    let entry ← codec.decodeWalProtoFrameExact record
    .ok [entry]

/-- The entry of a record that an index names. -/
def decodeWalRecordEntry (record : Bytes) (walIndex : UInt64) : Except WireError (WalEntry κ ι) :=
  if isWalBatchContainer record then codec.decodeWalBatchContainerEntryExact record walIndex
  else codec.decodeWalProtoFrameExact record

def decodeWalProtoBlob (bytes : Bytes) : Except WireError (List (WalEntry κ ι)) := do
  match ← walk readWalRecord codec.decodeWalRecord (bytes.length + 1) 0 bytes with
  | none => .error .fuel
  | some records => .ok (records.map Prod.snd).flatten

end LogCodec

structure WalOffsetMetadata where
  shardId : UInt64
  walIndex : UInt64
  walBlobKey : ObjectKey
  walBlobStartOffset : UInt64
  walBlobEndOffset : UInt64
  walBlobBytesWritten : UInt64
  walBlobObjectLength : UInt64
  walBlobPhysicalSlabCount : UInt64
  walBlobFirstPhysicalOffset : Option UInt64
  commandByteSize : UInt64
  commandEncoding : UInt32
  deriving DecidableEq

/-- The message of an offset index frame. The key of the shard's own log is left out. -/
def WalOffsetMetadata.toProto (m : WalOffsetMetadata) (derivedBlobKey : ObjectKey) :
    WalOffsetMetadataProto where
  shardId := m.shardId
  walIndex := m.walIndex
  walBlobKey := if m.walBlobKey = derivedBlobKey then none else some m.walBlobKey
  walBlobStartOffset := m.walBlobStartOffset
  walBlobEndOffset := m.walBlobEndOffset
  walBlobBytesWritten := m.walBlobBytesWritten
  walBlobObjectLength := m.walBlobObjectLength
  commandByteSize := m.commandByteSize
  commandEncoding := m.commandEncoding
  walBlobPhysicalSlabCount := m.walBlobPhysicalSlabCount
  walBlobFirstPhysicalOffset := m.walBlobFirstPhysicalOffset

def WalOffsetMetadata.fromProto (proto : WalOffsetMetadataProto) (derivedBlobKey : ObjectKey) :
    WalOffsetMetadata where
  shardId := proto.shardId
  walIndex := proto.walIndex
  walBlobKey := proto.walBlobKey.getD derivedBlobKey
  walBlobStartOffset := proto.walBlobStartOffset
  walBlobEndOffset := proto.walBlobEndOffset
  walBlobBytesWritten := proto.walBlobBytesWritten
  walBlobObjectLength := proto.walBlobObjectLength
  walBlobPhysicalSlabCount := proto.walBlobPhysicalSlabCount
  walBlobFirstPhysicalOffset := proto.walBlobFirstPhysicalOffset
  commandByteSize := proto.commandByteSize
  commandEncoding := proto.commandEncoding

def readMetadataFrame (bytes : Bytes) : Except WireError (Option Bytes) :=
  if bytes = [] then .ok none
  else if bytes.length < 4 then .error .truncatedMetadataLength
  else
    let len := beNat (bytes.take 4)
    if bytes.length - 4 < len then .error .truncatedMetadataPayload
    else .ok (some (bytes.take (4 + len)))

namespace LogCodec

variable (codec : LogCodec κ ι π)

def encodeWalOffsetMetadataFrame (metadata : WalOffsetMetadata)
    (derivedBlobKey : ObjectKey) : Bytes :=
  lengthPrefixed (codec.offsetMetadata.encode (metadata.toProto derivedBlobKey))

def decodeMetadataFrame (derivedBlobKey : ObjectKey) (frame : Bytes) :
    Except WireError WalOffsetMetadata := do
  let proto ← codec.offsetMetadata.decode (frame.drop 4)
  .ok (.fromProto proto derivedBlobKey)

/-- The offset index, by index. The last frame of an index counts. -/
def decodeWalOffsetMetadataBlob (bytes : Bytes) (derivedBlobKey : ObjectKey) :
    Except WireError (Series ℕ WalOffsetMetadata) := do
  match ← walk readMetadataFrame (codec.decodeMetadataFrame derivedBlobKey) (bytes.length + 1) 0
    bytes with
  | none => .error .fuel
  | some frames => .ok (Series.inOrder (frames.map fun x => (x.2.walIndex.toNat, x.2)))

end LogCodec

end TemporalStore.Shared.Wire
