import TemporalStore.Shared.RoundTrip

/-! # Publishing a shard's log as one object, and replaying it (`shared_store.rs`) -/

namespace TemporalStore.Shared.Wire

open Lib

variable {κ ι π : Type}

abbrev ObjectStore := List (ObjectKey × Bytes)

namespace ObjectStore

variable (store : ObjectStore)

def get (key : ObjectKey) : Option Bytes :=
  (store.find? fun o => o.1 = key).map Prod.snd

def put (key : ObjectKey) (bytes : Bytes) : ObjectStore :=
  (key, bytes) :: store.filter fun o => o.1 ≠ key

/-- A writer of the older layout left an object of the shard above `afterWalIndex`. -/
def holdsWalEntryAbove (shardId afterWalIndex : UInt64) : Bool :=
  store.any fun o =>
    match o.1 with
    | .walEntry s walIndex => s = shardId ∧ afterWalIndex < walIndex
    | _ => false

def getRange (key : ObjectKey) (offset length : ℕ) : Except WireError Bytes :=
  match store.get key with
  | none => .error .objectNotFound
  | some bytes =>
    if bytes.length < offset + length then .error .rangeExceedsObject
    else .ok (slice bytes offset length)

end ObjectStore

structure AppendBlobReceipt where
  startOffset : UInt64
  endOffset : UInt64
  bytesWritten : UInt64
  objectLength : UInt64
  physicalSlabCount : UInt64
  firstPhysicalOffset : Option UInt64

def u64SaturatingAdd (a b : UInt64) : UInt64 := UInt64.ofNat (saturatingAdd a.toNat b.toNat)

def u64SaturatingSub (a b : UInt64) : UInt64 := UInt64.ofNat (a.toNat - b.toNat)

/-- Appends right behind what the object holds, or starts it. -/
def ObjectStore.appendBlob (store : ObjectStore) (key : ObjectKey) (bytes : Bytes) :
    AppendBlobReceipt × ObjectStore :=
  let object := (store.get key).getD []
  let startOffset := UInt64.ofNat object.length
  let endOffset := u64SaturatingAdd startOffset (UInt64.ofNat bytes.length)
  (⟨startOffset, endOffset, UInt64.ofNat bytes.length, endOffset, 0, none⟩,
    store.put key (object ++ bytes))

structure WalWriter where
  walFrameFormat : UInt32
  walBatchContainer : Bool

structure WalCommandMetadata where
  byteSize : UInt64
  encoding : UInt32

structure WriteReport where
  walIndex : UInt64
  published : Bool
  queued : Bool
  walBlobStartOffset : Option UInt64
  walBlobEndOffset : Option UInt64
  walBlobBytesWritten : Option UInt64
  walBlobObjectLength : Option UInt64

def writeReportFromReceipt (walIndex : UInt64) (receipt : AppendBlobReceipt) : WriteReport :=
  ⟨walIndex, true, false, some receipt.startOffset, some receipt.endOffset,
    some receipt.bytesWritten, some receipt.objectLength⟩

namespace LogCodec

variable (codec : LogCodec κ ι π)

def walCommandMetadata : Option κ → Except WireError WalCommandMetadata
  | none => .ok ⟨0, commandEncodingJsonSerde⟩
  | some command => do
    let payload ← codec.commandPayload command
    .ok ⟨UInt64.ofNat payload.length, commandEncodingSdkProto⟩

/-- The place of an entry that was appended on its own. -/
def entryOffsetMetadata (key : ObjectKey) (receipt : AppendBlobReceipt) (entry : WalEntry κ ι)
    (command : WalCommandMetadata) : WalOffsetMetadata where
  shardId := entry.shardId
  walIndex := entry.walIndex
  walBlobKey := key
  walBlobStartOffset := receipt.startOffset
  walBlobEndOffset := receipt.endOffset
  walBlobBytesWritten := receipt.bytesWritten
  walBlobObjectLength := receipt.objectLength
  walBlobPhysicalSlabCount := receipt.physicalSlabCount
  walBlobFirstPhysicalOffset := receipt.firstPhysicalOffset
  commandByteSize := command.byteSize
  commandEncoding := command.encoding

variable (writer : WalWriter)

/-- One frame for one entry, and its place. -/
def publishWalEntry (store : ObjectStore) (entry : WalEntry κ ι) :
    Except WireError (AppendBlobReceipt × ObjectStore) := do
  let key := ObjectKey.walBlob entry.shardId
  let command ← codec.walCommandMetadata entry.command
  let frame ← codec.encodeWalProtoFrame entry writer.walFrameFormat
  let (receipt, store) := store.appendBlob key frame
  let metadata := entryOffsetMetadata key receipt entry command
  let (_, store) := store.appendBlob (.walOffsetIndex entry.shardId)
    (codec.encodeWalOffsetMetadataFrame metadata key)
  .ok (receipt, store)

/-- The frames of a batch behind `payload`, and the range of each. -/
def encodeWalFrames (writer : WalWriter) :
    Bytes → List (WalEntry κ ι) → Except WireError (Bytes × List (ℕ × ℕ))
  | payload, [] => .ok (payload, [])
  | payload, entry :: entries => do
    let frame ← codec.encodeWalProtoFrame entry writer.walFrameFormat
    let (whole, spans) ← encodeWalFrames writer (payload ++ frame) entries
    .ok (whole, (payload.length, payload.length + frame.length) :: spans)

/-- The container of a batch, if the batch is to be written as one. A batch of one is not. -/
def batchContainer (entries : List (WalEntry κ ι)) : Except WireError (Option Bytes) :=
  if writer.walBatchContainer ∧ 1 < entries.length then codec.encodeWalBatchContainer entries
  else .ok none

/-- What a batch appends to the log, and the range of each entry in it: its own frame, or the whole
container. -/
def walPayload (entries : List (WalEntry κ ι)) : Except WireError (Bytes × List (ℕ × ℕ)) := do
  match ← codec.batchContainer writer entries with
  | some payload => .ok (payload, entries.map fun _ => (0, payload.length))
  | none => codec.encodeWalFrames writer [] entries

/-- The place of an entry of a batch that was appended under `receipt`. -/
def batchOffsetMetadata (key : ObjectKey) (receipt : AppendBlobReceipt) (entry : WalEntry κ ι)
    (span : ℕ × ℕ) (command : WalCommandMetadata) : WalOffsetMetadata :=
  let startOffset := u64SaturatingAdd receipt.startOffset (UInt64.ofNat span.1)
  let endOffset := u64SaturatingAdd receipt.startOffset (UInt64.ofNat span.2)
  { shardId := entry.shardId
    walIndex := entry.walIndex
    walBlobKey := key
    walBlobStartOffset := startOffset
    walBlobEndOffset := endOffset
    walBlobBytesWritten := u64SaturatingSub endOffset startOffset
    walBlobObjectLength := receipt.objectLength
    walBlobPhysicalSlabCount := receipt.physicalSlabCount
    walBlobFirstPhysicalOffset := receipt.firstPhysicalOffset
    commandByteSize := command.byteSize
    commandEncoding := command.encoding }

def publishEach (writer : WalWriter) :
    ObjectStore → List (WalEntry κ ι) → Except WireError (List WriteReport × ObjectStore)
  | store, [] => .ok ([], store)
  | store, entry :: entries => do
    let (receipt, store) ← codec.publishWalEntry writer store entry
    let (reports, store) ← publishEach writer store entries
    .ok (writeReportFromReceipt entry.walIndex receipt :: reports, store)

/-- `publish_wal_entries_batch` of a replicator that writes append blobs. -/
def publishWalEntriesBatch (store : ObjectStore) (entries : List (WalEntry κ ι)) :
    Except WireError (List WriteReport × ObjectStore) :=
  match entries with
  | [] => .ok ([], store)
  | first :: rest =>
    -- entries of several shards have no object in common
    if ¬∀ e ∈ first :: rest, e.shardId = first.shardId then
      codec.publishEach writer store (first :: rest)
    else do
      let key := ObjectKey.walBlob first.shardId
      let commands ← (first :: rest).mapM fun e => codec.walCommandMetadata e.command
      let (payload, spans) ← codec.walPayload writer (first :: rest)
      let (receipt, store) := store.appendBlob key payload
      let metadata := ((first :: rest).zip (spans.zip commands)).map fun x =>
        batchOffsetMetadata key receipt x.1 x.2.1 x.2.2
      let (_, store) := store.appendBlob (.walOffsetIndex first.shardId)
        (metadata.flatMap fun m => codec.encodeWalOffsetMetadataFrame m key)
      .ok (metadata.map fun m => ⟨m.walIndex, true, false, some m.walBlobStartOffset,
        some m.walBlobEndOffset, some m.walBlobBytesWritten, some m.walBlobObjectLength⟩, store)

end LogCodec

def replayApplyWindow : ℕ := 256

structure ReplayReport where
  applied : ℕ
  lastWalIndex : UInt64
  offsetIndexReads : ℕ
  rangeBytesRead : UInt64
  deriving DecidableEq

/-- A replay under way: the window being filled and the windows handed to the engine, oldest
first. -/
structure Delivery (κ ι : Type) where
  window : List (UInt64 × WalEntry κ ι)
  delivered : List (List (UInt64 × WalEntry κ ι))
  report : ReplayReport
  deriving DecidableEq

/-- May a range read reach from `previous` to `next`? -/
def walRunMayExtend (previous next : WalOffsetMetadata) : Bool :=
  if next.walBlobEndOffset ≤ next.walBlobStartOffset then false
  else
    next.walBlobStartOffset = previous.walBlobEndOffset ||
      (next.walBlobStartOffset = previous.walBlobStartOffset &&
        next.walBlobEndOffset = previous.walBlobEndOffset)

/-- What of `rest` joins a run that is `taken` long and ends with `previous`, and what is left. -/
def takeRun (key : ObjectKey) : ℕ → WalOffsetMetadata → List WalOffsetMetadata →
    List WalOffsetMetadata × List WalOffsetMetadata
  | _, _, [] => ([], [])
  | taken, previous, next :: rest =>
    if next.walBlobKey = key ∧ walRunMayExtend previous next ∧ taken < replayApplyWindow then
      let (run, rest) := takeRun key (taken + 1) next rest
      (next :: run, rest)
    else ([], next :: rest)

def cutRuns : ℕ → List WalOffsetMetadata → List (List WalOffsetMetadata)
  | 0, _ | _, [] => []
  | fuel + 1, first :: rest =>
    let (run, rest) := takeRun first.walBlobKey 1 first rest
    (first :: run) :: cutRuns fuel rest

/-- A position has to be followed by every index above it. -/
def checkNoGap : UInt64 → List WalOffsetMetadata → Except WireError Unit
  | _, [] => .ok ()
  | expected, m :: rest =>
    if m.walIndex ≠ expected then .error (.replayGap expected m.walIndex)
    else checkNoGap (expected + 1) rest

def Delivery.flush (d : Delivery κ ι) : Delivery κ ι :=
  if d.window = [] then d else { d with window := [], delivered := d.delivered ++ [d.window] }

/-- Takes a replayed entry into the window, which is handed over when it is full. -/
def Delivery.push (d : Delivery κ ι) (x : WalOffsetMetadata × WalEntry κ ι × UInt64) :
    Delivery κ ι :=
  let d : Delivery κ ι :=
    { d with
      window := d.window ++ [(x.1.walIndex, x.2.1)]
      report :=
        { applied := d.report.applied + 1
          lastWalIndex := x.1.walIndex
          offsetIndexReads := d.report.offsetIndexReads + 1
          rangeBytesRead := d.report.rangeBytesRead + x.2.2 } }
  if replayApplyWindow ≤ d.window.length then d.flush else d

namespace LogCodec

variable (codec : LogCodec κ ι π)

variable (store : ObjectStore) (shardId : UInt64)

/-- The entry in `bytes` that a place names, and the length of its range. -/
def entryAtPlace (metadata : WalOffsetMetadata) (length : UInt64) (bytes : Bytes) :
    Except WireError (WalEntry κ ι × UInt64) := do
  let entry ← codec.decodeWalRecordEntry bytes metadata.walIndex
  if entry.shardId ≠ shardId ∨ entry.walIndex ≠ metadata.walIndex then
    .error (.pointsElsewhere entry.shardId entry.walIndex)
  else .ok (entry, length)

def readWalEntryWithOffsetMetadata (metadata : WalOffsetMetadata) :
    Except WireError (WalEntry κ ι × UInt64) :=
  if metadata.walBlobEndOffset < metadata.walBlobStartOffset then
    .error (.invalidMetadataRange metadata.walIndex)
  else
    let length := metadata.walBlobEndOffset - metadata.walBlobStartOffset
    if length ≠ metadata.walBlobBytesWritten then .error (.metadataBytesMismatch metadata.walIndex)
    else do
      let bytes ← store.getRange metadata.walBlobKey metadata.walBlobStartOffset.toNat length.toNat
      codec.entryAtPlace shardId metadata length bytes

/-- The entry of a run out of the bytes that the run's range read got. -/
def readWithinRun (first : WalOffsetMetadata) (bytes : Bytes) (metadata : WalOffsetMetadata) :
    Except WireError (WalEntry κ ι × UInt64) :=
  if metadata.walBlobEndOffset < metadata.walBlobStartOffset then
    .error (.invalidMetadataRange metadata.walIndex)
  else
    let length := metadata.walBlobEndOffset - metadata.walBlobStartOffset
    if length ≠ metadata.walBlobBytesWritten then .error (.metadataBytesMismatch metadata.walIndex)
    else if metadata.walBlobStartOffset < first.walBlobStartOffset then
      .error (.outsideItsRun metadata.walIndex)
    else
      let start := (metadata.walBlobStartOffset - first.walBlobStartOffset).toNat
      if bytes.length < start + length.toNat then .error (.outsideItsRun metadata.walIndex)
      else codec.entryAtPlace shardId metadata length (slice bytes start length.toNat)

def readWalEntriesInRun (first last : WalOffsetMetadata) (run : List WalOffsetMetadata) :
    Except WireError (List (WalEntry κ ι × UInt64)) :=
  if last.walBlobEndOffset < first.walBlobStartOffset then
    .error (.invalidMetadataRange first.walIndex)
  else do
    let span := last.walBlobEndOffset - first.walBlobStartOffset
    let bytes ← store.getRange first.walBlobKey first.walBlobStartOffset.toNat span.toNat
    if bytes.length ≠ span.toNat then .error .runReadShort
    else run.mapM (codec.readWithinRun shardId first bytes)

/-- A run of one keeps the point read. -/
def readRun : List WalOffsetMetadata → Except WireError (List (WalEntry κ ι × UInt64))
  | [] => .ok []
  | [metadata] => do
    let read ← codec.readWalEntryWithOffsetMetadata store shardId metadata
    .ok [read]
  | first :: next :: rest =>
    codec.readWalEntriesInRun store shardId first ((next :: rest).getLast (by simp))
      (first :: next :: rest)

def loadWalOffsetMetadata : Except WireError (Series ℕ WalOffsetMetadata) :=
  match store.get (.walOffsetIndex shardId) with
  | none => .ok []
  | some bytes => codec.decodeWalOffsetMetadataBlob bytes (.walBlob shardId)

/-- Checks the places above `afterWalIndex` for a gap, then reads them run by run and hands their
entries over in windows. -/
def replayOrdered (afterWalIndex : UInt64) (ordered : List WalOffsetMetadata) :
    Except WireError (Delivery κ ι) := do
  checkNoGap (afterWalIndex + 1) ordered
  let reads ← (cutRuns ordered.length ordered).mapM fun run => do
    let read ← codec.readRun store shardId run
    .ok (run.zip read)
  let start : Delivery κ ι := ⟨[], [], ⟨0, afterWalIndex, 0, 0⟩⟩
  .ok (reads.flatten.foldl Delivery.push start).flush

/-- The windows that a replay above `afterWalIndex` hands to the engine, and its report. `none`
leaves the replay to the reader of the whole log. -/
def replayWalFromOffsetMetadata (afterWalIndex : UInt64) :
    Except WireError (Option (Delivery κ ι)) := do
  let offsetMetadata ← codec.loadWalOffsetMetadata store shardId
  if offsetMetadata = [] then .ok none
  else if store.holdsWalEntryAbove shardId afterWalIndex then .ok none
  else
    let ordered := (offsetMetadata.filter fun x => (afterWalIndex + 1).toNat ≤ x.1).map Prod.snd
    let delivery ← codec.replayOrdered store shardId afterWalIndex ordered
    .ok (some delivery)

end LogCodec

end TemporalStore.Shared.Wire
