import TemporalStore.Raft.Cluster

/-! # The segmented raft log of a node (`raft/local_wal.rs`) -/

namespace TemporalStore.Raft.LocalWal

/-- A record with its snapshot. `membership` stands for what every record carries as it is: the
members and roles, the joint membership, the fences, the external snapshot and the evidence.
`telemetry` stands for the pipeline and the read counters. -/
structure WalRecord (μ τ σ : Type) where
  hardState : RaftHardState
  membership : μ
  installedSnapshot : Option σ
  telemetry : τ
  entries : List RaftLogEntry
  deriving DecidableEq

/-- A snapshot as the log holds it: its image may lie in a file of its own. -/
structure StoredSnapshot where
  snapshot : RaftSnapshot
  stateImageExternalized : Bool
  deriving DecidableEq

structure RaftWalEntryDelta where
  fromIndex : ℕ
  logFirstIndex : ℕ
  logLastIndex : ℕ
  deriving DecidableEq

abbrev RaftWalRecord (μ τ : Type) := WalRecord μ τ RaftSnapshot

abbrev StoredRecord (μ τ : Type) := WalRecord μ τ StoredSnapshot

/-- A record of a segment. It is read back as it was written, as one whose message is shorter than
4 GiB is. -/
structure RaftWalEnvelope (μ τ : Type) where
  record : StoredRecord μ τ
  delta : Option RaftWalEntryDelta
  deriving DecidableEq

structure Segment (μ τ : Type) where
  id : ℕ
  envelopes : List (RaftWalEnvelope μ τ)
  torn : Bool
  deriving DecidableEq

structure NodeFiles (μ τ : Type) where
  segments : List (Segment μ τ)
  images : ℕ → Option (List UInt8)

/-- What the process knows of the log it appends to: the segments with their sizes, the size of the
last whole record, and what the last record left. -/
structure NodeWalCursor where
  segments : List (ℕ × ℕ)
  baseBytes : ℕ
  persistedLastIndex : ℕ
  persistedLastTerm : ℕ
  persistedMarkerIndex : Option ℕ
  hasBase : Bool
  deriving DecidableEq

structure NodeLog (μ τ : Type) where
  files : NodeFiles μ τ
  cursor : Option NodeWalCursor

/-- An append whose bytes are in the file. -/
structure StagedWalAppend where
  segmentId : ℕ
  minKeepSegments : ℕ
  compactingBase : Bool
  deriving DecidableEq

variable {μ τ σ : Type}

namespace WalRecord

def logFirstIndex (record : WalRecord μ τ σ) : ℕ := (record.entries.head?.map (·.index)).getD 0

def logLastIndex (record : WalRecord μ τ σ) : ℕ := (record.entries.getLast?.map (·.index)).getD 0

def logLastTerm (record : WalRecord μ τ σ) : ℕ := (record.entries.getLast?.map (·.term)).getD 0

def markerIndex (record : StoredRecord μ τ) : Option ℕ :=
  record.installedSnapshot.map (·.snapshot.lastIncludedIndex)

end WalRecord

/-- The snapshot of a record that refers to the image's file. -/
def storeSnapshot (snapshot : RaftSnapshot) : StoredSnapshot :=
  match snapshot.stateImage with
  | none => ⟨snapshot, false⟩
  | some _ => ⟨{ snapshot with stateImage := none }, true⟩

def WalRecord.stored (record : RaftWalRecord μ τ) : StoredRecord μ τ :=
  { record with installedSnapshot := record.installedSnapshot.map storeSnapshot }

/-- The image of a record, with the index its file is named by. -/
def WalRecord.image (record : RaftWalRecord μ τ) : Option (ℕ × List UInt8) :=
  record.installedSnapshot.bind fun snapshot =>
    snapshot.stateImage.map fun image => (snapshot.lastIncludedIndex, image)

variable (cursor : NodeWalCursor) (record : StoredRecord μ τ) (files : NodeFiles μ τ)

def NodeFiles.writeImage (index : ℕ) (image : List UInt8) : NodeFiles μ τ :=
  { files with images := Function.update files.images index (some image) }

def NodeFiles.removeImage (index : ℕ) : NodeFiles μ τ :=
  { files with images := Function.update files.images index none }

/-- The images of earlier snapshots are removed. -/
def NodeFiles.pruneImages (index : ℕ) : NodeFiles μ τ :=
  { files with images := fun old => if old < index then none else files.images old }

/-- `externalize_state_image`. A file that exists is not written again. -/
def NodeFiles.externalizeStateImage (record : RaftWalRecord μ τ) : NodeFiles μ τ :=
  match record.image with
  | none => files
  | some (index, image) =>
    if (files.images index).isSome then files else (files.writeImage index image).pruneImages index

def NodeFiles.reattachStateImage (stored : StoredSnapshot) : Except String RaftSnapshot :=
  if !stored.stateImageExternalized || stored.snapshot.stateImage.isSome then .ok stored.snapshot
  else match files.images stored.snapshot.lastIncludedIndex with
    | none => .error
        ("snapshot image file missing for index " ++ toString stored.snapshot.lastIncludedIndex)
    | some image => .ok { stored.snapshot with stateImage := some image }

variable [DecidableEq τ] [Inhabited τ]

def foldEnvelope (last : Option (StoredRecord μ τ)) (envelope : RaftWalEnvelope μ τ) :
    StoredRecord μ τ :=
  match envelope.delta with
  | none => envelope.record
  | some delta =>
    let merged := envelope.record
    let entries := (last.map (·.entries)).getD []
    { merged with
      installedSnapshot := merged.installedSnapshot.or (last.bind (·.installedSnapshot))
      telemetry :=
        if merged.telemetry = default then (last.map (·.telemetry)).getD merged.telemetry
        else merged.telemetry
      -- what a conflict superseded goes from the end, what a snapshot covers from the front
      entries := (entries.takeWhile (·.index ≤ delta.fromIndex) ++ merged.entries).dropWhile
        (·.index < delta.logFirstIndex) }

def foldEnvelopes (last : Option (StoredRecord μ τ))
    (envelopes : List (RaftWalEnvelope μ τ)) : Option (StoredRecord μ τ) :=
  envelopes.foldl (fun last envelope => some (foldEnvelope last envelope)) last

/-- The scan of the segments. It stops behind a segment that ends in bytes it cannot read, and cuts
them off. -/
def scanSegments : Option (StoredRecord μ τ) → List (Segment μ τ) →
    Option (StoredRecord μ τ) × List (Segment μ τ)
  | last, [] => (last, [])
  | last, segment :: rest =>
    let last := foldEnvelopes last segment.envelopes
    if segment.torn then (last, { segment with torn := false } :: rest)
    else ((scanSegments last rest).1, segment :: (scanSegments last rest).2)

def NodeFiles.recoverNodeSegmentedScan : Option (StoredRecord μ τ) × NodeFiles μ τ :=
  ((scanSegments none files.segments).1,
    { files with segments := (scanSegments none files.segments).2 })

def NodeFiles.recoverNodeSegmented : Except String (Option (RaftWalRecord μ τ)) :=
  match files.recoverNodeSegmentedScan.1 with
  | none => .ok none
  | some record =>
    match record.installedSnapshot with
    | none => .ok (some { record with installedSnapshot := none })
    | some stored =>
      (files.reattachStateImage stored).map fun snapshot =>
        some { record with installedSnapshot := some snapshot }

/-- Whether the record can be written as a delta on what the log holds. -/
def NodeWalCursor.deltaSafe : Bool :=
  cursor.hasBase && decide (0 < cursor.persistedLastIndex) &&
    decide (cursor.persistedLastIndex ≤ record.logLastIndex) &&
    decide (0 < record.logFirstIndex) &&
      decide (record.logFirstIndex ≤ cursor.persistedLastIndex) &&
    record.entries.any fun entry =>
      entry.index == cursor.persistedLastIndex && entry.term == cursor.persistedLastTerm

def NodeWalCursor.encode (asDelta : Bool) : RaftWalEnvelope μ τ :=
  if asDelta then
    ⟨{ record with
        -- a marker that did not change is folded forward
        installedSnapshot :=
          if record.markerIndex = cursor.persistedMarkerIndex ∧
            cursor.persistedMarkerIndex.isSome then
            none
          else record.installedSnapshot
        telemetry := default
        entries := record.entries.dropWhile (·.index ≤ cursor.persistedLastIndex) },
      some ⟨cursor.persistedLastIndex, record.logFirstIndex, record.logLastIndex⟩⟩
  else ⟨record, none⟩

/-- Append mode: the record goes behind what the file holds, created where it is missing. -/
def appendEnvelope (segments : List (Segment μ τ)) (id : ℕ) (envelope : RaftWalEnvelope μ τ) :
    List (Segment μ τ) :=
  match segments.getLast? with
  | some segment =>
    if segment.id = id then
      segments.dropLast ++ [{ segment with envelopes := segment.envelopes ++ [envelope] }]
    else segments ++ [⟨id, [envelope], false⟩]
  | none => [⟨id, [envelope], false⟩]

/-- The sizes the cursor keeps, after an append. -/
def appendSize (sizes : List (ℕ × ℕ)) (rotate : Bool) (id bytes : ℕ) : List (ℕ × ℕ) :=
  match sizes.getLast? with
  | some (last, size) =>
    if rotate then sizes ++ [(id, bytes)] else sizes.dropLast ++ [(last, size + bytes)]
  | none => [(id, bytes)]

structure LogSettings (μ τ : Type) where
  size : RaftWalEnvelope μ τ → ℕ
  maxSegmentBytes : ℕ
  minKeepSegments : ℕ

structure Placement (μ τ : Type) where
  segmentId : ℕ
  rotate : Bool
  envelope : RaftWalEnvelope μ τ
  markerAdvanced : Bool

/-- Which segment a record goes to, and whether as a delta. A new segment opens with a whole record;
so does one that a snapshot boundary makes prunable. -/
def NodeWalCursor.place (settings : LogSettings μ τ) (record : StoredRecord μ τ) : Placement μ τ :=
  let deltaSafe := cursor.deltaSafe record
  let activeSegmentId := (cursor.segments.getLast?.map (·.1)).getD 1
  let activeLen := (cursor.segments.getLast?.map (·.2)).getD 0
  let rotateThreshold := max (max settings.maxSegmentBytes 1) cursor.baseBytes
  let markerAdvanced :=
    record.markerIndex.isSome && decide (record.markerIndex ≠ cursor.persistedMarkerIndex)
  let rotate := decide (0 < activeLen ∧
      rotateThreshold < activeLen + settings.size (cursor.encode record deltaSafe)) ||
    (!deltaSafe && markerAdvanced && decide (0 < activeLen))
  ⟨if rotate then activeSegmentId + 1 else activeSegmentId, rotate,
    cursor.encode record (deltaSafe && !rotate), markerAdvanced⟩

/-- What the cursor knows once the record is in the file. -/
def NodeWalCursor.appended (settings : LogSettings μ τ) (record : StoredRecord μ τ)
    (placement : Placement μ τ) : NodeWalCursor where
  segments := appendSize cursor.segments placement.rotate placement.segmentId
    (settings.size placement.envelope)
  baseBytes := if placement.envelope.delta = none then settings.size placement.envelope
    else cursor.baseBytes
  persistedLastIndex := record.logLastIndex
  persistedLastTerm := record.logLastTerm
  persistedMarkerIndex := record.markerIndex.or cursor.persistedMarkerIndex
  hasBase := placement.envelope.delta = none || cursor.hasBase

def NodeFiles.seedNodeCursor (settings : LogSettings μ τ) : NodeWalCursor :=
  ⟨files.recoverNodeSegmentedScan.2.segments.map fun segment =>
      (segment.id, (segment.envelopes.map settings.size).sum),
    0, 0, 0, files.recoverNodeSegmentedScan.1.bind (·.markerIndex), false⟩

/-- How many of the oldest segments the retention does not keep. -/
def NodeWalCursor.removable (staged : StagedWalAppend) : ℕ :=
  let effectiveKeep :=
    if staged.compactingBase then min staged.minKeepSegments 2 else staged.minKeepSegments
  cursor.segments.length - effectiveKeep

namespace NodeLog

variable (log : NodeLog μ τ) (settings : LogSettings μ τ)

/-- The cursor, read from the files on the first append. -/
def seeded : NodeFiles μ τ × NodeWalCursor :=
  match log.cursor with
  | some cursor => (log.files, cursor)
  | none => (log.files.recoverNodeSegmentedScan.2, log.files.seedNodeCursor settings)

def stagingCursor (record : RaftWalRecord μ τ) : NodeWalCursor :=
  (seeded ⟨log.files.externalizeStateImage record, log.cursor⟩ settings).2

def placement (record : RaftWalRecord μ τ) : Placement μ τ :=
  (log.stagingCursor settings record).place settings record.stored

/-- `stage_node_segmented`: the bytes are written and no barrier is taken. -/
def stageNodeSegmented (record : RaftWalRecord μ τ) : NodeLog μ τ × StagedWalAppend :=
  let externalized : NodeLog μ τ := { log with files := log.files.externalizeStateImage record }
  let (files, cursor) := externalized.seeded settings
  let placement := cursor.place settings record.stored
  (⟨{ files with
        segments := appendEnvelope files.segments placement.segmentId placement.envelope },
      some (cursor.appended settings record.stored placement)⟩,
    ⟨placement.segmentId, max settings.minKeepSegments 1,
      decide (placement.envelope.delta = none) && placement.markerAdvanced⟩)

/-- `finish_staged` behind its barrier: the oldest segments are removed. -/
def finishStaged (staged : StagedWalAppend) : NodeLog μ τ :=
  match log.cursor with
  | none => log
  | some cursor =>
    ⟨{ log.files with segments := log.files.segments.drop (cursor.removable staged) },
      some { cursor with segments := cursor.segments.drop (cursor.removable staged) }⟩

end NodeLog

end TemporalStore.Raft.LocalWal
