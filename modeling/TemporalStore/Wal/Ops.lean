import TemporalStore.Wal.Store

/-! # What callers do with a log (`wal.rs`) -/

namespace TemporalStore.Wal

open Lib LogFraming

variable {β ρ : Type}

/-- The record that takes the next sequence after `lastSequence`. -/
def nextRecord (lastSequence : ℕ) (body : β) : WalRecord β :=
  ⟨saturatingSucc lastSequence, body, saturatingSucc_le lastSequence⟩

variable (cfg : WalConfig) (codec : WalCodec β ρ) (s : WalStore) (body : β) (now : ℕ)
  (stop : RollEnd)

/-- What follows the write of a record: the roll, and what is remembered. -/
def finishAppend (sequence persistentBytes : ℕ) (stop : RollEnd) : Except WalError WalStore := do
  let (s, rolled) ← rollWalSegmentIfDue cfg s persistentBytes stop
  return { s with
    lastSequence := some sequence
    verifiedLen := if rolled then s.verifiedLen else some persistentBytes }

/-- `append_with_sync_inner`: the record and its log id. -/
def append : Except WalError (WalStore × WalRecord β × ℕ) := do
  let s ← ensureActiveWalSegment s
  let (s, lastSequence, onDiskLen) ← resolveLastSequenceForAppend cfg codec s
  let s := { s with lastSequence := some lastSequence }
  let record := nextRecord lastSequence body
  let (s, report) ← appendRecordLocked cfg codec s record (some onDiskLen) now
  let (s, base, headerLen) ← cachedWalBase s
  let s ← finishAppend cfg s record.sequence report.persistentBytes stop
  return (s, record, base + (report.offset - headerLen))

/-- The log id of an offset in the active piece. -/
def logIdAt (offset : ℕ) : Except WalError ℕ := do
  let (base, headerLen) ← readWalBase s.active
  return base + (offset - headerLen)

/-- `append_for_group_commit`. The source returns the record alone; the log id it got is kept here
beside it, as in the two batch appends below. -/
def appendForGroupCommit : Except WalError (WalStore × WalRecord β × ℕ) := do
  let s ← ensureActiveWalSegment s
  let (s, lastSequence, _) ← resolveLastSequenceForAppend cfg codec s
  let s := { s with lastSequence := some lastSequence }
  let record := nextRecord lastSequence body
  let (s, report) ← appendRecordLocked cfg codec s record none now
  let logId ← logIdAt s report.offset
  let s ← finishAppend cfg s record.sequence report.persistentBytes stop
  return (s, record, logId)

def appendBatchAsOneRecord : Except WalError (WalStore × WalRecord β × ℕ) := do
  let s ← ensureActiveWalSegment s
  let (s, lastSequence, _) ← resolveLastSequenceForAppend cfg codec s
  let record := nextRecord lastSequence body
  let (s, report) ← appendRecordLocked cfg codec s record none now
  let logId ← logIdAt s report.offset
  let s := { s with lastSequence := some record.sequence }
  let s ← finishAppend cfg s record.sequence report.persistentBytes stop
  return (s, record, logId)

inductive AppendKind where
  | durable
  | groupCommit
  | batchAsOne
  deriving DecidableEq

def AppendKind.run (kind : AppendKind) (cfg : WalConfig) (codec : WalCodec β ρ) (s : WalStore)
    (body : β) (now : ℕ) (stop : RollEnd) : Except WalError (WalStore × WalRecord β × ℕ) :=
  match kind with
  | .durable => append cfg codec s body now stop
  | .groupCommit => appendForGroupCommit cfg codec s body now stop
  | .batchAsOne => appendBatchAsOneRecord cfg codec s body now stop

/-- The records of an atomic batch, one after the other, and where the last one ends. -/
def appendBatchRecords (cfg : WalConfig) (codec : WalCodec β ρ) (now : ℕ) :
    WalStore → ℕ → ℕ → List β → Except WalError (WalStore × ℕ × ℕ × List (ℕ × WalRecord β))
  | s, sequence, batchEnd, [] => return (s, sequence, batchEnd, [])
  | s, sequence, _, body :: bodies => do
    let record := nextRecord sequence body
    let (s, report) ← appendRecordLocked cfg codec s record none now
    let logId ← logIdAt s report.offset
    let (s, sequence, batchEnd, records) ←
      appendBatchRecords cfg codec now s record.sequence report.persistentBytes bodies
    return (s, sequence, batchEnd, (logId, record) :: records)

/-- `append_batch_atomic`; the bodies carry the batch's metadata. The last sequence is read from the
files whatever is remembered. -/
def appendBatchAtomic (bodies : List β) (now : ℕ) (stop : RollEnd) :
    Except WalError (WalStore × List (ℕ × WalRecord β)) :=
  match bodies with
  | [] => .ok (s, [])
  | [body] => do
    let (s, record, logId) ← append cfg codec s body now stop
    return (s, [(logId, record)])
  | bodies => do
    let s ← ensureActiveWalSegment s
    let (diskLastSequence, _) ← lastWalSequenceAt cfg codec s
    let sequence := max (s.lastSequence.getD 0) diskLastSequence
    let (s, sequence, batchEnd, records) ←
      appendBatchRecords cfg codec now s sequence 0 bodies
    let s := { s with lastSequence := some sequence }
    let (s, _) ← rollWalSegmentIfDue cfg s batchEnd stop
    return (s, records)

def activeRecordEnd : ℕ :=
  match s.verifiedLen with
  | some recordEnd => recordEnd
  | none =>
    match lastWalSequenceIn codec cfg.readAhead s.active with
    | .ok (_, recordEnd) => recordEnd
    | .error _ => 0

/-- `append_replayed_record`: a record that brings its own sequence is written only if that is
above every sequence the log has. No roll follows. -/
def appendReplayedRecord (record : WalRecord β) (now : ℕ) :
    Except WalError (WalStore × AppendReport) := do
  let s ← ensureActiveWalSegment s
  let lastSequence ← s.lastSequence.elim (Prod.fst <$> lastWalSequenceAt cfg codec s) pure
  let s := { s with lastSequence := some lastSequence }
  if record.sequence ≤ lastSequence then
    let recordEnd := activeRecordEnd cfg codec s
    return (s, ⟨record.sequence, lastSequence, false, recordEnd, 0, recordEnd⟩)
  let (s, report) ← appendRecordLocked cfg codec s record none now
  return ({ s with lastSequence := some record.sequence }, report)

/-- Whether every record of a sealed piece is below the sequence to retain: the next piece starts at
or below it, or else, by the tail walk, the piece's own last sequence is below it. A next piece
whose start cannot be read decides nothing. -/
def segmentIsCovered (piece : Bytes) (next : Option Bytes) (retainFromSequence : ℕ) :
    Except WalError Bool :=
  let coveredByNext := match firstWalSequenceIn codec next with
    | .ok (some firstNext) => decide (firstNext ≤ retainFromSequence)
    | _ => false
  if coveredByNext then .ok true
  else do
    let (last, _) ← lastWalSequenceIn codec cfg.readAhead (some piece)
    return decide (last = 0 ∨ last < retainFromSequence)

/-- The sealed pieces left once the covered ones at the front are removed, with how many were
removed and their bytes. -/
def dropCoveredWalSegments (cfg : WalConfig) (codec : WalCodec β ρ) (active : Option Bytes)
    (retainFromSequence : ℕ) :
    List SealedPiece → ℕ → ℕ → Except WalError (List SealedPiece × ℕ × ℕ)
  | [], dropped, freed => return ([], dropped, freed)
  | piece :: rest, dropped, freed =>
    if 0 < cfg.reclaimMaxSegmentsPerPass ∧ cfg.reclaimMaxSegmentsPerPass ≤ dropped then
      return (piece :: rest, dropped, freed)
    else do
      let next := (rest.head?.map (·.bytes)).orElse fun _ => active
      let covered ← segmentIsCovered cfg codec piece.bytes next retainFromSequence
      if covered then
        dropCoveredWalSegments cfg codec active retainFromSequence rest (dropped + 1)
          (freed + piece.bytes.length)
      else return (piece :: rest, dropped, freed)

/-- What the reclaim's walk over the active piece counts: records seen, records kept, the first
kept one and where the walk stands. -/
structure ReclaimWalk where
  recordsBefore : ℕ
  recordsAfter : ℕ
  split : Option ℕ
  cursor : ℕ
  deriving DecidableEq

def reclaimLoop (codec : WalCodec β ρ) (file : Bytes) (headerLen walkUntil effectiveRetain : ℕ) :
    ℕ → ReclaimWalk → Except WalError ReclaimWalk
  | 0, _ => .error .fuel
  | fuel + 1, w =>
    if walkUntil ≤ w.cursor then .ok w
    else
      let w := { w with cursor := skipBlockFooterIfDue file w.cursor headerLen }
      if walkUntil ≤ w.cursor then .ok w
      else
        match readStep file headerLen walkUntil w.cursor with
        | .error e => .error e
        | .ok .done => .ok w
        | .ok (.closed next) =>
          reclaimLoop codec file headerLen walkUntil effectiveRetain fuel { w with cursor := next }
        | .ok (.record raw) =>
          let next := w.cursor + raw.length
          let trimmed := recordBody raw
          if raw = [] then .ok w
          else if trimmed.all isAsciiWhitespace then
            reclaimLoop codec file headerLen walkUntil effectiveRetain fuel
              { w with cursor := next }
          else if w.split.isSome then
            reclaimLoop codec file headerLen walkUntil effectiveRetain fuel
              { w with
                recordsBefore := w.recordsBefore + 1
                recordsAfter := w.recordsAfter + 1
                cursor := next }
          else
            match decodeWalLine codec trimmed with
            | .error e => .error e
            | .ok record =>
              let kept := effectiveRetain ≤ record.sequence
              reclaimLoop codec file headerLen walkUntil effectiveRetain fuel
                { recordsBefore := w.recordsBefore + 1
                  recordsAfter := if kept then w.recordsAfter + 1 else w.recordsAfter
                  split := if kept then some w.cursor else none
                  cursor := next }

def reclaimIsWorthRewriting (removedBytes retainedBytes : ℕ) : Bool :=
  retainedBytes ≤ cfg.reclaimMinCopyBytes ||
    retainedBytes * cfg.reclaimMinFreedPercent ≤ removedBytes * 100

structure GcReport where
  retainFromSequence : ℕ
  effectiveRetainFromSequence : ℕ
  clampedByBlockRetention : Bool
  clampedByDurableIndex : Bool
  recordsBefore : ℕ
  recordsAfter : ℕ
  recordsRemoved : ℕ
  bytesBefore : ℕ
  bytesAfter : ℕ
  baseOffset : ℕ
  bytesCopied : ℕ
  skippedNotWorthRewrite : Bool
  retainedBytesCarryABlockFooter : Bool
  droppedSegments : ℕ
  droppedSegmentBytes : ℕ
  deriving DecidableEq

/-- `gc_before_sequence_unchecked`. The sequence to retain is clamped to the last one in the log and
to the block-retention floor; covered sealed pieces go first, then the active piece is rewritten
from its first retained record on, unless that frees too little. -/
def gcBeforeSequenceUnchecked (retainFromSequence : ℕ) : Except WalError (WalStore × GcReport) :=
  match s.active with
  | none => return (s,
      { retainFromSequence, effectiveRetainFromSequence := retainFromSequence
        clampedByBlockRetention := false, clampedByDurableIndex := false
        recordsBefore := 0, recordsAfter := 0, recordsRemoved := 0
        bytesBefore := 0, bytesAfter := 0, baseOffset := 0, bytesCopied := 0
        skippedNotWorthRewrite := false, retainedBytesCarryABlockFooter := false
        droppedSegments := 0, droppedSegmentBytes := 0 })
  | some file => do
    let (lastSequence, _) ← lastWalSequenceAt cfg codec s
    let floor := s.blockRetentionFloor.getD u64Max
    let clampedByBlockRetention := decide (floor < min retainFromSequence lastSequence)
    let effectiveRetain := min (min retainFromSequence lastSequence) floor
    let (sealed, droppedSegments, droppedSegmentBytes) ←
      dropCoveredWalSegments cfg codec s.active effectiveRetain s.sealed 0 0
    let s := { s with sealed }
    let (baseOffset, headerLen) ← readWalBase s.active
    let (_, recordEnd) ← lastWalSequenceIn codec cfg.readAhead s.active
    let walk ← reclaimLoop codec file headerLen recordEnd effectiveRetain (file.length + 1)
      ⟨0, 0, none, headerLen⟩
    let split := walk.split.getD walk.cursor
    let removedBytes := split - headerLen
    let newBase := baseOffset + removedBytes
    let retainedBytes := walk.cursor - split
    let slot := headerLen + blockFooterAt (blockOf (split - headerLen))
    let retainedBytesCarryABlockFooter := decide (0 < retainedBytes) &&
      decide (split ≤ slot ∧ slot + walBlockFooterBytes ≤ recordEnd)
    let report : GcReport :=
      { retainFromSequence, effectiveRetainFromSequence := effectiveRetain
        clampedByBlockRetention, clampedByDurableIndex := false
        recordsBefore := walk.recordsBefore, recordsAfter := walk.recordsBefore
        recordsRemoved := 0, bytesBefore := file.length, bytesAfter := file.length
        baseOffset, bytesCopied := 0, skippedNotWorthRewrite := true
        retainedBytesCarryABlockFooter, droppedSegments, droppedSegmentBytes }
    if !reclaimIsWorthRewriting cfg removedBytes retainedBytes then return (s, report)
    let header := encodeBaseHeader newBase
    let rewritten := header ++ slice file split (recordEnd - split)
    return ({ s with
        active := some rewritten
        base := some (newBase, header.length)
        verifiedLen := some rewritten.length
        preallocPhysical := none },
      { report with
        recordsAfter := walk.recordsAfter
        recordsRemoved := walk.recordsBefore - walk.recordsAfter
        bytesAfter := rewritten.length, baseOffset := newBase
        bytesCopied := retainedBytes, skippedNotWorthRewrite := false })

/-- What a durable index covers, and of which shard. -/
structure DurableIndexAnchor where
  shardId : ℕ
  throughSequence : ℕ
  deriving DecidableEq

/-- The highest sequence an anchor lets a reclaim of `shardId` retain from. -/
def DurableIndexAnchor.ceiling (anchor : DurableIndexAnchor) (shardId : ℕ) : ℕ :=
  if anchor.shardId = shardId then saturatingSucc anchor.throughSequence else 0

def gcBeforeSequence (shardId : ℕ) (retainFromSequence : ℕ) (durableIndex : DurableIndexAnchor) :
    Except WalError (WalStore × GcReport) := do
  let ceiling := durableIndex.ceiling shardId
  let (s, report) ←
    gcBeforeSequenceUnchecked cfg codec s (min retainFromSequence ceiling)
  return (s, { report with
    retainFromSequence
    clampedByDurableIndex := decide (ceiling < retainFromSequence) })

/-- The window of a scan; `none` is no limit. -/
structure ScanWindow where
  startOffset : ℕ
  endOffset : Option ℕ
  maxBytes : Option ℕ
  startRecordAligned : Bool
  deriving DecidableEq

/-- A scanned record: its log id, its bytes and what they decode to, nothing for a blank line. -/
structure ScanEntry (ρ : Type) where
  logId : ℕ
  line : Bytes
  record : Option (WalRecord ρ)

/-- How far a scan got: the entries so far in order, the bytes taken, and, once a limit stopped it,
whether it was the byte limit and where to resume. -/
structure ScanState (ρ : Type) where
  entries : List (ScanEntry ρ)
  total : ℕ
  stopped : Option (Bool × ℕ)

def exceeds (n : ℕ) : Option ℕ → Bool
  | none => false
  | some limit => decide (limit < n)

def scanPieceLoop (codec : WalCodec β ρ) (window : ScanWindow) (file : Bytes) (base headerLen : ℕ) :
    ℕ → ℕ → ScanState ρ → Except WalError (ScanState ρ)
  | 0, _, _ => .error .fuel
  | fuel + 1, pos, st =>
    let pos := skipBlockFooterIfDue file pos headerLen
    let logId := base + (pos - headerLen)
    match readStep file headerLen file.length pos with
    | .error e => .error e
    | .ok .done => .ok st
    | .ok (.closed next) => scanPieceLoop codec window file base headerLen fuel next st
    | .ok (.record line) =>
      let next := pos + line.length
      if line = [] then .ok st
      else if logId < window.startOffset then
        scanPieceLoop codec window file base headerLen fuel next st
      else if exceeds (logId + line.length) window.endOffset then
        .ok { st with stopped := some (false, window.startOffset) }
      else if 0 < st.total ∧ exceeds (st.total + line.length) window.maxBytes then
        .ok { st with stopped := some (true, logId) }
      else do
        let record ← if line.all isAsciiWhitespace then pure none
          else some <$> decodeWalLine codec line
        scanPieceLoop codec window file base headerLen fuel next
          { st with
            entries := st.entries ++ [⟨logId, line, record⟩]
            total := st.total + line.length }

/-- One piece of a scan; `nextStart` is what the next piece's name says it starts at. -/
def scanPiece (window : ScanWindow) (piece : Option Bytes) (nextStart : Option ℕ)
    (st : ScanState ρ) : Except WalError (ScanState ρ) :=
  if nextStart.any (· ≤ window.startOffset) then .ok st
  else do
    let (base, headerLen) ← readWalBase piece
    let file := piece.getD []
    if base + (file.length - headerLen) ≤ window.startOffset then return st
    let seekTo := if window.startRecordAligned ∧ base < window.startOffset then
        headerLen + (window.startOffset - base)
      else headerLen
    scanPieceLoop codec window file base headerLen (file.length + 1) seekTo st

def scanPieces (codec : WalCodec β ρ) (window : ScanWindow) (active : Option Bytes) :
    List SealedPiece → ScanState ρ → Except WalError (ScanState ρ)
  | [], st => scanPiece codec window active none st
  | piece :: rest, st => do
    let st ← scanPiece codec window (some piece.bytes) (rest.head?.map (·.startsAt)) st
    if st.stopped.isSome then return st
    scanPieces codec window active rest st

/-- `scan_collect`: the entries, whether the byte limit cut them, and where to resume. -/
def scanCollect (window : ScanWindow) (verifyTail : Bool) :
    Except WalError (List (ScanEntry ρ) × Bool × ℕ) :=
  if s.sealed = [] ∧ s.active = none then .ok ([], false, window.startOffset)
  else do
    if verifyTail then
      let _ ← lastWalSequenceAt cfg codec s
    let st ← scanPieces codec window s.active s.sealed ⟨[], 0, none⟩
    let (truncated, resumeAt) := st.stopped.getD (false, window.startOffset)
    return (st.entries, truncated, resumeAt)

/-- The window of a scan from the start without limits. -/
def ScanWindow.whole : ScanWindow := ⟨0, none, none, false⟩

/-- `scan_decoded` over the whole log: the log id of each record and the record. -/
def scanDecoded : Except WalError (List (ℕ × WalRecord ρ)) := do
  let (entries, _, _) ← scanCollect cfg codec s .whole true
  return entries.filterMap fun e => e.record.map fun record => (e.logId, record)

/-- The piece that holds a log id, and where in it. -/
def locateLogId (logId : ℕ) : List (Option Bytes) → Except WalError (Option (Bytes × ℕ))
  | [] => return none
  | none :: rest => locateLogId logId rest
  | some file :: rest => do
    let (base, headerLen) ← readWalBase (some file)
    if file.length ≤ headerLen then locateLogId logId rest
    else if logId < base then return none
    else if logId - base < file.length - headerLen then
      return some (file, headerLen + (logId - base))
    else locateLogId logId rest

/-- The loop of `log_id_after_sequence`: a piece with a sequence above `sequence` ends it. -/
def logIdAfterSequenceFrom (cfg : WalConfig) (codec : WalCodec β ρ) (sequence : ℕ) :
    ℕ → List (Option Bytes) → Except WalError ℕ
  | start, [] => return start
  | start, none :: rest => logIdAfterSequenceFrom cfg codec sequence start rest
  | start, some file :: rest => do
    let (last, recordEnd) ← lastWalSequenceIn codec cfg.readAhead (some file)
    if 0 < last ∧ sequence < last then return start
    let (base, headerLen) ← readWalBase (some file)
    logIdAfterSequenceFrom cfg codec sequence (base + (recordEnd - headerLen)) rest

/-- Where a reader starts that is to see every record after `sequence`. -/
def logIdAfterSequence (sequence : ℕ) : Except WalError ℕ :=
  logIdAfterSequenceFrom cfg codec sequence 0 s.segments

/-- `read_at_log_id`: at most `size` bytes of the piece from the log id on. -/
def readAtLogId (logId size : ℕ) : Except WalError (Option Bytes) := do
  match ← locateLogId logId s.segments with
  | none => return none
  | some (file, physical) =>
    if file.length - physical = 0 then return none
    return some (slice file physical (min size (file.length - physical)))

end TemporalStore.Wal
