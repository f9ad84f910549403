import TemporalStore.Wal.Walk

/-! # One shard's log (`LocalWriteAheadLogStore`, `wal.rs`) -/

namespace TemporalStore.Wal

open Lib LogFraming

variable {β ρ : Type}

/-- The settings read from the environment, and how far a buffered reader reads ahead. -/
structure WalConfig where
  segmentBytes : ℕ
  preallocate : Bool
  preallocateChunk : ℕ
  flatAppend : Bool
  reclaimMinCopyBytes : ℕ
  reclaimMinFreedPercent : ℕ
  reclaimMaxSegmentsPerPass : ℕ
  readAhead : ℕ → ℕ
  preallocateChunk_le : 4096 ≤ preallocateChunk

/-- The values used when the environment sets nothing. -/
def WalConfig.default : WalConfig where
  segmentBytes := 256 * 1024
  preallocate := true
  preallocateChunk := 256 * 1024
  flatAppend := true
  reclaimMinCopyBytes := 64 * 1024 * 1024
  reclaimMinFreedPercent := 25
  reclaimMaxSegmentsPerPass := 1024
  readAhead := fun _ => 8192
  preallocateChunk_le := by decide

/-- A sealed piece: the log id its name says it starts at, and its bytes. -/
structure SealedPiece where
  startsAt : ℕ
  bytes : Bytes
  deriving DecidableEq

/-- The files of one shard, the sealed ones in the order of their names, and the entries of
`WriteAheadLogInner` for the shard. -/
structure WalStore where
  sealed : List SealedPiece
  active : Option Bytes
  lastSequence : Option ℕ
  verifiedLen : Option ℕ
  base : Option (ℕ × ℕ)
  preallocPhysical : Option ℕ
  blockMode : Option Bool
  blockLastRecord : Option (ℕ × ℕ)
  blockRetentionFloor : Option ℕ
  deriving DecidableEq

/-- A shard without files, in a process that has just started. -/
def WalStore.empty : WalStore := ⟨[], none, none, none, none, none, none, none, none⟩

/-- Put a file under its name: a file of that name is replaced. -/
def insertSealed (piece : SealedPiece) : List SealedPiece → List SealedPiece
  | [] => [piece]
  | other :: rest =>
    if piece.startsAt < other.startsAt then piece :: other :: rest
    else if piece.startsAt = other.startsAt then piece :: rest
    else other :: insertSealed piece rest

variable (cfg : WalConfig) (codec : WalCodec β ρ) (s : WalStore)

/-- The files the readers go through, in order. -/
def WalStore.segments : List (Option Bytes) :=
  s.sealed.map (some ·.bytes) ++ [s.active]

def fileLen (file : Option Bytes) : ℕ := (file.getD []).length

def cachedWalBase : Except WalError (WalStore × ℕ × ℕ) :=
  match s.base with
  | some cached => .ok (s, cached)
  | none => do
    let base ← readWalBase s.active
    return ({ s with base := some base }, base)

/-- Whether the active piece is laid out in blocks: remembered, or else it is empty or has a footer
on its grid. -/
def shardUsesBlocks : Except WalError (WalStore × Bool) :=
  match s.blockMode with
  | some known => .ok (s, known)
  | none => do
    let (_, headerLen) ← readWalBase s.active
    let file := s.active.getD []
    let usesBlocks :=
      if file.length ≤ headerLen then true else (lastWrittenFooter file headerLen).isSome
    return ({ s with blockMode := some usesBlocks }, usesBlocks)

/-- The last sequence of the newest of these pieces that has records. -/
def lastSequenceOfPieces (cfg : WalConfig) (codec : WalCodec β ρ) :
    List SealedPiece → Except WalError ℕ
  | [] => return 0
  | piece :: rest => do
    let (sequence, _) ← lastWalSequenceIn codec cfg.readAhead (some piece.bytes)
    if 0 < sequence then return sequence else lastSequenceOfPieces cfg codec rest

/-- The last sequence of the log, from its newest piece that has records, and where the records of
the active piece end. -/
def lastWalSequenceAt : Except WalError (ℕ × ℕ) := do
  let (sequence, activeRecordEnd) ← lastWalSequenceIn codec cfg.readAhead s.active
  if 0 < sequence then return (sequence, activeRecordEnd)
  return (← lastSequenceOfPieces cfg codec s.sealed.reverse, activeRecordEnd)

def logIdAfterSealed : Except WalError ℕ :=
  s.sealed.foldlM (fun last piece => do
    let (base, headerLen) ← readWalBase (some piece.bytes)
    return max last (base + (piece.bytes.length - headerLen))) 0

/-- Write the header of a missing active piece behind sealed ones. -/
def ensureActiveWalSegment : Except WalError WalStore :=
  if 0 < fileLen s.active then .ok s
  else do
    let start ← logIdAfterSealed s
    if start = 0 then return s
    let header := encodeBaseHeader start
    return { s with
      active := some header
      base := some (start, header.length)
      verifiedLen := some header.length }

/-- How far a roll gets: a crash may fall after the outgoing piece is renamed, before the next one
exists or before its header is written. -/
inductive RollEnd where
  | complete
  | afterRename
  | afterCreate
  deriving DecidableEq

/-- Seal the active piece once it holds enough. The outgoing piece is cut to its records. -/
def rollWalSegmentIfDue (recordEnd : ℕ) (stop : RollEnd) : Except WalError (WalStore × Bool) :=
  if cfg.segmentBytes = 0 then .ok (s, false)
  else do
    let file := s.active.getD []
    let (s, base, headerLen) ← cachedWalBase s
    let recordEnd := min recordEnd file.length
    let holds := recordEnd - headerLen
    if holds < cfg.segmentBytes then return (s, false)
    let s := { s with
      preallocPhysical := none
      sealed := insertSealed ⟨base, file.take recordEnd⟩ s.sealed
      active := none }
    match stop with
    | .afterRename => return (s, true)
    | .afterCreate => return ({ s with active := some [] }, true)
    | .complete =>
      let header := encodeBaseHeader (base + holds)
      return ({ s with
        active := some header
        base := some (base + holds, header.length)
        verifiedLen := some header.length
        blockMode := none
        blockLastRecord := none }, true)

/-- The last sequence and the end of the records: from memory while the file has the length that
memory expects and no foreign byte stands behind the records, else from the tail walk. -/
def resolveLastSequenceForAppend : Except WalError (WalStore × ℕ × ℕ) :=
  let cachedLastSequence := s.lastSequence.getD 0
  let onDisk := s.active.getD []
  let remembered : Option ℕ := do
    let verifiedLen ← s.verifiedLen
    let expectedPhysical :=
      if cfg.preallocate then s.preallocPhysical.getD verifiedLen else verifiedLen
    let interloper := cfg.preallocate && verifiedLen < onDisk.length &&
      (onDisk[verifiedLen]?).any (· ≠ 0)
    if cfg.flatAppend && s.lastSequence.isSome && onDisk.length = expectedPhysical && !interloper
    then some verifiedLen else none
  match remembered with
  | some verifiedLen => .ok (s, cachedLastSequence, verifiedLen)
  | none => do
    let (diskLastSequence, activeRecordEnd) ← lastWalSequenceAt cfg codec s
    let recordEnd := min activeRecordEnd onDisk.length
    let s := { s with
      verifiedLen := some recordEnd
      preallocPhysical := if cfg.preallocate then some onDisk.length else s.preallocPhysical }
    return (s, max cachedLastSequence diskLastSequence, recordEnd)

structure AppendReport where
  requestedSequence : ℕ
  currentSequence : ℕ
  appended : Bool
  offset : ℕ
  size : ℕ
  persistentBytes : ℕ
  deriving DecidableEq

/-- Where the next record goes if the caller does not say. -/
def appendOffset : Except WalError ℕ :=
  match s.verifiedLen, cfg.preallocate, s.active with
  | some recordEnd, true, _ => .ok recordEnd
  | none, true, some file => do
    let (_, recordEnd) ← lastWalSequenceIn codec cfg.readAhead (some file)
    return recordEnd
  | _, _, _ => .ok (fileLen s.active)

/-- The block a record of `size` bytes at `relative` closes: it does not fit before the footer slot,
and the slot is not yet written over. -/
def closedBlock (usesBlocks : Bool) (relative size : ℕ) : Option ℕ :=
  let index := blockOf relative
  if usesBlocks ∧ blockDataEnd index < relative + size ∧ relative ≤ blockDataEnd index then
    some index
  else none

/-- The length a reservation of whole chunks needs. -/
def reservedLen (physical needed : ℕ) : ℕ :=
  if physical < needed then
    (needed + (cfg.preallocateChunk - 1)) / cfg.preallocateChunk * cfg.preallocateChunk
  else physical

/-- Write the footer, if any, and the record. With a reservation both go to their positions;
otherwise the record goes to the end of the file, wherever that is. -/
def writeRecord (file : Bytes) (close : Option (ℕ × Bytes)) (offset : ℕ) (bytes : Bytes) : Bytes :=
  if cfg.preallocate then
    let physical := reservedLen cfg file.length (offset + bytes.length)
    let file := if file.length < physical then setLen file physical else file
    let file := close.elim file fun (slotAt, slot) => writeAt file slotAt slot
    writeAt file offset bytes
  else close.elim file (fun (slotAt, slot) => writeAt file slotAt slot) ++ bytes

/-- Write a record at `offset`, behind the footer of the block it closes if it closes one, and
remember where it went. -/
def putRecord (record : WalRecord β) (close : Option (ℕ × Bytes)) (offset : ℕ) :
    WalStore × AppendReport :=
  let bytes := frameOf codec record
  let file := s.active.getD []
  let written := writeRecord cfg file close offset bytes
  let persistentBytes := if cfg.preallocate then offset + bytes.length else written.length
  ({ s with
      active := some written
      preallocPhysical :=
        if cfg.preallocate then some (reservedLen cfg file.length (offset + bytes.length))
        else s.preallocPhysical
      blockLastRecord :=
        if s.blockMode.getD false then some (offset, record.sequence) else s.blockLastRecord
      verifiedLen := some persistentBytes },
    ⟨record.sequence, record.sequence, true, offset, bytes.length, persistentBytes⟩)

/-- The length of the base header, which only the block layout asks for. -/
def blockHeaderLen (usesBlocks : Bool) : Except WalError (WalStore × ℕ) :=
  if usesBlocks then do
    let (s, _, headerLen) ← cachedWalBase s
    return (s, headerLen)
  else return (s, 0)

/-- `append_record_locked_on` once the end of the records is known. A record that does not fit its
block closes it: the footer goes into the slot and the record starts the next block. -/
def appendRecordAt (record : WalRecord β) (offset now : ℕ) :
    Except WalError (WalStore × AppendReport) := do
  let (s, usesBlocks) ← shardUsesBlocks s
  let (s, headerLen) ← blockHeaderLen s usesBlocks
  let relative := offset - headerLen
  let closes := if headerLen ≤ offset then
      closedBlock usesBlocks relative (frameOf codec record).length
    else none
  let last := s.blockLastRecord.getD (offset, record.sequence - 1)
  let close := closes.map fun index => (headerLen + blockFooterAt index,
    encodeBlockFooter now index (relative - index * walBlockBytes) last.1 last.2)
  let offset := closes.elim offset fun index => headerLen + (index + 1) * walBlockBytes
  return putRecord cfg codec s record close offset

def appendRecordLocked (record : WalRecord β) (knownOffset : Option ℕ) (now : ℕ) :
    Except WalError (WalStore × AppendReport) := do
  let offset ← knownOffset.elim (appendOffset cfg codec s) pure
  appendRecordAt cfg codec s record offset now

end TemporalStore.Wal
