import TemporalStore.IndexLog.ReadBack
import TemporalStore.LogReaders

/-! # The files of the served-index log (`index_log.rs`) -/

namespace TemporalStore.IndexLog

open Lib BlockEntry LogFraming

def u64Max : ℕ := 2 ^ 64 - 1

def saturatingSucc (n : ℕ) : ℕ := min (n + 1) u64Max

/-- What the name of a sealed piece tells. Its sequences are below `stop`. -/
structure IndexSegmentSpan where
  start : ℕ
  stop : ℕ
  maxAppliedWal : ℕ
  deriving DecidableEq

/-- The anchor in the name of a piece that no base reflects. -/
def indexSegmentUnreflected : ℕ := u64Max

structure SealedPiece where
  span : IndexSegmentSpan
  bytes : Bytes

/-- The files of one shard, and the last sequence where the open store knows it. -/
structure LogState where
  pieces : List SealedPiece
  active : Option Bytes
  lastSequence : Option ℕ

def LogState.empty : LogState := ⟨[], none, none⟩

/-- The sealed pieces, oldest first. -/
def LogState.segments (state : LogState) : List SealedPiece :=
  sortByKey (·.span.start) state.pieces

section Records

variable {J : Type}

def deltaRecordCarriesContentOf (record : IndexDeltaRecord J) : Bool :=
  !record.items.isEmpty || record.metaItem.isSome || !record.keyStates.isEmpty

end Records

/-- Filler between records. -/
def isBlank (payload : Bytes) : Bool := payload.all isAsciiWhitespace

def faultError : FrameFault → IndexLogError
  | .framing message => .corruption message
  | .panicked => .capacity

namespace LogCodecs

variable {J : Type} (K : LogCodecs J)

def sha256DigestHex (payload : Bytes) : Bytes :=
  (K.sha256 payload).flatMap fun b => hexBytes 2 b.toNat

/-- The frames up to the end of the records, and how the walk ended. A frame takes a byte at least,
so that the fuel of `frames` is enough. -/
def framesFrom : ℕ → Bytes → List (ℕ × Bytes) × Except IndexLogError Unit
  | 0, _ => ([], .ok ())
  | fuel + 1, bytes =>
    match readFrame K.sha256DigestHex bytes with
    | .ok none => ([], .ok ())
    | .ok (some (consumed, payload)) =>
      let (frames, status) := framesFrom fuel (bytes.drop consumed)
      ((consumed, payload) :: frames, status)
    | .error fault => ([], .error (faultError fault))

def frames (bytes : Bytes) : List (ℕ × Bytes) × Except IndexLogError Unit :=
  K.framesFrom (bytes.length + 1) bytes

def lastSequenceStep (last : ℕ) (frame : ℕ × Bytes) : Except IndexLogError ℕ :=
  if isBlank frame.2 then .ok last
  else do
    let head ← K.decodeHead frame.2
    .ok (max last head.sequence)

variable (config : WriterConfig) (threshold shardId : ℕ) (state : LogState)

/-- The last sequence, from the names of the sealed pieces and the records of the one being written,
and that piece without a record that was cut short. -/
def lastSequenceAt : Except IndexLogError (ℕ × Option Bytes) :=
  let named := state.segments.foldl (fun last piece => max last (piece.span.stop - 1)) 0
  match state.active with
  | none => .ok (named, none)
  | some bytes => do
    let (frames, status) := K.frames bytes
    let last ← frames.foldlM K.lastSequenceStep named
    status
    .ok (last, some (bytes.take (frames.map Prod.fst).sum))

def deltaRecordCarriesContent (payload : Bytes) : Except IndexLogError Bool :=
  if indexPayloadShape payload = some indexLogShapeWhole then .ok false
  else do
    let record ← K.decodeDelta payload
    .ok (deltaRecordCarriesContentOf record)

structure SpanScan where
  first : Option ℕ
  last : ℕ
  maxAppliedWal : ℕ
  unreflected : Bool

def spanStep (scan : SpanScan) (frame : ℕ × Bytes) : Except IndexLogError SpanScan :=
  if isBlank frame.2 then .ok scan
  else do
    let head ← K.decodeHead frame.2
    let first := scan.first.or (some head.sequence)
    let last := max scan.last head.sequence
    match head.appliedWalSequence with
    | some anchor => .ok ⟨first, last, max scan.maxAppliedWal anchor, scan.unreflected⟩
    | none => do
      -- once a record is found that no base reflects, no other is looked into
      let carries ← if scan.unreflected then .ok true else K.deltaRecordCarriesContent frame.2
      .ok ⟨first, last, scan.maxAppliedWal, carries⟩

def SpanScan.span (scan : SpanScan) : Option IndexSegmentSpan :=
  scan.first.map fun start => ⟨start, saturatingSucc scan.last,
    if scan.unreflected then indexSegmentUnreflected else scan.maxAppliedWal⟩

def indexLogSegmentSpanOf (bytes : Bytes) : Except IndexLogError (Option IndexSegmentSpan) := do
  let (frames, status) := K.frames bytes
  let scan ← frames.foldlM K.spanStep ⟨none, 0, 0, false⟩
  status
  .ok scan.span

/-- Seal the piece being written if it is long enough. A file of the same name is replaced. -/
def rollIndexLogSegmentAt : Except IndexLogError LogState :=
  let bytes := state.active.getD []
  if threshold = 0 ∨ bytes.length < threshold then .ok state
  else do
    match ← K.indexLogSegmentSpanOf bytes with
    | none => .ok state
    | some span =>
      .ok { state with
        pieces := state.pieces.filter (·.span != span) ++ [⟨span, bytes⟩]
        active := none }

/-- What is appended: a whole index, the anchor of an index, or a delta. -/
inductive Entry (J : Type) where
  | json (indexBytes : Bytes)
  | indexBytes (indexBytes : Bytes)
  | delta (items : List IndexItem) (keyStates : List J) (appliedWalSequence : Option ℕ)
    (metaItem : Option MetaItem) (upsert : Bool)

def encodeEntry (sequence : ℕ) : Entry J → Except IndexLogError Bytes
  | .json indexBytes => do
    let index ← (K.keyState.decode indexBytes).mapError .json
    .ok (K.encodeIndexPayload config (K.whole.encode ⟨shardId, sequence, index⟩) indexLogShapeWhole)
  | .indexBytes indexBytes =>
    .ok (K.encodeIndexPayload config
      (K.anchor.encode ⟨shardId, sequence, K.sha256 indexBytes, indexBytes.length⟩)
      indexLogShapeAnchor)
  | .delta items keyStates appliedWalSequence metaItem upsert =>
    .ok (K.deltaPayload config shardId sequence items keyStates appliedWalSequence metaItem upsert)

/-- A vector holds less than 2^63 bytes. -/
def entryPayload (sequence : ℕ) (entry : Entry J) : Except IndexLogError Bytes := do
  let payload ← K.encodeEntry config shardId sequence entry
  if 2 ^ 63 ≤ payload.length then .error .capacity else .ok payload

/-- The last sequence, read from the files when the store does not know it. -/
def probe : Except IndexLogError (ℕ × LogState) :=
  match state.lastSequence with
  | some last => .ok (last, state)
  | none => do
    let (last, active) ← K.lastSequenceAt state
    .ok (last, { state with active := active, lastSequence := some last })

/-- What an append has done when it comes to the write: the piece being written is the right one,
and this is the sequence and the payload. -/
def prepare (entry : Entry J) : LogState × Except IndexLogError (ℕ × Bytes) :=
  match K.probe state with
  | .error e => (state, .error e)
  | .ok (last, state) =>
    match K.rollIndexLogSegmentAt threshold state with
    | .error e => (state, .error e)
    | .ok state =>
      let sequence := saturatingSucc last
      (state, (K.entryPayload config shardId sequence entry).map fun payload => (sequence, payload))

def append (entry : Entry J) : LogState × Except IndexLogError ℕ :=
  match K.prepare config threshold shardId state entry with
  | (state, .error e) => (state, .error e)
  | (state, .ok (sequence, payload)) =>
    ({ state with
      active := some (state.active.getD [] ++ encodeFrame payload)
      lastSequence := some sequence }, .ok sequence)

/-- The process ends while it writes: some bytes of the frame are in the file, and not all. -/
def interrupted (entry : Entry J) (written : ℕ) : LogState :=
  match K.prepare config threshold shardId state entry with
  | (state, .error _) => { state with lastSequence := none }
  | (state, .ok (_, payload)) =>
    { state with
      active := some (state.active.getD [] ++
        (encodeFrame payload).take (min written ((encodeFrame payload).length - 1)))
      lastSequence := none }

def reopen : LogState := { state with lastSequence := none }

/-- The pieces are in order, so the first one that holds something ends the round. -/
def dropCoveredIndexSegments (retainFromSequence : ℕ) (segments : List SealedPiece) :
    List SealedPiece :=
  segments.dropWhile fun piece => decide (piece.span.stop ≤ retainFromSequence)

def dropReflectedIndexSegments (walAnchor metaSequence : ℕ) (segments : List SealedPiece) :
    List SealedPiece :=
  segments.dropWhile fun piece =>
    decide (piece.span.stop ≤ metaSequence ∧ piece.span.maxAppliedWal ≤ walAnchor)

structure Sweep where
  retained : List Bytes
  removed : ℕ
  reclaimableBytes : ℕ

def coveredStep (retainFromSequence maxEntriesPerRound : ℕ) (sweep : Sweep) (frame : ℕ × Bytes) :
    Except IndexLogError Sweep :=
  if isBlank frame.2 then .ok sweep
  else do
    let head ← K.decodeHead frame.2
    if retainFromSequence ≤ head.sequence ∨
        0 < maxEntriesPerRound ∧ maxEntriesPerRound ≤ sweep.removed then
      .ok { sweep with retained := sweep.retained ++ [frame.2] }
    else .ok ⟨sweep.retained, sweep.removed + 1, sweep.reclaimableBytes + frame.1⟩

def reflectedStep (walAnchor metaSequence : ℕ) (sweep : Sweep) (frame : ℕ × Bytes) :
    Except IndexLogError Sweep :=
  if isBlank frame.2 then .ok sweep
  else do
    let head ← K.decodeHead frame.2
    let reflected ← match head.appliedWalSequence with
      | some anchor => .ok (decide (anchor ≤ walAnchor))
      | none => do
        let carries ← K.deltaRecordCarriesContent frame.2
        .ok (!carries)
    if metaSequence ≤ head.sequence ∨ reflected = false then
      .ok { sweep with retained := sweep.retained ++ [frame.2] }
    else .ok ⟨sweep.retained, sweep.removed + 1, sweep.reclaimableBytes + frame.1⟩

/-- One round: whole pieces first, then the piece being written, which is rewritten where enough of
it goes. -/
def sweep (drop : List SealedPiece → List SealedPiece)
    (step : Sweep → ℕ × Bytes → Except IndexLogError Sweep) (minReclaimableBytes : ℕ)
    (state : LogState) : LogState × Except IndexLogError Unit :=
  if state.pieces.isEmpty && state.active.isNone then (state, .ok ())
  else
    let state := { state with pieces := drop state.segments }
    match K.lastSequenceAt state with
    | .error e => (state, .error e)
    | .ok (_, none) => ({ state with active := none }, .ok ())
    | .ok (_, some bytes) =>
      let state := { state with active := some bytes }
      let (frames, status) := K.frames bytes
      match (do let sweep ← frames.foldlM step ⟨[], 0, 0⟩; status; .ok sweep) with
      | .error e => (state, .error e)
      | .ok sweep =>
        if sweep.removed = 0 ∨ sweep.reclaimableBytes < minReclaimableBytes then (state, .ok ())
        else ({ state with active := some (sweep.retained.flatMap encodeFrame) }, .ok ())

/-- A limit of zero is no limit. -/
def gcBeforeSequenceLimited (retainFromSequence maxEntriesPerRound : ℕ) (state : LogState) :
    LogState × Except IndexLogError Unit :=
  K.sweep (dropCoveredIndexSegments retainFromSequence)
    (K.coveredStep retainFromSequence maxEntriesPerRound) 0 state

def gcReflectedBeforeAnchor (walAnchor metaSequence minReclaimableBytes : ℕ) (state : LogState) :
    LogState × Except IndexLogError Unit :=
  K.sweep (dropReflectedIndexSegments walAnchor metaSequence)
    (K.reflectedStep walAnchor metaSequence) minReclaimableBytes state

end LogCodecs

end TemporalStore.IndexLog
