import TemporalStore.Lib.Result
import TemporalStore.Lib.Word
import TemporalStore.LogFraming
import TemporalStore.Wal.Footer

/-! # Reading one piece of the log (`wal.rs`) -/

namespace TemporalStore.Wal

open Lib LogFraming

/-- A `WriteAheadLogRecord`: its sequence, a `u64`, and the rest of its fields. -/
@[ext] structure WalRecord (β : Type) where
  sequence : ℕ
  body : β
  sequence_le : sequence ≤ u64Max

inductive WalError where
  | io (message : String)
  | json (message : String)
  | corruption (message : String)
  /-- A loop of the model ran out of fuel. -/
  | fuel
  deriving DecidableEq

/-- The first byte of a payload in the protobuf encodings of `wal_proto`. -/
def payloadMarkers : Bytes := [0xB7, 0xB8, 0xB9, 0xBA]

/-- The payload codec: `wal_proto`, the JSON of older records and the digest of older frames, with
what the log relies on. The sequence of a record comes back, the rest of it as `restored` says. A
payload is a Rust vector, so it is shorter than 2^63 bytes. -/
structure WalCodec (β ρ : Type) where
  encode : WalRecord β → Bytes
  decodeProto : Bytes → Except String (WalRecord ρ)
  decodeJson : Bytes → Except String (WalRecord ρ)
  sha256DigestHex : Bytes → Bytes
  restored : WalRecord β → ρ
  decodeProto_encode : ∀ record, decodeProto (encode record) =
    .ok ⟨record.sequence, restored record, record.sequence_le⟩
  encode_marked : ∀ record, ∃ marker ∈ payloadMarkers, (encode record).head? = some marker
  encode_length_lt : ∀ record, (encode record).length < 2 ^ 63

variable {β ρ : Type}

variable (file : Bytes) (codec : WalCodec β ρ)

/-- A record as it is read. -/
def WalCodec.read (record : WalRecord β) : WalRecord ρ :=
  ⟨record.sequence, codec.restored record, record.sequence_le⟩

def WalCodec.readEach (records : List (ℕ × WalRecord β)) : List (ℕ × WalRecord ρ) :=
  records.map fun r => (r.1, codec.read r.2)

def decodeWalLine (line : Bytes) : Except WalError (WalRecord ρ) :=
  match decodeLine codec.sha256DigestHex line with
  | .error e => .error (.corruption e)
  | .ok payload =>
    match payload.head? with
    | none => (codec.decodeJson payload).mapError .json
    | some first =>
      if first ∈ payloadMarkers then
        (codec.decodeProto payload).mapError fun e =>
          .corruption ("engine wal record decode failed: " ++ e)
      else (codec.decodeJson payload).mapError .json

def frameOf (record : WalRecord β) : Bytes := encodeFrame (codec.encode record)

def walBaseHeaderProbeBytes : ℕ := 256

/-- The base a piece's first line declares, with the length of the line. -/
def decodeWalBase (line : Bytes) : Except WalError (ℕ × ℕ) :=
  if line = [] then .ok (0, 0)
  else
    match decodeBaseHeader line with
    | .error e => .error (.corruption e)
    | .ok (some base) => .ok (base, line.length)
    | .ok none => .ok (0, 0)

def readWalBaseBuffered : Except WalError (ℕ × ℕ) :=
  decodeWalBase ((takeLine file).getD file)

/-- The base of a piece and the length of its header; a piece without a header starts at 0. A
missing file reads as `(0, 0)`. -/
def readWalBase : Option Bytes → Except WalError (ℕ × ℕ)
  | none => .ok (0, 0)
  | some file =>
    let scanned := file.take walBaseHeaderProbeBytes
    match takeLine scanned with
    | some line => decodeWalBase line
    | none =>
      if scanned.length < walBaseHeaderProbeBytes then decodeWalBase scanned
      else if baseHeaderMagic.isPrefixOf scanned then readWalBaseBuffered file
      else .ok (0, 0)

/-- The footer in the slot of block `index`, if the file reaches past the slot. -/
def footerInSlot (headerLen index : ℕ) : Option BlockFooter :=
  let slotAt := headerLen + blockFooterAt index
  if slotAt + walBlockFooterBytes ≤ file.length then
    decodeBlockFooter (slice file slotAt walBlockFooterBytes)
  else none

/-- Step over the footer of a block whose data part ends at or before `pos`. -/
def skipBlockFooterIfDue (pos headerLen : ℕ) : ℕ :=
  if pos < headerLen then pos
  else
    let relative := pos - headerLen
    let index := blockOf relative
    if relative < blockDataEnd index then pos
    else if (footerInSlot file headerLen index).isSome then
      headerLen + (index + 1) * walBlockBytes
    else pos

/-- The end of a footer that a reclaim carried off the grid: the first byte of `file` after `pos`
that is not zero starts a footer. -/
def displacedBlockFooterEnd (pos len : ℕ) : Option ℕ :=
  let window := min walBlockBytes (len - pos)
  if window < walBlockFooterBytes then none
  else
    let bytes := slice file pos window
    if bytes.length < window then none
    else
      let start := bytes.findIdx (· ≠ 0)
      if bytes.length < start + walBlockFooterBytes then none
      else if (decodeBlockFooter (slice bytes start walBlockFooterBytes)).isNone then none
      else
        let next := pos + start + walBlockFooterBytes
        if len ≤ next then none else some next

/-- Where the records go on if the block `pos` lies in is closed. -/
def blockIsClosed (pos headerLen len : ℕ) : Option ℕ :=
  if pos < headerLen then none
  else
    let index := blockOf (pos - headerLen)
    let slotAt := headerLen + blockFooterAt index
    if slotAt + walBlockFooterBytes ≤ len ∧ (footerInSlot file headerLen index).isSome then
      let next := headerLen + (index + 1) * walBlockBytes
      if len ≤ next then none else some next
    else displacedBlockFooterEnd file pos len

inductive Step where
  | record (raw : Bytes)
  | closed (next : ℕ)
  | done
  deriving DecidableEq

/-- Read one raw record at `pos`; where there is none, the block may be closed. -/
def readStep (headerLen len pos : ℕ) : Except WalError Step :=
  match readRawRecord (file.drop pos) with
  | .error e => .error (.io e)
  | .ok (some raw) => .ok (.record raw)
  | .ok none =>
    match blockIsClosed file pos headerLen len with
    | some next => .ok (.closed next)
    | none => .ok .done

/-- The loop of `last_wal_sequence_forward` and `last_wal_sequence_forward_from`. A record that does
not decode ends the walk if what the reader holds behind it is zeros; how much it holds depends on
its buffer, at least one byte if there is one. -/
def lastSequenceLoop (codec : WalCodec β ρ) (readAhead : ℕ → ℕ) (file : Bytes) (headerLen : ℕ) :
    ℕ → ℕ → ℕ → Except WalError (ℕ × ℕ)
  | 0, _, _ => .error .fuel
  | fuel + 1, lastSequence, recordEnd =>
    let recordEnd := skipBlockFooterIfDue file recordEnd headerLen
    if file.length ≤ recordEnd then .ok (lastSequence, recordEnd)
    else
      match readStep file headerLen file.length recordEnd with
      | .error e => .error e
      | .ok .done => .ok (lastSequence, recordEnd)
      | .ok (.closed next) => lastSequenceLoop codec readAhead file headerLen fuel lastSequence next
      | .ok (.record raw) =>
        let next := recordEnd + raw.length
        if raw = [] then .ok (lastSequence, recordEnd)
        else if raw.all isAsciiWhitespace then
          lastSequenceLoop codec readAhead file headerLen fuel lastSequence next
        else
          match decodeWalLine codec raw with
          | .ok record =>
            lastSequenceLoop codec readAhead file headerLen fuel
              (max lastSequence record.sequence) next
          | .error e =>
            if (slice file next (max 1 (readAhead next))).all (· == 0) then
              .ok (lastSequence, recordEnd)
            else .error e

/-- The last footer on the grid at or before block `index`. -/
def lastWrittenFooterFrom (file : Bytes) (headerLen : ℕ) : ℕ → Option (ℕ × BlockFooter)
  | 0 => (footerInSlot file headerLen 0).map (0, ·)
  | index + 1 =>
    (footerInSlot file headerLen (index + 1)).elim (lastWrittenFooterFrom file headerLen index)
      fun footer => some (index + 1, footer)

def lastWrittenFooter (headerLen : ℕ) : Option (ℕ × BlockFooter) :=
  if file.length ≤ headerLen then none
  else lastWrittenFooterFrom file headerLen (blockOf (file.length - headerLen - 1))

/-- The sequence in the last footer and where the records behind it start. -/
def footerTailHint : Except WalError (Option (ℕ × ℕ)) := do
  let (_, headerLen) ← readWalBase (some file)
  return (lastWrittenFooter file headerLen).map fun (index, footer) =>
    (footer.lastRecordSequence, headerLen + (index + 1) * walBlockBytes)

def lastWalSequenceForwardFrom (readAhead : ℕ → ℕ) (file : Bytes) (start knownSequence : ℕ) :
    Except WalError (ℕ × ℕ) :=
  if file.length ≤ start then .ok (knownSequence, min start file.length)
  else do
    let (_, headerLen) ← readWalBase (some file)
    lastSequenceLoop codec readAhead file headerLen (file.length + 1) knownSequence start

def lastWalSequenceForward (readAhead : ℕ → ℕ) (file : Bytes) : Except WalError (ℕ × ℕ) := do
  let (_, headerLen) ← readWalBase (some file)
  if file.length ≤ headerLen then .ok (0, min file.length headerLen)
  else lastSequenceLoop codec readAhead file headerLen (file.length + 1) 0 headerLen

/-- The last sequence of a piece and where its records end. -/
def lastWalSequenceIn (readAhead : ℕ → ℕ) : Option Bytes → Except WalError (ℕ × ℕ)
  | none => .ok (0, 0)
  | some file => do
    match ← footerTailHint file with
    | some (sequence, start) => lastWalSequenceForwardFrom codec readAhead file start sequence
    | none => lastWalSequenceForward codec readAhead file

/-- The sequence of a piece's first record, if it can be read. -/
def firstWalSequenceIn : Option Bytes → Except WalError (Option ℕ)
  | none => .ok none
  | some file => do
    let (_, headerLen) ← readWalBase (some file)
    if file.length ≤ headerLen then return none
    let recordEnd := skipBlockFooterIfDue file headerLen headerLen
    if file.length ≤ recordEnd then return none
    match readRawRecord (file.drop recordEnd) with
    | .error e => .error (.io e)
    | .ok none => return none
    | .ok (some raw) =>
      if raw.all isAsciiWhitespace then return none
      match decodeWalLine codec raw with
      | .ok record => return some record.sequence
      | .error _ => return none

end TemporalStore.Wal
