import TemporalStore.Wal.ReadBack

namespace TemporalStore.Wal

open Lib LogFraming

variable {β ρ : Type}

/-- A piece: whether it has a base header, the log id it starts at and its cells. -/
structure Piece (β : Type) where
  headed : Bool
  base : ℕ
  cells : List (Cell β)

namespace Piece

variable (codec : WalCodec β ρ) (p : Piece β)

def header : Bytes := if p.headed then encodeBaseHeader p.base else []

def blank : Piece β := ⟨false, 0, []⟩

def IsBlank : Prop := p.headed = false ∧ p.cells = []

instance : Decidable p.IsBlank :=
  decidable_of_iff (p.headed = false ∧ p.cells.isEmpty = true) (by simp [IsBlank])

/-- The log id behind the last record. -/
def stop : ℕ := p.base + cellsLen codec p.cells

def records : List (ℕ × WalRecord β) := recordsFrom codec p.base p.cells

def gaps : List PlacedGap := gapsFrom codec 0 p.cells

def bytes (reserve : ℕ) : Bytes := pieceBytes codec p.header p.cells reserve

/-- What a roll leaves in the place of the piece it seals. -/
def successor : RollEnd → Option (Piece β)
  | .complete => some ⟨true, p.stop codec, []⟩
  | .afterRename => none
  | .afterCreate => some blank

end Piece

/-- The log of a shard. Besides its pieces it has the block mode, the offset and sequence of the
last record written to a block, and the block-retention floor that the process remembers. -/
structure Log (β : Type) where
  sealed : List (Piece β)
  active : Option (Piece β)
  blockMode : Option Bool
  lastRecord : Option (ℕ × ℕ)
  floor : Option ℕ

namespace Log

def empty : Log β := ⟨[], none, none, none, none⟩

variable (codec : WalCodec β ρ) (cfg : WalConfig) (l : Log β)

/-- The active piece; a missing file counts as an empty one. -/
def current : Piece β := l.active.getD Piece.blank

def pieces : List (Piece β) := l.sealed ++ [l.current]

def cells : List (Cell β) := l.pieces.flatMap Piece.cells

def lastSequence : ℕ := lastSequenceOf l.cells

def records : List (ℕ × WalRecord β) := l.pieces.flatMap (Piece.records codec)

def sealedStop : ℕ := l.sealed.foldl (fun m p => max m (p.stop codec)) 0

/-- Give an empty active piece behind sealed ones its header. -/
def ensured : Log β :=
  if l.current.IsBlank ∧ l.sealedStop codec ≠ 0 then
    { l with active := some ⟨true, l.sealedStop codec, []⟩ }
  else l

def usesBlocks : Bool :=
  l.blockMode.getD
    (l.current.cells.isEmpty || (l.current.gaps codec).any fun g => decide g.OnGrid)

variable (record : WalRecord β) (now : ℕ)

/-- The gap that closes block `index`. -/
def closingGap (index : ℕ) : Gap :=
  let relative := cellsLen codec l.current.cells
  let last := l.lastRecord.getD (l.current.header.length + relative, record.sequence - 1)
  ⟨blockFooterAt index - relative,
    writtenSlot now index (relative - index * walBlockBytes) last.1 last.2⟩

/-- The gap a record is written behind, if it closes a block. -/
def gapFor : Option Gap :=
  (closedBlock (l.usesBlocks codec) (cellsLen codec l.current.cells)
    (frameOf codec record).length).map (l.closingGap codec record now)

def cellFor : Cell β :=
  ⟨l.gapFor codec record now, record⟩

def place : Log β :=
  let cell := l.cellFor codec record now
  let offset :=
    l.current.header.length + cellsLen codec l.current.cells + cell.gapBytes.length
  { l with
    active := some { l.current with cells := l.current.cells ++ [cell] }
    blockMode := some (l.usesBlocks codec)
    lastRecord := if l.usesBlocks codec then some (offset, record.sequence) else l.lastRecord }

def rolled (stop : RollEnd) : Log β :=
  if cfg.segmentBytes = 0 ∨ cellsLen codec l.current.cells < cfg.segmentBytes then l
  else
    { l with
      sealed := l.sealed ++ [l.current]
      active := l.current.successor codec stop
      blockMode := none
      lastRecord := none }

def next (body : β) : WalRecord β := nextRecord l.lastSequence body

/-- An append of one record that takes the next sequence. -/
def appended (body : β) (now : ℕ) (stop : RollEnd) : Log β :=
  ((l.ensured codec).place codec (l.next body) now).rolled codec cfg stop

/-- The records of a batch, each with the next sequence. -/
def placeAll (l : Log β) (now : ℕ) : List β → Log β
  | [] => l
  | body :: bodies => (l.place codec (l.next body) now).placeAll now bodies

def appendedBatch (bodies : List β) (now : ℕ) (stop : RollEnd) : Log β :=
  match bodies with
  | [] => l
  | bodies => ((l.ensured codec).placeAll codec now bodies).rolled codec cfg stop

/-- A record that brings its own sequence, which must be above the last one. -/
def replayed : Log β :=
  if record.sequence ≤ l.lastSequence then l.ensured codec
  else (l.ensured codec).place codec record now

/-- A process that starts remembers nothing. -/
def reopened : Log β := { l with blockMode := none, lastRecord := none, floor := none }

/-- The sequence of the first record, if the piece starts with it. -/
def firstSequenceOf : List (Cell β) → Option ℕ
  | [] => none
  | c :: _ => if c.gap.isNone then some c.record.sequence else none

/-- The sealed pieces left once the covered ones are gone. -/
def dropCovered (cfg : WalConfig) (active : Piece β) (retain : ℕ) :
    List (Piece β) → ℕ → List (Piece β)
  | [], _ => []
  | p :: rest, dropped =>
    if 0 < cfg.reclaimMaxSegmentsPerPass ∧ cfg.reclaimMaxSegmentsPerPass ≤ dropped then p :: rest
    else if (firstSequenceOf (rest.head?.getD active).cells).any (· ≤ retain) ∨
        lastSequenceOf p.cells = 0 ∨ lastSequenceOf p.cells < retain then
      dropCovered cfg active retain rest (dropped + 1)
    else p :: rest

/-- The cells from the first record to retain on; the gap before that record goes. -/
def retained (retain : ℕ) (cells : List (Cell β)) : List (Cell β) :=
  match cells.dropWhile fun c => decide (c.record.sequence < retain) with
  | [] => []
  | c :: rest => ⟨none, c.record⟩ :: rest

variable (retain : ℕ)

/-- The sequence a reclaim really retains from. -/
def effectiveRetain : ℕ :=
  min (min retain l.lastSequence) (l.floor.getD u64Max)

/-- The cells of the active piece that a reclaim keeps. -/
def kept : List (Cell β) :=
  retained (l.effectiveRetain retain) l.current.cells

def removedLen : ℕ :=
  cellsLen codec l.current.cells - cellsLen codec (l.kept retain)

def rewrites : Bool :=
  reclaimIsWorthRewriting cfg (l.removedLen codec retain) (cellsLen codec (l.kept retain))

def rewritten : Piece β :=
  if l.rewrites codec cfg retain then
    ⟨true, l.current.base + l.removedLen codec retain, l.kept retain⟩
  else l.current

/-- A reclaim of everything before sequence `retain`; without an active piece it does nothing. -/
def reclaimed : Log β :=
  if l.active.isNone then l
  else
    { l with
      sealed := dropCovered cfg l.current (l.effectiveRetain retain) l.sealed 0
      active := some (l.rewritten codec cfg retain) }

end Log

end TemporalStore.Wal
