import TemporalStore.Wal.FirstBlock

namespace TemporalStore.Wal

open Lib LogFraming List Option Log Nat Cell WalConfig DurableIndexAnchor

variable {β ρ : Type} {codec : WalCodec β ρ}

/-- A piece of three records. A displaced footer stands before the second, and the third was
written behind the footer that closed the first block of the grid. -/
structure Shadowed (codec : WalCodec β ρ) (p : Piece β) (first hidden last : WalRecord β)
    (moved closing : Gap) : Prop where
  headed : p.headed = true
  cells : p.cells = [⟨none, first⟩, ⟨some moved, hidden⟩, ⟨some closing, last⟩]
  pad : 0 < moved.pad
  grid : cellsLen codec [⟨none, first⟩, ⟨some moved, hidden⟩] + closing.pad = blockFooterAt 0
  short : cellsLen codec p.cells ≤ blockFooterAt 1

/-- The only slot that shows a footer is the first. -/
lemma lastWrittenFooterFrom_of_first {file : Bytes} {headerLen : ℕ} {footer : BlockFooter}
    (hfirst : footerInSlot file headerLen 0 = some footer)
    (hrest : ∀ index, footerInSlot file headerLen (index + 1) = none) (index : ℕ) :
    lastWrittenFooterFrom file headerLen index = some (0, footer) := by
  induction index with
  | zero =>
    rw [lastWrittenFooterFrom, hfirst]
    rfl
  | succ index ih => rw [lastWrittenFooterFrom, hrest, elim_none, ih]

namespace Shadowed

variable {p : Piece β} {first hidden last : WalRecord β} {moved closing : Gap}
  (h : Shadowed codec p first hidden last moved closing)

include h

lemma lengths : (frameOf codec first).length + (moved.pad + 128 + (frameOf codec hidden).length) +
        closing.pad = 130944 ∧ cellsLen codec p.cells = 131072 + (frameOf codec last).length ∧
      cellsLen codec p.cells ≤ 262016 := by
  have hgrid := h.grid
  have hshort := h.short
  rw [h.cells] at hshort ⊢
  simp only [cellsLen_cons, cellsLen_nil, bytes_length, gapBytes, elim_none, elim_some,
    length_nil, Gap.bytes_length, walBlockFooterBytes, blockFooterAt_eq] at hgrid hshort ⊢
  omega

lemma gap_mem : ⟨(frameOf codec first).length, moved⟩ ∈ gapsFrom codec 0 p.cells ∧
      ∃ g ∈ gapsFrom codec 0 p.cells, g.gap = closing ∧ g.OnGrid ∧ blockOf g.start = 0 := by
  have hlens := h.lengths
  rw [h.cells]
  refine ⟨by simp [gapsFrom, bytes, gapBytes], ⟨(frameOf codec first).length +
    (moved.pad + 128 + (frameOf codec hidden).length), closing⟩, ?_, rfl, ?_, ?_⟩
  · simp [gapsFrom, bytes, gapBytes, Gap.bytes_length, walBlockFooterBytes]
  · simp only [PlacedGap.OnGrid, PlacedGap.stop, blockOf_eq, walBlockBytes_eq, walBlockFooterBytes]
    omega
  · simp only [blockOf_eq]
    omega

variable (reserve : ℕ)

lemma footerInSlot_zero :
    footerInSlot (p.bytes codec reserve) p.header.length 0 = some closing.slot.footer := by
  obtain ⟨-, g, hg, rfl, hgrid, hblk⟩ := h.gap_mem
  rw [← hblk]
  exact footerInSlot_of_onGrid rfl hg hgrid

lemma footerInSlot_succ (index : ℕ) :
    footerInSlot (p.bytes codec reserve) p.header.length (index + 1) = none := by
  refine footerInSlot_behind ?_
  have hlens := h.lengths
  rw [blockFooterAt_eq]
  omega

omit h in
lemma skip_eq {file : Bytes} {pos headerLen : ℕ} (h : pos < blockDataEnd (blockOf pos)) :
    skipBlockFooterIfDue file (headerLen + pos) headerLen = headerLen + pos := by
  rw [skipBlockFooterIfDue, if_neg (by omega), Nat.add_sub_cancel_left, if_pos h]

lemma readStep_at_moved {len : ℕ} (hlen : p.header.length + cellsLen codec p.cells ≤ len) :
    readStep (p.bytes codec reserve) p.header.length len
      (p.header.length + (frameOf codec first).length) =
      .ok (.closed (p.header.length + 131072)) := by
  have hlens := h.lengths
  have hfr := frameOf_length_pos codec last
  have hraw : readRawRecord ((p.bytes codec reserve).drop
      (p.header.length + (frameOf codec first).length)) = .ok none :=
    readRawRecord_at_padding rfl h.gap_mem.1 h.pad
  have hblk : blockOf (frameOf codec first).length = 0 := by
    rw [blockOf_eq]
    omega
  have hclosed : blockIsClosed (p.bytes codec reserve)
      (p.header.length + (frameOf codec first).length) p.header.length len =
      some (p.header.length + 131072) := by
    have hslot : p.header.length + blockFooterAt 0 + walBlockFooterBytes ≤ len := by
      rw [blockFooterAt_eq]
      simp only [walBlockFooterBytes]
      omega
    rw [blockIsClosed, if_neg (by omega), Nat.add_sub_cancel_left, hblk]
    dsimp only
    rw [h.footerInSlot_zero reserve, if_pos ⟨hslot, rfl⟩, walBlockBytes_eq, if_neg (by omega)]
  rw [readStep, hraw]
  simp only [hclosed]

lemma path_last (len : ℕ) :
    Path codec (p.bytes codec reserve) p.header.length len 1 (p.header.length + 131072)
      [(p.header.length + 131072, last)] (p.header.length + cellsLen codec p.cells) := by
  have hlens := h.lengths
  have hbef : cellsLen codec [⟨none, first⟩, ⟨some moved, hidden⟩] +
      (⟨some closing, last⟩ : Cell β).gapBytes.length = 131072 := by
    have hgrid := h.grid
    rw [blockFooterAt_eq] at hgrid
    simp only [gapBytes, elim_some, Gap.bytes_length, walBlockFooterBytes]
    omega
  have hread : readStep (p.bytes codec reserve) p.header.length len
      (p.header.length + (cellsLen codec [⟨none, first⟩, ⟨some moved, hidden⟩] +
        (⟨some closing, last⟩ : Cell β).gapBytes.length)) = .ok (.record (frameOf codec last)) :=
    readStep_at_record (c := ⟨some closing, last⟩) rfl h.cells len
  rw [hbef] at hread
  have hstop : p.header.length + cellsLen codec p.cells =
      p.header.length + 131072 + (frameOf codec last).length := by omega
  rw [hstop]
  refine .record (skip_eq ?_) hread (.nil _)
  rw [blockDataEnd_eq, blockOf_eq]
  omega

lemma path {len : ℕ} (hlen : p.header.length + cellsLen codec p.cells ≤ len) :
    Path codec (p.bytes codec reserve) p.header.length len 3 p.header.length
      [(p.header.length, first), (p.header.length + 131072, last)]
      (p.header.length + cellsLen codec p.cells) := by
  have hlens := h.lengths
  have hread : readStep (p.bytes codec reserve) p.header.length len p.header.length =
      .ok (.record (frameOf codec first)) := by
    have hcells : p.cells = [] ++ ⟨none, first⟩ ::
        [⟨some moved, hidden⟩, ⟨some closing, last⟩] := h.cells
    exact readStep_at_record rfl hcells len
  have hat : skipBlockFooterIfDue (p.bytes codec reserve)
      (p.header.length + (frameOf codec first).length) p.header.length =
      p.header.length + (frameOf codec first).length :=
    skip_eq (by rw [blockDataEnd_eq]; omega)
  have hstart : skipBlockFooterIfDue (p.bytes codec reserve) (p.header.length + 0)
      p.header.length = p.header.length + 0 := skip_eq (by rw [blockDataEnd_eq]; omega)
  exact .record hstart hread
    (.closed hat (zero_at_padding rfl h.gap_mem.1 h.pad) (h.readStep_at_moved reserve hlen)
      (h.path_last reserve len))

lemma open_at_end :
    1 * walBlockBytes ≤ cellsLen codec p.cells ∧ cellsLen codec p.cells ≤ blockFooterAt 1 := by
  have hlens := h.lengths
  rw [walBlockBytes_eq, blockFooterAt_eq]
  omega

lemma skip_at_end :
    skipBlockFooterIfDue (p.bytes codec reserve) (p.header.length + cellsLen codec p.cells)
      p.header.length = p.header.length + cellsLen codec p.cells :=
  skip_at_open_end h.open_at_end.1 h.open_at_end.2

lemma readStep_at_end :
    readStep (p.bytes codec reserve) p.header.length (p.bytes codec reserve).length
      (p.header.length + cellsLen codec p.cells) = .ok .done :=
  readStep_at_open_end h.open_at_end.1 h.open_at_end.2 _

lemma readWalBase : readWalBase (some (p.bytes codec reserve)) = .ok (p.base, p.header.length) := by
  rw [Piece.bytes, Piece.header, h.headed]
  exact readWalBase_headed p.base _

lemma lastWalSequenceIn (readAhead : ℕ → ℕ) :
    lastWalSequenceIn codec readAhead (some (p.bytes codec reserve)) =
      .ok (max closing.slot.footer.lastRecordSequence last.sequence,
        p.header.length + cellsLen codec p.cells) := by
  have hlens := h.lengths
  have hfr := frameOf_length_pos codec last
  have hlen := p.bytes_length codec reserve
  have hfoot : lastWrittenFooter (p.bytes codec reserve) p.header.length =
      some (0, closing.slot.footer) := by
    rw [lastWrittenFooter, if_neg (by omega), lastWrittenFooterFrom_of_first
      (h.footerInSlot_zero reserve) (h.footerInSlot_succ reserve)]
  rw [lastWalSequenceIn_of_some readAhead (h.readWalBase reserve) hfoot
    (by rw [walBlockBytes_eq]; omega)]
  exact lastSequenceLoop_of_path readAhead (h.path_last reserve _) (h.skip_at_end reserve)
    (h.readStep_at_end reserve) (by omega) _

lemma hidden_mem :
    (p.base + (frameOf codec first).length + (moved.pad + 128), hidden) ∈ p.records codec := by
  rw [Piece.records, h.cells]
  simp [recordsFrom, bytes, gapBytes, Gap.bytes_length, walBlockFooterBytes]

section Store

variable {s : WalStore} {reserve : ℕ} (cfg : WalConfig) (hseal : s.sealed = [])
  (hact : s.active = some (p.bytes codec reserve))

include hseal hact

lemma lastWalSequenceAt : lastWalSequenceAt cfg codec s =
      .ok (max closing.slot.footer.lastRecordSequence last.sequence,
        p.header.length + cellsLen codec p.cells) := by
  rw [Wal.lastWalSequenceAt, hact, h.lastWalSequenceIn reserve, ok_bind]
  dsimp only
  split
  · rfl
  · next hzero =>
    rw [hseal, Nat.eq_zero_of_not_pos hzero]
    rfl

lemma scanDecoded : scanDecoded cfg codec s =
    .ok (codec.readEach [(p.base, first), (p.base + 131072, last)]) := by
  have hlens := h.lengths
  have hlen := p.bytes_length codec reserve
  have hpiece : ∃ total, scanPiece codec .whole s.active none ⟨[], 0, none⟩ =
      .ok ⟨[⟨p.base, frameOf codec first, some (codec.read first)⟩,
        ⟨p.base + 131072, frameOf codec last, some (codec.read last)⟩], total, none⟩ := by
    obtain ⟨total, hscan⟩ := scanPieceLoop_of_path p.base
      (h.path reserve (show _ ≤ (p.bytes codec reserve).length by omega)) (h.skip_at_end reserve)
      (h.readStep_at_end reserve) (show 3 < (p.bytes codec reserve).length + 1 by omega)
      (⟨[], 0, none⟩ : ScanState ρ)
    rw [hact, scanPiece, if_neg (by simp), h.readWalBase reserve, ok_bind]
    dsimp only
    rw [getD_some, if_neg (by simp only [ScanWindow.whole]; omega),
      if_neg (by simp [ScanWindow.whole]), hscan]
    simp [entryAt]
  obtain ⟨total, hpiece⟩ := hpiece
  rw [Wal.scanDecoded, scanCollect, if_neg (by simp [hact]), h.lastWalSequenceAt cfg hseal hact]
  simp only [if_true, ok_bind, hseal, scanPieces, hpiece]
  rfl

lemma readAtLogId_hidden : readAtLogId s (p.base + (frameOf codec first).length + (moved.pad + 128))
      (frameOf codec hidden).length = .ok (some (frameOf codec hidden)) := by
  have hlens := h.lengths
  have hlen := p.bytes_length codec reserve
  have hlocate : locateLogId (p.base + (frameOf codec first).length + (moved.pad + 128))
      s.segments = .ok (some (p.bytes codec reserve, p.header.length +
        (p.base + (frameOf codec first).length + (moved.pad + 128) - p.base))) := by
    rw [WalStore.segments, hseal, hact]
    simp only [map_nil, nil_append, locateLogId, h.readWalBase reserve, ok_bind]
    rw [if_neg (by omega), if_neg (by omega), if_pos (by omega)]
    rfl
  exact readAtLogId_of_located h.hidden_mem hlocate

lemma gcBeforeSequenceUnchecked (hfloor : s.blockRetentionFloor = none) {retain : ℕ}
    (hfirst : first.sequence < retain) (hlast : retain ≤ last.sequence)
    (hworth : (frameOf codec last).length ≤ cfg.reclaimMinCopyBytes) :
    ∃ s' report, gcBeforeSequenceUnchecked cfg codec s retain = .ok (s', report) ∧
      s'.sealed = [] ∧ report.baseOffset = p.base + 131072 ∧
      ∃ rest, rest ≠ [] ∧ s'.active = some (encodeBaseHeader (p.base + 131072) ++ rest) := by
  have hlens := h.lengths
  have hfr := frameOf_length_pos codec last
  have hlen := p.bytes_length codec reserve
  have hretain : min (min retain (max closing.slot.footer.lastRecordSequence last.sequence))
      (s.blockRetentionFloor.getD u64Max) = retain := by
    have hle := last.sequence_le
    rw [hfloor, getD_none]
    omega
  obtain ⟨seen, kept, hwalk⟩ := reclaimLoop_of_path retain
    (h.path reserve le_rfl) rfl (show 3 < (p.bytes codec reserve).length + 1 by omega)
    ⟨0, 0, none, p.header.length⟩ rfl
  have hsplit : firstRetained retain [(p.header.length, first), (p.header.length + 131072, last)] =
      some (p.header.length + 131072) := by
    rw [firstRetained_cons, if_neg (Nat.not_le_of_lt hfirst), firstRetained_cons, if_pos hlast]
  have hleft : p.header.length + cellsLen codec p.cells - (p.header.length + 131072) =
      (frameOf codec last).length := by omega
  have hrest : slice (p.bytes codec reserve) (p.header.length + 131072)
      (frameOf codec last).length ≠ [] := by
    rw [← length_pos_iff, slice_length (by omega)]
    exact hfr
  simp only [orElse_none, hsplit] at hwalk
  rw [Wal.gcBeforeSequenceUnchecked, hact]
  dsimp only
  rw [h.lastWalSequenceAt cfg hseal hact, ok_bind]
  rw [hretain, hseal, dropCoveredWalSegments, pure_eq_ok, ok_bind]
  rw [h.readWalBase reserve, ok_bind, h.lastWalSequenceIn reserve, ok_bind]
  rw [hwalk, ok_bind]
  rw [getD_some, Nat.add_sub_cancel_left, hleft, if_neg]
  · exact ⟨_, _, rfl, rfl, rfl, _, hrest, rfl⟩
  · simp [reclaimIsWorthRewriting, hworth]

end Store

end Shadowed

section History

variable (codec) (b : ℕ → β)

/-- The record that is appended after `n` others. -/
abbrev nthRecord (n : ℕ) : WalRecord β := nextRecord n (b n)

def frameLen (n : ℕ) : ℕ := (frameOf codec (nthRecord b n)).length

def appendThree : List (Op β) :=
  [.append .durable (b 0) 0 .complete, .append .durable (b 1) 0 .complete,
    .append .durable (b 2) 0 .complete]

/-- The footer before the third record, if the first two do not leave room for it. -/
def thirdGap : Gap :=
  ⟨blockFooterAt 0 - (frameLen codec b 0 + frameLen codec b 1),
    writtenSlot 0 0 (frameLen codec b 0 + frameLen codec b 1) (frameLen codec b 0) 2⟩

def twoRecords : Log β :=
  ⟨[], some ⟨false, 0, [⟨none, nthRecord b 0⟩, ⟨none, nthRecord b 1⟩]⟩, some true,
    some (frameLen codec b 0, 2), none⟩

def threeRecords : Log β :=
  ⟨[], some ⟨false, 0, [⟨none, nthRecord b 0⟩, ⟨none, nthRecord b 1⟩,
    ⟨some (thirdGap codec b), nthRecord b 2⟩]⟩, some true, some (131072, 3), none⟩

/-- The cells that are left once the first record is reclaimed. -/
def displacedCells : List (Cell β) :=
  [⟨none, nthRecord b 1⟩, ⟨some (thirdGap codec b), nthRecord b 2⟩]

def displaced : Log β :=
  ⟨[], some ⟨true, frameLen codec b 0, displacedCells codec b⟩, some true,
    some (131072, 3), none⟩

variable {codec b}

lemma cellsLen_plain (n : ℕ) (cells : List (Cell β)) :
    cellsLen codec (⟨none, nthRecord b n⟩ :: cells) =
      frameLen codec b n + cellsLen codec cells := by
  rw [cellsLen_cons, bytes_length, gapBytes, elim_none, length_nil, zero_add]
  rfl

variable (codec b) in
lemma cellsLen_twoRecords : cellsLen codec (twoRecords codec b).current.cells =
    frameLen codec b 0 + frameLen codec b 1 := by
  have hcells : (twoRecords codec b).current.cells =
      [⟨none, nthRecord b 0⟩, ⟨none, nthRecord b 1⟩] := rfl
  rw [hcells, cellsLen_plain, cellsLen_plain, cellsLen_nil, add_zero]

variable (codec b) in
lemma kept_threeRecords : (threeRecords codec b).kept 2 = displacedCells codec b :=
  rfl

section

variable {cfg : WalConfig} (hfits : frameLen codec b 0 + frameLen codec b 1 ≤ blockFooterAt 0)

include hfits

lemma allows_first_two (hroll : frameLen codec b 0 + frameLen codec b 1 < cfg.segmentBytes)
    (shardId : ℕ) : empty.AllowsAll cfg codec shardId
        [.append .durable (b 0) 0 .complete, .append .durable (b 1) 0 .complete] ∧
      empty.afterAll cfg codec shardId
        [.append .durable (b 0) 0 .complete, .append .durable (b 1) 0 .complete] =
          twoRecords codec b := by
  have hroom : blockFooterAt 0 = 130944 := blockFooterAt_eq 0
  have hmax : 1 < u64Max := by decide
  have h₀ : (empty : Log β).Short codec 0 := short_empty
  have hfirst : (frameOf codec (empty.next (b 0))).length = frameLen codec b 0 := rfl
  obtain ⟨hok₁, hshort₁, hlast₁⟩ := h₀.append cfg shardId .durable (b 0) 0
    (lt_trans zero_lt_one hmax) (by omega) (by omega)
  have hafter₁ := h₀.after_append cfg shardId .durable (b 0) 0 (by omega) (by omega)
  have hgap₁ : empty.gapFor codec (empty.next (b 0)) 0 = none := h₀.gapFor (by omega) 0
  rw [hafter₁] at hshort₁ hlast₁
  set l₁ := empty.place codec (empty.next (b 0)) 0 with hl₁
  have hcurr₁ : l₁.current = ⟨false, 0, [⟨none, nthRecord b 0⟩]⟩ := by
    rw [place_current, cellFor, hgap₁]
    rfl
  have hone : l₁.lastSequence = 1 := hlast₁
  have hsecond : (frameOf codec (l₁.next (b 1))).length = frameLen codec b 1 := by
    rfl
  obtain ⟨hok₂, -, -⟩ :=
    hshort₁.append cfg shardId .durable (b 1) 0 (by omega) (by omega) (by omega)
  have hafter₂ := hshort₁.after_append cfg shardId .durable (b 1) 0 (by omega) (by omega)
  have hgap₂ : l₁.gapFor codec (l₁.next (b 1)) 0 = none := hshort₁.gapFor (by omega) 0
  refine ⟨⟨hok₁, by rw [hafter₁]; exact hok₂, trivial⟩, ?_⟩
  rw [afterAll, foldl_cons, hafter₁, foldl_cons, hafter₂, Log.place, cellFor, hgap₂, hcurr₁]
  rw [cellsLen_plain,
    show (⟨false, 0, [⟨none, nthRecord b 0⟩]⟩ : Piece β).header.length = 0 from rfl, zero_add]
  rfl

lemma offset_third : cellsLen codec (twoRecords codec b).current.cells +
      (⟨some (thirdGap codec b), nthRecord b 2⟩ : Cell β).gapBytes.length = 131072 := by
  rw [blockFooterAt_eq] at hfits
  rw [cellsLen_twoRecords, gapBytes, elim_some, Gap.bytes_length, thirdGap, blockFooterAt_eq]
  simp only [walBlockFooterBytes]
  omega

lemma cellsLen_threeRecords :
    cellsLen codec (threeRecords codec b).current.cells = 131072 + frameLen codec b 2 := by
  have hcells : (threeRecords codec b).current.cells =
      (twoRecords codec b).current.cells ++
        [⟨some (thirdGap codec b), nthRecord b 2⟩] := rfl
  rw [hcells, cellsLen_append, cellsLen_cons, cellsLen_nil, bytes_length, add_zero,
    ← add_assoc, offset_third hfits]
  rfl

lemma cellsLen_displaced : frameLen codec b 0 + cellsLen codec (displacedCells codec b) =
      131072 + frameLen codec b 2 := by
  rw [← cellsLen_plain]
  exact cellsLen_threeRecords hfits

lemma reclaimed_threeRecords (hsmall : frameLen codec b 2 ≤ blockFooterAt 0) :
    (threeRecords codec b).reclaimed codec .default 2 = displaced codec b := by
  have hlen := cellsLen_displaced hfits
  have hrem : (threeRecords codec b).removedLen codec 2 = frameLen codec b 0 := by
    rw [removedLen, cellsLen_threeRecords hfits, kept_threeRecords]
    omega
  have hrewr : (threeRecords codec b).rewrites codec .default 2 = true := by
    rw [blockFooterAt_eq] at hsmall
    rw [rewrites, kept_threeRecords, reclaimIsWorthRewriting, Bool.or_eq_true,
      decide_eq_true_eq, show WalConfig.default.reclaimMinCopyBytes = 67108864 from rfl]
    omega
  rw [reclaimed, rewritten, if_pos hrewr, hrem,
    show (threeRecords codec b).current.base = 0 from rfl, zero_add]
  rfl

variable (hcloses :
    blockFooterAt 0 < frameLen codec b 0 + frameLen codec b 1 + frameLen codec b 2)

include hcloses

lemma gapFor_twoRecords :
    (twoRecords codec b).gapFor codec (nthRecord b 2) 0 = some (thirdGap codec b) := by
  have hroom : blockFooterAt 0 = 130944 := blockFooterAt_eq 0
  have hlen := cellsLen_twoRecords codec b
  have hblk : blockOf (frameLen codec b 0 + frameLen codec b 1) = 0 := by
    rw [blockOf_eq]
    omega
  have hclosed : closedBlock true (frameLen codec b 0 + frameLen codec b 1)
      (frameLen codec b 2) = some 0 := by
    rw [closedBlock, hblk, if_pos ⟨rfl, hcloses, hfits⟩]
  rw [gapFor, hlen, show (twoRecords codec b).usesBlocks codec = true from rfl,
    show (frameOf codec (nthRecord b 2)).length = frameLen codec b 2 from rfl, hclosed,
    map_some, closingGap, hlen]
  rfl

lemma place_third : (twoRecords codec b).place codec (nthRecord b 2) 0 = threeRecords codec b := by
  rw [Log.place, cellFor, gapFor_twoRecords hfits hcloses, add_assoc, offset_third hfits,
    show (twoRecords codec b).current.header.length = 0 from rfl]
  rfl

lemma canAppend_third (hsmall : frameLen codec b 2 ≤ blockFooterAt 0) :
    ((twoRecords codec b).AppendOk codec (nthRecord b 2) 0) where
  close := by
    intro index _ g hg
    rw [Piece.gaps, gapsFrom_of_plain (by simp [twoRecords, current])] at hg
    simp at hg
  mimic := by
    intro index hidx
    have hcell : (twoRecords codec b).cellFor codec (nthRecord b 2) 0 =
        ⟨some (thirdGap codec b), nthRecord b 2⟩ := by
      rw [cellFor, gapFor_twoRecords hfits hcloses]
    rw [hcell, offset_third hfits] at hidx
    rw [hcell]
    change ¬SlotDecodes codec (threeRecords codec b).current.cells index
    refine not_slotDecodes_behind ?_
    rw [cellsLen_threeRecords hfits]
    rw [blockFooterAt_eq] at hidx hsmall ⊢
    simp only [walBlockFooterBytes] at hidx
    omega

lemma allows_three (hsmall : frameLen codec b 2 ≤ blockFooterAt 0)
    (hroll : frameLen codec b 0 + frameLen codec b 1 < cfg.segmentBytes) (shardId : ℕ) :
    empty.AllowsAll cfg codec shardId (appendThree b) ∧
      empty.afterAll cfg codec shardId (appendThree b) =
        (threeRecords codec b).rolled codec cfg .complete := by
  obtain ⟨hallowed, htwo⟩ := allows_first_two hfits hroll shardId
  have hensd : (twoRecords codec b).ensured codec = twoRecords codec b :=
    if_neg fun hblank => by simp [twoRecords, current, Piece.IsBlank] at hblank
  have hthird : (twoRecords codec b).CanAppend codec (b 2) 0 := by
    refine ⟨show 2 < u64Max by decide, ?_⟩
    exact canAppend_third hfits hcloses hsmall
  have hops : appendThree b = [.append .durable (b 0) 0 .complete,
    .append .durable (b 1) 0 .complete] ++ [.append .durable (b 2) 0 .complete] := rfl
  constructor
  · rw [hops, allowsAll_append, htwo]
    exact ⟨hallowed, hthird, trivial⟩
  · rw [afterAll] at htwo ⊢
    rw [hops, foldl_append, htwo, ← place_third hfits hcloses, foldl_cons, foldl_nil, Log.after,
      Log.appended, hensd]
    rfl

lemma allows_appendThree (hsmall : frameLen codec b 2 ≤ blockFooterAt 0) (shardId : ℕ) :
    empty.AllowsAll .default codec shardId (appendThree b) ∧
      empty.afterAll .default codec shardId (appendThree b) = threeRecords codec b := by
  have hseg : default.segmentBytes = 262144 := rfl
  rw [blockFooterAt_eq] at hsmall
  have hunr : cellsLen codec (threeRecords codec b).current.cells < default.segmentBytes := by
    rw [cellsLen_threeRecords hfits]
    omega
  obtain ⟨hallowed, hafter⟩ := allows_three hfits hcloses (blockFooterAt_eq 0 ▸ hsmall)
    (hfits.trans_lt (by rw [blockFooterAt_eq, hseg]; decide)) shardId
  rw [rolled, if_pos (Or.inr hunr)] at hafter
  exact ⟨hallowed, hafter⟩

end

/-- The sizes of four records such that the third closes a block, and the fourth closes the block in
which the padding before the third starts once the first is gone. -/
structure Displacing (codec : WalCodec β ρ) (b : ℕ → β) : Prop where
  fits : frameLen codec b 0 + frameLen codec b 1 < blockFooterAt 0
  closes : blockFooterAt 0 < frameLen codec b 0 + frameLen codec b 1 + frameLen codec b 2
  moves : 128 + frameLen codec b 2 ≤ frameLen codec b 0
  closesAgain : frameLen codec b 0 < 128 + frameLen codec b 2 + frameLen codec b 3
  small : frameLen codec b 3 ≤ blockFooterAt 0

def displacingOps (shardId : ℕ) (b : ℕ → β) : List (Op β) :=
  appendThree b ++ [.reclaim 2 ⟨shardId, 1⟩, .append .durable (b 3) 0 .complete]

/-- The active piece after these operations. -/
def shadowedPiece (codec : WalCodec β ρ) (b : ℕ → β) : Piece β :=
  ((displaced codec b).place codec (nthRecord b 3) 0).current

namespace Displacing

variable (hd : Displacing codec b)

include hd

lemma small_third : frameLen codec b 2 ≤ blockFooterAt 0 := by
  have hfits := hd.fits
  have hmoves := hd.moves
  omega

lemma legible : Legible codec (displacedCells codec b) := by
  have hlen := cellsLen_displaced hd.fits.le
  have hfits := hd.fits
  have hmoves := hd.moves
  have hroom : blockFooterAt 0 = 130944 := blockFooterAt_eq 0
  have hshort : cellsLen codec (displacedCells codec b) ≤ blockFooterAt 0 := by
    omega
  have hgaps : gapsFrom codec 0 (displacedCells codec b) =
      [⟨frameLen codec b 1, thirdGap codec b⟩] := by
    simp [displacedCells, gapsFrom, bytes, gapBytes, frameLen]
  constructor
  · intro index hslot
    exact absurd hslot (not_slotDecodes_behind (hshort.trans (blockFooterAt_zero_le index)))
  · rw [hgaps]
    intro g hg
    rw [mem_singleton] at hg
    subst hg
    right
    refine ⟨?_, ?_, ?_⟩
    · simp only [thirdGap]
      omega
    · simp only [thirdGap, walBlockFooterBytes, walBlockBytes_eq]
      omega
    · rintro ⟨g, hg, hgrid, -⟩
      rw [mem_singleton] at hg
      subst hg
      simp only [PlacedGap.OnGrid, PlacedGap.stop, thirdGap, walBlockFooterBytes, walBlockBytes_eq,
        blockOf_eq] at hgrid
      omega

lemma gapFor_displaced : (displaced codec b).gapFor codec (nthRecord b 3) 0 =
    some ((displaced codec b).closingGap codec (nthRecord b 3) 0 0) := by
  have hlen := cellsLen_displaced hd.fits.le
  have hmoves := hd.moves
  have hcloses := hd.closesAgain
  have hblk : blockOf (cellsLen codec (displacedCells codec b)) = 0 := by
    rw [blockOf_eq]
    omega
  have hclosed : closedBlock true (cellsLen codec (displacedCells codec b))
      (frameLen codec b 3) = some 0 := by
    have hdata : blockDataEnd 0 = 130944 := blockDataEnd_eq 0
    rw [closedBlock, hblk, if_pos ⟨rfl, by omega, by omega⟩]
  change (closedBlock true (cellsLen codec (displacedCells codec b)) (frameLen codec b 3)).map _ = _
  rw [hclosed, map_some]

lemma shadowed : Shadowed codec (shadowedPiece codec b) (nthRecord b 1)
    (nthRecord b 2) (nthRecord b 3) (thirdGap codec b)
    ((displaced codec b).closingGap codec (nthRecord b 3) 0 0) := by
  have hlen := cellsLen_displaced hd.fits.le
  have hfits := hd.fits
  have hmoves := hd.moves
  have hsmall := hd.small
  have hroom : blockFooterAt 0 = 130944 := blockFooterAt_eq 0
  have hcells : (shadowedPiece codec b).cells = [⟨none, nthRecord b 1⟩,
      ⟨some (thirdGap codec b), nthRecord b 2⟩,
      ⟨some ((displaced codec b).closingGap codec (nthRecord b 3) 0 0),
        nthRecord b 3⟩] := by
    rw [shadowedPiece, place_current, cellFor, hd.gapFor_displaced]
    rfl
  have hgrid : cellsLen codec (displacedCells codec b) +
      ((displaced codec b).closingGap codec (nthRecord b 3) 0 0).pad =
        blockFooterAt 0 := by
    change cellsLen codec (displacedCells codec b) +
      (blockFooterAt 0 - cellsLen codec (displacedCells codec b)) = blockFooterAt 0
    omega
  refine ⟨rfl, hcells, ?_, hgrid, ?_⟩
  · simp only [thirdGap]
    omega
  · have happ : (shadowedPiece codec b).cells = displacedCells codec b ++
        [⟨some ((displaced codec b).closingGap codec (nthRecord b 3) 0 0),
          nthRecord b 3⟩] := hcells
    rw [happ, cellsLen_append, cellsLen_cons, bytes_length, gapBytes,
      elim_some, Gap.bytes_length, blockFooterAt_eq]
    change _ + (_ + frameLen codec b 3 + 0) ≤ _
    simp only [walBlockFooterBytes]
    omega

lemma allowsAll_reclaim (shardId : ℕ) : empty.AllowsAll .default codec shardId
        (appendThree b ++ [.reclaim 2 ⟨shardId, 1⟩]) ∧ empty.afterAll .default codec shardId
        (appendThree b ++ [.reclaim 2 ⟨shardId, 1⟩]) = displaced codec b := by
  obtain ⟨hallowed, hthree⟩ := allows_appendThree hd.fits.le hd.closes hd.small_third shardId
  have hretain : min 2 (ceiling ⟨shardId, 1⟩ shardId) = 2 := by
    rw [ceiling, if_pos rfl]
    rfl
  constructor
  · rw [allowsAll_append, hthree]
    refine ⟨hallowed, ?_, trivial⟩
    rw [Log.Allows, hretain]
    exact ⟨fun _ _ => rfl, fun _ => hd.legible⟩
  · rw [afterAll] at hthree ⊢
    rw [foldl_append, hthree, foldl_cons, foldl_nil, Log.after, hretain,
      reclaimed_threeRecords hd.fits.le hd.small_third]

lemma run (shardId : ℕ) : ∃ h reserve, History.start.run .default codec shardId
        (displacingOps shardId b) = .ok h ∧ h.store.sealed = [] ∧
      h.store.active = some ((shadowedPiece codec b).bytes codec reserve) ∧
      h.store.blockRetentionFloor = none ∧ h.live = (shadowedPiece codec b).records codec := by
  obtain ⟨hallowed, hafter⟩ := hd.allowsAll_reclaim shardId
  obtain ⟨h, hrun, ht⟩ := (tracks_start .default codec).run hallowed
  rw [hafter] at ht
  have hlens := hd.shadowed.lengths
  have hunr : default.segmentBytes = 0 ∨ cellsLen codec ((displaced codec b).place codec
        ((displaced codec b).next (b 3)) 0).current.cells < default.segmentBytes := by
    right
    change cellsLen codec (shadowedPiece codec b).cells < 262144
    omega
  obtain ⟨s, happ, hs⟩ :=
    ht.represents.append_within ht.wf rfl (b 3) 0 .complete
      (fun _ => readWalBase_headed (frameLen codec b 0) _) hunr
  obtain ⟨reserve, hact⟩ : ∃ reserve,
      s.active = some ((shadowedPiece codec b).bytes codec reserve) := by
    rcases hs.active_cases with ⟨-, hnone⟩ | ⟨reserve, hact, -⟩
    · simp [Log.place] at hnone
    · exact ⟨reserve, hact⟩
  have hops : displacingOps shardId b =
      (appendThree b ++ [.reclaim 2 ⟨shardId, 1⟩]) ++
        [.append .durable (b 3) 0 .complete] := rfl
  refine ⟨h.record s [((displaced codec b).nextLogId codec (nthRecord b 3) 0,
    nthRecord b 3)], reserve, ?_, hs.sealed, hact, hs.floor, ?_⟩
  · rw [History.run] at hrun ⊢
    rw [hops, foldlM_append, hrun, ok_bind, foldlM_cons, History.step, AppendKind.run, happ]
    rfl
  · have hplaced : ((displaced codec b).place codec (nthRecord b 3) 0).records codec =
        (displaced codec b).records codec ++ [((displaced codec b).nextLogId codec
          (nthRecord b 3) 0, nthRecord b 3)] := records_place ..
    rw [← ht.live] at hplaced
    rw [History.record, ← hplaced]
    rfl

lemma reclaim (shardId : ℕ) : ∃ h h' logId, History.start.run .default codec shardId
        (displacingOps shardId b) = .ok h ∧
      h.step .default codec shardId (.reclaim 3 ⟨shardId, 2⟩) = .ok h' ∧
      (logId, nthRecord b 2) ∈ h.live ∧ h.store.Holds codec (logId, nthRecord b 2) ∧
      ∀ size, readAtLogId h'.store logId size = .ok none := by
  obtain ⟨h, reserve, hrun, hseal, hact, hfloor, hlive⟩ := hd.run shardId
  have hshad := hd.shadowed
  have hlens := hshad.lengths
  have hworth : (frameOf codec (nthRecord b 3)).length ≤ default.reclaimMinCopyBytes := by
    have hmin : default.reclaimMinCopyBytes = 67108864 := rfl
    omega
  obtain ⟨s, report, hgc, hleft, hbase, rest, hrest, hfile⟩ :=
    hshad.gcBeforeSequenceUnchecked .default hseal hact hfloor
      (show 2 < 3 by decide) (show 3 ≤ 4 by decide) hworth
  have hretain : min 3 (ceiling ⟨shardId, 2⟩ shardId) = 3 := by
    rw [ceiling, if_pos rfl]
    rfl
  have hcall : gcBeforeSequence .default codec h.store shardId 3 ⟨shardId, 2⟩ = .ok (s,
      { report with
        retainFromSequence := 3
        clampedByDurableIndex :=
          decide (ceiling ⟨shardId, 2⟩ shardId < 3) }) := by
    rw [gcBeforeSequence, hretain, hgc]
    rfl
  have hread := hshad.readWalBase reserve
  rw [← hact] at hread
  refine ⟨h, _, _, hrun, History.step_reclaim hread hcall, hlive ▸ hshad.hidden_mem,
    hshad.readAtLogId_hidden hseal hact, ?_⟩
  exact readAtLogId_below hleft hfile hrest (by omega)

end Displacing

end History

def movedBlocks : ℕ → StagedBlock
  | 0 | 1 => zeroBlock 60000 (by decide)
  | 2 => zeroBlock 30000 (by decide)
  | _ => zeroBlock 40000 (by decide)

lemma frameLen_movedBlocks : (60000 < frameLen blockCodec movedBlocks 0 ∧
      frameLen blockCodec movedBlocks 0 ≤ 60065) ∧
    (60000 < frameLen blockCodec movedBlocks 1 ∧ frameLen blockCodec movedBlocks 1 ≤ 60065) ∧
    (30000 < frameLen blockCodec movedBlocks 2 ∧ frameLen blockCodec movedBlocks 2 ≤ 30065) ∧
    40000 < frameLen blockCodec movedBlocks 3 ∧ frameLen blockCodec movedBlocks 3 ≤ 40065 :=
  ⟨frameOf_zeroBlock_length (by decide) 0, frameOf_zeroBlock_length (by decide) 1,
    frameOf_zeroBlock_length (by decide) 2, frameOf_zeroBlock_length (by decide) 3⟩

lemma displacing_movedBlocks : Displacing blockCodec movedBlocks := by
  have hlens := frameLen_movedBlocks
  have hroom : blockFooterAt 0 = 130944 := blockFooterAt_eq 0
  constructor <;> omega

end TemporalStore.Wal
