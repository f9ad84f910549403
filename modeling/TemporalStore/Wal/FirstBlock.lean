import TemporalStore.Wal.BlockRecord
import TemporalStore.Wal.History

namespace TemporalStore.Wal

open Lib LogFraming List Option

variable {β ρ : Type} {codec : WalCodec β ρ}

lemma blockFooterAt_zero_le (index : ℕ) : blockFooterAt 0 ≤ blockFooterAt index := by
  rw [blockFooterAt_eq, blockFooterAt_eq]
  omega

lemma not_slotDecodes_behind {cells : List (Cell β)} {index : ℕ}
    (h : cellsLen codec cells ≤ blockFooterAt index) : ¬SlotDecodes codec cells index := by
  have hnil : slice (cellsBytes codec cells) (blockFooterAt index) walBlockFooterBytes = [] := by
    rw [slice, drop_eq_nil_of_le h, take_nil]
  rw [SlotDecodes, slice_append_zeros, hnil, nil_append, decodeBlockFooter_zeros]
  simp

section OpenBlock

variable {header : Bytes} {cells : List (Cell β)} {reserve index : ℕ}

lemma footerInSlot_behind (h : cellsLen codec cells ≤ blockFooterAt index) :
    footerInSlot (pieceBytes codec header cells reserve) header.length index = none := by
  rw [← not_isSome_iff_eq_none]
  intro hslot
  exact not_slotDecodes_behind h (slotDecodes_of_footerInSlot rfl hslot)

variable (hlow : index * walBlockBytes ≤ cellsLen codec cells)
  (hopen : cellsLen codec cells ≤ blockFooterAt index)

include hlow hopen

lemma blockOf_open : blockOf (cellsLen codec cells) = index := by
  rw [walBlockBytes_eq] at hlow
  rw [blockFooterAt_eq] at hopen
  rw [blockOf_eq]
  omega

lemma skip_at_open_end : skipBlockFooterIfDue (pieceBytes codec header cells reserve)
      (header.length + cellsLen codec cells) header.length =
      header.length + cellsLen codec cells := by
  rw [skipBlockFooterIfDue, Nat.add_sub_cancel_left]
  dsimp only
  rw [blockOf_open hlow hopen, footerInSlot_behind hopen]
  simp

lemma readStep_at_open_end (len : ℕ) :
    readStep (pieceBytes codec header cells reserve) header.length len
      (header.length + cellsLen codec cells) = .ok .done := by
  refine readStep_done rfl len ?_
  rw [blockOf_open hlow hopen, footerInSlot_behind hopen]
  simp

end OpenBlock

lemma gapsFrom_of_plain {cells : List (Cell β)} (h : ∀ c ∈ cells, c.gap = none) (pos : ℕ) :
    gapsFrom codec pos cells = [] := by
  induction cells generalizing pos with
  | nil => rfl
  | cons c cells ih =>
    rw [gapsFrom, h c mem_cons_self, ih fun d hd => h d (mem_cons_of_mem c hd)]
    rfl

lemma legible_of_short {cells : List (Cell β)} (hplain : ∀ c ∈ cells, c.gap = none)
    (hshort : cellsLen codec cells ≤ blockFooterAt 0) : Legible codec cells where
  slots := by
    intro index hslot
    exact absurd hslot (not_slotDecodes_behind (hshort.trans (blockFooterAt_zero_le index)))
  gaps := by simp [gapsFrom_of_plain hplain]

lemma cellsLen_retained_le (retain : ℕ) (cells : List (Cell β)) :
    cellsLen codec (Log.retained retain cells) ≤ cellsLen codec cells := by
  rcases Log.retained_cases retain cells with ⟨hnil, -⟩ | ⟨before, c, after, rfl, -, -, hkept⟩
  · rw [hnil]
    exact Nat.zero_le _
  · rw [hkept, cellsLen_append, cellsLen_cons, cellsLen_cons, Cell.bytes_length, Cell.bytes_length]
    simp only [Cell.gapBytes, elim_none, length_nil]
    omega

namespace Log

/-- The log is its active piece, with at most `n` bytes of records and no closed block. -/
structure Short (codec : WalCodec β ρ) (l : Log β) (n : ℕ) : Prop where
  sealed : l.sealed = []
  plain : ∀ c ∈ l.current.cells, c.gap = none
  length : cellsLen codec l.current.cells ≤ n

lemma short_empty : (Log.empty : Log β).Short codec 0 where
  sealed := rfl
  plain := by simp [current, empty, Piece.blank]
  length := le_rfl

variable {l : Log β} {n : ℕ}

lemma Short.ensured (h : l.Short codec n) : l.ensured codec = l := by
  rw [Log.ensured, if_neg]
  rintro ⟨-, hstop⟩
  rw [sealedStop, h.sealed] at hstop
  exact hstop rfl

section

variable (h : l.Short codec n) {record : WalRecord β}
    (hroom : n + (frameOf codec record).length ≤ blockFooterAt 0) (now : ℕ)
include h hroom

lemma Short.gapFor : l.gapFor codec record now = none := by
  have hlen := h.length
  rw [blockFooterAt_eq] at hroom
  have hblk : blockOf (cellsLen codec l.current.cells) = 0 := by
    rw [blockOf_eq]
    omega
  rw [Log.gapFor, map_eq_none_iff, closedBlock, if_neg]
  rintro ⟨-, hclose, -⟩
  rw [blockDataEnd_eq] at hclose
  omega

lemma Short.place : (l.place codec record now).Short codec (n + (frameOf codec record).length) where
  sealed := h.sealed
  plain := by
    intro c hc
    rw [place_current, mem_append, mem_singleton] at hc
    rcases hc with hc | rfl
    · exact h.plain c hc
    · exact h.gapFor hroom now
  length := by
    have hlen := h.length
    rw [place_current, cellsLen_append, cellsLen_cons, cellsLen_nil, Cell.bytes_length, cellFor,
      Cell.gapBytes, h.gapFor hroom now]
    simp only [elim_none, length_nil]
    omega

lemma Short.appendOk : l.AppendOk codec record now where
  close := by
    intro index _ g hg
    rw [Piece.gaps, gapsFrom_of_plain h.plain] at hg
    simp at hg
  mimic := by
    intro index _
    have hplaced := (h.place hroom now).length
    exact not_slotDecodes_behind (hplaced.trans (hroom.trans (blockFooterAt_zero_le index)))

end

variable (cfg : WalConfig) (shardId : ℕ)

lemma Short.after_append (h : l.Short codec n) (kind : AppendKind) (body : β) (now : ℕ)
    (hroom : n + (frameOf codec (l.next body)).length ≤ blockFooterAt 0)
    (hroll : n + (frameOf codec (l.next body)).length < cfg.segmentBytes) :
    l.after cfg codec shardId (.append kind body now .complete) =
      l.place codec (l.next body) now := by
  have hplaced := h.place hroom now
  rw [after, appended, h.ensured, rolled, if_pos (Or.inr (hplaced.length.trans_lt hroll))]
  rfl

lemma Short.append (h : l.Short codec n) (kind : AppendKind) (body : β) (now : ℕ)
    (hseq : l.lastSequence < u64Max)
    (hroom : n + (frameOf codec (l.next body)).length ≤ blockFooterAt 0)
    (hroll : n + (frameOf codec (l.next body)).length < cfg.segmentBytes) :
    l.Allows cfg codec shardId (.append kind body now .complete) ∧
      (l.after cfg codec shardId (.append kind body now .complete)).Short codec
        (n + (frameOf codec (l.next body)).length) ∧
      (l.after cfg codec shardId (.append kind body now .complete)).lastSequence =
        l.lastSequence + 1 := by
  have hplaced := h.place hroom now
  have hafter := h.after_append cfg shardId kind body now hroom hroll
  refine ⟨⟨hseq, ?_⟩, ?_, ?_⟩
  · rw [h.ensured]
    exact h.appendOk hroom now
  · rw [hafter]
    exact hplaced
  · rw [hafter, lastSequence_place, sequence_next hseq]

lemma legible_retained {cells : List (Cell β)} (hplain : ∀ c ∈ cells, c.gap = none)
    (hshort : cellsLen codec cells ≤ blockFooterAt 0) (retain : ℕ) :
    Legible codec (retained retain cells) := by
  refine legible_of_short ?_ ((cellsLen_retained_le _ _).trans hshort)
  intro c hc
  rcases mem_retained hc with hc | hc
  · exact hplain c hc
  · exact hc

end Log

lemma frameOf_blockCodec_length (record : WalRecord StagedBlock) :
    record.body.bytes.length < (frameOf blockCodec record).length ∧
      (frameOf blockCodec record).length ≤ record.body.bytes.length + 65 := by
  have hpay := encodeBlockRecord_length record
  have hvarint := writeVarint_length_le (encodeBlockRecord record).length
  rw [frameOf, encodeFrame_length]
  change record.body.bytes.length < 1 + (writeVarint (encodeBlockRecord record).length).length + 4 +
    (encodeBlockRecord record).length ∧ 1 + (writeVarint (encodeBlockRecord record).length).length +
    4 + (encodeBlockRecord record).length ≤ _
  omega

def zeroBlock (n : ℕ) (h : n < 2 ^ 62) : StagedBlock :=
  ⟨7, zeros n, smallBlock.objectId_lt, by rw [zeros_length]; exact h⟩

lemma frameOf_zeroBlock_length {n : ℕ} (h : n < 2 ^ 62) (last : ℕ) :
    n < (frameOf blockCodec (nextRecord last (zeroBlock n h))).length ∧
      (frameOf blockCodec (nextRecord last (zeroBlock n h))).length ≤ n + 65 := by
  have hlen := frameOf_blockCodec_length (nextRecord last (zeroBlock n h))
  have hn : (nextRecord last (zeroBlock n h)).body.bytes.length = n := zeros_length n
  rw [hn] at hlen
  exact hlen

end TemporalStore.Wal
