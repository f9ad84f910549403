import TemporalStore.Wal.FullBlock

namespace TemporalStore.Wal

open Lib Lib.Protobuf LogFraming List

variable {β ρ : Type} {codec : WalCodec β ρ}

lemma le_of_lastSequenceLoop {readAhead : ℕ → ℕ} {file : Bytes} {headerLen fuel known pos : ℕ}
    {tail : ℕ × ℕ} (h : lastSequenceLoop codec readAhead file headerLen fuel known pos = .ok tail) :
    known ≤ tail.1 := by
  induction fuel generalizing known pos with
  | zero => simp [lastSequenceLoop] at h
  | succ fuel ih =>
    rw [lastSequenceLoop] at h
    dsimp only at h
    split at h
    · cases h
      exact le_rfl
    split at h
    · simp at h
    · cases h
      exact le_rfl
    · exact ih h
    split at h
    · cases h
      exact le_rfl
    split at h
    · exact ih h
    split at h
    · exact (le_max_left _ _).trans (ih h)
    · split at h
      · cases h
        exact le_rfl
      · simp at h

lemma bytes_suffix_frameOf (record : WalRecord StagedBlock) :
    record.body.bytes <:+ frameOf blockCodec record := by
  have hblk : record.body.bytes <:+ encodeFields record.body.fields := by
    by_cases hnil : record.body.bytes = []
    · rw [hnil]
      exact nil_suffix
    · rw [StagedBlock.fields, if_neg hnil]
      simp only [encodeFields, flatMap_cons, flatMap_nil, append_nil, Field.encode,
        WireValue.encode, ← append_assoc]
      exact suffix_append _ _
  have hrec : encodeFields record.body.fields <:+ encodeBlockRecord record := by
    rw [encodeBlockRecord, blockRecordFields, encodeFields_append]
    simp only [encodeFields, flatMap_cons, flatMap_nil, append_nil, Field.encode, WireValue.encode,
      ← append_assoc, ← cons_append]
    exact suffix_append _ _
  refine hblk.trans (hrec.trans ?_)
  change encodeBlockRecord record <:+ encodeFrame (encodeBlockRecord record)
  rw [encodeFrame, ← append_assoc, ← cons_append]
  exact suffix_append _ _

/-- The second record of a piece runs over the first slot of the grid, and its bytes there read as a
footer. -/
structure Straddles (codec : WalCodec β ρ) (first last : WalRecord β) (slot : FooterSlot) :
    Prop where
  start : (frameOf codec first).length < blockFooterAt 0
  long : walBlockBytes < (frameOf codec first).length + (frameOf codec last).length
  short : (frameOf codec first).length + (frameOf codec last).length ≤ blockFooterAt 1
  slot_eq : slice (frameOf codec first ++ frameOf codec last) (blockFooterAt 0)
    walBlockFooterBytes = slot.bytes

namespace Straddles

variable {first last : WalRecord β} {slot : FooterSlot}

def bytes (codec : WalCodec β ρ) (first last : WalRecord β) (reserve : ℕ) : Bytes :=
  pieceBytes codec [] [⟨none, first⟩, ⟨none, last⟩] reserve

lemma bytes_eq (reserve : ℕ) : bytes codec first last reserve =
    frameOf codec first ++ frameOf codec last ++ zeros reserve := by
  simp [bytes, pieceBytes, cellsBytes_cons, Cell.bytes, Cell.gapBytes]

lemma readWalBase (reserve : ℕ) :
    readWalBase (some (bytes codec first last reserve)) = .ok (0, 0) := by
  refine readWalBase_headerless ?_
  have hhead : (bytes codec first last reserve).head? = some frameMagicV3 := by
    simp [bytes_eq, frameOf, encodeFrame]
  rw [hhead]
  decide

variable (hs : Straddles codec first last slot) (reserve : ℕ)

include hs

lemma lengths : (frameOf codec first).length < 130944 ∧
    131072 < (frameOf codec first).length + (frameOf codec last).length ∧
    (frameOf codec first).length + (frameOf codec last).length ≤ 262016 ∧
    cellsLen codec [⟨none, first⟩, ⟨none, last⟩] =
      (frameOf codec first).length + (frameOf codec last).length ∧
    (bytes codec first last reserve).length =
      (frameOf codec first).length + (frameOf codec last).length + reserve := by
  have hstart := hs.start
  have hlong := hs.long
  have hshort := hs.short
  refine ⟨hstart, hlong, hshort, ?_, ?_⟩
  · simp [cellsLen_cons, cellsLen_nil, Cell.bytes_length, Cell.gapBytes]
  · rw [bytes_eq, length_append, length_append, zeros_length]

lemma lastWrittenFooter :
    lastWrittenFooter (bytes codec first last reserve) 0 = some (0, slot.footer) := by
  obtain ⟨-, hlong, hshort, hcells, hlen⟩ := hs.lengths reserve
  have hzero : footerInSlot (bytes codec first last reserve) 0 0 = some slot.footer := by
    have hslice : slice (bytes codec first last reserve) (blockFooterAt 0) walBlockFooterBytes =
        slot.bytes := by
      rw [← hs.slot_eq, bytes_eq]
      refine slice_append_left ?_
      rw [blockFooterAt_eq, walBlockFooterBytes, length_append]
      omega
    rw [footerInSlot, Nat.zero_add, hslice, slot.decode_eq, if_pos]
    rw [blockFooterAt_eq, walBlockFooterBytes]
    omega
  have hbeh (index : ℕ) : footerInSlot (bytes codec first last reserve) 0 (index + 1) = none := by
    refine @footerInSlot_behind _ _ codec [] _ reserve _ ?_
    rw [blockFooterAt_eq]
    omega
  rw [Wal.lastWrittenFooter, if_neg (by omega), lastWrittenFooterFrom_of_first hzero hbeh]

lemma lastWalSequenceForward (readAhead : ℕ → ℕ) :
    ∃ stop, lastWalSequenceForward codec readAhead (bytes codec first last reserve) =
      .ok (max first.sequence last.sequence, stop) := by
  obtain ⟨hstart, hlong, hshort, hcells, hlen⟩ := hs.lengths reserve
  set file := bytes codec first last reserve
  have hskip (pos : ℕ) (hpos : pos < 130944) : skipBlockFooterIfDue file (0 + pos) 0 = 0 + pos := by
    refine Shadowed.skip_eq ?_
    rw [blockDataEnd_eq]
    omega
  have hfirst : readStep file 0 file.length (0 + 0) = .ok (.record (frameOf codec first)) :=
    @readStep_at_record _ _ codec [] _ _ reserve rfl [] [⟨none, last⟩] ⟨none, first⟩ rfl _
  have hlast : readStep file 0 file.length (0 + (frameOf codec first).length) =
      .ok (.record (frameOf codec last)) := by
    have hat : cellsLen codec [⟨none, first⟩] + (⟨none, last⟩ : Cell β).gapBytes.length =
        (frameOf codec first).length := by
      simp [cellsLen_cons, cellsLen_nil, Cell.bytes_length, Cell.gapBytes]
    rw [← hat]
    exact @readStep_at_record _ _ codec [] _ _ reserve rfl [⟨none, first⟩] [] ⟨none, last⟩ rfl _
  have hpath := Path.record (hskip 0 (by decide)) hfirst
    (Path.record (hskip (frameOf codec first).length hstart) hlast (.nil _))
  have hlow : 1 * walBlockBytes ≤ cellsLen codec [⟨none, first⟩, ⟨none, last⟩] := by
    rw [walBlockBytes_eq]
    omega
  have hopen : cellsLen codec [⟨none, first⟩, ⟨none, last⟩] ≤ blockFooterAt 1 := hcells ▸ hs.short
  have hend := @skip_at_open_end _ _ codec [] _ reserve _ hlow hopen
  have hdone := @readStep_at_open_end _ _ codec [] _ reserve _ hlow hopen file.length
  rw [hcells, ← Nat.add_assoc] at hend hdone
  refine ⟨0 + (frameOf codec first).length + (frameOf codec last).length, ?_⟩
  rw [lastWalSequenceForward_eq readAhead (readWalBase reserve) (show 0 < file.length by omega)]
  refine (lastSequenceLoop_of_path readAhead hpath hend hdone
    (show _ < file.length + 1 by omega) 0).trans ?_
  simp [maxSequence]

lemma lastWalSequenceIn_ne (readAhead : ℕ → ℕ) (hfirst : first.sequence ≤ last.sequence)
    (hlast : last.sequence < slot.footer.lastRecordSequence) :
    lastWalSequenceIn codec readAhead (some (bytes codec first last reserve)) ≠
      Wal.lastWalSequenceForward codec readAhead (bytes codec first last reserve) := by
  obtain ⟨-, hlong, -, -, hlen⟩ := hs.lengths reserve
  obtain ⟨stop, hforward⟩ := hs.lastWalSequenceForward reserve readAhead
  rw [hforward, lastWalSequenceIn_of_some readAhead (readWalBase reserve)
    (hs.lastWrittenFooter reserve) (by rw [walBlockBytes_eq]; omega)]
  intro hsame
  have hle := le_of_lastSequenceLoop hsame
  rw [max_eq_right hfirst] at hle
  exact absurd hlast (Nat.not_lt.mpr hle)

end Straddles

/-- A block that has the bytes of a footer where, behind a record of one newline byte, the first
block of the log ends. -/
def footerBlock : StagedBlock where
  objectId := 7
  bytes := zeros 130893 ++ ((writtenSlot 0 0 0 0 99).bytes ++ zeros 100)
  objectId_lt := smallBlock.objectId_lt
  length_lt := by
    rw [length_append, length_append, (writtenSlot 0 0 0 0 99).length_eq, zeros_length,
      zeros_length]
    decide

lemma footerBlock_length : footerBlock.bytes.length = 131121 := by
  rw [footerBlock, length_append, length_append, (writtenSlot 0 0 0 0 99).length_eq, zeros_length]
  rfl

lemma straddles_footerBlock : Straddles blockCodec (nextRecord 0 newlineBlock)
    (nextRecord 1 footerBlock) (writtenSlot 0 0 0 0 99) := by
  have hfirst : (frameOf blockCodec (nextRecord 0 newlineBlock)).length = 23 := by decide +kernel
  have hlast : (frameOf blockCodec (nextRecord 1 footerBlock)).length = 131149 :=
    frameOf_block_length (by decide) footerBlock_length (by decide) (by decide)
  have hbytes : (nextRecord 1 footerBlock).body = footerBlock := rfl
  refine ⟨?_, ?_, ?_, ?_⟩
  · decide
  · rw [hlast]
    decide
  · rw [hlast]
    decide
  · obtain ⟨pre, hpre⟩ := bytes_suffix_frameOf (nextRecord 1 footerBlock)
    rw [hbytes] at hpre
    have hleng := congrArg length hpre
    rw [length_append, footerBlock_length, hlast] at hleng
    have hover : pre.length = 28 := Nat.add_right_cancel (m := 131121) hleng
    have hfile : frameOf blockCodec (nextRecord 0 newlineBlock) ++
        frameOf blockCodec (nextRecord 1 footerBlock) =
        (frameOf blockCodec (nextRecord 0 newlineBlock) ++ (pre ++ zeros 130893)) ++
          ((writtenSlot 0 0 0 0 99).bytes ++ zeros 100) := by
      rw [← hpre, footerBlock, append_assoc, append_assoc]
    refine slice_eq_of_append hfile ?_ (writtenSlot 0 0 0 0 99).length_eq
    rw [length_append, length_append, hfirst, hover, zeros_length, blockFooterAt_eq]

/-- A small record, a restart and a record that is longer than a block. -/
def straddlingOps : List (Op StagedBlock) :=
  [.append .durable newlineBlock 0 .complete, .reopen, .append .durable footerBlock 0 .complete]

lemma allowsAll_straddlingOps_take :
    Log.empty.AllowsAll .default blockCodec 0 (straddlingOps.take 2) ∧
      Log.empty.afterAll .default blockCodec 0 (straddlingOps.take 2) =
        ⟨[], some ⟨false, 0, [⟨none, nextRecord 0 newlineBlock⟩]⟩, none, none, none⟩ := by
  have hfr : (frameOf blockCodec (Log.empty.next newlineBlock)).length ≤ 66 :=
    (frameOf_blockCodec_length _).2
  have hroom : blockFooterAt 0 = 130944 := blockFooterAt_eq 0
  have hseg : WalConfig.default.segmentBytes = 262144 := rfl
  have hshort : (Log.empty : Log StagedBlock).Short blockCodec 0 := Log.short_empty
  obtain ⟨hok, -, -⟩ := hshort.append .default 0 .durable newlineBlock 0 (by decide) (by omega)
    (by omega)
  refine ⟨⟨hok, trivial, trivial⟩, ?_⟩
  rfl

end TemporalStore.Wal
