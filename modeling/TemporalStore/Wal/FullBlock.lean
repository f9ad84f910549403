import TemporalStore.Wal.Displaced

namespace TemporalStore.Wal

open Lib Lib.Protobuf LogFraming List History

variable {β ρ : Type} {codec : WalCodec β ρ} {b : ℕ → β}

variable (codec b) in
/-- What a reader takes for one line. -/
def footerLine : Bytes := (thirdGap codec b).slot.bytes ++ frameOf codec (nthRecord b 2)

/-- Two records that fill the first block, and a third that ends with the first newline byte behind
the block. -/
structure FullBlock (codec : WalCodec β ρ) (b : ℕ → β) : Prop where
  full : frameLen codec b 0 + frameLen codec b 1 = blockFooterAt 0
  small : 128 + frameLen codec b 2 ≤ frameLen codec b 0
  line : takeLine (footerLine codec b) = some (footerLine codec b)
  head : (footerLine codec b).head? ≠ some frameMagicV3
  notBlank : ¬(footerLine codec b).all isAsciiWhitespace = true
  unreadable : (decodeWalLine codec (footerLine codec b)).toOption = none

lemma takeLine_append_of_some {a line : Bytes} (h : takeLine a = some line) (rest : Bytes) :
    takeLine (a ++ rest) = some line := by
  obtain ⟨text, behind, htext, rfl, rfl⟩ := exists_of_takeLine h
  rw [append_assoc, cons_append, takeLine_append _ htext]

lemma writeRecord_append (cfg : WalConfig) (header body bytes : Bytes) (pos : ℕ) :
    ∃ rest, writeRecord cfg (header ++ body) none (header.length + pos) bytes = header ++ rest := by
  have hwrite (file : Bytes) : ∃ rest, writeAt (header ++ file) (header.length + pos) bytes =
      header ++ rest := by
    rw [writeAt, append_assoc header file, take_length_add_append, append_assoc, append_assoc]
    exact ⟨_, rfl⟩
  rw [writeRecord]
  cases cfg.preallocate with
  | false => exact ⟨body ++ bytes, by simp⟩
  | true =>
    simp only [if_true, Option.elim_none]
    split
    · next hgrow =>
      have hhdr : header.length ≤ (header ++ body).length := by simp
      rw [setLen, append_assoc, take_append, take_of_length_le (by omega)]
      exact hwrite _
    · exact hwrite body

lemma finishAppend_small {s : WalStore} {cfg : WalConfig} {base headerLen : ℕ}
    (hbase : s.base = some (base, headerLen)) {persistentBytes : ℕ}
    (hsmall : persistentBytes - headerLen < cfg.segmentBytes) (sequence : ℕ) (stop : RollEnd) :
    ∃ s', finishAppend cfg s sequence persistentBytes stop = .ok s' := by
  rw [finishAppend, rollWalSegmentIfDue, if_neg (by omega), cachedWalBase, hbase]
  rw [ok_bind]
  dsimp only
  rw [if_pos (by omega)]
  exact ⟨_, rfl⟩

namespace FullBlock

variable (hf : FullBlock codec b)

include hf

lemma pad_eq : (thirdGap codec b).pad = 0 := by
  have hfull := hf.full
  simp only [thirdGap]
  omega

lemma bytes_displaced : cellsBytes codec (displacedCells codec b) =
      frameOf codec (nthRecord b 1) ++ footerLine codec b := by
  simp [displacedCells, cellsBytes, Cell.bytes, Cell.gapBytes, Gap.bytes, hf.pad_eq, footerLine]

lemma cellsLen_eq : cellsLen codec (displacedCells codec b) =
    frameLen codec b 1 + (footerLine codec b).length := by
  rw [cellsLen, hf.bytes_displaced, length_append, frameLen]

omit hf in
lemma footerLine_length : (footerLine codec b).length = 128 + frameLen codec b 2 := by
  rw [footerLine, length_append, (thirdGap codec b).slot.length_eq]
  rfl

lemma cellsLen_le : cellsLen codec (displacedCells codec b) ≤ blockFooterAt 0 := by
  have hlen := cellsLen_displaced hf.full.le
  have hsmall := hf.small
  have hroom : blockFooterAt 0 = 130944 := blockFooterAt_eq 0
  omega

variable (reserve : ℕ)

lemma footerInSlot (header : Bytes) (index : ℕ) :
    footerInSlot (pieceBytes codec header (displacedCells codec b) reserve) header.length
      index = none :=
  footerInSlot_behind (hf.cellsLen_le.trans (blockFooterAt_zero_le index))

lemma lastWrittenFooter (header : Bytes) :
    lastWrittenFooter (pieceBytes codec header (displacedCells codec b) reserve)
      header.length = none := by
  refine Option.eq_none_iff_forall_ne_some.mpr fun found hfoot => ?_
  have hslot := lastWrittenFooter_eq_some hfoot
  rw [hf.footerInSlot] at hslot
  simp at hslot

lemma readStep_at_footer (header : Bytes) (len : ℕ) :
    readStep (pieceBytes codec header (displacedCells codec b) reserve) header.length len
      (header.length + frameLen codec b 1) = .ok (.record (footerLine codec b)) := by
  have hdrop : (pieceBytes codec header (displacedCells codec b) reserve).drop
      (header.length + frameLen codec b 1) = footerLine codec b ++ zeros reserve := by
    rw [pieceBytes, drop_length_add_append, hf.bytes_displaced, append_assoc, frameLen, drop_left]
  obtain ⟨mark, rest, hcons⟩ : ∃ mark rest, footerLine codec b = mark :: rest := by
    refine exists_cons_of_ne_nil fun hnil => hf.notBlank ?_
    simp [hnil]
  have hzero : mark ≠ 0 := by
    have hslot := (thirdGap codec b).slot.length_eq
    have hfirst := (thirdGap codec b).slot.head_ne_zero
    rw [footerLine] at hcons
    cases hbytes : (thirdGap codec b).slot.bytes with
    | nil => simp [hbytes, walBlockFooterBytes] at hslot
    | cons c bytes =>
      rw [hbytes, cons_append, cons.injEq] at hcons
      rw [hbytes, head?_cons, ne_eq, Option.some.injEq, hcons.1] at hfirst
      exact hfirst
  have hmagic : mark ≠ frameMagicV3 := by
    rintro rfl
    exact hf.head (by rw [hcons]; rfl)
  have hread : readRawRecord (footerLine codec b ++ zeros reserve) =
      .ok (some (footerLine codec b)) := by
    rw [← takeLine_append_of_some hf.line (zeros reserve), hcons, cons_append, readRawRecord,
      if_neg hzero, if_pos hmagic]
  rw [readStep, hdrop, hread]

lemma lastWalSequenceIn (readAhead : ℕ → ℕ) (base : ℕ) :
    lastWalSequenceIn codec readAhead (some (pieceBytes codec (encodeBaseHeader base)
      (displacedCells codec b) reserve)) =
      .ok (2, (encodeBaseHeader base).length + frameLen codec b 1) := by
  set header := encodeBaseHeader base with hhdr
  set file := pieceBytes codec header (displacedCells codec b) reserve with hfile
  have hlen : file.length = header.length + cellsLen codec (displacedCells codec b) +
      reserve := pieceBytes_length ..
  have hline : (footerLine codec b).length = 128 + frameLen codec b 2 := footerLine_length
  have hbytes := hf.cellsLen_eq
  have hshort := hf.cellsLen_le
  rw [blockFooterAt_eq] at hshort
  have hread : readWalBase (some file) = .ok (base, header.length) := readWalBase_headed base _
  have hfirst : readStep file header.length file.length (header.length + 0) =
      .ok (.record (frameOf codec (nthRecord b 1))) := by
    have hcells : displacedCells codec b = [] ++ ⟨none, nthRecord b 1⟩ ::
        [⟨some (thirdGap codec b), nthRecord b 2⟩] := rfl
    exact readStep_at_record rfl hcells _
  have hskip (pos : ℕ) (hpos : pos < 130944) :
      skipBlockFooterIfDue file (header.length + pos) header.length = header.length + pos := by
    refine Shadowed.skip_eq ?_
    rw [blockDataEnd_eq]
    omega
  have hrest (n : ℕ) : (slice file (header.length + frameLen codec b 1 +
      (footerLine codec b).length) n).all (· == 0) = true := by
    rw [slice, hfile, pieceBytes, Nat.add_assoc, drop_length_add_append, ← hbytes, cellsLen,
      drop_left, take_zeros, all_eq_true]
    intro b hb
    simp [mem_zeros hb]
  obtain ⟨e, hbad⟩ : ∃ e, decodeWalLine codec (footerLine codec b) = .error e := by
    have hnone := hf.unreadable
    cases hdec : decodeWalLine codec (footerLine codec b) with
    | error e => exact ⟨e, rfl⟩
    | ok record => simp [hdec, Except.toOption] at hnone
  have hfoot : readStep file header.length file.length (header.length + frameLen codec b 1) =
      .ok (.record (footerLine codec b)) := hf.readStep_at_footer reserve header _
  have hsecond (fuel : ℕ) : lastSequenceLoop codec readAhead file header.length (fuel + 1) 2
      (header.length + frameLen codec b 1) = .ok (2, header.length + frameLen codec b 1) := by
    simp only [lastSequenceLoop, hskip _ (show frameLen codec b 1 < 130944 by omega),
      hfoot, hbad, hrest]
    rw [if_neg (by omega), if_neg hf.notBlank]
    rfl
  obtain ⟨fuel, hfuel⟩ : ∃ fuel, file.length + 1 = 1 + (fuel + 1) := ⟨file.length - 1, by omega⟩
  have hpath := Path.record (hskip 0 (by omega)) hfirst (.nil _)
  rw [lastWalSequenceIn_of_none readAhead hread (hf.lastWrittenFooter reserve header),
    lastWalSequenceForward_eq readAhead hread (by omega), hfuel]
  exact (lastSequenceLoop_along readAhead hpath (fuel + 1) 0).trans (hsecond fuel)

lemma appendRecordLocked {t : WalStore} {base : ℕ} (hact : t.active = some (pieceBytes codec
      (encodeBaseHeader base) (displacedCells codec b) reserve))
    (hmode : t.blockMode = none) (record : WalRecord β) (pos now : ℕ) :
    ∃ t' report rest, appendRecordLocked .default codec t record
        (some ((encodeBaseHeader base).length + pos)) now = .ok (t', report) ∧
      t'.base = t.base ∧ t'.active = some (encodeBaseHeader base ++ rest) ∧ report.persistentBytes =
        (encodeBaseHeader base).length + pos + (frameOf codec record).length := by
  have hfoot := hf.lastWrittenFooter reserve (encodeBaseHeader base)
  have hread : readWalBase t.active = .ok (base, (encodeBaseHeader base).length) := by
    rw [hact]
    exact readWalBase_headed _ _
  have hblks : shardUsesBlocks t = .ok ({ t with blockMode := some false }, false) := by
    rw [shardUsesBlocks, hmode]
    rw [hread, ok_bind, hact, Option.getD_some]
    dsimp only
    rw [hfoot, if_neg]
    · rfl
    · have hpos := frameOf_length_pos codec (nthRecord b 1)
      rw [pieceBytes_length, hf.cellsLen_eq, frameLen]
      omega
  obtain ⟨rest, hwrite⟩ := writeRecord_append .default (encodeBaseHeader base)
    (cellsBytes codec (displacedCells codec b) ++ zeros reserve) (frameOf codec record) pos
  set put := putRecord .default codec { t with blockMode := some false } record none
    ((encodeBaseHeader base).length + pos) with hput
  refine ⟨put.1, put.2, rest, ?_, rfl, ?_, rfl⟩
  · rw [Wal.appendRecordLocked, Option.elim_some, pure_eq_ok, ok_bind, appendRecordAt, hblks]
    dsimp only
    rfl
  · change some (writeRecord .default (t.active.getD []) none
      ((encodeBaseHeader base).length + pos) (frameOf codec record)) = _
    rw [hact, Option.getD_some, pieceBytes, hwrite]

lemma append_reopened {s : WalStore} (hs : Stored .default codec s (displaced codec b))
    (now : ℕ) (stop : RollEnd) : ∃ s' logId, append .default codec s.reopened (b 2) now stop =
      .ok (s', nthRecord b 2, logId) := by
  obtain ⟨reserve, hact⟩ : ∃ reserve, s.active = some (pieceBytes codec
      (encodeBaseHeader (frameLen codec b 0)) (displacedCells codec b) reserve) := by
    rcases hs.active_cases with ⟨-, hnone⟩ | ⟨reserve, hact, -⟩
    · simp [displaced] at hnone
    · exact ⟨reserve, hact⟩
  have hlast := hf.lastWalSequenceIn reserve WalConfig.default.readAhead (frameLen codec b 0)
  set header := encodeBaseHeader (frameLen codec b 0) with hhdr
  set file := pieceBytes codec header (displacedCells codec b) reserve with hfile
  have hlen : header.length + frameLen codec b 1 < file.length := by
    have hline : (footerLine codec b).length = 128 + frameLen codec b 2 := footerLine_length
    rw [pieceBytes_length, hf.cellsLen_eq]
    omega
  have hreop : s.reopened = ⟨s.sealed, some file, none, none, none, none, none, none, none⟩ := by
    rw [WalStore.reopened, hact]
    rfl
  have hat : lastWalSequenceAt .default codec s.reopened =
      .ok (2, header.length + frameLen codec b 1) := by
    rw [hreop, lastWalSequenceAt, hlast]
    rfl
  have hres : resolveLastSequenceForAppend .default codec s.reopened = .ok
      (⟨s.sealed, some file, none, some (header.length + frameLen codec b 1), none,
        some file.length, none, none, none⟩, 2, header.length + frameLen codec b 1) := by
    rw [resolveLastSequenceForAppend, hat, hreop]
    dsimp only [Option.bind_eq_bind, Option.bind_none, Option.getD_some]
    rw [ok_bind]
    rw [min_eq_left hlen.le]
    rfl
  let found : WalStore := ⟨s.sealed, some file, some 2, some (header.length + frameLen codec b 1),
    none, some file.length, none, none, none⟩
  obtain ⟨t, report, rest, happ, hbase, hfile', hend⟩ := hf.appendRecordLocked reserve
    (show found.active = some file from rfl) rfl (nthRecord b 2) (frameLen codec b 1) now
  have hens : ensureActiveWalSegment s.reopened = .ok s.reopened := by
    rw [ensureActiveWalSegment, if_pos]
    rw [hreop, fileLen, Option.getD_some]
    omega
  have hcached : cachedWalBase t =
      .ok ({ t with base := some (frameLen codec b 0, header.length) },
        frameLen codec b 0, header.length) :=
    cachedWalBase_eq (by rw [hfile']; exact readWalBase_headed _ _) (by simp [hbase])
  have hroom : report.persistentBytes - header.length < WalConfig.default.segmentBytes := by
    have hfull := hf.full
    have hsmall := hf.small
    have hthird : (frameOf codec (nthRecord b 2)).length = frameLen codec b 2 := rfl
    rw [blockFooterAt_eq] at hfull
    rw [← hhdr] at hend
    rw [show WalConfig.default.segmentBytes = 262144 from rfl]
    omega
  let based : WalStore := { t with base := some (frameLen codec b 0, header.length) }
  obtain ⟨s', hfinish⟩ := finishAppend_small
    (show based.base = some (frameLen codec b 0, header.length) from rfl) hroom
    (nthRecord b 2).sequence stop
  refine ⟨s', frameLen codec b 0 + (report.offset - header.length), ?_⟩
  rw [append, hens, ok_bind, hres, ok_bind]
  dsimp only
  rw [happ, ok_bind]
  rw [hcached, ok_bind]
  rw [hfinish]
  rfl

end FullBlock

/-- Three appends, a reclaim of the first record, a restart and the third append again. -/
def reopeningOps (shardId : ℕ) (b : ℕ → β) : List (Op β) :=
  appendThree b ++ [.reclaim 2 ⟨shardId, 1⟩, .reopen, .append .durable (b 2) 0 .complete]

lemma FullBlock.run (hf : FullBlock codec b) (shardId : ℕ) :
    ∃ h, start.run .default codec shardId (reopeningOps shardId b) = .ok h ∧
      ∃ earlier logId, h.given = earlier ++ [(logId, nthRecord b 2)] ∧
        ∃ r ∈ earlier, r.2.sequence = (nthRecord b 2).sequence := by
  have hfull := hf.full
  have hthird := hf.small
  have hpos : 0 < frameLen codec b 2 := frameOf_length_pos codec _
  have hcloses : blockFooterAt 0 <
      frameLen codec b 0 + frameLen codec b 1 + frameLen codec b 2 := by omega
  obtain ⟨hallowed, hafter⟩ := allows_appendThree hf.full.le hcloses (by omega) shardId
  obtain ⟨h, hrun, ht⟩ := (tracks_start .default codec).run hallowed
  rw [hafter] at ht
  obtain ⟨s, report, hgc, hs, -⟩ := ht.represents.gcBeforeSequence ht.wf shardId 2 ⟨shardId, 1⟩
  have hretain : min 2 (DurableIndexAnchor.ceiling ⟨shardId, 1⟩ shardId) = 2 := by
    rw [DurableIndexAnchor.ceiling, if_pos rfl]
    rfl
  rw [hretain, reclaimed_threeRecords hf.full.le (by omega)] at hs
  obtain ⟨s', logId, happ⟩ := hf.append_reopened hs.toStored 0 .complete
  obtain ⟨h', hreclaim, hstore, hgiven⟩ : ∃ h', h.step .default codec shardId
      (.reclaim 2 ⟨shardId, 1⟩) = .ok h' ∧ h'.store = s ∧ h'.given = h.given :=
    ⟨_, step_reclaim (ht.represents.readWalBase_active ht.wf) hgc, rfl, rfl⟩
  have hlast : (threeRecords codec b).lastSequence = 3 := rfl
  obtain ⟨r, hr, hsequ⟩ : ∃ r ∈ h.given, r.2.sequence = 3 := by
    rcases Log.lastSequence_eq_zero_or_mem codec (threeRecords codec b) with
      hzero | ⟨r, hr, hseq⟩
    · rw [hlast] at hzero
      simp at hzero
    · exact ⟨r, ht.known r (ht.live ▸ hr), hseq⟩
  refine ⟨({ h' with store := h'.store.reopened } : History β).record s' [(logId, nthRecord b 2)],
    ?_, h.given, logId, ?_, r, hr, hsequ⟩
  · rw [History.run] at hrun ⊢
    rw [reopeningOps, foldlM_append, hrun, ok_bind, foldlM_cons, hreclaim, ok_bind, foldlM_cons,
      step, pure_eq_ok, ok_bind, foldlM_cons, step, AppendKind.run]
    rw [hstore, happ]
    rfl
  · rw [record, hgiven]

lemma encodeBlockRecord_first_length (block : StagedBlock) {last : ℕ} (hlast : last < 100) :
    (encodeBlockRecord (nextRecord last block)).length =
      4 + (writeVarint (encodeFields block.fields).length).length +
        (encodeFields block.fields).length := by
  have hsequ : (nextRecord last block).sequence = last + 1 := min_eq_left (by rw [u64Max]; omega)
  have hseqLen : (writeVarint (last + 1)).length = 1 := writeVarint_length_of_lt (by omega)
  have hbody : (nextRecord last block).body = block := rfl
  rw [encodeBlockRecord_length_eq, hsequ, if_neg (by omega), hbody]
  omega

lemma frameOf_block_length {block : StagedBlock} {n last : ℕ} (hlast : last < 100)
    (hn : block.bytes.length = n) (hpos : 0 < n)
    (hthree : (writeVarint n).length = 3 ∧ (writeVarint (n + 13)).length = 3 ∧
      (writeVarint (n + 20)).length = 3) :
    (frameOf blockCodec (nextRecord last block)).length = n + 28 := by
  have hne : block.bytes ≠ [] := by
    intro hnil
    rw [hnil, length_nil] at hn
    omega
  have hblk : (encodeFields block.fields).length = n + 13 := by
    rw [StagedBlock.encodeFields_length hne, hn]
    omega
  have hpay : (encodeBlockRecord (nextRecord last block)).length = n + 20 := by
    rw [encodeBlockRecord_first_length block hlast, hblk]
    omega
  rw [frameOf, encodeFrame_length]
  change 1 + (writeVarint (encodeBlockRecord _).length).length + 4 +
    (encodeBlockRecord _).length = n + 28
  rw [hpay]
  omega

def newlineBlock : StagedBlock := ⟨7, [newline], smallBlock.objectId_lt, by decide⟩

def halfBlocks : ℕ → StagedBlock
  | 0 | 1 => zeroBlock 65444 (by decide)
  | _ => newlineBlock

lemma frameLen_halfBlocks :
    frameLen blockCodec halfBlocks 0 = 65472 ∧ frameLen blockCodec halfBlocks 1 = 65472 := by
  constructor
  all_goals exact frameOf_block_length (by decide) (zeros_length 65444) (by decide) (by decide)

lemma footerLine_halfBlocks : footerLine blockCodec halfBlocks =
      (writtenSlot 0 0 130944 65472 2).bytes ++ frameOf blockCodec (nthRecord halfBlocks 2) := by
  rw [footerLine, thirdGap, frameLen_halfBlocks.1, frameLen_halfBlocks.2]

lemma fullBlock_halfBlocks : FullBlock blockCodec halfBlocks where
  full := by
    rw [frameLen_halfBlocks.1, frameLen_halfBlocks.2, blockFooterAt_eq]
  small := by
    have hlen := (frameOf_blockCodec_length (nthRecord halfBlocks 2)).2
    have hbytes : (nthRecord halfBlocks 2).body.bytes.length = 1 := rfl
    rw [frameLen_halfBlocks.1, frameLen]
    omega
  line := by
    rw [footerLine_halfBlocks]
    decide +kernel
  head := by
    rw [footerLine_halfBlocks]
    decide +kernel
  notBlank := by
    rw [footerLine_halfBlocks]
    decide +kernel
  unreadable := by
    rw [footerLine_halfBlocks]
    decide +kernel

end TemporalStore.Wal
