import TemporalStore.Wal.Straddle

namespace TemporalStore.Wal

open Lib LogFraming List Log History

variable {β ρ : Type} {cfg : WalConfig} {codec : WalCodec β ρ} {shardId : ℕ}

/-- A configuration in which a block and the record behind it fill a piece. -/
def fullPieces : WalConfig := { WalConfig.default with segmentBytes := 150000 }

lemma allowsAll_newPiece {p : Piece StagedBlock} (hlast : lastSequenceOf p.cells = 3) :
    AllowsAll fullPieces blockCodec 0 ⟨[p], some ⟨true, p.stop blockCodec, []⟩, none, none, none⟩
      [.append .groupCommit smallBlock 0 .complete, .reclaim 4 ⟨0, 3⟩] := by
  set l : Log StagedBlock := ⟨[p], some ⟨true, p.stop blockCodec, []⟩, none, none, none⟩
  have hframe := (frameOf_blockCodec_length (l.next smallBlock)).2
  have hbytes : (l.next smallBlock).body.bytes.length = 1 := rfl
  have hroom : 0 + (frameOf blockCodec (l.next smallBlock)).length ≤ blockFooterAt 0 := by
    rw [blockFooterAt_eq]
    omega
  -- what an append needs is about the open piece alone
  have hshort : Short blockCodec { l with sealed := [] } 0 :=
    ⟨rfl, fun c hc => absurd hc not_mem_nil, le_rfl⟩
  have hok := hshort.appendOk hroom 0
  have hplain : ∀ c ∈ (l.place blockCodec (l.next smallBlock) 0).current.cells, c.gap = none :=
    (hshort.place hroom 0).plain
  have hlen : cellsLen blockCodec (l.place blockCodec (l.next smallBlock) 0).current.cells ≤
      0 + (frameOf blockCodec (l.next smallBlock)).length := (hshort.place hroom 0).length
  have hensured : l.ensured blockCodec = l := if_neg fun hblank => Bool.noConfusion hblank.1.1
  have hafter : l.after fullPieces blockCodec 0 (.append .groupCommit smallBlock 0 .complete) =
      l.place blockCodec (l.next smallBlock) 0 := by
    rw [Log.after, appended, hensured, rolled, if_pos (Or.inr (hlen.trans_lt ?_))]
    · rfl
    · rw [show fullPieces.segmentBytes = 150000 from rfl]
      omega
  refine ⟨⟨?_, ?_⟩, ?_, trivial⟩
  · have hsame : l.lastSequence = lastSequenceOf p.cells := by
      simp [l, Log.lastSequence, cells, pieces, current]
    rw [hsame, hlast]
    decide
  · rw [hensured]
    exact ⟨hok.close, hok.mimic⟩
  · rw [hafter]
    refine ⟨fun _ hblank => ?_, fun _ => legible_retained hplain (hlen.trans hroom) _⟩
    exact absurd hblank.2 (by simp [place_current])

/-- Three records of which the last closes a block and fills the piece, one in the next piece, and
a reclaim of the full one. -/
def rollAndReclaim : List (Op StagedBlock) :=
  appendThree movedBlocks ++ [.append .groupCommit smallBlock 0 .complete, .reclaim 4 ⟨0, 3⟩]

lemma allowsAll_rollAndReclaim : empty.AllowsAll fullPieces blockCodec 0 rollAndReclaim := by
  have hroom : blockFooterAt 0 = 130944 := blockFooterAt_eq 0
  have hseg : fullPieces.segmentBytes = 150000 := rfl
  have hlens := frameLen_movedBlocks
  have hfits := displacing_movedBlocks.fits.le
  obtain ⟨hthree, hafter⟩ := allows_three hfits displacing_movedBlocks.closes
    displacing_movedBlocks.small_third (show _ < fullPieces.segmentBytes by omega) 0
  rw [rolled, if_neg (by rw [cellsLen_threeRecords hfits]; omega)] at hafter
  rw [rollAndReclaim, allowsAll_append, hafter]
  exact ⟨hthree, allowsAll_newPiece rfl⟩

/-- A scan of the whole log returns the records that were appended and not reclaimed, each once and
in the order of their sequences. -/
theorem scanDecoded_run {ops : List (Op β)} (hok : Log.empty.AllowsAll cfg codec shardId ops) :
    ∃ h, History.start.run cfg codec shardId ops = .ok h ∧
      scanDecoded cfg codec h.store = .ok (codec.readEach h.live) ∧
      (h.live.map fun r => r.2.sequence).Pairwise (· < ·) := by
  obtain ⟨h, hrun, ht⟩ := (tracks_start cfg codec).run hok
  refine ⟨h, hrun, ?_, ?_⟩
  · rw [ht.live]
    exact ht.represents.toStored.scanDecoded ht.wf
  · rw [ht.live]
    exact ht.wf.sequences

theorem scanDecoded_rollAndReclaim :
    ∃ h, History.start.run fullPieces blockCodec 0 rollAndReclaim = .ok h ∧
      scanDecoded fullPieces blockCodec h.store = .ok (blockCodec.readEach h.live) ∧
      (h.live.map fun r => r.2.sequence).Pairwise (· < ·) :=
  scanDecoded_run allowsAll_rollAndReclaim

/-- Four appends and a reclaim after which a live record stands behind a displaced footer. -/
def hidingOps : List (Op StagedBlock) := displacingOps 0 movedBlocks

theorem scanDecoded_hidingOps : ∃ h, History.start.run .default blockCodec 0 hidingOps = .ok h ∧
    scanDecoded .default blockCodec h.store ≠ .ok (blockCodec.readEach h.live) := by
  obtain ⟨h, reserve, hrun, hsealed, hactive, -, hlive⟩ := displacing_movedBlocks.run 0
  refine ⟨h, hrun, ?_⟩
  rw [displacing_movedBlocks.shadowed.scanDecoded .default hsealed hactive, hlive, Piece.records,
    displacing_movedBlocks.shadowed.cells]
  intro hsame
  have hlength := congrArg length (Except.ok.inj hsame)
  rw [WalCodec.readEach, WalCodec.readEach, length_map, length_map] at hlength
  simp [recordsFrom] at hlength

/-- The log id a record got resolves to the record while the record is live and to nothing once it
is reclaimed, and the pieces hold log ids that follow one another. -/
theorem logIds_run {ops : List (Op β)} (hok : Log.empty.AllowsAll cfg codec shardId ops) :
    ∃ h, History.start.run cfg codec shardId ops = .ok h ∧
      (∀ r ∈ h.given, r ∈ h.live ∨ r ∈ h.reclaimed) ∧ (∀ r ∈ h.live, h.store.Holds codec r) ∧
      (∀ r ∈ h.reclaimed, ∀ size, readAtLogId h.store r.1 size = .ok none) ∧
      h.store.RangesFollow := by
  obtain ⟨h, hrun, ht⟩ := (tracks_start cfg codec).run hok
  have hstored := ht.represents.toStored
  refine ⟨h, hrun, ht.kept, ?_, ?_, hstored.rangesFollow ht.wf⟩
  · intro r hr
    rw [ht.live] at hr
    exact hstored.readAtLogId_record ht.wf hr
  · intro r hr size
    exact hstored.readAtLogId_unheld ht.wf (ht.reclaimed r hr) size

theorem logIds_rollAndReclaim :
    ∃ h, History.start.run fullPieces blockCodec 0 rollAndReclaim = .ok h ∧
      (∀ r ∈ h.given, r ∈ h.live ∨ r ∈ h.reclaimed) ∧ (∀ r ∈ h.live, h.store.Holds blockCodec r) ∧
      (∀ r ∈ h.reclaimed, ∀ size, readAtLogId h.store r.1 size = .ok none) ∧ h.store.RangesFollow :=
  logIds_run allowsAll_rollAndReclaim

/-- A configuration in which every record fills its piece. -/
def smallPieces : WalConfig := { WalConfig.default with segmentBytes := 1, preallocate := false }

/-- A crash between the sealing of a piece and the header of the next one, then a reclaim. -/
def crashAndReclaim : List (Op StagedBlock) :=
  [.append .durable ⟨1, [1], by decide, smallBlock.length_lt⟩ 0 .afterCreate, .reclaim 0 ⟨0, 0⟩,
    .append .durable ⟨2, [2], by decide, by decide⟩ 0 .complete]

/-- The reclaim gives the empty piece the base 0, and the log ids start over. -/
theorem logIds_crashAndReclaim :
    ∃ h, History.start.run smallPieces blockCodec 0 crashAndReclaim = .ok h ∧
      ∃ r ∈ h.live, ¬h.store.Holds blockCodec r := by
  have hcheck : ((start.run smallPieces blockCodec 0 crashAndReclaim).toOption.map
      fun h => h.live.all fun r => decide (h.store.Holds blockCodec r)) = some false := by
    decide +kernel
  cases hrun : start.run smallPieces blockCodec 0 crashAndReclaim with
  | error e => simp [hrun, Except.toOption] at hcheck
  | ok h =>
    refine ⟨h, rfl, ?_⟩
    simpa [hrun, Except.toOption] using hcheck

/-- Where reading starts to see the records after a sequence, it is at or before each of them. -/
theorem logIdAfterSequence_run {ops : List (Op β)}
    (hok : Log.empty.AllowsAll cfg codec shardId ops) (sequence : ℕ) :
    ∃ h start, History.start.run cfg codec shardId ops = .ok h ∧
      logIdAfterSequence cfg codec h.store sequence = .ok start ∧
      ∀ r ∈ h.live, sequence < r.2.sequence → start ≤ r.1 := by
  obtain ⟨h, hrun, ht⟩ := (tracks_start cfg codec).run hok
  obtain ⟨start, hstart, hle⟩ := @logIdAfterSequenceFrom_le _ _ cfg _ sequence _ _
    ht.represents.toStored.filesOf 0 ht.wf.sound (fun _ => ht.wf.ordered_piece)
    ht.wf.stop_le_records fun _ _ _ _ => Nat.zero_le _
  refine ⟨h, start, hrun, hstart, ?_⟩
  rw [ht.live]
  intro r hr
  obtain ⟨p, hp, hr⟩ := mem_flatMap.mp hr
  exact hle p hp r hr

theorem logIdAfterSequence_rollAndReclaim :
    ∃ h start, History.start.run fullPieces blockCodec 0 rollAndReclaim = .ok h ∧
      logIdAfterSequence fullPieces blockCodec h.store 1 = .ok start ∧
      ∀ r ∈ h.live, 1 < r.2.sequence → start ≤ r.1 :=
  logIdAfterSequence_run allowsAll_rollAndReclaim 1

/-- A configuration in which a record of 40 bytes fills its piece. -/
def widePieces : WalConfig := { smallPieces with segmentBytes := 40 }

/-- The same crash and reclaim; the record behind them does not fill its piece. -/
def crashAndReclaimWide : List (Op StagedBlock) :=
  [.append .durable (zeroBlock 40 (by decide)) 0 .afterCreate, .reclaim 0 ⟨0, 0⟩,
    .append .durable newlineBlock 0 .complete]

/-- The log ids have started over, and the start lies behind the record after sequence 1. -/
theorem logIdAfterSequence_crashAndReclaim :
    ∃ h start, History.start.run widePieces blockCodec 0 crashAndReclaimWide = .ok h ∧
      logIdAfterSequence widePieces blockCodec h.store 1 = .ok start ∧
      ∃ r ∈ h.live, 1 < r.2.sequence ∧ r.1 < start := by
  have hcheck : ((start.run widePieces blockCodec 0 crashAndReclaimWide).toOption.bind
      fun h => (logIdAfterSequence widePieces blockCodec h.store 1).toOption.map
        fun start => h.live.any fun r => decide (1 < r.2.sequence ∧ r.1 < start)) = some true := by
    decide +kernel
  cases hrun : start.run widePieces blockCodec 0 crashAndReclaimWide with
  | error e => simp [hrun, Except.toOption] at hcheck
  | ok h =>
    cases hstart : logIdAfterSequence widePieces blockCodec h.store 1 with
    | error e => simp [hrun, hstart, Except.toOption] at hcheck
    | ok start =>
      refine ⟨h, start, rfl, hstart, ?_⟩
      simpa [hrun, hstart, Except.toOption] using hcheck

lemma Tracks.effectiveRetain_le {h : History β} {l : Log β} (ht : Tracks cfg codec h l)
    (retain : ℕ) (anchor : DurableIndexAnchor) :
    l.effectiveRetain (min retain (anchor.ceiling shardId)) ≤
      h.retentionBound shardId retain anchor := by
  have hlast : l.lastSequence ≤ (h.live.map fun r => r.2.sequence).foldl max 0 := by
    rcases l.lastSequence_eq_zero_or_mem codec with hzero | ⟨r, hr, hseq⟩
    · rw [hzero]
      exact Nat.zero_le _
    · have hmem : r.2.sequence ∈ (l.records codec).map fun r => r.2.sequence := mem_map_of_mem hr
      rw [← hseq, ht.live]
      exact le_foldl_max_of_mem hmem 0
  rw [effectiveRetain, retentionBound, ht.represents.floor]
  omega

lemma Log.WF.mem_records_reclaimed {l : Log β} (hwf : l.WF codec) {retain : ℕ}
    (hok : l.ReclaimOk codec cfg retain) {r : ℕ × WalRecord β} (hr : r ∈ l.records codec)
    (hseq : l.effectiveRetain retain ≤ r.2.sequence) :
    r ∈ (l.reclaimed codec cfg retain).records codec := by
  have hrec : r.2 ∈ l.cells.map Cell.record := by
    rw [← l.records_map_record codec]
    exact mem_map_of_mem hr
  have hkept := hwf.mem_reclaimed cfg hrec hseq
  rw [← records_map_record codec, mem_map] at hkept
  obtain ⟨q, hq, hsame⟩ := hkept
  have hold : q ∈ l.records codec := by
    rw [hwf.records_reclaimed hok] at hq
    exact mem_of_mem_filter hq
  -- Sequences rise, so there is no other record with this one.
  have hnodup : ((l.records codec).map fun r => r.2.sequence).Nodup :=
    hwf.sequences.imp Nat.ne_of_lt
  have hqr := inj_on_of_nodup_map hnodup hold hr (by rw [hsame])
  exact hqr ▸ hq

/-- A reclaim takes no record at or above the bound, and so never the one with the highest
sequence. -/
theorem reclaim_run {ops : List (Op β)} {retain : ℕ} {anchor : DurableIndexAnchor}
    (hok : Log.empty.AllowsAll cfg codec shardId (ops ++ [.reclaim retain anchor])) :
    ∃ h h', History.start.run cfg codec shardId ops = .ok h ∧
      h.step cfg codec shardId (.reclaim retain anchor) = .ok h' ∧
      (∀ r ∈ h.live, h.retentionBound shardId retain anchor ≤ r.2.sequence →
        r ∈ h'.live ∧ h'.store.Holds codec r) ∧
      (∀ r ∈ h.live, (∀ q ∈ h.live, q.2.sequence ≤ r.2.sequence) →
        r ∈ h'.live ∧ h'.store.Holds codec r) := by
  rw [allowsAll_append] at hok
  obtain ⟨h, hrun, ht⟩ := (tracks_start cfg codec).run hok.1
  obtain ⟨h', hstep, ht'⟩ := ht.reclaim hok.2.1
  have hkept (r : ℕ × WalRecord β) (hr : r ∈ h.live)
      (hseq : h.retentionBound shardId retain anchor ≤ r.2.sequence) :
      r ∈ h'.live ∧ h'.store.Holds codec r := by
    have hmem : r ∈ h'.live := by
      rw [ht'.live]
      exact ht.wf.mem_records_reclaimed hok.2.1 (ht.live ▸ hr)
        ((ht.effectiveRetain_le retain anchor).trans hseq)
    exact ⟨hmem, ht'.represents.toStored.readAtLogId_record ht'.wf (ht'.live ▸ hmem)⟩
  refine ⟨h, h', hrun, hstep, hkept, ?_⟩
  intro r hr hmax
  refine hkept r hr (le_trans (le_trans (min_le_left _ _) (min_le_right _ _)) ?_)
  refine foldl_max_le_iff.mpr ⟨Nat.zero_le _, ?_⟩
  intro n hn
  obtain ⟨q, hq, rfl⟩ := mem_map.mp hn
  exact hmax q hq

theorem reclaim_rollAndReclaim :
    ∃ h h', History.start.run fullPieces blockCodec 0 (rollAndReclaim.take 4) = .ok h ∧
      h.step fullPieces blockCodec 0 (.reclaim 4 ⟨0, 3⟩) = .ok h' ∧
      (∀ r ∈ h.live, h.retentionBound 0 4 ⟨0, 3⟩ ≤ r.2.sequence →
        r ∈ h'.live ∧ h'.store.Holds blockCodec r) ∧
      (∀ r ∈ h.live, (∀ q ∈ h.live, q.2.sequence ≤ r.2.sequence) →
        r ∈ h'.live ∧ h'.store.Holds blockCodec r) :=
  reclaim_run allowsAll_rollAndReclaim

/-- A reclaim that is to retain from sequence 3 takes the record with sequence 3. -/
theorem reclaim_hidingOps : ∃ h h' r, History.start.run .default blockCodec 0 hidingOps = .ok h ∧
      h.step .default blockCodec 0 (.reclaim 3 ⟨0, 2⟩) = .ok h' ∧
      r ∈ h.live ∧ h.retentionBound 0 3 ⟨0, 2⟩ ≤ r.2.sequence ∧ h.store.Holds blockCodec r ∧
      ∀ size, readAtLogId h'.store r.1 size = .ok none := by
  obtain ⟨h, h', logId, hrun, hstep, hlive, hholds, hgone⟩ := displacing_movedBlocks.reclaim 0
  refine ⟨h, h', _, hrun, hstep, hlive, ?_, hholds, hgone⟩
  exact le_trans (min_le_left _ _) (le_trans (min_le_left _ _) (min_le_left _ _))

/-- No sequence is given twice, and later records get higher ones. -/
theorem sequences_run {ops : List (Op β)} (hok : Log.empty.AllowsAll cfg codec shardId ops) :
    ∃ h, History.start.run cfg codec shardId ops = .ok h ∧
      (h.given.map fun r => r.2.sequence).Pairwise (· < ·) := by
  obtain ⟨h, hrun, ht⟩ := (tracks_start cfg codec).run hok
  exact ⟨h, hrun, ht.rising⟩

theorem sequences_rollAndReclaim :
    ∃ h, History.start.run fullPieces blockCodec 0 rollAndReclaim = .ok h ∧
      (h.given.map fun r => r.2.sequence).Pairwise (· < ·) :=
  sequences_run allowsAll_rollAndReclaim

/-- A restart on a log whose first block was filled to its last byte and then moved. -/
def restartOps : List (Op StagedBlock) := reopeningOps 0 halfBlocks

theorem sequences_restartOps : ∃ h, History.start.run .default blockCodec 0 restartOps = .ok h ∧
      ¬(h.given.map fun r => r.2.sequence).Pairwise (· < ·) := by
  obtain ⟨h, hrun, earlier, logId, hgiven, r, hr, hsame⟩ := fullBlock_halfBlocks.run 0
  refine ⟨h, hrun, ?_⟩
  rw [hgiven, map_append, pairwise_append]
  rintro ⟨-, -, hrise⟩
  have hlt := hrise r.2.sequence (mem_map_of_mem hr) _ (mem_singleton_self _)
  exact absurd hsame (Nat.ne_of_lt hlt)

/-- In every file of the log the tail found from the last footer on the grid is the one that a walk
from the first record finds. -/
theorem lastWalSequenceIn_run {ops : List (Op β)}
    (hok : Log.empty.AllowsAll cfg codec shardId ops) :
    ∃ h, History.start.run cfg codec shardId ops = .ok h ∧
      ∀ file, some file ∈ h.store.segments → ∃ tail,
        lastWalSequenceIn codec cfg.readAhead (some file) = .ok tail ∧
        lastWalSequenceForward codec cfg.readAhead file = .ok tail := by
  obtain ⟨h, hrun, ht⟩ := (tracks_start cfg codec).run hok
  have hstored := ht.represents.toStored
  set l := empty.afterAll cfg codec shardId ops
  have hpiece (p : Piece β) (hp : p ∈ l.pieces) (reserve : ℕ) : ∃ tail,
      lastWalSequenceIn codec cfg.readAhead (some (p.bytes codec reserve)) = .ok tail ∧
        lastWalSequenceForward codec cfg.readAhead (p.bytes codec reserve) = .ok tail := by
    have hsound := ht.wf.sound p hp
    have hord := ht.wf.ordered_piece hp
    exact ⟨_, hsound.lastWalSequenceIn hord cfg.readAhead reserve,
      lastWalSequenceForward_piece rfl cfg.readAhead hsound.legible hord
        (hsound.readWalBase reserve)⟩
  refine ⟨h, hrun, fun file hfile => ?_⟩
  rw [hstored.segments, mem_append, mem_map, mem_singleton] at hfile
  rcases hfile with ⟨p, hp, hbytes⟩ | hactive
  · rw [← Option.some.inj hbytes]
    exact hpiece p (mem_append_left _ hp) 0
  · rcases hstored.active_cases with ⟨hnone, -⟩ | ⟨reserve, hcurrent, -⟩
    · rw [hnone] at hactive
      simp at hactive
    · rw [Option.some.inj (hactive.trans hcurrent)]
      exact hpiece l.current l.current_mem_pieces reserve

theorem lastWalSequenceIn_rollAndReclaim :
    ∃ h, History.start.run fullPieces blockCodec 0 rollAndReclaim = .ok h ∧
      ∀ file, some file ∈ h.store.segments → ∃ tail,
        lastWalSequenceIn blockCodec fullPieces.readAhead (some file) = .ok tail ∧
        lastWalSequenceForward blockCodec fullPieces.readAhead file = .ok tail :=
  lastWalSequenceIn_run allowsAll_rollAndReclaim

/-- A footer that is part of a record makes the tail walk start inside the record. -/
theorem lastWalSequenceIn_straddlingOps :
    ∃ h, History.start.run .default blockCodec 0 straddlingOps = .ok h ∧
      ∃ file, some file ∈ h.store.segments ∧
        lastWalSequenceIn blockCodec WalConfig.default.readAhead (some file) ≠
          lastWalSequenceForward blockCodec WalConfig.default.readAhead file := by
  have hs := straddles_footerBlock
  obtain ⟨hok, hafter⟩ := allowsAll_straddlingOps_take
  obtain ⟨h, hrun, ht⟩ := (tracks_start .default blockCodec).run hok
  obtain ⟨s, hplaced, hs'⟩ := ht.represents.append_within ht.wf rfl footerBlock 0 .complete
    (fun reserve => Straddles.readWalBase reserve) (by
      right
      obtain ⟨-, -, hshort, hcells, -⟩ := hs.lengths 0
      change cellsLen blockCodec [⟨none, nextRecord 0 newlineBlock⟩,
        ⟨none, nextRecord 1 footerBlock⟩] < 262144
      omega)
  obtain ⟨reserve, hactive⟩ : ∃ reserve, s.active = some (Straddles.bytes blockCodec
      (nextRecord 0 newlineBlock) (nextRecord 1 footerBlock) reserve) := by
    rcases hs'.active_cases with ⟨-, hnone⟩ | ⟨reserve, hactive, -⟩
    · simp [Log.place] at hnone
    · exact ⟨reserve, hactive⟩
  obtain ⟨logId, happend⟩ : ∃ logId, append .default blockCodec h.store footerBlock 0 .complete =
      .ok (s, nextRecord 1 footerBlock, logId) := ⟨_, hplaced⟩
  refine ⟨h.record s [(logId, nextRecord 1 footerBlock)], ?_, _, ?_,
    hs.lastWalSequenceIn_ne reserve _ (by decide) (by decide)⟩
  · rw [run] at hrun ⊢
    rw [← take_append_drop 2 straddlingOps, foldlM_append, hrun, ok_bind]
    change h.step .default blockCodec 0 (.append .durable footerBlock 0 .complete) >>= _ = _
    rw [step, AppendKind.run]
    rw [happend]
    rfl
  · rw [WalStore.segments, mem_append, mem_singleton]
    exact .inr hactive.symm

/-- What the process remembers of a log is what it would find in the files. -/
def WalStore.Coherent (cfg : WalConfig) (codec : WalCodec β ρ) (s : WalStore) : Prop :=
  (∀ b, s.base = some b → readWalBase s.active = .ok b) ∧
    ∃ last stop, lastWalSequenceAt cfg codec s = .ok (last, stop) ∧
      (∀ n, s.lastSequence = some n → n = last) ∧ ∀ n, s.verifiedLen = some n → n = stop

theorem coherent_run {ops : List (Op β)} (hok : Log.empty.AllowsAll cfg codec shardId ops) :
    ∃ h, History.start.run cfg codec shardId ops = .ok h ∧ h.store.Coherent cfg codec := by
  obtain ⟨h, hrun, ht⟩ := (tracks_start cfg codec).run hok
  have hrep := ht.represents
  refine ⟨h, hrun, fun b hb => ?_, _, _, hrep.toStored.lastWalSequenceAt_eq ht.wf,
    hrep.lastSequence, hrep.verifiedLen⟩
  rw [hrep.base b hb]
  exact hrep.readWalBase_active ht.wf

theorem coherent_rollAndReclaim :
    ∃ h, History.start.run fullPieces blockCodec 0 rollAndReclaim = .ok h ∧
      h.store.Coherent fullPieces blockCodec :=
  coherent_run allowsAll_rollAndReclaim

end TemporalStore.Wal
