import TemporalStore.Wal.Refine

namespace TemporalStore.Wal

open Lib LogFraming List Option Log Piece Nat

variable {β ρ : Type} {cfg : WalConfig} {codec : WalCodec β ρ} {s : WalStore} {l : Log β}

/-- Where the records of the active piece end in its file. -/
def Log.recordEnd (codec : WalCodec β ρ) (l : Log β) : ℕ :=
  l.current.header.length + cellsLen codec l.current.cells

lemma Follows.setVerified (h : Follows cfg codec s l) (physical : Option ℕ) : Follows cfg codec
      { s with verifiedLen := some (l.recordEnd codec), preallocPhysical := physical } l :=
  { h with verifiedLen := by rintro n ⟨⟩; rfl }

lemma Follows.setBase (h : Follows cfg codec s l) :
    Follows cfg codec { s with base := some (l.current.base, l.current.header.length) } l :=
  { h with base := by rintro b ⟨⟩; rfl }

lemma Represents.ensureActiveWalSegment (h : Represents cfg codec s l) (hwf : l.WF codec) :
    ∃ s', ensureActiveWalSegment s = .ok s' ∧ Represents cfg codec s' (l.ensured codec) := by
  rw [Wal.ensureActiveWalSegment]
  by_cases hblank : l.current.IsBlank
  · rw [if_neg (by rw [h.fileLen_active]; exact not_not_intro hblank), h.logIdAfterSealed_eq hwf,
      ok_bind]
    by_cases hstop : l.sealedStop codec = 0
    · rw [if_pos hstop, show l.ensured codec = l from if_neg fun hens => hens.2 hstop]
      exact ⟨s, rfl, h⟩
    · have hens : l.ensured codec = { l with active := some ⟨true, l.sealedStop codec, []⟩ } :=
        if_pos ⟨hblank, hstop⟩
      rw [if_neg hstop, hens]
      refine ⟨_, rfl, ?_⟩
      exact
        { __ := h
          present := rfl
          active := ⟨0, by simp [current, bytes, pieceBytes, header], fun _ => rfl, fun _ => rfl⟩
          verifiedLen := by rintro n ⟨⟩; rfl
          base := by rintro b ⟨⟩; rfl
          lastSequence := by
            rw [← hens, lastSequence_ensured]
            exact h.lastSequence }
  · rw [if_pos (by rw [h.fileLen_active]; exact hblank),
      show l.ensured codec = l from if_neg fun hens => hblank hens.1]
    exact ⟨s, rfl, h⟩

lemma cachedWalBase_eq {b : ℕ × ℕ} (hread : readWalBase s.active = .ok b)
    (hcached : ∀ c, s.base = some c → c = b) :
    cachedWalBase s = .ok ({ s with base := some b }, b) := by
  rw [Wal.cachedWalBase]
  cases hbase : s.base with
  | some c =>
    obtain rfl := hcached c hbase
    have hsame : s = { s with base := some c } := by rw [← hbase]
    exact congrArg (fun t => Except.ok (t, c)) hsame
  | none =>
    simp only [hread, ok_bind]
    rfl

lemma Follows.shardUsesBlocks (h : Follows cfg codec s l) (hwf : l.WF codec) : shardUsesBlocks s =
      .ok ({ s with blockMode := some (l.usesBlocks codec) }, l.usesBlocks codec) := by
  have hmode := h.blockMode
  rw [Wal.shardUsesBlocks, usesBlocks]
  cases hknown : s.blockMode with
  | some known =>
    rw [hknown] at hmode
    have hsame : s = { s with blockMode := some known } := by rw [← hknown]
    rw [← hmode]
    exact congrArg (fun t => Except.ok (t, known)) hsame
  | none =>
    rw [hknown] at hmode
    obtain ⟨reserve, hfile, -, hres⟩ := h.active
    have hlen := l.current.bytes_length codec reserve
    simp only [h.readWalBase_active hwf, ok_bind, hfile, ← hmode, getD_none]
    have hempty : (l.current.bytes codec reserve).length ≤ l.current.header.length ↔
        l.current.cells = [] := by
      refine ⟨fun hle => (cellsLen_eq_zero codec).mp (by omega), fun hnil => ?_⟩
      rw [hlen, hnil, cellsLen_nil, hres hnil]
      omega
    by_cases hnil : l.current.cells = []
    · rw [if_pos (hempty.mpr hnil), hnil]
      rfl
    · rw [if_neg (mt hempty.mp hnil), hwf.sound_current.lastWrittenFooter_isSome reserve]
      simp [hnil]

lemma Represents.resolveLastSequenceForAppend (h : Represents cfg codec s l) (hwf : l.WF codec) :
    ∃ s', resolveLastSequenceForAppend cfg codec s =
        .ok (s', l.lastSequence, l.recordEnd codec) ∧ Represents cfg codec s' l := by
  rw [Wal.resolveLastSequenceForAppend]
  split
  · next verifiedLen hrem =>
    -- Memory answers only if it holds both a length and a last sequence.
    simp only [bind_eq_bind, bind_eq_some_iff] at hrem
    obtain ⟨known, hver, hcond⟩ := hrem
    rw [ite_none_right_eq_some, some.injEq] at hcond
    obtain ⟨hflat, rfl⟩ := hcond
    simp only [Bool.and_eq_true] at hflat
    obtain ⟨n, hn⟩ := isSome_iff_exists.mp hflat.1.1.2
    refine ⟨s, ?_, h⟩
    rw [hn, h.lastSequence n hn, h.verifiedLen known hver]
    rfl
  · have hmax : max (s.lastSequence.getD 0) l.lastSequence = l.lastSequence := by
      cases hcached : s.lastSequence with
      | none => simp
      | some n => simp [h.lastSequence n hcached]
    obtain ⟨reserve, hfile, -⟩ := h.active
    have hlen := l.current.bytes_length codec reserve
    have hend : min (l.recordEnd codec) (s.active.getD []).length = l.recordEnd codec := by
      rw [hfile, recordEnd]
      omega
    rw [h.lastWalSequenceAt_eq hwf, ok_bind]
    let physical := if cfg.preallocate then some (s.active.getD []).length else s.preallocPhysical
    refine ⟨_, ?_, { h.toFollows.setVerified physical with lastSequence := h.lastSequence }⟩
    rw [recordEnd] at hend
    simp only [hend, hmax]
    rfl

lemma writeRecord_eq {file pre : Bytes} {reserve : ℕ} (hfile : file = pre ++ zeros reserve)
    (hres : cfg.preallocate = false → reserve = 0) (gap : Option Gap) (frame : Bytes) :
    ∃ reserve', writeRecord cfg file (gap.map fun g => (pre.length + g.pad, g.slot.bytes))
        (pre.length + (gap.elim [] Gap.bytes).length) frame =
        pre ++ (gap.elim [] Gap.bytes ++ (frame ++ zeros reserve')) ∧
      (cfg.preallocate = false → reserve' = 0) := by
  subst hfile
  cases hpre : cfg.preallocate with
  | false =>
    obtain rfl := hres hpre
    cases gap with
    | none => simp [writeRecord, hpre]
    | some g =>
      have hslot := writeAt_zeros pre g.slot.bytes g.pad 0
      simp only [zeros_zero, append_nil] at hslot
      simp [writeRecord, hpre, hslot, Gap.bytes]
  | true =>
    have hgrown (physical : ℕ) : ∃ k, (if (pre ++ zeros reserve).length < physical then
        setLen (pre ++ zeros reserve) physical else pre ++ zeros reserve) = pre ++ zeros k := by
      split
      · next hlt =>
        rw [length_append] at hlt
        exact ⟨physical - pre.length, setLen_zeros pre (by omega)⟩
      · exact ⟨reserve, rfl⟩
    simp only [writeRecord, hpre, if_true]
    obtain ⟨k, hk⟩ := hgrown (reservedLen cfg (pre ++ zeros reserve).length
      (pre.length + (gap.elim [] Gap.bytes).length + frame.length))
    rw [hk]
    cases gap with
    | none =>
      have hfr := writeAt_zeros pre frame 0 k
      simp only [zeros_zero, append_nil, add_zero] at hfr
      simp [hfr]
    | some g =>
      have hslot := writeAt_zeros pre g.slot.bytes g.pad k
      have hfr := writeAt_zeros (pre ++ zeros g.pad ++ g.slot.bytes) frame 0
        (k - (g.pad + g.slot.bytes.length))
      simp only [zeros_zero, append_nil, add_zero, length_append, zeros_length] at hfr
      simp only [map_some, elim_some, hslot, Gap.bytes, length_append, zeros_length]
      rw [← add_assoc, hfr]
      simp

lemma Follows.appendOffset (h : Follows cfg codec s l) (hwf : l.WF codec) :
    appendOffset cfg codec s = .ok (l.recordEnd codec) := by
  unfold Wal.appendOffset
  split
  · next recordEnd hver _ =>
    rw [h.verifiedLen recordEnd hver]
    rfl
  · next file hact =>
    rw [← hact, h.lastWalSequenceIn_active hwf]
    rfl
  · next hnot hopen =>
    -- No reservation, or no file: the records end where the file does.
    rcases h.active_cases with ⟨hs, hl⟩ | ⟨reserve, hs, -, hres, -⟩
    · rw [hs, recordEnd, current, hl]
      rfl
    · cases hpre : cfg.preallocate with
      | false =>
        rw [hs, fileLen, getD_some, bytes_length, hres hpre]
        rfl
      | true =>
        cases hver : s.verifiedLen with
        | none => exact absurd hs (hopen _ hver hpre)
        | some n => exact absurd hpre (hnot n hver)

section

variable (l : Log β) (record : WalRecord β)

lemma Log.closingGap_bytes (now index : ℕ) : (l.closingGap codec record now index).slot.bytes =
      encodeBlockFooter now index (cellsLen codec l.current.cells - index * walBlockBytes)
        (l.lastRecord.getD (l.recordEnd codec, record.sequence - 1)).1
        (l.lastRecord.getD (l.recordEnd codec, record.sequence - 1)).2 := rfl

lemma Log.gapFor_close (now : ℕ) :
    (l.gapFor codec record now).map (fun g => (l.recordEnd codec + g.pad, g.slot.bytes)) =
      (closedBlock (l.usesBlocks codec) (cellsLen codec l.current.cells)
        (frameOf codec record).length).map fun index =>
          (l.current.header.length + blockFooterAt index,
            encodeBlockFooter now index (cellsLen codec l.current.cells - index * walBlockBytes)
              (l.lastRecord.getD (l.recordEnd codec, record.sequence - 1)).1
              (l.lastRecord.getD (l.recordEnd codec, record.sequence - 1)).2) := by
  rw [gapFor, Option.map_map]
  cases hclose : closedBlock (l.usesBlocks codec) (cellsLen codec l.current.cells)
      (frameOf codec record).length with
  | none => rw [Option.map_none, Option.map_none]
  | some index =>
    have hle := (closedBlock_eq_some hclose).2
    rw [blockDataEnd] at hle
    rw [map_some, map_some, Function.comp_apply, closingGap_pad, closingGap_bytes,
      recordEnd, Nat.add_assoc, Nat.add_sub_cancel' hle]

lemma Log.gapBytes_cellFor (now : ℕ) :
    l.recordEnd codec + (l.cellFor codec record now).gapBytes.length =
      (closedBlock (l.usesBlocks codec) (cellsLen codec l.current.cells)
        (frameOf codec record).length).elim (l.recordEnd codec) fun index =>
          l.current.header.length + (index + 1) * walBlockBytes := by
  simp only [Cell.gapBytes, cellFor, gapFor]
  cases hclose : closedBlock (l.usesBlocks codec) (cellsLen codec l.current.cells)
      (frameOf codec record).length with
  | none => rfl
  | some index =>
    have hle := (closedBlock_eq_some hclose).2
    rw [blockDataEnd_eq] at hle
    rw [map_some, elim_some, elim_some, Gap.bytes_length, closingGap_pad,
      recordEnd, blockFooterAt_eq, walBlockBytes_eq, walBlockFooterBytes]
    omega

lemma Log.recordEnd_place (now : ℕ) :
    (l.place codec record now).recordEnd codec = l.recordEnd codec +
      (l.cellFor codec record now).gapBytes.length + (frameOf codec record).length := by
  rw [recordEnd, recordEnd, place_current]
  simp only [cellsLen_append, cellsLen_cons, cellsLen_nil, Cell.bytes_length, header]
  simp only [cellFor]
  omega

end

/-- The report of a record's append. -/
def Log.reportFor (codec : WalCodec β ρ) (l : Log β) (record : WalRecord β) (now : ℕ) :
    AppendReport :=
  ⟨record.sequence, record.sequence, true,
    l.recordEnd codec + (l.cellFor codec record now).gapBytes.length,
    (frameOf codec record).length, (l.place codec record now).recordEnd codec⟩

lemma blockHeaderLen_eq {b : ℕ × ℕ} (hread : readWalBase s.active = .ok b)
    (hcached : ∀ c, s.base = some c → c = b) (usesBlocks : Bool) :
    ∃ base, (∀ c, base = some c → c = b) ∧
      blockHeaderLen { s with blockMode := some usesBlocks } usesBlocks =
        .ok ({ s with blockMode := some usesBlocks, base := base },
          if usesBlocks then b.2 else 0) := by
  cases usesBlocks with
  | false => exact ⟨s.base, hcached, rfl⟩
  | true =>
    have hread' : readWalBase ({ s with blockMode := some true } : WalStore).active = .ok b := hread
    refine ⟨some b, by simp, ?_⟩
    rw [Wal.blockHeaderLen, cachedWalBase_eq hread' hcached]
    rfl

lemma Follows.putRecord (h : Follows cfg codec s l) (record : WalRecord β) (now : ℕ)
    {base : Option (ℕ × ℕ)}
    (hbase : ∀ b, base = some b → b = (l.current.base, l.current.header.length)) :
    ∃ s', putRecord cfg codec { s with blockMode := some (l.usesBlocks codec), base := base } record
        ((l.gapFor codec record now).map fun g => (l.recordEnd codec + g.pad, g.slot.bytes))
        (l.recordEnd codec + (l.cellFor codec record now).gapBytes.length) =
        (s', l.reportFor codec record now) ∧
      Follows cfg codec s' (l.place codec record now) ∧ s'.lastSequence = s.lastSequence := by
  obtain ⟨reserve, hfile, hres, -⟩ := h.active
  have hpre : l.current.bytes codec reserve =
      (l.current.header ++ cellsBytes codec l.current.cells) ++ zeros reserve := by
    rw [bytes, pieceBytes, append_assoc]
  obtain ⟨reserve', hwrit, hres'⟩ := writeRecord_eq (hfile.trans hpre) hres
    (l.gapFor codec record now) (frameOf codec record)
  have hlen : (l.current.header ++ cellsBytes codec l.current.cells).length =
      l.recordEnd codec := by
    rw [length_append]
    rfl
  have hcell : (l.gapFor codec record now).elim [] Gap.bytes =
      (l.cellFor codec record now).gapBytes := rfl
  have hplaced : (l.place codec record now).current.bytes codec reserve' =
      l.current.header ++ cellsBytes codec l.current.cells ++
        ((l.cellFor codec record now).gapBytes ++ (frameOf codec record ++ zeros reserve')) := by
    rw [place_current, bytes, pieceBytes]
    simp [cellsBytes_append, cellsBytes_cons, Cell.bytes, cellFor, header]
  rw [hlen, hcell, ← hplaced] at hwrit
  have hend : (if cfg.preallocate then
      l.recordEnd codec + (l.cellFor codec record now).gapBytes.length +
        (frameOf codec record).length
      else ((l.place codec record now).current.bytes codec reserve').length) =
      (l.place codec record now).recordEnd codec := by
    split
    · rw [recordEnd_place]
    · next hno => rw [bytes_length, hres' (by simpa using hno), recordEnd, add_zero]
  simp only [Wal.putRecord, hwrit, hend]
  refine ⟨_, rfl, ?_, rfl⟩
  exact
    { __ := h
      present := rfl
      active := ⟨reserve', rfl, hres', by simp [place_current]⟩
      verifiedLen := by rintro n ⟨⟩; rfl
      base := hbase
      blockMode := rfl
      blockLastRecord := by
        simp only [getD_some, Log.place, h.blockLastRecord]
        rfl }

lemma Follows.appendRecordAt (h : Follows cfg codec s l) (hwf : l.WF codec)
    (record : WalRecord β) (now : ℕ) :
    ∃ s', appendRecordAt cfg codec s record (l.recordEnd codec) now =
        .ok (s', l.reportFor codec record now) ∧
      Follows cfg codec s' (l.place codec record now) ∧ s'.lastSequence = s.lastSequence := by
  obtain ⟨base, hbase, hhdr⟩ := blockHeaderLen_eq (h.readWalBase_active hwf) h.base
    (l.usesBlocks codec)
  obtain ⟨s', hput, hfol⟩ := h.putRecord record now hbase
  refine ⟨s', ?_, hfol⟩
  rw [Wal.appendRecordAt, h.shardUsesBlocks hwf, ok_bind]
  dsimp only
  rw [hhdr, ok_bind]
  rw [gapFor_close, gapBytes_cellFor, ← h.blockLastRecord] at hput
  cases hu : l.usesBlocks codec with
  | true =>
    have hrel : l.recordEnd codec - l.current.header.length = cellsLen codec l.current.cells := by
      rw [recordEnd, Nat.add_sub_cancel_left]
    have hle : l.current.header.length ≤ l.recordEnd codec := le_add_right _ _
    rw [hu] at hput
    rw [if_pos rfl, if_pos hle, hrel, hput, pure_eq_ok]
  | false =>
    have hnone (relative size : ℕ) : closedBlock false relative size = none := by
      simp [closedBlock]
    rw [hu, hnone, map_none, elim_none] at hput
    rw [hnone, ite_self, map_none, elim_none, hput, pure_eq_ok]

lemma Follows.appendRecordLocked (h : Follows cfg codec s l) (hwf : l.WF codec)
    (record : WalRecord β) (known : Option ℕ) (hknown : ∀ n, known = some n → n = l.recordEnd codec)
    (now : ℕ) : ∃ s', appendRecordLocked cfg codec s record known now =
        .ok (s', l.reportFor codec record now) ∧
      Follows cfg codec s' (l.place codec record now) ∧ s'.lastSequence = s.lastSequence := by
  have hoff : known.elim (Wal.appendOffset cfg codec s) pure = .ok (l.recordEnd codec) := by
    cases hk : known with
    | none => exact h.appendOffset hwf
    | some n => exact congrArg Except.ok (hknown n hk)
  rw [Wal.appendRecordLocked, hoff]
  exact h.appendRecordAt hwf record now

lemma insertSealed_last {piece : SealedPiece} {ps : List SealedPiece}
    (h : ∀ p ∈ ps, p.startsAt < piece.startsAt) : insertSealed piece ps = ps ++ [piece] := by
  induction ps with
  | nil => rfl
  | cons p ps ih =>
    have hp := h p mem_cons_self
    rw [insertSealed, if_neg (by omega), if_neg (by omega),
      ih fun q hq => h q (mem_cons_of_mem p hq), cons_append]

section

variable (h : Follows cfg codec s l)
include h

lemma Follows.stored_rolled (hwf : l.WF codec) (stop : RollEnd)
    (hdue : ¬(cfg.segmentBytes = 0 ∨ cellsLen codec l.current.cells < cfg.segmentBytes))
    {s' : WalStore}
    (hseal : s'.sealed = insertSealed ⟨l.current.base, l.current.bytes codec 0⟩ s.sealed)
    (hact : s'.active = (l.current.successor codec stop).map (bytes codec · 0)) :
    Stored cfg codec s' (l.rolled codec cfg stop) := by
  obtain ⟨hfull, hrolled⟩ := rolled_of_due stop hdue
  rw [hrolled]
  refine ⟨?_, ?_, 0, ?_, fun _ => rfl, fun _ => rfl⟩
  · rw [hseal, h.sealed, insertSealed_last, map_append]
    · rfl
    · intro p hp
      obtain ⟨q, hq, rfl⟩ := mem_map.mp hp
      exact lt_of_lt_of_le (hwf.lt_next hq) (hwf.behind (fun hblank => hfull hblank.2) q hq)
  · rw [hact, isNone_map]
  · rw [hact]
    cases stop <;> rfl

lemma Follows.min_recordEnd :
    min (l.recordEnd codec) (s.active.getD []).length = l.recordEnd codec := by
  obtain ⟨reserve, hfile, -⟩ := h.active
  rw [hfile, l.current.bytes_length codec reserve, recordEnd]
  omega

lemma Follows.rollWalSegmentIfDue_small
    (hread : readWalBase s.active = .ok (l.current.base, l.current.header.length))
    (hsmall : cfg.segmentBytes = 0 ∨ cellsLen codec l.current.cells < cfg.segmentBytes)
    (stop : RollEnd) : ∃ s', rollWalSegmentIfDue cfg s (l.recordEnd codec) stop = .ok (s', false) ∧
      Follows cfg codec s' l ∧ s'.lastSequence = s.lastSequence := by
  rw [Wal.rollWalSegmentIfDue]
  by_cases hzero : cfg.segmentBytes = 0
  · rw [if_pos hzero]
    exact ⟨s, rfl, h, rfl⟩
  · rw [if_neg hzero, cachedWalBase_eq hread h.base, ok_bind]
    dsimp only
    rw [h.min_recordEnd, recordEnd, Nat.add_sub_cancel_left, if_pos (hsmall.resolve_left hzero)]
    exact ⟨_, rfl, h.setBase, rfl⟩

lemma Follows.rollWalSegmentIfDue (hwf : l.WF codec) (stop : RollEnd) :
    ∃ s' rolled, rollWalSegmentIfDue cfg s (l.recordEnd codec) stop = .ok (s', rolled) ∧
      Stored cfg codec s' (l.rolled codec cfg stop) ∧
      (stop = .complete → Follows cfg codec s' (l.rolled codec cfg stop)) ∧
      (rolled = false → l.rolled codec cfg stop = l) ∧ s'.lastSequence = s.lastSequence := by
  by_cases hdue : cfg.segmentBytes = 0 ∨ cellsLen codec l.current.cells < cfg.segmentBytes
  · have hsame : l.rolled codec cfg stop = l := if_pos hdue
    obtain ⟨s', hroll, hs', hlast⟩ :=
      h.rollWalSegmentIfDue_small (h.readWalBase_active hwf) hdue stop
    rw [hsame]
    exact ⟨s', false, hroll, hs'.toStored, fun _ => hs', fun _ => rfl, hlast⟩
  obtain ⟨reserve, hfile, -⟩ := h.active
  have htake : (s.active.getD []).take (l.recordEnd codec) = l.current.bytes codec 0 := by
    have hpre : (l.current.header ++ cellsBytes codec l.current.cells).length =
        l.recordEnd codec := length_append
    rw [hfile, bytes, bytes, pieceBytes, pieceBytes, ← append_assoc, ← hpre,
      take_left, zeros_zero, append_nil]
  have hholds : l.recordEnd codec - l.current.header.length = cellsLen codec l.current.cells := by
    rw [recordEnd, Nat.add_sub_cancel_left]
  rw [Wal.rollWalSegmentIfDue, if_neg (fun hzero => hdue (Or.inl hzero)),
    cachedWalBase_eq (h.readWalBase_active hwf) h.base, ok_bind]
  dsimp only
  rw [h.min_recordEnd, hholds, htake, if_neg (fun hsmall => hdue (Or.inr hsmall))]
  cases stop with
  | afterRename =>
    exact ⟨_, true, rfl, h.stored_rolled hwf .afterRename hdue rfl rfl, by simp, by simp, rfl⟩
  | afterCreate =>
    exact ⟨_, true, rfl, h.stored_rolled hwf .afterCreate hdue rfl rfl, by simp, by simp, rfl⟩
  | complete =>
    have hrolled := (rolled_of_due .complete hdue).2
    have hact : some (encodeBaseHeader (l.current.base + cellsLen codec l.current.cells)) =
        (l.current.successor codec .complete).map (bytes codec · 0) := by
      simp [successor, bytes, pieceBytes, header, stop]
    have hstored {s' : WalStore} (hseal : s'.sealed = _) (hs' : s'.active = _) :=
      h.stored_rolled hwf .complete hdue hseal (hs'.trans hact)
    refine ⟨_, true, rfl, hstored rfl rfl, fun _ => ?_, by simp, rfl⟩
    exact
      { hstored rfl rfl with
        verifiedLen := by
          rintro n ⟨⟩
          rw [hrolled]
          rfl
        base := by
          rintro b ⟨⟩
          rw [hrolled]
          rfl
        blockMode := by rw [hrolled]
        blockLastRecord := by rw [hrolled]
        floor := by
          rw [hrolled]
          exact h.floor }

lemma Follows.finishAppend (hwf : l.WF codec) (stop : RollEnd) :
    ∃ s', finishAppend cfg s l.lastSequence (l.recordEnd codec) stop = .ok s' ∧
      Stored cfg codec s' (l.rolled codec cfg stop) ∧
      (stop = .complete → Represents cfg codec s' (l.rolled codec cfg stop)) := by
  obtain ⟨s', rolled, hroll, hstored, hfol, hsame, -⟩ := h.rollWalSegmentIfDue hwf stop
  rw [Wal.finishAppend, hroll]
  refine ⟨_, rfl, { hstored with }, ?_⟩
  intro hcomp
  have hf := hfol hcomp
  exact
    { hf with
      verifiedLen := by
        intro n hn
        cases rolled with
        | true => exact hf.verifiedLen n hn
        | false =>
          rw [hsame rfl]
          exact (some.inj hn).symm
      lastSequence := by
        rintro n ⟨⟩
        exact (lastSequence_rolled cfg l stop).symm }

end

end TemporalStore.Wal
