import TemporalStore.Wal.RefineReclaim

namespace TemporalStore.Wal

open Lib LogFraming List Log Piece ScanWindow

variable {β ρ : Type} {cfg : WalConfig} {codec : WalCodec β ρ} {s : WalStore} {l : Log β}

def scanEntry (codec : WalCodec β ρ) (r : ℕ × WalRecord β) : ScanEntry ρ :=
  ⟨r.1, frameOf codec r.2, some (codec.read r.2)⟩

lemma entryAt_recordsFrom (base headerLen pos : ℕ) (cells : List (Cell β)) :
    (recordsFrom codec (headerLen + pos) cells).map (entryAt codec base headerLen) =
      (recordsFrom codec (base + pos) cells).map (scanEntry codec) := by
  induction cells generalizing pos with
  | nil => rfl
  | cons c cells ih =>
    have hrest := ih (pos + (c.bytes codec).length)
    rw [← Nat.add_assoc, ← Nat.add_assoc] at hrest
    have hfirst : base + (headerLen + pos + c.gapBytes.length - headerLen) =
        base + pos + c.gapBytes.length := by omega
    rw [recordsFrom, map_cons, hrest, entryAt, hfirst]
    rfl

variable {p : Piece β}

lemma Piece.Sound.scanPiece (h : p.Sound codec) {reserve : ℕ} {nextStart : Option ℕ}
    (hnext : ∀ n, nextStart = some n → 0 < n) (st : ScanState ρ) :
    ∃ total, scanPiece codec .whole (some (p.bytes codec reserve)) nextStart st =
      .ok ⟨st.entries ++ (p.records codec).map (scanEntry codec), total, st.stopped⟩ := by
  have hlen := p.bytes_length codec reserve
  have hstart : ¬nextStart.any (· ≤ whole.startOffset) = true := by
    rw [Option.any_eq_true]
    rintro ⟨n, hn, hle⟩
    have hpos := hnext n hn
    have hzero : n ≤ 0 := of_decide_eq_true hle
    omega
  rw [Wal.scanPiece, if_neg hstart, h.readWalBase reserve, ok_bind]
  dsimp only
  by_cases hempty : p.base + ((p.bytes codec reserve).length - p.header.length) ≤
      whole.startOffset
  · -- Nothing at all behind the header: there are no records.
    have hcells : p.cells = [] := by
      rw [← cellsLen_eq_zero codec]
      simp only [whole] at hempty
      omega
    refine ⟨st.total, ?_⟩
    rw [Option.getD_some, if_pos hempty, records, hcells]
    simp [recordsFrom]
  · rw [Option.getD_some, if_neg hempty]
    obtain ⟨n, hpath⟩ := path_of_legible (show p.bytes codec reserve = _ from rfl) h.legible
      (by omega) le_rfl [] p.cells rfl
    have hsteps := hpath.steps_le
    obtain ⟨total, hscan⟩ := scanPieceLoop_of_path p.base hpath (skip_at_end rfl h.legible)
      (readStep_at_end rfl h.legible)
      (show n < (p.bytes codec reserve).length + 1 by omega) st
    refine ⟨total, ?_⟩
    rw [entryAt_recordsFrom] at hscan
    exact hscan

lemma scanPieces_sealed (active : Option Bytes) (ps : List (Piece β))
    (hsound : ∀ p ∈ ps, p.Sound codec) (hlt : ∀ p ∈ ps, p.base < p.stop codec)
    (hchain : ps.Pairwise fun p q => p.stop codec ≤ q.base) (st : ScanState ρ)
    (hst : st.stopped = none) :
    ∃ total, scanPieces codec .whole active (ps.map fun p => ⟨p.base, p.bytes codec 0⟩) st =
      scanPiece codec .whole active none
        ⟨st.entries ++ (ps.flatMap (Piece.records codec)).map (scanEntry codec), total, none⟩ := by
  induction ps generalizing st with
  | nil =>
    refine ⟨st.total, ?_⟩
    simp only [flatMap_nil, map_nil, append_nil, ← hst]
    rfl
  | cons p ps ih =>
    rw [pairwise_cons] at hchain
    have hnext (n : ℕ) (hn : (ps.map fun q => (⟨q.base, q.bytes codec 0⟩ : SealedPiece)).head?.map
        (·.startsAt) = some n) : 0 < n := by
      cases ps with
      | nil => simp at hn
      | cons q rest =>
        have hpq := hchain.1 q mem_cons_self
        have hp := hlt p mem_cons_self
        simp only [map_cons, head?_cons, Option.map_some, Option.some.injEq] at hn
        omega
    obtain ⟨total, hpiece⟩ := (hsound p mem_cons_self).scanPiece hnext st
    obtain ⟨total', hrest⟩ := ih (fun q hq => hsound q (mem_cons_of_mem p hq))
      (fun q hq => hlt q (mem_cons_of_mem p hq)) hchain.2
      ⟨st.entries ++ (p.records codec).map (scanEntry codec), total, st.stopped⟩ hst
    refine ⟨total', ?_⟩
    rw [map_cons, scanPieces, hpiece, ok_bind]
    rw [if_neg (by simp [hst]), hrest, flatMap_cons, map_append]
    simp only [append_assoc]

def decodedEntries (entries : List (ScanEntry ρ)) : List (ℕ × WalRecord ρ) :=
  entries.filterMap fun e => e.record.map fun record => (e.logId, record)

lemma decodedEntries_append (a b : List (ScanEntry ρ)) :
    decodedEntries (a ++ b) = decodedEntries a ++ decodedEntries b :=
  filterMap_append

lemma decodedEntries_map_scanEntry (records : List (ℕ × WalRecord β)) :
    decodedEntries (records.map (scanEntry codec)) = codec.readEach records := by
  rw [decodedEntries, filterMap_map]
  exact congrFun filterMap_eq_map records

lemma Log.WF.scanDecoded_over (hwf : l.WF codec) (cfg : WalConfig)
    (hseal : s.sealed = l.sealed.map fun p => ⟨p.base, p.bytes codec 0⟩) {file : Bytes}
    (hact : s.active = some file) : ∃ total, scanDecoded cfg codec s = do
      let _ ← lastWalSequenceAt cfg codec s
      let st ← scanPiece codec .whole (some file) none
        ⟨(l.sealed.flatMap (Piece.records codec)).map (scanEntry codec), total, none⟩
      return decodedEntries st.entries := by
  obtain ⟨total, hscan⟩ := scanPieces_sealed (some file) l.sealed
    (fun p hp => hwf.sound p (mem_pieces_of_sealed hp)) (fun p hp => hwf.lt_next hp) hwf.chain
    ⟨[], 0, none⟩ rfl
  rw [← hseal, nil_append] at hscan
  refine ⟨total, ?_⟩
  rw [Wal.scanDecoded, scanCollect, if_neg (by simp [hact]), hact]
  cases lastWalSequenceAt cfg codec s with
  | error e => rfl
  | ok last =>
    simp only [ok_bind, hscan]
    cases scanPiece codec .whole (some file) none
        ⟨(l.sealed.flatMap (Piece.records codec)).map (scanEntry codec), total, none⟩ with
    | error e => rfl
    | ok st => rfl

variable {logId : ℕ} {r : ℕ × WalRecord β}

lemma Piece.Sound.locateLogId (h : p.Sound codec) (logId reserve : ℕ) (rest : List (Option Bytes)) :
    locateLogId logId (some (p.bytes codec reserve) :: rest) =
      if cellsLen codec p.cells + reserve = 0 then Wal.locateLogId logId rest
      else if logId < p.base then .ok none
      else if logId - p.base < cellsLen codec p.cells + reserve then
        .ok (some (p.bytes codec reserve, p.header.length + (logId - p.base)))
      else Wal.locateLogId logId rest := by
  have hlen := p.bytes_length codec reserve
  have hholds : (p.bytes codec reserve).length - p.header.length =
      cellsLen codec p.cells + reserve := by omega
  rw [Wal.locateLogId, h.readWalBase reserve, ok_bind]
  dsimp only
  rw [hholds]
  by_cases hempty : cellsLen codec p.cells + reserve = 0
  · rw [if_pos hempty, if_pos (by omega)]
  · rw [if_neg hempty, if_neg (by omega)]
    rfl

lemma locateLogId_skip {ps : List (Piece β)} {rest : List (Option Bytes)}
    (hsound : ∀ p ∈ ps, p.Sound codec)
    (hout : ∀ p ∈ ps, logId < p.base ∧ locateLogId logId rest = .ok none ∨ p.stop codec ≤ logId) :
    locateLogId logId ((ps.map fun p => some (p.bytes codec 0)) ++ rest) =
      locateLogId logId rest := by
  induction ps with
  | nil => rfl
  | cons p ps ih =>
    have hp := hout p mem_cons_self
    rw [stop] at hp
    rw [map_cons, cons_append, (hsound p mem_cons_self).locateLogId,
      ih (fun q hq => hsound q (mem_cons_of_mem p hq)) fun q hq => hout q (mem_cons_of_mem p hq)]
    split_ifs with _ hlow
    · rfl
    · rcases hp with hp | hp
      · exact hp.2.symm
      · omega
    · omega
    · rfl

lemma Stored.segments (h : Stored cfg codec s l) :
    s.segments = (l.sealed.map fun p => some (p.bytes codec 0)) ++ [s.active] := by
  rw [WalStore.segments, h.sealed, map_map]
  rfl

lemma readAtLogId_of_located {reserve : ℕ} (hrp : r ∈ p.records codec)
    (hlocate : locateLogId r.1 s.segments =
      .ok (some (p.bytes codec reserve, p.header.length + (r.1 - p.base)))) :
    readAtLogId s r.1 (frameOf codec r.2).length = .ok (some (frameOf codec r.2)) := by
  obtain ⟨before, c, after, hcells, hrec, hpos⟩ := exists_cell_of_mem_recordsFrom codec hrp
  have hfr := frameOf_length_pos codec r.2
  obtain ⟨pre, rest, hbytes, hphys⟩ : ∃ pre rest,
      p.bytes codec reserve = pre ++ (frameOf codec r.2 ++ rest) ∧
        p.header.length + (r.1 - p.base) = pre.length := by
    refine ⟨p.header ++ (cellsBytes codec before ++ c.gapBytes),
      cellsBytes codec after ++ zeros reserve, ?_, ?_⟩
    · rw [bytes, pieceBytes, hcells, cellsBytes_append, cellsBytes_cons, Cell.bytes, hrec]
      simp
    · rw [length_append, length_append, ← cellsLen]
      omega
  have hleft : (pre ++ (frameOf codec r.2 ++ rest)).length - pre.length =
      (frameOf codec r.2).length + rest.length := by
    simp
  rw [readAtLogId, hlocate, ok_bind]
  dsimp only
  rw [hphys, hbytes, hleft, if_neg (by omega), min_eq_left (Nat.le_add_right _ _), slice_at_length]
  rfl

lemma readAtLogId_below {base : ℕ} {rest : Bytes} (hseal : s.sealed = [])
    (hact : s.active = some (encodeBaseHeader base ++ rest)) (hrest : rest ≠ [])
    (hlow : logId < base) (size : ℕ) : readAtLogId s logId size = .ok none := by
  have hlen : ¬(encodeBaseHeader base ++ rest).length ≤ (encodeBaseHeader base).length := by
    have hpos := length_pos_iff.mpr hrest
    rw [length_append]
    omega
  rw [readAtLogId, WalStore.segments, hseal, hact]
  simp only [map_nil, nil_append, locateLogId, readWalBase_headed, ok_bind]
  rw [if_neg hlen, if_pos hlow]
  rfl

/-- The log id that every later record is at or above, if none is placed in the active piece. -/
def Log.frontier (codec : WalCodec β ρ) (l : Log β) : ℕ :=
  if l.current.IsBlank then l.sealedStop codec else l.current.base

/-- A log id that no piece holds and none will. -/
structure Log.Unheld (codec : WalCodec β ρ) (l : Log β) (logId : ℕ) : Prop where
  sealed : ∀ p ∈ l.sealed, logId < p.base ∨ p.stop codec ≤ logId
  below : logId < l.frontier codec

lemma Log.frontier_of_not_blank (h : ¬l.current.IsBlank) : l.frontier codec = l.current.base :=
  if_neg h

lemma Log.Unheld.lt_base (h : l.Unheld codec logId) (hblank : ¬l.current.IsBlank) :
    logId < l.current.base := by
  have hbelow := h.below
  rw [frontier_of_not_blank hblank] at hbelow
  exact hbelow

/-- The file of a piece; a missing one holds no records. -/
def IsFileOf (codec : WalCodec β ρ) (file : Option Bytes) (p : Piece β) : Prop :=
  (file = none ∧ p.cells = []) ∨ ∃ reserve, file = some (p.bytes codec reserve)

lemma Stored.filesOf (h : Stored cfg codec s l) : Forall₂ (IsFileOf codec) s.segments l.pieces := by
  rw [h.segments]
  refine rel_append (forall₂_map_left_iff.mpr (forall₂_same.mpr fun p _ => .inr ⟨0, rfl⟩))
    (.cons ?_ .nil)
  rcases h.active_cases with ⟨hs, hl⟩ | ⟨reserve, hs, -⟩
  · exact .inl ⟨hs, by rw [current, hl]; rfl⟩
  · exact .inr ⟨reserve, hs⟩

lemma Log.WF.stop_le_records (hwf : l.WF codec) :
    l.pieces.Pairwise fun p q => ∀ r ∈ q.records codec, p.stop codec ≤ r.1 := by
  rw [pieces, pairwise_append]
  refine ⟨hwf.chain.imp fun hpq r hr => hpq.trans (bounds_of_mem_recordsFrom codec hr).1,
    by simp, ?_⟩
  intro p hp q hq r hr
  rw [mem_singleton] at hq
  subst hq
  have hblank : ¬l.current.IsBlank := by
    intro hblank
    rw [Piece.records, hblank.2] at hr
    simp [recordsFrom] at hr
  exact (hwf.behind hblank p hp).trans (bounds_of_mem_recordsFrom codec hr).1

lemma logIdAfterSequenceFrom_le (sequence : ℕ) {files : List (Option Bytes)}
    {ps : List (Piece β)} (hfiles : Forall₂ (IsFileOf codec) files ps) (start : ℕ)
    (hsound : ∀ p ∈ ps, p.Sound codec) (hord : ∀ p ∈ ps, Ordered p.cells)
    (hchain : ps.Pairwise fun p q => ∀ r ∈ q.records codec, p.stop codec ≤ r.1)
    (hstart : ∀ p ∈ ps, ∀ r ∈ p.records codec, start ≤ r.1) :
    ∃ found, logIdAfterSequenceFrom cfg codec sequence start files = .ok found ∧
      ∀ p ∈ ps, ∀ r ∈ p.records codec, sequence < r.2.sequence → found ≤ r.1 := by
  induction hfiles generalizing start with
  | nil => exact ⟨start, rfl, by simp⟩
  | @cons file p files ps hfile _ ih =>
    rw [pairwise_cons] at hchain
    simp only [forall_mem_cons] at hsound hord hstart
    rcases hfile with ⟨rfl, hcells⟩ | ⟨reserve, rfl⟩
    · obtain ⟨found, hfound, hle⟩ := ih start hsound.2 hord.2 hchain.2 hstart.2
      refine ⟨found, hfound, forall_mem_cons.mpr ⟨?_, hle⟩⟩
      simp [Piece.records, hcells, recordsFrom]
    · have hend : p.base + (p.header.length + cellsLen codec p.cells - p.header.length) =
          p.stop codec := by
        rw [stop]
        omega
      simp only [logIdAfterSequenceFrom, hsound.1.lastWalSequenceIn hord.1,
        hsound.1.readWalBase, ok_bind, hend]
      split
      · exact ⟨start, rfl, forall_mem_cons.mpr ⟨fun r hr _ => hstart.1 r hr,
          fun q hq r hr _ => hstart.2 q hq r hr⟩⟩
      · next hpast =>
        obtain ⟨found, hfound, hle⟩ := ih (p.stop codec) hsound.2 hord.2 hchain.2 hchain.1
        refine ⟨found, hfound, forall_mem_cons.mpr ⟨?_, hle⟩⟩
        intro r hr habove
        obtain ⟨before, c, after, hcells, hrec, -⟩ := exists_cell_of_mem_recordsFrom codec hr
        have hlast := sequence_le_lastSequenceOf hord.1 (show c ∈ p.cells by simp [hcells])
        rw [hrec] at hlast
        omega

/-- The log ids a file holds: from its base on, as many as it has bytes behind the header. An empty
file, or one without bytes behind its header, holds none. -/
def logIdRange (file : Option Bytes) : Except WalError (Option (ℕ × ℕ)) := do
  let (base, headerLen) ← readWalBase file
  let holds := fileLen file - headerLen
  return if holds = 0 then none else some (base, base + holds)

/-- The files hold ranges of log ids that follow one another. -/
def WalStore.RangesFollow (s : WalStore) : Prop :=
  s.segments.Pairwise fun f g => ∃ r r', logIdRange f = .ok r ∧ logIdRange g = .ok r' ∧
    ∀ a ∈ r, ∀ b ∈ r', a.2 ≤ b.1

lemma Piece.Sound.logIdRange (h : p.Sound codec) (reserve : ℕ) :
    logIdRange (some (p.bytes codec reserve)) = .ok (if cellsLen codec p.cells + reserve = 0
      then none else some (p.base, p.base + (cellsLen codec p.cells + reserve))) := by
  have hholds : fileLen (some (p.bytes codec reserve)) - p.header.length =
      cellsLen codec p.cells + reserve := by
    rw [fileLen, Option.getD_some, p.bytes_length codec reserve]
    omega
  rw [Wal.logIdRange, h.readWalBase reserve, ok_bind]
  dsimp only
  rw [hholds]
  rfl

variable (h : Stored cfg codec s l) (hwf : l.WF codec)
include h hwf

lemma Stored.scanDecoded : scanDecoded cfg codec s = .ok (codec.readEach (l.records codec)) := by
  have hact (st : ScanState ρ) : ∃ total, scanPiece codec .whole s.active none st =
      .ok ⟨st.entries ++ (l.current.records codec).map (scanEntry codec), total, st.stopped⟩ := by
    rcases h.active_cases with ⟨hs, hl⟩ | ⟨reserve, hs, -⟩
    · rw [hs, current, hl]
      refine ⟨st.total, ?_⟩
      simp [scanPiece, readWalBase, Piece.records, Piece.blank, recordsFrom]
    · rw [hs]
      exact hwf.sound_current.scanPiece (by simp) st
  obtain ⟨total, hscan⟩ := scanPieces_sealed s.active l.sealed
    (fun p hp => hwf.sound p (mem_pieces_of_sealed hp)) (fun p hp => hwf.lt_next hp) hwf.chain
    ⟨[], 0, none⟩ rfl
  rw [← h.sealed, nil_append] at hscan
  rw [Wal.scanDecoded, scanCollect]
  by_cases hnone : s.sealed = [] ∧ s.active = none
  · have hseal : l.sealed = [] := by
      have := h.sealed
      rw [hnone.1, eq_comm, map_eq_nil_iff] at this
      exact this
    have hact : l.active = none := by
      rw [← Option.isNone_iff_eq_none, ← h.present, hnone.2]
      rfl
    rw [if_pos hnone, records_eq, hseal, current, hact]
    rfl
  · obtain ⟨total', hrest⟩ := hact
      ⟨(l.sealed.flatMap (Piece.records codec)).map (scanEntry codec), total, none⟩
    rw [if_neg hnone, h.lastWalSequenceAt_eq hwf]
    simp only [if_true, ok_bind, hscan, hrest, Option.getD_none, pure_eq_ok]
    rw [records_eq, ← map_append]
    exact congrArg Except.ok (decodedEntries_map_scanEntry _)

lemma Stored.locateLogId_record (hr : r ∈ l.records codec) :
    ∃ p reserve, p ∈ l.pieces ∧ r ∈ p.records codec ∧ locateLogId r.1 s.segments =
      .ok (some (p.bytes codec reserve, p.header.length + (r.1 - p.base))) := by
  rw [records_eq, mem_append] at hr
  rw [h.segments]
  rcases hr with hr | hr
  · -- In a sealed piece: the ones before it end below the log id.
    obtain ⟨p, hp, hrp⟩ := mem_flatMap.mp hr
    obtain ⟨before, after, hseal⟩ := append_of_mem hp
    have hbnds := bounds_of_mem_recordsFrom codec hrp
    have hchain := hwf.chain
    rw [hseal, pairwise_append] at hchain
    refine ⟨p, 0, mem_pieces_of_sealed hp, hrp, ?_⟩
    rw [hseal, map_append, append_assoc, locateLogId_skip]
    · rw [map_cons, cons_append, (hwf.sound p (mem_pieces_of_sealed hp)).locateLogId,
        if_neg (by omega), if_neg (by omega), if_pos (by omega)]
    · intro q hq
      exact hwf.sound q (mem_pieces_of_sealed (by simp [hseal, hq]))
    · intro q hq
      exact .inr (le_trans (hchain.2.2 q hq p mem_cons_self) hbnds.1)
  · have hbnds := bounds_of_mem_recordsFrom codec hr
    have hblank : ¬l.current.IsBlank := by
      intro hblank
      rw [Piece.records, hblank.2] at hr
      simp [recordsFrom] at hr
    rcases h.active_cases with ⟨-, hl⟩ | ⟨reserve, hs, -⟩
    · exact absurd ⟨by simp [current, hl, blank], by simp [current, hl, blank]⟩ hblank
    · refine ⟨l.current, reserve, l.current_mem_pieces, hr, ?_⟩
      rw [hs, locateLogId_skip (fun q hq => hwf.sound q (mem_pieces_of_sealed hq))
        (fun q hq => .inr (le_trans (hwf.behind hblank q hq) hbnds.1)),
        hwf.sound_current.locateLogId, if_neg (by omega), if_neg (by omega), if_pos (by omega)]

lemma Stored.readAtLogId_record (hr : r ∈ l.records codec) :
    readAtLogId s r.1 (frameOf codec r.2).length = .ok (some (frameOf codec r.2)) := by
  obtain ⟨p, reserve, -, hrp, hlocate⟩ := h.locateLogId_record hwf hr
  exact readAtLogId_of_located hrp hlocate

lemma Stored.readAtLogId_unheld
    (hout : l.Unheld codec logId) (size : ℕ) : readAtLogId s logId size = .ok none := by
  have hact : locateLogId logId [s.active] = .ok none := by
    rcases h.active_cases with ⟨hs, -⟩ | ⟨reserve, hs, -, -, hres⟩
    · rw [hs]
      rfl
    · rw [hs, hwf.sound_current.locateLogId]
      split_ifs with hempty hlow hin
      · rfl
      · rfl
      · have hblank : ¬l.current.IsBlank := by
          intro hblank
          rw [hblank.2, cellsLen_nil, hres hblank.2] at hempty
          omega
        exact absurd (hout.lt_base hblank) hlow
      · rfl
  rw [readAtLogId, h.segments, locateLogId_skip
    (fun q hq => hwf.sound q (mem_pieces_of_sealed hq))
    (fun q hq => (hout.sealed q hq).imp_left fun hlow => ⟨hlow, hact⟩), hact]
  rfl

lemma Stored.rangesFollow : s.RangesFollow := by
  have hseal (p : Piece β) (hp : p ∈ l.sealed) : ∃ r,
      Wal.logIdRange (some (p.bytes codec 0)) = .ok r ∧ ∀ a ∈ r, a = (p.base, p.stop codec) := by
    refine ⟨_, (hwf.sound p (mem_pieces_of_sealed hp)).logIdRange 0, ?_⟩
    intro a ha
    rw [Option.mem_def, Option.ite_none_left_eq_some] at ha
    exact (Option.some.inj ha.2).symm
  rw [WalStore.RangesFollow, h.segments, pairwise_append]
  refine ⟨?_, by simp, ?_⟩
  · rw [pairwise_map]
    refine hwf.chain.imp_of_mem ?_
    intro p q hp hq hpq
    obtain ⟨r, hr, hra⟩ := hseal p hp
    obtain ⟨r', hr', hrb⟩ := hseal q hq
    refine ⟨r, r', hr, hr', ?_⟩
    intro a ha b hb
    rw [hra a ha, hrb b hb]
    exact hpq
  · intro f hf g hg
    obtain ⟨p, hp, rfl⟩ := mem_map.mp hf
    rw [mem_singleton] at hg
    subst hg
    obtain ⟨r, hr, hra⟩ := hseal p hp
    rcases h.active_cases with ⟨hs, -⟩ | ⟨reserve, hs, -, -, hres⟩
    · exact ⟨r, none, hr, by rw [hs]; rfl, by simp⟩
    · refine ⟨r, _, hr, by rw [hs]; exact hwf.sound_current.logIdRange reserve, ?_⟩
      intro a ha b hb
      rw [Option.mem_def, Option.ite_none_left_eq_some] at hb
      have hblank : ¬l.current.IsBlank := by
        intro hblank
        apply hb.1
        rw [hblank.2, cellsLen_nil, hres hblank.2]
      rw [hra a ha, ← Option.some.inj hb.2]
      exact hwf.behind hblank p hp

end TemporalStore.Wal
