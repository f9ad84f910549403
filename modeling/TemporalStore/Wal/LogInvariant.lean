import TemporalStore.Wal.Log

namespace TemporalStore.Wal

open Lib LogFraming List Piece

variable {β ρ : Type} {codec : WalCodec β ρ}

variable {cells : List (Cell β)} {c : Cell β}

lemma sequence_le_lastSequenceOf (h : Ordered cells) (hc : c ∈ cells) :
    c.record.sequence ≤ lastSequenceOf cells := by
  obtain ⟨before, after, rfl⟩ := append_of_mem hc
  have hrise := (Ordered.suffix h).sequences
  rw [map_cons, pairwise_cons] at hrise
  rw [lastSequenceOf_append_cons, getLastD_eq_getLast?]
  cases hlast : (after.map fun d => d.record.sequence).getLast? with
  | none => simp
  | some q =>
    have hmem : q ∈ after.map fun d => d.record.sequence := mem_of_getLast? hlast
    simpa using (hrise.1 q hmem).le

lemma Ordered.of_append_left {before after : List (Cell β)} (h : Ordered (before ++ after)) :
    Ordered before where
  sequences := by
    have := h.sequences
    rw [map_append, pairwise_append] at this
    exact this.1
  footers := fun c hc => h.footers c (mem_append_left after hc)

lemma lastSequenceOf_concat (cells : List (Cell β)) (c : Cell β) :
    lastSequenceOf (cells ++ [c]) = c.record.sequence := by
  simp [lastSequenceOf]

lemma lastSequenceOf_mem (h : cells ≠ []) :
    ∃ c ∈ cells, c.record.sequence = lastSequenceOf cells := by
  refine ⟨cells.getLast h, getLast_mem h, ?_⟩
  rw [lastSequenceOf, getLastD_eq_getLast?, getLast?_map, getLast?_eq_some_getLast h]
  rfl

/-- A record above the last sequence, behind a footer that knows no later one, goes at the end. -/
lemma Ordered.concat (h : Ordered cells) (hlast : lastSequenceOf cells < c.record.sequence)
    (hfoot : ∀ g, c.gap = some g → g.slot.footer.lastRecordSequence ≤ c.record.sequence) :
    Ordered (cells ++ [c]) where
  sequences := by
    rw [map_append, pairwise_append]
    refine ⟨h.sequences, by simp, ?_⟩
    intro q hq q' hq'
    simp only [map_cons, map_nil, mem_singleton] at hq'
    rw [mem_map] at hq
    obtain ⟨d, hd, rfl⟩ := hq
    rw [hq']
    exact lt_of_le_of_lt (sequence_le_lastSequenceOf h hd) hlast
  footers := by
    intro d hd g hg
    rw [mem_append, mem_singleton] at hd
    rcases hd with hd | rfl
    · exact h.footers d hd g hg
    · exact hfoot g hg

lemma legible_nil : Legible codec ([] : List (Cell β)) where
  slots := by
    intro index h
    have hbeyond : slice (cellsBytes codec ([] : List (Cell β)) ++ zeros walBlockFooterBytes)
        (blockFooterAt index) walBlockFooterBytes =
        zeros (min walBlockFooterBytes (walBlockFooterBytes - blockFooterAt index)) := by
      rw [cellsBytes_nil, nil_append, slice_zeros]
    rw [SlotDecodes, hbeyond, decodeBlockFooter_zeros] at h
    simp at h
  gaps := by simp [gapsFrom]

/-- A cell may go behind the cells of a piece: its gap, if it has one, closes a block on the grid in
which no displaced footer's padding starts, and no slot its record reaches reads as a footer. -/
structure ConcatOk (codec : WalCodec β ρ) (cells : List (Cell β)) (c : Cell β) : Prop where
  grid : ∀ g, c.gap = some g → PlacedGap.OnGrid ⟨cellsLen codec cells, g⟩
  close : ∀ g, c.gap = some g → ∀ g' ∈ gapsFrom codec 0 cells,
    g'.OnGrid ∨ blockOf g'.start ≠ blockOf (cellsLen codec cells)
  mimic : ∀ index,
    cellsLen codec cells + c.gapBytes.length < blockFooterAt index + walBlockFooterBytes →
      ¬SlotDecodes codec (cells ++ [c]) index

lemma gapsFrom_concat (cells : List (Cell β)) (c : Cell β) : gapsFrom codec 0 (cells ++ [c]) =
      gapsFrom codec 0 cells ++ c.gap.toList.map fun g => ⟨cellsLen codec cells, g⟩ := by
  rw [gapsFrom_append, gapsFrom, gapsFrom, append_nil, Nat.zero_add]

lemma ClosesBlock.append_left {gaps more : List PlacedGap} {index : ℕ}
    (h : ClosesBlock gaps index) : ClosesBlock (gaps ++ more) index := by
  obtain ⟨g, hg, hgrid, hidx⟩ := h
  exact ⟨g, mem_append_left more hg, hgrid, hidx⟩

lemma slotDecodes_of_concat {index : ℕ}
    (hbef : blockFooterAt index + walBlockFooterBytes ≤ cellsLen codec cells)
    (h : SlotDecodes codec (cells ++ [c]) index) : SlotDecodes codec cells index := by
  unfold SlotDecodes at h ⊢
  rw [cellsBytes_append, append_assoc, slice_append_left hbef] at h
  rw [slice_append_left hbef]
  exact h

lemma legible_concat (hleg : Legible codec cells) (hok : ConcatOk codec cells c) :
    Legible codec (cells ++ [c]) where
  slots := by
    intro index hslot
    rw [gapsFrom_concat]
    by_cases hbef : blockFooterAt index + walBlockFooterBytes ≤ cellsLen codec cells
    · exact (hleg.slots index (slotDecodes_of_concat hbef hslot)).append_left
    -- The slot ends inside the new gap: it is the slot of the block the gap closes.
    have hins : ¬cellsLen codec cells + c.gapBytes.length <
        blockFooterAt index + walBlockFooterBytes := fun h => hok.mimic index h hslot
    cases hgap : c.gap with
    | none =>
      simp only [Cell.gapBytes, hgap, Option.elim_none, length_nil] at hins
      omega
    | some g =>
      have hgrid := hok.grid g hgap
      refine ⟨⟨cellsLen codec cells, g⟩, by simp, hgrid, ?_⟩
      simp only [Cell.gapBytes, hgap, Option.elim_some, Gap.bytes_length] at hins
      simp only [PlacedGap.OnGrid, PlacedGap.stop, walBlockFooterBytes, blockOf_eq,
        walBlockBytes_eq] at hgrid
      rw [blockFooterAt_eq, walBlockFooterBytes] at hbef hins
      simp only [blockOf_eq]
      omega
  gaps := by
    intro g hg
    rw [gapsFrom_concat] at hg ⊢
    rw [mem_append] at hg
    rcases hg with hg | hg
    · by_cases hgrid : g.OnGrid
      · exact Or.inl hgrid
      have hfind := (hleg.gaps g hg).resolve_left hgrid
      refine Or.inr ⟨hfind.1, hfind.2.1, ?_⟩
      rintro ⟨g', hg', hgrid', hidx⟩
      rw [mem_append] at hg'
      rcases hg' with hg' | hg'
      · exact hfind.2.2 ⟨g', hg', hgrid', hidx⟩
      · simp only [mem_map, Option.mem_toList] at hg'
        obtain ⟨gap, hgap, rfl⟩ := hg'
        exact (hok.close gap hgap g hg).resolve_left hgrid hidx.symm
    · simp only [mem_map, Option.mem_toList] at hg
      obtain ⟨gap, hgap, rfl⟩ := hg
      exact Or.inl (hok.grid gap hgap)

structure Piece.Sound (codec : WalCodec β ρ) (p : Piece β) : Prop where
  legible : Legible codec p.cells
  headerless : p.headed = false → p.base = 0

structure Log.WF (codec : WalCodec β ρ) (l : Log β) : Prop where
  sound : ∀ p ∈ l.pieces, p.Sound codec
  ordered : Ordered l.cells
  positive : ∀ c ∈ l.cells, 0 < c.record.sequence
  filled : ∀ p ∈ l.sealed, p.cells ≠ []
  chain : l.sealed.Pairwise fun p q => p.stop codec ≤ q.base
  behind : ¬l.current.IsBlank → ∀ p ∈ l.sealed, p.stop codec ≤ l.current.base
  first : l.current.headed = false → l.current.cells ≠ [] → l.sealed = []
  lastRecord : ∀ r, l.lastRecord = some r → r.2 ≤ l.lastSequence

lemma Log.wf_empty : (Log.empty : Log β).WF codec where
  sound := by
    intro p hp
    simp only [pieces, empty, current, Option.getD_none, nil_append, mem_singleton] at hp
    subst hp
    exact ⟨legible_nil, fun _ => rfl⟩
  ordered := ⟨by simp [cells, pieces, current, empty, blank],
    by simp [cells, pieces, current, empty, blank]⟩
  positive := by simp [cells, pieces, current, empty, blank]
  filled := by simp [empty]
  chain := by simp [empty]
  behind := by simp [empty]
  first := by simp [empty]
  lastRecord := by simp [empty]

namespace Log

lemma cells_eq (l : Log β) : l.cells = l.sealed.flatMap Piece.cells ++ l.current.cells := by
  simp [cells, pieces]

variable {l : Log β} {p : Piece β}

lemma mem_cells (hp : p ∈ l.pieces) {c : Cell β} (hc : c ∈ p.cells) : c ∈ l.cells :=
  mem_flatMap.mpr ⟨p, hp, hc⟩

lemma mem_pieces_of_sealed (hp : p ∈ l.sealed) : p ∈ l.pieces :=
  mem_append_left _ hp

lemma current_mem_pieces (l : Log β) : l.current ∈ l.pieces := by simp [pieces]

lemma WF.sound_current (h : l.WF codec) : l.current.Sound codec :=
  h.sound l.current l.current_mem_pieces

lemma WF.ordered_piece (h : l.WF codec) (hp : p ∈ l.pieces) : Ordered p.cells := by
  obtain ⟨before, after, hpieces⟩ := append_of_mem hp
  have hord := h.ordered
  rw [cells, hpieces, flatMap_append] at hord
  exact hord.suffix.of_append_left

lemma WF.lt_next (h : l.WF codec) (hp : p ∈ l.sealed) : p.base < p.stop codec := by
  have hlen := mt (cellsLen_eq_zero codec).mp (h.filled p hp)
  rw [stop]
  omega

lemma stop_le_sealedStop (codec : WalCodec β ρ) (l : Log β) (hp : p ∈ l.sealed) :
    p.stop codec ≤ l.sealedStop codec := by
  have hfold : l.sealedStop codec = (l.sealed.map fun q => q.stop codec).foldl max 0 := by
    rw [sealedStop, foldl_map]
  rw [hfold]
  exact le_foldl_max_of_mem (mem_map_of_mem hp) 0

lemma WF.sealed_of_ensured_blank (h : l.WF codec) (hblank : (l.ensured codec).current.IsBlank) :
    (l.ensured codec).sealed = [] := by
  unfold ensured at hblank ⊢
  split at hblank
  · simp [current, Piece.IsBlank] at hblank
  · next hno =>
    rw [if_neg hno]
    by_contra hne
    obtain ⟨p, rest, hseal⟩ := exists_cons_of_ne_nil hne
    have hp : p ∈ l.sealed := by simp [hseal]
    have hlt := h.lt_next hp
    have hle := stop_le_sealedStop codec l hp
    exact hno ⟨hblank, by omega⟩

lemma ensured_cells (codec : WalCodec β ρ) (l : Log β) : (l.ensured codec).cells = l.cells := by
  unfold ensured
  split
  · next hblank =>
    rw [cells_eq, cells_eq, hblank.1.2]
    rfl
  · rfl

lemma WF.ensured (h : l.WF codec) : (l.ensured codec).WF codec := by
  have hcells := ensured_cells codec l
  by_cases hblank : l.current.IsBlank ∧ l.sealedStop codec ≠ 0
  · have hens : l.ensured codec = { l with active := some ⟨true, l.sealedStop codec, []⟩ } :=
      if_pos hblank
    refine ⟨?_, hcells ▸ h.ordered, hcells ▸ h.positive, ?_, ?_, ?_, ?_, ?_⟩
    · intro p hp
      rw [hens] at hp
      simp only [pieces, current, Option.getD_some, mem_append, mem_singleton] at hp
      rcases hp with hp | rfl
      · exact h.sound p (mem_append_left _ hp)
      · exact ⟨legible_nil, by simp⟩
    · rw [hens]; exact h.filled
    · rw [hens]; exact h.chain
    · rw [hens]; exact fun _ p hp => stop_le_sealedStop codec l hp
    · simp [hens, current]
    · rw [lastSequence, hcells, hens]; exact h.lastRecord
  · rw [show l.ensured codec = l from if_neg hblank]
    exact h

/-- When the next record may be written: if it closes a block, no displaced footer's padding starts
in that block, and no slot of the grid its bytes reach reads as a footer. -/
structure AppendOk (codec : WalCodec β ρ) (l : Log β) (record : WalRecord β) (now : ℕ) : Prop where
  close : ∀ index, closedBlock (l.usesBlocks codec) (cellsLen codec l.current.cells)
      (frameOf codec record).length = some index →
    ∀ g ∈ l.current.gaps codec, g.OnGrid ∨ blockOf g.start ≠ index
  mimic : ∀ index,
    cellsLen codec l.current.cells + (l.cellFor codec record now).gapBytes.length <
      blockFooterAt index + walBlockFooterBytes →
    ¬SlotDecodes codec (l.current.cells ++ [l.cellFor codec record now]) index

lemma closedBlock_eq_some {usesBlocks : Bool} {relative size index : ℕ}
    (h : closedBlock usesBlocks relative size = some index) :
    index = blockOf relative ∧ relative ≤ blockDataEnd index := by
  simp only [closedBlock] at h
  split at h
  · next hclose =>
    simp only [Option.some.injEq] at h
    subst h
    exact ⟨rfl, hclose.2.2⟩
  · simp at h

lemma closingGap_pad (l : Log β) (record : WalRecord β) (now index : ℕ) :
    (l.closingGap codec record now index).pad =
      blockFooterAt index - cellsLen codec l.current.cells := rfl

lemma closingGap_lastRecordSequence_le (l : Log β) (record : WalRecord β) (now index : ℕ) :
    (l.closingGap codec record now index).slot.footer.lastRecordSequence ≤
      (l.lastRecord.map Prod.snd).getD (record.sequence - 1) := by
  rw [closingGap]
  cases hlast : l.lastRecord <;> exact Nat.mod_le _ _

variable {record : WalRecord β} {now : ℕ}

lemma gapFor_eq_some {g : Gap} (h : l.gapFor codec record now = some g) :
    ∃ index, closedBlock (l.usesBlocks codec) (cellsLen codec l.current.cells)
        (frameOf codec record).length = some index ∧
      g.pad = blockFooterAt index - cellsLen codec l.current.cells ∧
      g.slot.footer.lastRecordSequence ≤
        (l.lastRecord.map Prod.snd).getD (record.sequence - 1) := by
  rw [gapFor, Option.map_eq_some_iff] at h
  obtain ⟨index, hclose, rfl⟩ := h
  exact ⟨index, hclose, closingGap_pad l record now index,
    closingGap_lastRecordSequence_le l record now index⟩

lemma onGrid_of_gapFor {g : Gap} (h : l.gapFor codec record now = some g) :
    PlacedGap.OnGrid ⟨cellsLen codec l.current.cells, g⟩ := by
  obtain ⟨index, hclose, hpad, -⟩ := gapFor_eq_some h
  obtain ⟨rfl, hle⟩ := closedBlock_eq_some hclose
  simp only [PlacedGap.OnGrid, PlacedGap.stop, hpad, walBlockFooterBytes, blockFooterAt_eq,
    walBlockBytes_eq]
  rw [blockDataEnd_eq] at hle
  omega

lemma AppendOk.concatOk (h : l.AppendOk codec record now) :
    ConcatOk codec l.current.cells (l.cellFor codec record now) where
  grid := fun _ hg => onGrid_of_gapFor hg
  close := by
    intro g hg
    obtain ⟨index, hclose, -, -⟩ := gapFor_eq_some hg
    obtain ⟨rfl, -⟩ := closedBlock_eq_some hclose
    exact h.close _ hclose
  mimic := h.mimic

section

variable (l : Log β) (record : WalRecord β) (now : ℕ)

lemma place_current : (l.place codec record now).current =
      { l.current with cells := l.current.cells ++ [l.cellFor codec record now] } := rfl

lemma place_cells : (l.place codec record now).cells = l.cells ++ [l.cellFor codec record now] := by
  rw [cells_eq, cells_eq, append_assoc]
  rfl

lemma lastSequence_place : (l.place codec record now).lastSequence = record.sequence := by
  rw [lastSequence, place_cells, lastSequenceOf_concat]
  rfl

end

lemma WF.concat {l' : Log β} (h : l.WF codec) {c : Cell β}
    (hblank : l.current.IsBlank → l.sealed = []) (hseq : l.lastSequence < c.record.sequence)
    (hfoot : ∀ g, c.gap = some g → g.slot.footer.lastRecordSequence ≤ c.record.sequence)
    (hok : ConcatOk codec l.current.cells c) (hseal : l'.sealed = l.sealed)
    (hcurr : l'.current = { l.current with cells := l.current.cells ++ [c] })
    (hlast : ∀ r, l'.lastRecord = some r → r.2 ≤ c.record.sequence) : l'.WF codec := by
  have hcells : l'.cells = l.cells ++ [c] := by
    rw [cells_eq, cells_eq, hseal, hcurr, append_assoc]
  refine ⟨?_, ?_, ?_, ?_, ?_, ?_, ?_, ?_⟩
  · intro p hp
    simp only [pieces, hseal, hcurr, mem_append, mem_singleton] at hp
    rcases hp with hp | rfl
    · exact h.sound p (mem_append_left _ hp)
    · have hcur := h.sound l.current (by simp [pieces])
      exact ⟨legible_concat hcur.legible hok, hcur.headerless⟩
  · rw [hcells]
    exact h.ordered.concat hseq hfoot
  · rw [hcells]
    intro d hd
    rw [mem_append, mem_singleton] at hd
    rcases hd with hd | rfl
    · exact h.positive d hd
    · exact lt_of_le_of_lt (Nat.zero_le _) hseq
  · rw [hseal]
    exact h.filled
  · rw [hseal]
    exact h.chain
  · rw [hseal, hcurr]
    intro _ p hp
    by_cases hb : l.current.IsBlank
    · rw [hblank hb] at hp
      simp at hp
    · exact h.behind hb p hp
  · rw [hseal, hcurr]
    intro hheaded _
    by_cases hnil : l.current.cells = []
    · exact hblank ⟨hheaded, hnil⟩
    · exact h.first hheaded hnil
  · intro r hr
    rw [lastSequence, hcells, lastSequenceOf_concat]
    exact hlast r hr

lemma WF.place (h : l.WF codec) (hblank : l.current.IsBlank → l.sealed = [])
    (hseq : l.lastSequence < record.sequence) (hok : l.AppendOk codec record now) :
    (l.place codec record now).WF codec := by
  refine h.concat (c := l.cellFor codec record now) hblank hseq ?_ hok.concatOk rfl
    (place_current l record now) ?_
  · intro g hg
    obtain ⟨index, -, -, hle⟩ := gapFor_eq_some hg
    have hreco : (l.cellFor codec record now).record = record := rfl
    rw [hreco]
    cases hlast : l.lastRecord with
    | none => simp only [hlast, Option.map_none, Option.getD_none] at hle; omega
    | some r =>
      have := h.lastRecord r hlast
      simp only [hlast, Option.map_some, Option.getD_some] at hle
      omega
  · intro r hr
    simp only [Log.place] at hr
    split at hr
    · simp only [Option.some.injEq] at hr
      rw [← hr]
      exact le_rfl
    · exact le_trans (h.lastRecord r hr) hseq.le

lemma sequence_next (h : l.lastSequence < u64Max) (body : β) :
    (l.next body).sequence = l.lastSequence + 1 := by
  simp only [next, nextRecord, saturatingSucc]
  omega

lemma lastSequence_ensured (l : Log β) : (l.ensured codec).lastSequence = l.lastSequence := by
  rw [lastSequence, ensured_cells, lastSequence]

lemma rolled_cells (codec : WalCodec β ρ) (cfg : WalConfig) (l : Log β) (stop : RollEnd) :
    (l.rolled codec cfg stop).cells = l.cells := by
  unfold rolled
  split
  · rfl
  · rw [cells_eq, cells_eq]
    cases stop <;> simp [current, successor, blank]

lemma lastSequence_rolled (cfg : WalConfig) (l : Log β) (stop : RollEnd) :
    (l.rolled codec cfg stop).lastSequence = l.lastSequence := by
  rw [lastSequence, rolled_cells, lastSequence]

lemma rolled_of_due {cfg : WalConfig} (stop : RollEnd)
    (hdue : ¬(cfg.segmentBytes = 0 ∨ cellsLen codec l.current.cells < cfg.segmentBytes)) :
    l.current.cells ≠ [] ∧ l.rolled codec cfg stop = { l with
        sealed := l.sealed ++ [l.current]
        active := l.current.successor codec stop
        blockMode := none
        lastRecord := none } := by
  refine ⟨fun hnil => ?_, if_neg hdue⟩
  rw [hnil, cellsLen_nil] at hdue
  omega

lemma WF.rolled (h : l.WF codec) (cfg : WalConfig) (stop : RollEnd) :
    (l.rolled codec cfg stop).WF codec := by
  have hcells := rolled_cells codec cfg l stop
  by_cases hdue : cfg.segmentBytes = 0 ∨ cellsLen codec l.current.cells < cfg.segmentBytes
  · rw [show l.rolled codec cfg stop = l from if_pos hdue]
    exact h
  obtain ⟨hfull, hrolled⟩ := rolled_of_due stop hdue
  have hbeh := h.behind fun hblank => hfull hblank.2
  have hstop (p : Piece β) (hp : p ∈ l.sealed ++ [l.current]) :
      p.stop codec ≤ l.current.stop codec := by
    rw [mem_append, mem_singleton] at hp
    rcases hp with hp | rfl
    · exact le_trans (hbeh p hp) (Nat.le_add_right _ _)
    · exact le_rfl
  refine ⟨?_, hcells ▸ h.ordered, hcells ▸ h.positive, ?_, ?_, ?_, ?_, ?_⟩
  · intro p hp
    rw [pieces, mem_append, mem_singleton, hrolled] at hp
    rcases hp with hp | rfl
    · exact h.sound p hp
    · cases stop <;> exact ⟨legible_nil, by simp [current, successor, blank]⟩
  · rw [hrolled]
    intro p hp
    simp only [mem_append, mem_singleton] at hp
    rcases hp with hp | rfl
    · exact h.filled p hp
    · exact hfull
  · rw [hrolled]
    refine pairwise_append.mpr ⟨h.chain, by simp, ?_⟩
    intro p hp q hq
    rw [mem_singleton.mp hq]
    exact hbeh p hp
  · rw [hrolled]
    cases stop with
    | complete => exact fun _ p hp => hstop p hp
    | afterRename => exact fun hblank => absurd ⟨rfl, rfl⟩ hblank
    | afterCreate => exact fun hblank => absurd ⟨rfl, rfl⟩ hblank
  · rw [hrolled]
    cases stop <;> simp [current, successor, blank]
  · simp [hrolled]

lemma WF.reopened (h : l.WF codec) : l.reopened.WF codec where
  __ := h
  lastRecord := by simp [Log.reopened]

/-- The records of a batch may be written one after the other. -/
def AppendAllOk (codec : WalCodec β ρ) (now : ℕ) : Log β → List β → Prop
  | _, [] => True
  | l, body :: bodies => l.lastSequence < u64Max ∧ l.AppendOk codec (l.next body) now ∧
      AppendAllOk codec now (l.place codec (l.next body) now) bodies

lemma WF.placeAll (h : l.WF codec) {bodies : List β} (hblank : l.current.IsBlank → l.sealed = [])
    (hok : l.AppendAllOk codec now bodies) : (l.placeAll codec now bodies).WF codec := by
  induction bodies generalizing l with
  | nil => exact h
  | cons body bodies ih =>
    obtain ⟨hlast, happ, hrest⟩ := hok
    have hseq : l.lastSequence < (l.next body).sequence := by
      rw [sequence_next hlast]
      exact Nat.lt_succ_self _
    refine ih (h.place hblank hseq happ) ?_ hrest
    intro hnow
    simp [place_current, Piece.IsBlank] at hnow

lemma records_eq (l : Log β) :
    l.records codec = l.sealed.flatMap (Piece.records codec) ++ l.current.records codec := by
  simp [records, pieces]

lemma records_map_record (codec : WalCodec β ρ) (l : Log β) :
    (l.records codec).map Prod.snd = l.cells.map Cell.record := by
  rw [records, cells, map_flatMap, map_flatMap]
  congr 1
  funext p
  exact recordsFrom_map_snd codec p.base p.cells

lemma WF.sequences (h : l.WF codec) :
    ((l.records codec).map fun r => r.2.sequence).Pairwise (· < ·) := by
  have hmap : ((l.records codec).map fun r => r.2.sequence) =
      (l.cells.map fun c => c.record.sequence) := by
    have := congrArg (map WalRecord.sequence) (records_map_record codec l)
    rw [map_map, map_map] at this
    exact this
  rw [hmap]
  exact h.ordered.sequences

variable {r : ℕ × WalRecord β}

lemma exists_cell_of_mem_records (hr : r ∈ l.records codec) : ∃ c ∈ l.cells, c.record = r.2 := by
  have hmem : r.2 ∈ (l.records codec).map Prod.snd := mem_map_of_mem hr
  rw [records_map_record] at hmem
  obtain ⟨c, hc, hrec⟩ := mem_map.mp hmem
  exact ⟨c, hc, hrec⟩

lemma WF.sequence_le (h : l.WF codec) (hr : r ∈ l.records codec) :
    r.2.sequence ≤ l.lastSequence := by
  obtain ⟨c, hc, hrec⟩ := exists_cell_of_mem_records hr
  rw [← hrec]
  exact sequence_le_lastSequenceOf h.ordered hc

lemma WF.sequence_pos (h : l.WF codec) (hr : r ∈ l.records codec) : 0 < r.2.sequence := by
  obtain ⟨c, hc, hrec⟩ := exists_cell_of_mem_records hr
  rw [← hrec]
  exact h.positive c hc

lemma lastSequence_eq_zero_or_mem (codec : WalCodec β ρ) (l : Log β) :
    l.lastSequence = 0 ∨ ∃ r ∈ l.records codec, r.2.sequence = l.lastSequence := by
  by_cases hnil : l.cells = []
  · left
    rw [lastSequence, hnil]
    rfl
  · right
    obtain ⟨c, hc, hlast⟩ := lastSequenceOf_mem hnil
    have hmem : c.record ∈ (l.records codec).map Prod.snd := by
      rw [records_map_record]
      exact mem_map_of_mem hc
    obtain ⟨r, hr, hrec⟩ := mem_map.mp hmem
    exact ⟨r, hr, by rw [hrec]; exact hlast⟩

lemma records_ensured (l : Log β) : (l.ensured codec).records codec = l.records codec := by
  unfold ensured
  split
  · next hblank =>
    rw [records_eq, records_eq l, Piece.records, Piece.records, hblank.1.2]
    rfl
  · rfl

lemma records_rolled (cfg : WalConfig) (l : Log β) (stop : RollEnd) :
    (l.rolled codec cfg stop).records codec = l.records codec := by
  unfold rolled
  split
  · rfl
  · rw [records_eq, records_eq]
    cases stop <;> simp [current, Piece.successor, Piece.blank, Piece.records, recordsFrom]

/-- The log id the next record gets. -/
def nextLogId (codec : WalCodec β ρ) (l : Log β) (record : WalRecord β) (now : ℕ) : ℕ :=
  l.current.base + cellsLen codec l.current.cells + (l.cellFor codec record now).gapBytes.length

lemma records_place (l : Log β) (record : WalRecord β) (now : ℕ) :
    (l.place codec record now).records codec =
      l.records codec ++ [(l.nextLogId codec record now, record)] := by
  rw [records_eq, records_eq, place_current, append_assoc, Piece.records, recordsFrom_append]
  rfl

def batchRecords (codec : WalCodec β ρ) (now : ℕ) : Log β → List β → List (ℕ × WalRecord β)
  | _, [] => []
  | l, body :: bodies => (l.nextLogId codec (l.next body) now, l.next body) ::
      batchRecords codec now (l.place codec (l.next body) now) bodies

lemma records_placeAll (l : Log β) (now : ℕ) (bodies : List β) :
    (l.placeAll codec now bodies).records codec =
      l.records codec ++ l.batchRecords codec now bodies := by
  induction bodies generalizing l with
  | nil => exact (append_nil _).symm
  | cons body bodies ih =>
    rw [placeAll, ih, records_place, append_assoc]
    rfl

end Log

end TemporalStore.Wal
